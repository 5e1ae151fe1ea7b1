import Versioning.Pattern
import Versioning.Text.Excerpt

/-!
# Errors

Why a text is no version, or why parts make no version, and the wording of each.
-/

namespace Versioning

/-- What a text lacked at the place where its reading stopped. -/
inductive Expected
  | digit
  | segment
  | endOfText
deriving DecidableEq

/-- A part of a text that holds a number. -/
inductive Field
  | major
  | minor
  | patch
  | prerelease
  | component
deriving DecidableEq

inductive NumberFault
  | invalidDigit
  | tooLarge
deriving DecidableEq

/-- The parts of a version that hold dotted identifiers. -/
inductive IdentifierPart
  | prerelease
  | build
deriving DecidableEq

/-- Why a text holds no strict identifiers. -/
inductive IdentifierFault
  | emptySegment
  | leadingZero
  | unexpectedCharacter
deriving DecidableEq

inductive Error
  | empty
  /-- The text has the wrong form; the place runs from where the reading stopped to the end. -/
  | malformed (expected : Expected) (place : Text.Excerpt)
  | field (field : Field) (fault : NumberFault) (place : Text.Excerpt)
  | negative (value : Int)
  | concretePatch (major : Number) (minor : Component) (patch : Number)
  | patchWithoutMinor
  | wildcards (pattern : Pattern)
  | notStrict (part : IdentifierPart) (fault : IdentifierFault)
deriving DecidableEq

def Expected.name : Expected → String
  | digit => "Digit"
  | segment => "TakeWhile1"
  | endOfText => "Eof"

def Field.name : Field → String
  | major => "major"
  | minor => "minor"
  | patch => "patch"
  | prerelease => "prerelease"
  | component => "component"

def NumberFault.message : NumberFault → String
  | invalidDigit => "invalid digit found in string"
  | tooLarge => "number too large to fit in target type"

def IdentifierPart.name : IdentifierPart → String
  | prerelease => "pre-release identifier"
  | build => "build metadata"

def IdentifierFault.message : IdentifierFault → String
  | emptySegment => "empty identifier segment"
  | leadingZero => "invalid leading zero"
  | unexpectedCharacter => "unexpected character"

def Error.message : Error → String
  | empty => "input was empty, which is invalid for this type"
  | malformed expected place =>
    "input '" ++ String.ofList place.source ++ "' did not match required syntax: error " ++
      expected.name ++ " at: " ++ String.ofList place.text
  | field f fault place =>
    "field '" ++ f.name ++ "' in input '" ++ String.ofList place.source ++ "' is invalid: " ++
      fault.message
  | negative value => "version component must not be negative, got " ++ value.repr
  | concretePatch major minor patch =>
    "wildcard version '" ++ major.text ++ "." ++ minor.text ++ "." ++ patch.text ++
      "' must not have a concrete patch"
  | patchWithoutMinor =>
    "component 'patch' cannot be specified when the preceding component is absent"
  | wildcards pattern => "version '" ++ pattern.text ++ "' contains wildcards"
  | notStrict part fault => "convert to semver: " ++ fault.message ++ " in " ++ part.name

end Versioning
