import Versioning.Error
import Versioning.Exact
import Versioning.Grammar.Version
import Versioning.Version

/-!
# Reading versions

A text is trimmed, read by the grammar to its end, and then its numbers are converted. Errors name
the trimmed text and the place in it: where the reading stopped, or the number that is too large.
-/

namespace Versioning

open Grammar

/-- Reads the whole text. `expected` is what the reader needs at the head of a text. -/
def complete {α : Type} (expected : Expected) (read : List Char → Option (α × List Char))
    (input : List Char) : Except Error α :=
  match read input with
  | some (a, []) => .ok a
  | some (_, rest) => .error (.malformed .endOfText (Piece.placeIn ⟨rest, []⟩ input))
  | none => .error (.malformed expected (.whole input))

def numberAt (input : List Char) (field : Field) (digits : Piece) : Except Error Number :=
  match Number.ofDigits? digits.text with
  | some n => .ok n
  | none => .error (.field field .tooLarge (digits.placeIn input))

/-! ## Components -/

/-- Digits after an optional plus sign. Reading stops at the first character that is no digit or
makes the number too large. -/
def readUnsigned (s : List Char) : Except NumberFault Number :=
  let body := match s with
    | '+' :: s => s
    | s => s
  match Number.ofDigits? (body.takeWhile Char.isDigit) with
  | none => .error .tooLarge
  | some n => if body ≠ [] ∧ body.all Char.isDigit then .ok n else .error .invalidDigit

def Component.parse (s : String) : Except Error Component :=
  match Text.trim s.toList with
  | [] => .ok .absent
  | [c] => if isWildcardChar c then .ok .wildcard else number [c]
  | input => number input
where
  number (input : List Char) : Except Error Component :=
    match readUnsigned input with
    | .ok n => .ok (.number n)
    | .error fault => .error (.field .component fault (.whole input))

def Component.ofInt64? (n : Int64) : Except Error Component :=
  if n < 0 then .error (.negative n.toInt) else .ok (.number (.saturate n.toInt.toNat))

/-! ## Tags -/

/-- The tag of a dotted text. Its number is the last segment that is a numeral, and without one the
whole text stands before the missing number. -/
def Prerelease.ofDotted (input : List Char) (dotted : Piece) : Except Error Prerelease :=
  match Text.splitLast Text.isNumeral (Text.segments dotted.text) with
  | .none => .ok (.ofParts (Label.ofText? (String.ofList dotted.text)) .none .none)
  | some (before, numeral, after) => do
    let rest := after.flatMap ('.' :: ·) ++ dotted.after
    let number ← numberAt input .prerelease ⟨numeral, rest⟩
    return .ofParts (word before) (some number) (word after)
where
  word (segs : List (List Char)) : Option Label :=
    Label.ofText? (String.ofList (Text.joinSegments segs))

/-- The text without the leading hyphen. A blank text is no prerelease. -/
def Prerelease.parse (s : String) : Except Error Prerelease := do
  let input := Text.trim s.toList
  if input = [] then return .none
  let dotted ← complete .segment (fun s => (dotted? s).map fun p => (p, p.after)) input
  ofDotted input dotted

/-- The text without the leading plus sign. A blank text is no metadata. -/
def Build.parse (s : String) : Except Error Build := do
  let input := Text.trim s.toList
  if input = [] then return .none
  let dotted ← complete .segment (fun s => (dotted? s).map fun p => (p, p.after)) input
  return .ofText (String.ofList dotted.text)

/-! ## Versions -/

def Exact.ofParts? (major : Number) (minor patch : Option Number) (prerelease : Prerelease)
    (build : Build) : Except Error Exact :=
  match Release.ofParts? major minor patch with
  | some r => .ok ⟨r, prerelease, build⟩
  | none => .error .patchWithoutMinor

/-- The pattern with the given slots. A patch that is a number is the first thing refused. -/
def Pattern.ofComponents? (major : Number) : Component → Component → Except Error Pattern
  | minor, .number p => .error (.concretePatch major minor p)
  | .absent, .wildcard => .error .patchWithoutMinor
  | .absent, .absent => .ok (.single major)
  | .number n, .absent => .ok (.pair major n)
  | .wildcard, .absent => .ok (.anyMinor major)
  | .number n, .wildcard => .ok (.anyPatch major n)
  | .wildcard, .wildcard => .ok (.anyBoth major)

namespace Grammar

def ReleaseText.value (input : List Char) : ReleaseText Piece → Except Error Release
  | .single m => return .single (← numberAt input .major m)
  | .pair m n => return .pair (← numberAt input .major m) (← numberAt input .minor n)
  | .triple m n p =>
    return .triple (← numberAt input .major m) (← numberAt input .minor n)
      (← numberAt input .patch p)

/-- The tag is converted before the numbers. -/
def ExactText.value (input : List Char) (v : ExactText) : Except Error Exact := do
  let prerelease ← match v.prerelease with
    | some dotted => Prerelease.ofDotted input dotted
    | none => .ok .none
  let release ← v.release.value input
  return ⟨release, prerelease, match v.build with
    | some dotted => .ofText (String.ofList dotted.text)
    | none => .none⟩

def Slot.value (input : List Char) (field : Field) : Option Slot → Except Error Component
  | some (.number digits) => return .number (← numberAt input field digits)
  | some .wildcard => .ok .wildcard
  | none => .ok .absent

def patternValue (input : List Char) (w : PatternText) : Except Error Pattern := do
  let major ← numberAt input .major w.major
  let minor ← Slot.value input .minor w.minor?
  let patch ← Slot.value input .patch w.patch?
  Pattern.ofComponents? major minor patch

def VersionText.value (input : List Char) : VersionText → Except Error Version
  | .exact v => return .exact (← v.value input)
  | .pattern w => return .pattern (← patternValue input w)

end Grammar

/-- The trimmed text, which must not be empty. -/
def nonempty (s : String) : Except Error (List Char) :=
  match Text.trim s.toList with
  | [] => .error .empty
  | input => .ok input

def Exact.parse (s : String) : Except Error Exact := do
  let input ← nonempty s
  (← complete .digit exactText? input).value input

def Pattern.parse (s : String) : Except Error Pattern := do
  let input ← nonempty s
  patternValue input (← complete .digit patternText? input)

/-- Three numbers, or a tag, make an exact version, and anything shorter is a pattern. -/
def Version.parse (s : String) : Except Error Version := do
  let input ← nonempty s
  (← complete .digit versionText? input).value input

end Versioning
