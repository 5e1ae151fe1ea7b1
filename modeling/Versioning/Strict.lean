import Versioning.Parse

/-!
# Strict versions

A strict version has all three numbers, and identifiers that are checked: no segment of a tag or a
build is empty, and a segment of a tag that is a number has no leading zeros.
-/

namespace Versioning

namespace IdentifierPart

/-- The first fault of the segments that a text starts with. -/
def segmentFault? (part : IdentifierPart) : List (List Char) → Option IdentifierFault
  | [] => none
  | seg :: segs =>
    if seg = [] then some .emptySegment
    else if part = prerelease ∧ seg.all Char.isDigit ∧ 1 < seg.length ∧ seg.head? = some '0' then
      some .leadingZero
    else part.segmentFault? segs

/-- What is wrong with the text of identifiers. The segments at its head are checked before a
character that belongs to none, and an empty text has no segments. -/
def fault? (part : IdentifierPart) (s : List Char) : Option IdentifierFault :=
  let isBody := fun c => Text.isSegmentChar c || c == '.'
  let body := s.takeWhile isBody
  let fault := if body = [] then none else part.segmentFault? (Text.segments body)
  fault.or (if s.all isBody then none else some .unexpectedCharacter)

end IdentifierPart

structure Strict where
  major : Number
  minor : Number
  patch : Number
  prerelease : String
  build : String
  prerelease_ok : IdentifierPart.prerelease.fault? prerelease.toList = none
  build_ok : IdentifierPart.build.fault? build.toList = none

namespace Strict

/-- The tag is checked before the build. -/
def ofParts? (major minor patch : Number) (prerelease build : String) : Except Error Strict :=
  match hp : IdentifierPart.prerelease.fault? prerelease.toList with
  | some fault => .error (.notStrict .prerelease fault)
  | none =>
    match hb : IdentifierPart.build.fault? build.toList with
    | some fault => .error (.notStrict .build fault)
    | none => .ok ⟨major, minor, patch, prerelease, build, hp, hb⟩

def toVersion (s : Strict) : Except Error Version := do
  let prerelease ← Prerelease.parse s.prerelease
  let build ← Build.parse s.build
  return .exact (← Exact.ofParts? s.major (some s.minor) (some s.patch) prerelease build)

end Strict

/-- Missing numbers become zero. A pattern has no strict form. -/
def Version.toStrict : Version → Except Error Strict
  | .pattern w => .error (.wildcards w)
  | .exact v =>
    Strict.ofParts? v.release.major (v.release.minor?.getD 0) (v.release.patch?.getD 0)
      v.prerelease.text v.build.text

end Versioning
