import Versioning.Range.Json
import Versioning.Strict

/-!
# Steps

The ways to get from a version to another one, and walks along them.
-/

namespace Versioning

inductive Step
  | nextMajor
  | nextMinor
  | nextPatch
  | nextBreaking
  | floor
  | ceil
  | release
  | next
  /-- Writes the version and reads it again. -/
  | reread
  /-- Writes the version and reads it as an exact one. -/
  | rereadExact
  /-- To JSON and back. -/
  | json
  /-- To a strict version and back. -/
  | strict
  /-- Keeps the numbers and replaces the tags. -/
  | retag (prerelease : Prerelease) (build : Build)

namespace Step

inductive Refusal
  | invalid (cause : Error)
  | undecodable (cause : Json.Fault)

def apply (v : Version) : Step → Except Refusal Version
  | nextMajor => .ok v.nextMajor
  | nextMinor => .ok v.nextMinor
  | nextPatch => .ok v.nextPatch
  | nextBreaking => .ok v.nextBreaking
  | floor => .ok v.floor
  | ceil => .ok v.ceil
  | release => .ok v.release
  | next => .ok v.next
  | reread => (Version.parse v.text).mapError .invalid
  | rereadExact => ((Exact.parse v.text).map .exact).mapError .invalid
  | json => (Version.ofJson? v.toJson).mapError .undecodable
  | strict => (v.toStrict >>= Strict.toVersion).mapError .invalid
  | retag prerelease build =>
    ((Exact.ofParts? v.major v.minor.number? v.patch.number? prerelease build).map .exact).mapError
      .invalid

/-- The versions that the steps lead to one after the other, each with its relation to the one
before. A step that is refused, or that could not be read, leaves the version as it was. -/
def walk (v : Version) :
    List (Except Refusal Step) → List (Except Refusal (Version × Version.Relation))
  | [] => []
  | step :: steps =>
    match step >>= apply v with
    | .ok w => .ok (w, w.relate v) :: walk w steps
    | .error refusal => .error refusal :: walk v steps

end Step

end Versioning
