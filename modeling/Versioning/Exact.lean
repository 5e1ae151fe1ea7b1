import Versioning.Build
import Versioning.Prerelease
import Versioning.Release

/-!
# Exact versions

A concrete version: a release, perhaps with a prerelease tag and build metadata.
-/

namespace Versioning

structure Exact where
  release : Release
  prerelease : Prerelease
  build : Build

namespace Exact

def ofRelease (r : Release) : Exact :=
  ⟨r, .none, .none⟩

instance : Inhabited Exact := ⟨ofRelease (.triple 0 0 0)⟩

/-- The tags count as in `Prerelease`, where an empty tag is none. -/
instance : BEq Exact :=
  ⟨fun a b => a.release == b.release && a.prerelease == b.prerelease && a.build == b.build⟩

def text (v : Exact) : String :=
  v.release.text ++ (if v.prerelease.isNone then "" else "-" ++ v.prerelease.text) ++
    (if v.build.isNone then "" else "+" ++ v.build.text)

/-- A tag announces its own release: `1.2.3-beta` is followed by `1.2.3`. -/
def nextPatch (v : Exact) : Release :=
  if v.prerelease.isNone then v.release.nextPatch else v.release.fill

def floor (v : Exact) : Exact :=
  ⟨v.release.fill, v.prerelease, .none⟩

/-- The smallest version after this one: a release goes to the next patch and a tag to its next
number. -/
def next (v : Exact) : Exact :=
  if v.prerelease.isNone then ofRelease v.nextPatch else ⟨v.release, v.prerelease.next, .none⟩

theorem beq_iff {a b : Exact} : (a == b) = true ↔
    a.release = b.release ∧ a.prerelease.tag? = b.prerelease.tag? ∧ a.build = b.build := by
  simp only [BEq.beq, Bool.and_eq_true, decide_eq_true_eq, and_assoc]
  exact and_congr_right' (and_congr_left' Prerelease.beq_iff)

end Exact

end Versioning
