import Versioning.Prerelease.Order
import Versioning.Version

/-!
# The order of versions

Versions go by major, minor and patch, then by prerelease and last by build. The relation of two
versions tells which of the three decided. Since a wildcard agrees with every slot, this orders
exact versions only.
-/

namespace Versioning

inductive Version.Relation
  | lower
  | lowerPrerelease
  | lowerBuild
  | equal
  | greaterBuild
  | greaterPrerelease
  | greater
deriving DecidableEq

namespace Version.Relation

def sign : Relation → Ordering
  | lower | lowerPrerelease | lowerBuild => .lt
  | equal => .eq
  | greaterBuild | greaterPrerelease | greater => .gt

/-- The sign when build metadata is ignored. -/
def precedence : Relation → Ordering
  | lower | lowerPrerelease => .lt
  | lowerBuild | equal | greaterBuild => .eq
  | greaterPrerelease | greater => .gt

def swap : Relation → Relation
  | lower => greater
  | lowerPrerelease => greaterPrerelease
  | lowerBuild => greaterBuild
  | equal => equal
  | greaterBuild => lowerBuild
  | greaterPrerelease => lowerPrerelease
  | greater => lower

def name : Relation → String
  | lower => "Lower"
  | lowerPrerelease => "LowerPrerelease"
  | lowerBuild => "LowerBuild"
  | equal => "Equal"
  | greaterBuild => "GreaterBuild"
  | greaterPrerelease => "GreaterPrerelease"
  | greater => "Greater"

@[simp] theorem swap_swap (r : Relation) : r.swap.swap = r := by
  cases r <;> rfl

@[simp] theorem sign_swap (r : Relation) : r.swap.sign = r.sign.swap := by
  cases r <;> rfl

@[simp] theorem precedence_swap (r : Relation) : r.swap.precedence = r.precedence.swap := by
  cases r <;> rfl

/-- What decided, from the outcomes for releases, prereleases and builds. -/
def ofParts (release prerelease build : Ordering) : Relation :=
  match release with
  | .lt => lower
  | .gt => greater
  | .eq =>
    match prerelease with
    | .lt => lowerPrerelease
    | .gt => greaterPrerelease
    | .eq =>
      match build with
      | .lt => lowerBuild
      | .gt => greaterBuild
      | .eq => equal

theorem ofParts_swap (r p b : Ordering) : ofParts r.swap p.swap b.swap = (ofParts r p b).swap := by
  cases r <;> try rfl
  cases p <;> try rfl
  cases b <;> rfl

@[simp] theorem precedence_ofParts (r p b : Ordering) : (ofParts r p b).precedence = r.then p := by
  cases r <;> try rfl
  cases p <;> try rfl
  cases b <;> rfl

@[simp] theorem sign_ofParts (r p b : Ordering) : (ofParts r p b).sign = (r.then p).then b := by
  cases r <;> try rfl
  cases p <;> try rfl
  cases b <;> rfl

end Version.Relation

namespace Version

/-- By the first slot that does not agree. -/
def relateRelease (v w : Version) : Ordering :=
  ((compare v.major w.major).then (v.minor.relate w.minor)).then (v.patch.relate w.patch)

def relate (v w : Version) : Relation :=
  .ofParts (relateRelease v w) (compare v.prerelease w.prerelease) (compare v.build w.build)

instance : Ord Version := ⟨fun v w => (v.relate w).sign⟩

/-- Two versions are equal if nothing tells them apart; a pattern equals all that its slots agree
with. -/
instance : BEq Version := ⟨fun v w => v.relate w == .equal⟩

/-- Whether the version comes before the other, the builds ignored. -/
def below (v w : Version) : Bool :=
  (v.relate w).precedence == .lt

theorem relateRelease_swap (v w : Version) : (relateRelease v w).swap = relateRelease w v := by
  simp [relateRelease, Ordering.swap_then, Component.relate_swap,
    ← Std.OrientedOrd.eq_swap (a := w.major) (b := v.major)]

theorem relate_swap (v w : Version) : (v.relate w).swap = w.relate v := by
  have hp : compare w.prerelease v.prerelease = (compare v.prerelease w.prerelease).swap := by
    change (w.prerelease.relate v.prerelease).sign = (v.prerelease.relate w.prerelease).sign.swap
    rw [← Prerelease.relate_swap, Prerelease.Relation.sign_swap]
  rw [relate, relate, ← relateRelease_swap v w, hp, Std.OrientedOrd.eq_swap (a := w.build),
    Relation.ofParts_swap]

theorem below_iff {v w : Version} :
    v.below w = true ↔ v.relate w = .lower ∨ v.relate w = .lowerPrerelease := by
  cases h : v.relate w <;> simp [below, h, Relation.precedence]

end Version

end Versioning
