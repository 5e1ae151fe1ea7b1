import Versioning.Prerelease

/-!
# The order of prereleases

A version without a tag is the release itself, which is above all its tags. Two tags go by the
words before the number, then by the number, then by the words after it; a missing part comes
before any other. The relation of two prereleases tells which part decided.
-/

namespace Versioning

inductive Prerelease.Relation
  /-- The left side has a tag and the right side has none. -/
  | lower
  | lowerBefore
  | lowerNumber
  | lowerAfter
  | equal
  | greaterAfter
  | greaterNumber
  | greaterBefore
  /-- The right side has a tag and the left side has none. -/
  | greater
deriving DecidableEq

namespace Prerelease.Relation

def sign : Relation → Ordering
  | lower | lowerBefore | lowerNumber | lowerAfter => .lt
  | equal => .eq
  | greaterAfter | greaterNumber | greaterBefore | greater => .gt

def swap : Relation → Relation
  | lower => greater
  | lowerBefore => greaterBefore
  | lowerNumber => greaterNumber
  | lowerAfter => greaterAfter
  | equal => equal
  | greaterAfter => lowerAfter
  | greaterNumber => lowerNumber
  | greaterBefore => lowerBefore
  | greater => lower

def name : Relation → String
  | lower => "Lower"
  | lowerBefore => "LowerPrefix"
  | lowerNumber => "LowerVersion"
  | lowerAfter => "LowerSuffix"
  | equal => "Equal"
  | greaterAfter => "GreaterSuffix"
  | greaterNumber => "GreaterVersion"
  | greaterBefore => "GreaterPrefix"
  | greater => "Greater"

@[simp] theorem swap_swap (r : Relation) : r.swap.swap = r := by
  cases r <;> rfl

@[simp] theorem sign_swap (r : Relation) : r.swap.sign = r.sign.swap := by
  cases r <;> rfl

theorem sign_eq_eq {r : Relation} : r.sign = .eq ↔ r = equal := by
  cases r <;> decide

end Prerelease.Relation

/-- The first part in which the tags differ decides. -/
def Tag.relate (a b : Tag) : Prerelease.Relation :=
  match compare a.before b.before with
  | .lt => .lowerBefore
  | .gt => .greaterBefore
  | .eq =>
    match compare a.number b.number with
    | .lt => .lowerNumber
    | .gt => .greaterNumber
    | .eq =>
      match compare a.after b.after with
      | .lt => .lowerAfter
      | .gt => .greaterAfter
      | .eq => .equal

namespace Prerelease

def relate (p q : Prerelease) : Relation :=
  match p.tag?, q.tag? with
  | .none, .none => .equal
  | .none, some _ => .greater
  | some _, .none => .lower
  | some a, some b => a.relate b

instance : Ord Prerelease := ⟨fun p q => (p.relate q).sign⟩

end Prerelease

theorem Tag.relate_swap (a b : Tag) : (a.relate b).swap = b.relate a := by
  simp only [Tag.relate, Std.OrientedOrd.eq_swap (a := b.before) (b := a.before),
    Std.OrientedOrd.eq_swap (a := b.number) (b := a.number),
    Std.OrientedOrd.eq_swap (a := b.after) (b := a.after)]
  cases compare a.before b.before <;> try rfl
  cases compare a.number b.number <;> try rfl
  cases compare a.after b.after <;> rfl

theorem Tag.relate_eq_equal {a b : Tag} : a.relate b = .equal ↔ a = b := by
  constructor
  · intro h
    unfold Tag.relate at h
    repeat' split at h
    all_goals try contradiction
    rcases a with ⟨_, _, _⟩
    rcases b with ⟨_, _, _⟩
    simp_all
  · rintro rfl
    simp [Tag.relate]

namespace Prerelease

theorem relate_swap (p q : Prerelease) : (p.relate q).swap = q.relate p := by
  unfold relate
  cases p.tag? <;> cases q.tag? <;> first | rfl | exact Tag.relate_swap _ _

theorem relate_eq_equal {p q : Prerelease} : p.relate q = .equal ↔ p.tag? = q.tag? := by
  unfold relate
  cases p.tag? <;> cases q.tag? <;> simp [Tag.relate_eq_equal]

end Prerelease

end Versioning
