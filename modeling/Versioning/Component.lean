import Versioning.Number

/-!
# Components

A slot of a version (major, minor or patch) holds a number, nothing, or a wildcard.
-/

namespace Versioning

inductive Component
  | number (n : Number)
  /-- The slot was left out, as the patch of `1.2`. -/
  | absent
  /-- The slot stands for any value, as the minor of `1.*`. -/
  | wildcard
deriving DecidableEq, Hashable

namespace Component

instance : Inhabited Component := ⟨absent⟩

def ofNumber? : Option Number → Component
  | some n => number n
  | none => absent

/-- An absent slot comes before every number, and a wildcard agrees with everything. This is no
total order: a wildcard agrees with slots that differ from each other. -/
def relate : Component → Component → Ordering
  | wildcard, _ | _, wildcard => .eq
  | absent, absent => .eq
  | absent, number _ => .lt
  | number _, absent => .gt
  | number a, number b => compare a b

def number? : Component → Option Number
  | number n => some n
  | absent | wildcard => none

def isNumber (c : Component) : Bool :=
  c.number?.isSome

def isAbsent : Component → Bool
  | absent => true
  | _ => false

def isWildcard : Component → Bool
  | wildcard => true
  | _ => false

def isPositive (c : Component) : Bool :=
  c.number?.any fun n => 0 < n.toNat

/-- An absent slot counts as zero, and a wildcard stays one. -/
def increment (c : Component) (n : Number) : Component :=
  match c with
  | number m => number (m + n)
  | absent => number n
  | wildcard => wildcard

def orZero (c : Component) : Component :=
  number (c.number?.getD 0)

def text : Component → String
  | number n => n.text
  | absent => ""
  | wildcard => "*"

@[simp] theorem number?_number (n : Number) : (number n).number? = some n := rfl

@[simp] theorem number?_ofNumber? (o : Option Number) : (ofNumber? o).number? = o := by
  cases o <;> rfl

@[simp] theorem relate_wildcard_left (c : Component) : wildcard.relate c = .eq := by
  cases c <;> rfl

@[simp] theorem relate_wildcard_right (c : Component) : c.relate wildcard = .eq := by
  cases c <;> rfl

@[simp] theorem relate_ofNumber? (a b : Option Number) :
    (ofNumber? a).relate (ofNumber? b) = compare a b := by
  cases a <;> cases b <;> rfl

theorem relate_swap (a b : Component) : (a.relate b).swap = b.relate a := by
  cases a <;> cases b <;> first | rfl | exact (Std.OrientedOrd.eq_swap ..).symm

end Component

end Versioning
