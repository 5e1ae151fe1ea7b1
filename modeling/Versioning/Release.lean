import Versioning.Component

/-!
# Releases

The numbers of a concrete version: a major, which may be followed by a minor, which may be followed
by a patch. The steps to later releases saturate like the numbers they are made of.
-/

namespace Versioning

inductive Release
  | single (major : Number)
  | pair (major minor : Number)
  | triple (major minor patch : Number)
deriving DecidableEq, Hashable

namespace Release

def major : Release → Number
  | single m | pair m _ | triple m _ _ => m

def minor? : Release → Option Number
  | single _ => none
  | pair _ n | triple _ n _ => some n

def patch? : Release → Option Number
  | single _ | pair _ _ => none
  | triple _ _ p => some p

def numbers : Release → List Number
  | single m => [m]
  | pair m n => [m, n]
  | triple m n p => [m, n, p]

/-- There is no patch without a minor. -/
def ofParts? (major : Number) : Option Number → Option Number → Option Release
  | none, none => some (single major)
  | some n, none => some (pair major n)
  | some n, some p => some (triple major n p)
  | none, some _ => none

def text : Release → String
  | single m => m.text
  | pair m n => m.text ++ "." ++ n.text
  | triple m n p => m.text ++ "." ++ n.text ++ "." ++ p.text

/-- The release with zeros for the missing numbers. -/
def fill : Release → Release
  | single m => triple m 0 0
  | pair m n => triple m n 0
  | triple m n p => triple m n p

/-- The numbers that are there and not counted up become zero. -/
def nextMajor : Release → Release
  | single m => single m.succ
  | pair m _ => pair m.succ 0
  | triple m _ _ => triple m.succ 0 0

/-- A missing minor counts as zero. -/
def nextMinor : Release → Release
  | single m => pair m 1
  | pair m n => pair m n.succ
  | triple m n _ => triple m n.succ 0

/-- Missing numbers count as zero. -/
def nextPatch : Release → Release
  | single m => triple m 0 1
  | pair m n => triple m n 1
  | triple m n p => triple m n p.succ

/-- The first release that is not compatible: the leftmost number that is not zero counts up, or
else the patch. -/
def nextBreaking (r : Release) : Release :=
  let n := r.minor?.getD 0
  if 0 < r.major.toNat then triple r.major.succ 0 0
  else if 0 < n.toNat then triple 0 n.succ 0
  else triple 0 0 (r.patch?.getD 0).succ

/-- The first release of the next minor line, or of the next major line if there is no minor. -/
def ceil : Release → Release
  | single m => triple m.succ 0 0
  | pair m n | triple m n _ => triple m n.succ 0

@[simp] theorem ofParts?_parts (r : Release) : ofParts? r.major r.minor? r.patch? = some r := by
  cases r <;> rfl

theorem ofParts?_eq_none {m : Number} {n p : Option Number} :
    ofParts? m n p = none ↔ n = none ∧ p ≠ none := by
  cases n <;> cases p <;> simp [ofParts?]

theorem ofParts?_eq_some {m : Number} {n p : Option Number} {r : Release} :
    ofParts? m n p = some r ↔ r.major = m ∧ r.minor? = n ∧ r.patch? = p := by
  constructor
  · intro h
    cases n <;> cases p <;> cases h <;> exact ⟨rfl, rfl, rfl⟩
  · rintro ⟨rfl, rfl, rfl⟩
    exact ofParts?_parts r

theorem ext_parts {r s : Release} (hm : r.major = s.major) (hn : r.minor? = s.minor?)
    (hp : r.patch? = s.patch?) : r = s :=
  Option.some.inj ((ofParts?_eq_some.2 ⟨hm, hn, hp⟩).symm.trans (ofParts?_parts s))

end Release

end Versioning
