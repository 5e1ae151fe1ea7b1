import Versioning.Release

/-!
# Releases are totally ordered

Releases go by their numbers in turn, and a missing number is below every number.
-/

namespace Versioning

/-! ## Numbers -/

theorem Number.compare_eq_lt {a b : Number} : compare a b = .lt ↔ a.toNat < b.toNat := by
  rw [compare_eq, Nat.compare_eq_lt]

theorem Number.eq_zero_of_not_pos {n : Number} (h : ¬ 0 < n.toNat) : n = 0 :=
  ext (Nat.eq_zero_of_not_pos h)

theorem Number.toNat_succ_of_lt {n : Number} (h : n.toNat < maxValue) :
    n.succ.toNat = n.toNat + 1 := by
  rw [toNat_succ]
  omega

theorem Number.lt_succ {n : Number} (h : n.toNat < maxValue) : compare n n.succ = .lt := by
  rw [compare_eq_lt, toNat_succ_of_lt h]
  exact Nat.lt_succ_self _

theorem Number.toNat_le_succ (n : Number) : n.toNat ≤ n.succ.toNat := by
  have := n.le_max
  simp only [toNat_succ, maxValue]
  omega

/-! ## Releases -/

namespace Release

/-- By the numbers in turn; a missing number is below every number. -/
instance : Ord Release :=
  ⟨compareLex (compareLex (compareOn major) (compareOn minor?)) (compareOn patch?)⟩

instance : Std.TransOrd Release :=
  inferInstanceAs (Std.TransCmp
    (compareLex (compareLex (compareOn major) (compareOn minor?)) (compareOn patch?)))

theorem compare_eq_then (r s : Release) : compare r s =
    ((compare r.major s.major).then (compare r.minor? s.minor?)).then
      (compare r.patch? s.patch?) := rfl

instance : Std.LawfulEqOrd Release where
  eq_of_compare {r s} h := by
    rw [compare_eq_then, Ordering.then_eq_eq, Ordering.then_eq_eq] at h
    obtain ⟨⟨hm, hn⟩, hp⟩ := h
    exact ext_parts (Std.LawfulEqOrd.eq_of_compare hm) (Std.LawfulEqOrd.eq_of_compare hn)
      (Std.LawfulEqOrd.eq_of_compare hp)

/-- The first number that differs decides, and a missing one is below all others. -/
theorem compare_eq_lt {r s : Release} : compare r s = .lt ↔
    r.major.toNat < s.major.toNat ∨ r.major = s.major ∧
      (compare r.minor? s.minor? = .lt ∨
        r.minor? = s.minor? ∧ compare r.patch? s.patch? = .lt) := by
  simp only [compare_eq_then, Ordering.then_eq_lt, Ordering.then_eq_eq, Number.compare_eq_lt,
    Std.LawfulEqOrd.compare_eq_iff_eq]
  rw [or_assoc, and_assoc, ← and_or_left]

theorem triple_lt_triple {m n p m' n' p' : Number} :
    compare (triple m n p) (triple m' n' p') = .lt ↔
      m.toNat < m'.toNat ∨ m.toNat = m'.toNat ∧
        (n.toNat < n'.toNat ∨ n.toNat = n'.toNat ∧ p.toNat < p'.toNat) := by
  have number_lt {a b : Number} : compare (some a) (some b) = .lt ↔ a.toNat < b.toNat :=
    Number.compare_eq_lt
  simp only [compare_eq_lt, major, minor?, patch?, number_lt, Option.some.injEq, Number.ext_iff]

theorem major_le_of_lt {r s : Release} (h : compare r s = .lt) :
    r.major.toNat ≤ s.major.toNat := by
  rcases compare_eq_lt.1 h with h | ⟨h, _⟩
  · exact Nat.le_of_lt h
  · exact Nat.le_of_eq (congrArg Number.toNat h)

/-- Below a number is a missing one, or a smaller one. -/
theorem compare_minor_lt {o : Option Number} {n : Number} :
    compare o (some n) = .lt ↔ o = none ∨ ∃ k, o = some k ∧ k.toNat < n.toNat := by
  cases o with
  | none => simp [compare]
  | some k =>
      have h : compare (some k) (some n) = .lt ↔ k.toNat < n.toNat := Number.compare_eq_lt
      simpa using h

theorem lt_compare_minor {o : Option Number} {n : Number} :
    compare (some n) o = .lt ↔ ∃ k, o = some k ∧ n.toNat < k.toNat := by
  cases o with
  | none => simp [compare]
  | some k =>
      have h : compare (some n) (some k) = .lt ↔ n.toNat < k.toNat := Number.compare_eq_lt
      simpa using h

/-- Below a release that ends in a zero are the releases below its line, and of the line itself what
leaves out that zero. -/
theorem lt_triple_zero {r : Release} {m n : Number} : compare r (triple m n 0) = .lt ↔
    r.major.toNat < m.toNat ∨ r = single m ∨
      (∃ k, r.minor? = some k ∧ r.major = m ∧ k.toNat < n.toNat) ∨ r = pair m n := by
  rw [compare_eq_lt]
  cases r with
  | single k => simp [major, minor?, patch?, compare_minor_lt]
  | pair k l => simp [major, minor?, patch?, compare_minor_lt, and_or_left]
  | triple k l q => simp [major, minor?, patch?, compare_minor_lt]

/-- All three numbers are there. -/
def IsFull (r : Release) : Prop :=
  r.patch?.isSome = true

instance (r : Release) : Decidable r.IsFull :=
  inferInstanceAs (Decidable (_ = true))

theorem IsFull.exists_triple {r : Release} (h : r.IsFull) : ∃ m n p, r = triple m n p := by
  cases r with
  | triple m n p => exact ⟨m, n, p, rfl⟩
  | single m | pair m n => contradiction

end Release

end Versioning
