import Versioning.Proofs.Order.Precedence

/-!
# What comes next

The next version counts up one number, the patch of a release or the number of a tag. Among the
releases of three numbers nothing is passed over. But a release comes after its own tags, and a tag
goes by the words after its number last, so that tags are passed over: those of the next patch, and
those that have the same words before the number and lie behind the words that the next tag keeps.
Counting up keeps the order of tags, as it takes a missing number to zero and zero to one.
-/

namespace Versioning

/-! ## Numbers and releases -/

namespace Number

variable {o k : Option Number}

/-- No number lies between a missing number and zero, nor between a number and its successor. -/
theorem lt_next_iff (h : ∀ n ∈ o, n.toNat < maxValue) :
    compare k (some (o.elim 0 succ)) = .lt ↔ (compare k o).isLE = true := by
  have some_lt {m n : Number} : compare (some m) (some n) = .lt ↔ m.toNat < n.toNat := compare_eq_lt
  have some_le {m n : Number} : (compare (some m) (some n)).isLE = true ↔ m.toNat ≤ n.toNat :=
    Nat.isLE_compare
  cases o with
  | none =>
      cases k with
      | none => decide
      | some m => rw [Option.elim_none, some_lt]; simp [compare]
  | some n =>
      cases k with
      | none => simp [compare]
      | some m =>
          rw [Option.elim_some, some_lt, some_le, toNat_succ_of_lt (h n rfl), Nat.lt_succ_iff]

theorem compare_next (ho : ∀ n ∈ o, n.toNat < maxValue) (hk : ∀ n ∈ k, n.toNat < maxValue) :
    compare (some (o.elim 0 succ)) (some (k.elim 0 succ)) = compare o k := by
  have positive {n : Number} (h : n.toNat < maxValue) : compare 0 n.succ = .lt :=
    compare_eq_lt.2 (by rw [toNat_zero, toNat_succ_of_lt h]; exact Nat.succ_pos _)
  cases o with
  | none =>
      cases k with
      | none => rfl
      | some n => exact positive (hk n rfl)
  | some m =>
      cases k with
      | none => exact Std.OrientedCmp.gt_of_lt (positive (ho m rfl))
      | some n =>
          change compare m.succ n.succ = compare m n
          rw [compare_eq, compare_eq, toNat_succ_of_lt (ho m rfl), toNat_succ_of_lt (hk n rfl)]
          simp [Nat.compare_eq_ite_lt]

end Number

namespace Release

variable {r s : Release}

theorem lt_nextPatch (h : ∀ p ∈ r.patch?, p.toNat < Number.maxValue) :
    compare r r.nextPatch = .lt := by
  cases r with
  | single m => exact compare_eq_lt.2 (.inr ⟨rfl, .inl rfl⟩)
  | pair m n => exact compare_eq_lt.2 (.inr ⟨rfl, .inr ⟨rfl, rfl⟩⟩)
  | triple m n p => exact compare_eq_lt.2 (.inr ⟨rfl, .inr ⟨rfl, Number.lt_succ (h p rfl)⟩⟩)

/-- Between a full release and its next patch there is no full release. -/
theorem lt_nextPatch_iff (hr : r.IsFull) (hs : s.IsFull)
    (h : ∀ p ∈ r.patch?, p.toNat < Number.maxValue) :
    compare s r.nextPatch = .lt ↔ (compare s r).isLE = true := by
  obtain ⟨m, n, p, rfl⟩ := hr.exists_triple
  obtain ⟨a, b, c, rfl⟩ := hs.exists_triple
  rw [isLE_iff_not_lt, nextPatch, ne_eq, triple_lt_triple, triple_lt_triple,
    Number.toNat_succ_of_lt (h p rfl)]
  omega

/-- The next patch is the only release up to it that is above `r`. -/
theorem eq_nextPatch_iff (hr : r.IsFull) (hs : s.IsFull)
    (h : ∀ p ∈ r.patch?, p.toNat < Number.maxValue) :
    s = r.nextPatch ↔ compare r s = .lt ∧ (compare s r.nextPatch).isLE = true := by
  constructor
  · rintro rfl
    exact ⟨lt_nextPatch h, Std.ReflCmp.isLE_rfl⟩
  · rintro ⟨hlower, hupper⟩
    have hnot : compare s r.nextPatch ≠ .lt := by
      rw [ne_eq, lt_nextPatch_iff hr hs h, isLE_iff_not_lt]
      exact not_not_intro hlower
    have heq : compare s r.nextPatch = .eq := by
      cases hc : compare s r.nextPatch with
      | lt => exact absurd hc hnot
      | eq => rfl
      | gt => rw [hc] at hupper; contradiction
    exact Std.LawfulEqOrd.eq_of_compare heq

end Release

/-! ## Tags -/

namespace Tag

variable {s t : Tag}

theorem sign_relate (s t : Tag) : (s.relate t).sign =
    ((compare s.before t.before).then (compare s.number t.number)).then
      (compare s.after t.after) := by
  rw [relate]
  cases compare s.before t.before <;> try rfl
  cases compare s.number t.number <;> try rfl
  cases compare s.after t.after <;> rfl

/-- The tag lies between `t` and the next one: it has the number of `t` and later words after it, or
the next number and earlier words. -/
def StepsOver (t s : Tag) : Prop :=
  s.before = t.before ∧
    (s.number = t.number ∧ compare t.after s.after = .lt ∨
      s.number = t.next.number ∧ compare s.after t.after = .lt)

instance (t s : Tag) : Decidable (t.StepsOver s) :=
  inferInstanceAs (Decidable (_ ∧ _))

variable (h : ∀ n ∈ t.number, n.toNat < Number.maxValue)
include h

theorem lt_next : (t.relate t.next).sign = .lt := by
  have hnumber : compare t.number t.next.number = .lt :=
    (Number.lt_next_iff h).2 Std.ReflCmp.isLE_rfl
  rw [sign_relate, hnumber, next, Std.ReflOrd.compare_self]
  rfl

theorem between_next_iff :
    (t.relate s).sign = .lt ∧ (s.relate t.next).sign = .lt ↔ t.StepsOver s := by
  have hnext : compare s.number t.next.number = .lt ↔ compare t.number s.number ≠ .lt := by
    rw [← isLE_iff_not_lt]
    exact Number.lt_next_iff h
  rw [sign_relate, sign_relate]
  change _ ∧ ((compare s.before t.before).then _).then (compare s.after t.after) = .lt ↔ _
  simp only [Ordering.then_eq_lt, Ordering.then_eq_eq, Std.LawfulEqOrd.compare_eq_iff_eq, hnext]
  constructor
  · rintro ⟨(hbefore | ⟨hbefore, hnumber⟩) | ⟨⟨hbefore, hnumber⟩, hafter⟩, hupper⟩
    · have hgt : compare s.before t.before = .gt := Std.OrientedCmp.gt_of_lt hbefore
      have hne : s.before ≠ t.before := fun he => by simp [he] at hgt
      simp [hgt, hne] at hupper
    · simp only [hbefore, hnumber, Std.ReflOrd.compare_self, ne_eq, not_true_eq_false, and_false,
        reduceCtorEq, or_self, true_and, false_or] at hupper
      exact ⟨hbefore.symm, .inr hupper⟩
    · exact ⟨hbefore.symm, .inl ⟨hnumber.symm, hafter⟩⟩
  · rintro ⟨hbefore, ⟨hnumber, hafter⟩ | ⟨hnumber, hafter⟩⟩
    · have hself : compare t.number s.number ≠ .lt := by simp [hnumber]
      exact ⟨.inr ⟨⟨hbefore.symm, hnumber.symm⟩, hafter⟩, .inl (.inr ⟨hbefore, hself⟩)⟩
    · have hlt : compare t.number s.number = .lt := by
        rw [hnumber]
        exact (Number.lt_next_iff h).2 Std.ReflCmp.isLE_rfl
      exact ⟨.inl (.inr ⟨hbefore.symm, hlt⟩), .inr ⟨⟨hbefore, hnumber⟩, hafter⟩⟩

/-- The part that tells two tags apart also tells the next ones apart. -/
theorem relate_next (hs : ∀ n ∈ s.number, n.toNat < Number.maxValue) :
    s.next.relate t.next = s.relate t := by
  rw [relate, relate, ← Number.compare_next hs h]
  rfl

end Tag

namespace Prerelease

theorem isNone_next (p : Prerelease) : p.next.isNone = p.isNone := by
  rw [isNone, tag?_next, Option.isNone_map, isNone]

theorem lt_next {p : Prerelease} (hp : p.isNone = false)
    (h : ∀ n ∈ p.number, n.toNat < Number.maxValue) : compare p p.next = .lt := by
  obtain ⟨t, ht⟩ := Option.isSome_iff_exists.1 (Option.isNone_eq_false_iff.1 hp)
  rw [number, ht] at h
  rw [compare_eq_sign, relate, tag?_next, ht]
  exact Tag.lt_next h

theorem next_of_isNone {p : Prerelease} (hp : p.isNone = true) : p.next = none := by
  rw [next, Option.isNone_iff_eq_none.1 hp]
  rfl

section

variable {p q : Prerelease} (hp : ∀ n ∈ p.number, n.toNat < Number.maxValue)
  (hq : ∀ n ∈ q.number, n.toNat < Number.maxValue)
include hp hq

theorem relate_next : p.next.relate q.next = p.relate q := by
  unfold number at hp hq
  rw [relate, relate, tag?_next, tag?_next]
  cases hs : p.tag? with
  | none => cases q.tag? <;> rfl
  | some s =>
      cases ht : q.tag? with
      | none => rfl
      | some t =>
          rw [hs] at hp
          rw [ht] at hq
          exact Tag.relate_next hq hp

end

/-- Where no number is the largest, counting up keeps the order of two prereleases and their
equality, and it leads above each of them that has a tag. Without a tag there is nothing to
count. -/
theorem next_keeps_order (p q : Prerelease) (hp : ∀ n ∈ p.number, n.toNat < Number.maxValue)
    (hq : ∀ n ∈ q.number, n.toNat < Number.maxValue) :
    (compare p q = .lt ↔ compare p.next q.next = .lt) ∧
    ((p == q) = true ↔ (p.next == q.next) = true) ∧
    (p.isNone = false → compare p p.next = .lt) ∧ (p.isNone = true → p.next = none) := by
  have hrelate := relate_next hp hq
  refine ⟨?_, ?_, fun hne => lt_next hne hp, next_of_isNone⟩
  · rw [compare_eq_sign, compare_eq_sign, hrelate]
  · rw [beq_iff, beq_iff, ← relate_eq_equal, ← relate_eq_equal, hrelate]

/-- A missing number is counted up to zero, and zero to one. -/
theorem next_keeps_order_beta_zero :
    let p : Prerelease := ofParts (Label.ofText? "beta") .none .none
    let q : Prerelease := ofParts (Label.ofText? "beta") (some 0) .none
    (∀ n ∈ p.number, n.toNat < Number.maxValue) ∧ (∀ n ∈ q.number, n.toNat < Number.maxValue) ∧
      compare p q = .lt ∧ compare p.next q.next = .lt ∧ compare p p.next = .lt := by
  intro p q
  have hp : ∀ n ∈ p.number, n.toNat < Number.maxValue := by decide
  have hq : ∀ n ∈ q.number, n.toNat < Number.maxValue := by decide
  have hlt : compare p q = .lt := by decide
  obtain ⟨keeps_lt, _, leads_above, _⟩ := next_keeps_order p q hp hq
  exact ⟨hp, hq, hlt, keeps_lt.1 hlt, leads_above (by decide)⟩

end Prerelease

/-! ## Exact versions -/

namespace Exact

variable {u v : Exact}

/-- The version has a tag and lies between `u` and the next one: it is a tag of the next patch after
a release, or one of the release that `u` belongs to. -/
def StepsOver (u v : Exact) : Prop :=
  match u.prerelease.tag?, v.prerelease.tag? with
  | none, some _ => v.release = u.release.nextPatch
  | some t, some s => v.release = u.release ∧ t.StepsOver s
  | _, none => False

theorem next_untagged (h : u.prerelease.isNone = true) :
    u.next = .ofRelease u.release.nextPatch := by
  rw [next, nextPatch, if_pos h, if_pos h]

theorem next_tagged (h : u.prerelease.isNone = false) :
    u.next = ⟨u.release, u.prerelease.next, .none⟩ := by
  rw [next, if_neg (Bool.eq_false_iff.1 h)]

theorem lt_next_untagged (hu : u.prerelease.isNone = true)
    (h : ∀ p ∈ u.release.patch?, p.toNat < Number.maxValue) : u.precedence u.next = .lt := by
  rw [next_untagged hu, precedence_ofRelease hu]
  exact Release.lt_nextPatch h

theorem lt_next_tagged (hu : u.prerelease.isNone = false)
    (h : ∀ n ∈ u.prerelease.number, n.toNat < Number.maxValue) : u.precedence u.next = .lt := by
  rw [next_tagged hu, precedence, Std.ReflOrd.compare_self]
  exact Prerelease.lt_next hu h

section

variable (hpatch : ∀ p ∈ u.release.patch?, p.toNat < Number.maxValue)
  (hnumber : ∀ n ∈ u.prerelease.number, n.toNat < Number.maxValue)
include hpatch hnumber

theorem lt_next : u.precedence u.next = .lt := by
  cases hu : u.prerelease.isNone with
  | true => exact lt_next_untagged hu hpatch
  | false => exact lt_next_tagged hu hnumber

theorem between_next_iff (hufull : u.release.IsFull) (hvfull : v.release.IsFull)
    (hv : v.prerelease.isNone = false) :
    u.precedence v = .lt ∧ v.precedence u.next = .lt ↔ u.StepsOver v := by
  obtain ⟨s, hs⟩ := Option.isSome_iff_exists.1 (Option.isNone_eq_false_iff.1 hv)
  cases hu : u.prerelease.isNone with
  | true =>
      rw [next_untagged hu, precedence_tagged_eq_lt hu hv, precedence_ofRelease_tagged hv,
        StepsOver, Option.isNone_iff_eq_none.1 hu, hs]
      exact (Release.eq_nextPatch_iff hufull hvfull hpatch).symm
  | false =>
      obtain ⟨t, ht⟩ := Option.isSome_iff_exists.1 (Option.isNone_eq_false_iff.1 hu)
      have hroom : ∀ n ∈ t.number, n.toNat < Number.maxValue := fun n hn =>
        hnumber n (by rw [Prerelease.number, ht]; exact hn)
      have hlower : compare u.prerelease v.prerelease = (t.relate s).sign := by
        rw [Prerelease.compare_eq_sign, Prerelease.relate, ht, hs]
      have hupper : compare v.prerelease u.prerelease.next = (s.relate t.next).sign := by
        rw [Prerelease.compare_eq_sign, Prerelease.relate, Prerelease.tag?_next, ht, hs]
        rfl
      rw [next_tagged hu, StepsOver, ht, hs]
      change _ ↔ v.release = u.release ∧ t.StepsOver s
      by_cases hr : v.release = u.release
      · rw [and_iff_right hr, ← Tag.between_next_iff hroom, precedence, precedence, hlower, hupper,
          hr, Std.ReflOrd.compare_self]
        rfl
      -- With another release, one that is above the tag is above the next one, too.
      · rw [precedence_of_release_ne (Ne.symm hr),
          precedence_of_release_ne (b := ⟨u.release, u.prerelease.next, .none⟩) hr]
        refine iff_of_false ?_ fun h => hr h.1
        rintro ⟨hl, hu⟩
        rw [Std.OrientedCmp.gt_of_lt hl] at hu
        contradiction

theorem lt_next_iff (hufull : u.release.IsFull) (hvfull : v.release.IsFull)
    (hv : v.prerelease.isNone = false) :
    v.precedence u.next = .lt ↔ (v.precedence u).isLE = true ∨ u.StepsOver v := by
  rw [← between_next_iff hpatch hnumber hufull hvfull hv]
  constructor
  · intro hlt
    by_cases hle : (v.precedence u).isLE = true
    · exact .inl hle
    · refine .inr ⟨?_, hlt⟩
      rwa [isLE_iff_not_lt, Decidable.not_not] at hle
  · rintro (hle | ⟨_, hlt⟩)
    · exact Std.TransCmp.lt_of_isLE_of_lt hle (lt_next hpatch hnumber)
    · exact hlt

end

end Exact

end Versioning
