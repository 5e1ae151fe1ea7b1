import Versioning.Prerelease.Order
import Versioning.Proofs.Order.Levels

/-!
# Prereleases are totally ordered

The relation of two prereleases is a comparison by four levels: whether there is a tag at all, the
words before the number, the number, and the words after it. It names the level that decided, and
an empty tag counts as no tag throughout.
-/

namespace Versioning

/-! ## The order of relations -/

inductive Prerelease.Part
  /-- Whether there is a tag. -/
  | tag
  | before
  | number
  | after
deriving DecidableEq

namespace Prerelease

namespace Relation

/-- The part that decided, unless nothing tells the two prereleases apart. -/
def part? : Relation → Option Part
  | lower | greater => some .tag
  | lowerBefore | greaterBefore => some .before
  | lowerNumber | greaterNumber => some .number
  | lowerAfter | greaterAfter => some .after
  | equal => .none

/-- The place on the way from far below to far above, with `equal` in the middle. -/
def rank : Relation → Int
  | lower => -4
  | lowerBefore => -3
  | lowerNumber => -2
  | lowerAfter => -1
  | equal => 0
  | greaterAfter => 1
  | greaterNumber => 2
  | greaterBefore => 3
  | greater => 4

instance : LE Relation := ⟨fun r s => r.rank ≤ s.rank⟩

instance (r s : Relation) : Decidable (r ≤ s) := inferInstanceAs (Decidable (r.rank ≤ s.rank))

instance : Min Relation := minOfLe

theorem rank_inj {r s : Relation} : r.rank = s.rank ↔ r = s := by
  constructor
  · intro h
    cases r <;> cases s <;> first | rfl | contradiction
  · exact congrArg rank

theorem rank_min (r s : Relation) : (min r s).rank = min r.rank s.rank := by
  cases r <;> cases s <;> rfl

theorem isLE_sign {r : Relation} : r.sign.isLE = true ↔ r.rank ≤ 0 := by
  cases r <;> decide

end Relation

/-! ## Prereleases by levels -/

/-- A missing tag is above every tag, and a missing part is below every part. -/
def levels : Levels Prerelease :=
  [compareOn isNone, compareOn before, compareOn number, compareOn after]

theorem transCmp_of_mem_levels : ∀ cmp ∈ levels, Std.TransCmp cmp := by
  simp only [levels, List.forall_mem_cons, List.not_mem_nil, false_imp_iff, implies_true, and_true]
  exact ⟨inferInstance, inferInstance, inferInstance, inferInstance⟩

theorem rank_relate (p q : Prerelease) : (p.relate q).rank = levels.outcome p q := by
  simp only [relate, levels, Levels.outcome, compareOn, isNone, before, number, after]
  cases p.tag? with
  | none => cases q.tag? <;> rfl
  | some a =>
      cases q.tag? with
      | none => rfl
      | some b =>
          simp only [Option.isNone_some, Option.bind_some, Std.ReflOrd.compare_self, Tag.relate]
          cases compare a.before b.before <;> try rfl
          cases compare a.number b.number <;> try rfl
          cases compare a.after b.after <;> rfl

theorem compare_eq_sign (p q : Prerelease) : compare p q = (p.relate q).sign := rfl

theorem isLE_compare {p q : Prerelease} :
    (compare p q).isLE = true ↔ levels.outcome p q ≤ 0 := by
  rw [compare_eq_sign, Relation.isLE_sign, rank_relate]

instance : Std.TransOrd Prerelease where
  eq_swap {p q} := by
    rw [compare_eq_sign, compare_eq_sign, ← relate_swap q p, Relation.sign_swap]
  isLE_trans {p q r} hpq hqr := by
    rw [isLE_compare] at hpq hqr ⊢
    rw [Levels.outcome_chain transCmp_of_mem_levels hpq hqr]
    omega

theorem compare_eq_eq {p q : Prerelease} : compare p q = .eq ↔ p.tag? = q.tag? := by
  rw [compare_eq_sign, Relation.sign_eq_eq, relate_eq_equal]

end Prerelease

/-! ## The laws -/

theorem Tag.part?_relate (a b : Tag) : (a.relate b).part? = if a.before ≠ b.before then some .before
    else if a.number ≠ b.number then some .number
    else if a.after ≠ b.after then some .after
    else .none := by
  simp only [ne_eq, ← Std.LawfulEqOrd.compare_eq_iff_eq (a := a.before),
    ← Std.LawfulEqOrd.compare_eq_iff_eq (a := a.number),
    ← Std.LawfulEqOrd.compare_eq_iff_eq (a := a.after), Tag.relate]
  cases compare a.before b.before <;> try rfl
  cases compare a.number b.number <;> try rfl
  cases compare a.after b.after <;> rfl

namespace Prerelease

/-- The first part in which two prereleases differ. -/
def firstDifference? (p q : Prerelease) : Option Part :=
  if p.isNone ≠ q.isNone then some .tag
  else if p.before ≠ q.before then some .before
  else if p.number ≠ q.number then some .number
  else if p.after ≠ q.after then some .after
  else .none

/-- The relation names the first part that differs. -/
theorem part?_relate (p q : Prerelease) : (p.relate q).part? = p.firstDifference? q := by
  rw [relate, firstDifference?]
  unfold isNone before number after
  cases hp : p.tag? with
  | none => cases hq : q.tag? <;> simp [Relation.part?]
  | some a =>
      cases hq : q.tag? with
      | none => simp [Relation.part?]
      | some b => simpa using Tag.part?_relate a b

/-- Both a missing and an empty tag are above all tags but themselves. -/
theorem relate_of_isNone {p : Prerelease} (hp : p.isNone = true) (q : Prerelease) :
    p.relate q = if q.isNone then .equal else .greater := by
  rw [relate, Option.isNone_iff_eq_none.1 hp, isNone]
  cases q.tag? <;> rfl

theorem isLE_total (p q : Prerelease) :
    (compare p q).isLE = true ∨ (compare q p).isLE = true := by
  rw [Std.OrientedOrd.eq_swap (a := q)]
  cases compare p q <;> decide

/-- Along a chain the part that comes first decides, as for versions. -/
theorem relate_chain {p q r : Prerelease} (hpq : (compare p q).isLE = true)
    (hqr : (compare q r).isLE = true) : p.relate r = min (p.relate q) (q.relate r) := by
  rw [isLE_compare] at hpq hqr
  rw [← Relation.rank_inj, Relation.rank_min, rank_relate, rank_relate, rank_relate]
  exact Levels.outcome_chain transCmp_of_mem_levels hpq hqr

/-- The comparison of prereleases is a total order whose relations combine along chains and name the
first part that differs. An empty tag is no tag, and what is equal has the same parts to hash. -/
theorem relate_orders_totally :
    (∀ p q : Prerelease, q.relate p = (p.relate q).swap) ∧
    (∀ p q : Prerelease, p.relate q = .equal ↔ (p == q) = true) ∧
    (∀ p q : Prerelease, (p == q) = true → p.tag? = q.tag? ∧ hash p = hash q) ∧
    isNone (tag ⟨.none, .none, .none⟩) = true ∧
    (∀ p : Prerelease, p.isNone = true →
      ∀ q : Prerelease, p.relate q = if q.isNone then .equal else .greater) ∧
    (∀ p q r : Prerelease, (compare p q).isLE = true → (compare q r).isLE = true →
      p.relate r = min (p.relate q) (q.relate r)) ∧
    (∀ p q : Prerelease, (compare p q).isLE = true ∨ (compare q p).isLE = true) ∧
    (∀ p q r : Prerelease, (compare p q).isLE = true → (compare q r).isLE = true →
      (compare p r).isLE = true) ∧
    (∀ p q : Prerelease, (p.relate q).part? = p.firstDifference? q) :=
  ⟨fun p q => (relate_swap p q).symm, fun _ _ => relate_eq_equal.trans beq_iff.symm,
    fun _ _ h => ⟨beq_iff.1 h, LawfulHashable.hash_eq _ _ h⟩, rfl, fun _ => relate_of_isNone,
    fun _ _ _ => relate_chain, isLE_total, fun _ _ _ => Std.TransCmp.isLE_trans,
    part?_relate⟩

theorem relate_orders_totally_empty_tag :
    let alpha : Prerelease := ofParts (Label.ofText? "alpha") .none .none
    let beta : Prerelease := ofParts (Label.ofText? "beta") (some 2) .none
    let empty : Prerelease := tag ⟨.none, .none, .none⟩
    (empty == none) = true ∧ empty.tag? = none.tag? ∧ hash empty = hash none ∧
      empty.isNone = true ∧ empty.relate beta = (if beta.isNone then .equal else .greater) ∧
      (compare alpha beta).isLE = true ∧ (compare beta empty).isLE = true ∧
      alpha.relate empty = min (alpha.relate beta) (beta.relate empty) ∧
      (compare alpha empty).isLE = true := by
  intro alpha beta empty
  have heq : (empty == none) = true := by decide
  have hnone : empty.isNone = true := by decide
  have hlower : (compare alpha beta).isLE = true := by decide
  have hupper : (compare beta empty).isLE = true := by decide
  obtain ⟨_, _, same_hash, _, above_tags, chain, _, trans, _⟩ := relate_orders_totally
  exact ⟨heq, (same_hash empty none heq).1, (same_hash empty none heq).2, hnone,
    above_tags empty hnone beta, hlower, hupper, chain alpha beta empty hlower hupper,
    trans alpha beta empty hlower hupper⟩

end Prerelease

end Versioning
