import Versioning.Ascending
import Versioning.Proofs.Order.Prerelease
import Versioning.Proofs.Order.Release
import Versioning.Version.Order

/-!
# Exact versions are totally ordered

Two exact versions are compared by three levels, the release, the prerelease and the build, and
their relation names the level that decided. Without the last level the order is the one that
ranges go by, the precedence.
-/

namespace Versioning

/-! ## The order of relations -/

inductive Version.Part
  | release
  | prerelease
  | build
deriving DecidableEq

namespace Version.Relation

/-- The part that decided, unless nothing tells the two versions apart. -/
def part? : Relation → Option Part
  | lower | greater => some .release
  | lowerPrerelease | greaterPrerelease => some .prerelease
  | lowerBuild | greaterBuild => some .build
  | equal => none

def rank : Relation → Int
  | lower => -3
  | lowerPrerelease => -2
  | lowerBuild => -1
  | equal => 0
  | greaterBuild => 1
  | greaterPrerelease => 2
  | greater => 3

instance : LE Relation := ⟨fun r s => r.rank ≤ s.rank⟩

instance (r s : Relation) : Decidable (r ≤ s) := inferInstanceAs (Decidable (r.rank ≤ s.rank))

instance : Min Relation := minOfLe

theorem rank_inj {r s : Relation} : r.rank = s.rank ↔ r = s := by
  constructor
  · intro h
    cases r <;> cases s <;> first | rfl | contradiction
  · exact congrArg rank

theorem rank_min (r s : Relation) : (min r s).rank = min r.rank s.rank := by
  cases r <;> cases s <;> rfl

theorem rank_eq_zero {r : Relation} : r.rank = 0 ↔ r = equal := rank_inj (s := equal)

theorem isLE_sign {r : Relation} : r.sign.isLE = true ↔ r.rank ≤ 0 := by
  cases r <;> decide

theorem part?_ofParts (r p b : Ordering) : (ofParts r p b).part? =
    if r ≠ .eq then some .release
    else if p ≠ .eq then some .prerelease
    else if b ≠ .eq then some .build
    else none := by
  cases r <;> try rfl
  cases p <;> try rfl
  cases b <;> rfl

end Version.Relation

/-! ## Exact versions by levels -/

namespace Exact

def levels : Levels Exact :=
  [compareOn release, compareOn prerelease, compareOn build]

theorem transCmp_of_mem_levels : ∀ cmp ∈ levels, Std.TransCmp cmp := by
  simp only [levels, List.forall_mem_cons, List.not_mem_nil, false_imp_iff, implies_true, and_true]
  exact ⟨inferInstance, inferInstance, inferInstance⟩

/-- The first part in which two versions differ, where an empty tag is no tag. -/
def firstDifference? (a b : Exact) : Option Version.Part :=
  if a.release ≠ b.release then some .release
  else if a.prerelease.tag? ≠ b.prerelease.tag? then some .prerelease
  else if a.build ≠ b.build then some .build
  else none

end Exact

namespace Version

theorem relateRelease_exact (a b : Exact) :
    relateRelease (exact a) (exact b) = compare a.release b.release := by
  simp only [relateRelease, minor, patch, Component.relate_ofNumber?]
  rfl

theorem relate_exact (a b : Exact) : (exact a).relate (exact b) =
    .ofParts (compare a.release b.release) (compare a.prerelease b.prerelease)
      (compare a.build b.build) := by
  rw [relate, relateRelease_exact]
  rfl

/-- The levels tell the same as the relation, the rank being the outcome. -/
theorem rank_relate (a b : Exact) :
    ((exact a).relate (exact b)).rank = Exact.levels.outcome a b := by
  rw [relate_exact]
  simp only [Exact.levels, Levels.outcome, compareOn]
  cases compare a.release b.release <;> try rfl
  cases compare a.prerelease b.prerelease <;> try rfl
  cases compare a.build b.build <;> rfl

theorem isLE_compare {a b : Exact} :
    (compare (exact a) (exact b)).isLE = true ↔ Exact.levels.outcome a b ≤ 0 := by
  rw [← rank_relate]
  exact Relation.isLE_sign

/-- Only versions that are the same, the spelling of an empty tag apart, are equal in order. -/
theorem relate_eq_equal {a b : Exact} :
    (exact a).relate (exact b) = .equal ↔ (a == b) = true := by
  rw [← Relation.rank_eq_zero, rank_relate, Levels.outcome_eq_zero, Exact.beq_iff]
  simp only [Exact.levels, List.forall_mem_cons, List.not_mem_nil, false_imp_iff, implies_true,
    and_true, compareOn, Std.LawfulEqOrd.compare_eq_iff_eq, Prerelease.compare_eq_eq]

theorem part?_relate (a b : Exact) :
    ((exact a).relate (exact b)).part? = a.firstDifference? b := by
  rw [relate_exact, Relation.part?_ofParts, Exact.firstDifference?]
  simp only [ne_eq, Std.LawfulEqOrd.compare_eq_iff_eq, Prerelease.compare_eq_eq]

/-- Along a chain the stronger difference wins. -/
theorem relate_chain {a b c : Exact} (hab : (compare (exact a) (exact b)).isLE = true)
    (hbc : (compare (exact b) (exact c)).isLE = true) :
    (exact a).relate (exact c) = min ((exact a).relate (exact b)) ((exact b).relate (exact c)) := by
  rw [isLE_compare] at hab hbc
  rw [← Relation.rank_inj, Relation.rank_min, rank_relate, rank_relate, rank_relate]
  exact Levels.outcome_chain Exact.transCmp_of_mem_levels hab hbc

theorem compare_swap (v w : Version) : compare w v = (compare v w).swap := by
  change (w.relate v).sign = (v.relate w).sign.swap
  rw [← relate_swap, Relation.sign_swap]

theorem isLE_compare_total (v w : Version) :
    (compare v w).isLE = true ∨ (compare w v).isLE = true := by
  rw [compare_swap v w]
  cases compare v w <;> decide

theorem isLE_compare_trans {a b c : Exact} (hab : (compare (exact a) (exact b)).isLE = true)
    (hbc : (compare (exact b) (exact c)).isLE = true) :
    (compare (exact a) (exact c)).isLE = true := by
  rw [isLE_compare] at hab hbc ⊢
  rw [Levels.outcome_chain Exact.transCmp_of_mem_levels hab hbc]
  omega

/-- Exact versions can be sorted, which versions with patterns among them cannot: the same versions
come out, and each one is at most those after it. -/
theorem ascending_exact (vs : List Exact) :
    (ascending (vs.map exact)).Perm (vs.map exact) ∧
    (ascending (vs.map exact)).Pairwise fun v w => (compare v w).isLE = true :=
  ⟨ascending_perm _, pairwise_ascending_map (fun _ _ _ => isLE_compare_trans)
    (fun a b => isLE_compare_total (exact a) (exact b)) vs⟩

/-- The comparison of exact versions is a total order whose relations combine along chains and name
the first part that differs. Patterns are no part of the order, but for them, too, the two sides of
a comparison mirror each other. -/
theorem relate_order_laws :
    (∀ v w : Version, w.relate v = (v.relate w).swap) ∧
    (∀ a b : Exact, (exact a).relate (exact b) = .equal ↔ (a == b) = true) ∧
    (∀ a b c : Exact, (compare (exact a) (exact b)).isLE = true →
      (compare (exact b) (exact c)).isLE = true →
      (exact a).relate (exact c) =
        min ((exact a).relate (exact b)) ((exact b).relate (exact c))) ∧
    (∀ a b : Exact, (compare (exact a) (exact b)).isLE = true ∨
      (compare (exact b) (exact a)).isLE = true) ∧
    (∀ a b c : Exact, (compare (exact a) (exact b)).isLE = true →
      (compare (exact b) (exact c)).isLE = true → (compare (exact a) (exact c)).isLE = true) ∧
    (∀ a b : Exact, ((exact a).relate (exact b)).part? = a.firstDifference? b) :=
  ⟨fun v w => (relate_swap v w).symm, fun _ _ => relate_eq_equal, fun _ _ _ => relate_chain,
    fun a b => isLE_compare_total (exact a) (exact b), fun _ _ _ => isLE_compare_trans,
    part?_relate⟩

theorem relate_order_laws_tag_release_build :
    let tagged : Exact := ⟨.pair 1 0, .ofParts (Label.ofText? "beta") (some 2) none, .none⟩
    let plain : Exact := ⟨.pair 1 0, .none, .none⟩
    let built : Exact := ⟨.pair 1 0, .none, .ofText "7"⟩
    (compare (exact tagged) (exact plain)).isLE = true ∧
    (compare (exact plain) (exact built)).isLE = true ∧
    (exact tagged).relate (exact built) =
      min ((exact tagged).relate (exact plain)) ((exact plain).relate (exact built)) ∧
    (compare (exact tagged) (exact built)).isLE = true ∧
    (exact tagged).relate (exact built) = .lowerPrerelease := by
  intro tagged plain built
  have h₁ : (compare (exact tagged) (exact plain)).isLE = true := by decide
  have h₂ : (compare (exact plain) (exact built)).isLE = true := by decide
  exact ⟨h₁, h₂, relate_order_laws.2.2.1 tagged plain built h₁ h₂,
    relate_order_laws.2.2.2.2.1 tagged plain built h₁ h₂, by decide⟩

end Version

end Versioning
