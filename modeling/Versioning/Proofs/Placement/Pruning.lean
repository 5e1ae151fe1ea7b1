import Versioning.Proofs.Placement.Composite
import Versioning.Proofs.Placement.Side
import Versioning.Proofs.Range.Built

/-!
# Pruning by a range

As versions ascend, their placements go from `lower` through the range to `greater` and never turn
back. So a version that is found above a range is above all that satisfy it, and so is every later
version, and the same holds below.
-/

namespace Versioning

/-- What is below stays so on the way down, and what is above on the way up. -/
structure Placement.Ordered (place : Exact → Placement) : Prop where
  lower_of_isLE {v w : Exact} : (v.precedence w).isLE = true → place w = .lower → place v = .lower
  greater_of_isLE {v w : Exact} :
    (v.precedence w).isLE = true → place v = .greater → place w = .greater

namespace Placement.Ordered

variable {place : Exact → Placement}

/-- What is satisfied lies below all that is placed above. -/
theorem lt_of_greater (h : Ordered place) {u v : Exact} (hv : place v = .greater)
    (hu : place u = .satisfied) : u.precedence v = .lt := by
  by_cases huv : u.precedence v = .lt
  · exact huv
  · have hgt : place u = .greater := h.greater_of_isLE (isLE_iff_not_lt.2 huv) hv
    rw [hu] at hgt
    contradiction

theorem lt_of_lower (h : Ordered place) {u v : Exact} (hv : place v = .lower)
    (hu : place u = .satisfied) : v.precedence u = .lt := by
  by_cases hvu : v.precedence u = .lt
  · exact hvu
  · have hlt : place u = .lower := h.lower_of_isLE (isLE_iff_not_lt.2 hvu) hv
    rw [hu] at hlt
    contradiction

end Placement.Ordered

/-! ## Comparisons -/

namespace Operator

theorem ordered_place (o : Operator) (bound : Version) :
    Placement.Ordered fun v => o.place bound (.exact v) where
  lower_of_isLE {v w} hvw h := by
    rw [place_eq_lower] at h ⊢
    have hlt : bound.side w = .lt → bound.side v = .lt := Version.side_lt_of_isLE hvw
    have hgt : bound.side v = .gt → bound.side w = .gt := Version.side_gt_of_isLE hvw
    cases o <;> cases hw : bound.side w <;> cases hv : bound.side v <;> simp_all [outside?]
  greater_of_isLE {v w} hvw h := by
    rw [place_eq_greater] at h ⊢
    have hlt : bound.side w = .lt → bound.side v = .lt := Version.side_lt_of_isLE hvw
    have hgt : bound.side v = .gt → bound.side w = .gt := Version.side_gt_of_isLE hvw
    cases o <;> cases hw : bound.side w <;> cases hv : bound.side v <;> simp_all [outside?]

end Operator

/-! ## Intervals -/

namespace Interval

theorem ordered_place (l u : Exact) :
    Placement.Ordered fun v => place ⟨.exact l, .exact u⟩ (.exact v) where
  lower_of_isLE hvw h := by
    rw [place_eq_lower] at h ⊢
    exact Std.TransCmp.lt_of_isLE_of_lt hvw h
  greater_of_isLE hvw h := by
    rw [place_eq_greater] at h ⊢
    obtain ⟨hl, hu⟩ := h
    exact ⟨mt (Std.TransCmp.lt_of_isLE_of_lt hvw) hl, mt (Std.TransCmp.lt_of_isLE_of_lt hvw) hu⟩

end Interval

/-! ## Ranges -/

namespace Range

/-- Each kind of range keeps the order of placements, and a composite takes it from its
alternatives. -/
theorem Normal.ordered {r : Range} (h : Normal r) :
    Placement.Ordered fun v => r.place (.exact v) := by
  induction h with
  | comparison operator bound => exact operator.ordered_place bound
  | interval lower upper => exact Interval.ordered_place lower upper
  | caret v =>
      obtain ⟨l, u, hb⟩ := exists_caretBounds v
      simp only [place, hb]
      exact Interval.ordered_place l u
  | tilde v =>
      obtain ⟨l, u, hb⟩ := exists_tildeBounds v
      simp only [place, hb]
      exact Interval.ordered_place l u
  | exact v => exact Operator.equal.ordered_place v
  | composite _ ih =>
      constructor
      · intro v w hvw hw
        rw [place_composite_eq_lower] at hw ⊢
        exact ⟨hw.1, fun r hr => (ih r hr).lower_of_isLE hvw (hw.2 r hr)⟩
      · intro v w hvw hv
        rw [place_composite_eq_greater] at hv ⊢
        exact fun r hr => (ih r hr).greater_of_isLE hvw (hv r hr)

/-- A range that is below a version has only earlier ones, and it is below all later versions; and
the same the other way round. -/
theorem Built.pruning_sound {r : Range} (hr : Built r) :
    (∀ u v : Exact, r.isBelow (.exact v) = true → r.satisfiedBy (.exact u) = true →
      (Version.exact u).relate (.exact v) = .lower ∨
        (Version.exact u).relate (.exact v) = .lowerPrerelease) ∧
    (∀ u v : Exact, r.isAbove (.exact v) = true → r.satisfiedBy (.exact u) = true →
      (Version.exact v).relate (.exact u) = .lower ∨
        (Version.exact v).relate (.exact u) = .lowerPrerelease) ∧
    (∀ v w : Exact, (compare (Version.exact v) (.exact w)).isLE = true →
      (r.isBelow (.exact v) = true → r.isBelow (.exact w) = true) ∧
        (r.isAbove (.exact w) = true → r.isAbove (.exact v) = true)) := by
  have hord := hr.normal.ordered
  simp only [isBelow, isAbove, satisfiedBy, beq_iff_eq, ← Version.below_iff, Version.below_exact]
  refine ⟨?_, ?_, ?_⟩
  · intro u v hv hu
    exact hord.lt_of_greater hv hu
  · intro u v hv hu
    exact hord.lt_of_lower hv hu
  · intro v w hvw
    have hle := Version.isLE_precedence hvw
    exact ⟨hord.greater_of_isLE hle, hord.lower_of_isLE hle⟩

theorem Built.pruning_sound_nested :
    let r : Range := .composite [.caret (.exact ⟨.triple 1 2 3, .ofParts none (some 4) none, .none⟩),
      .composite [.exact (.pattern (.anyPatch 3 1))]]
    let before : Exact := ⟨.triple 1 2 3, .ofParts none (some 3) none, .ofText "7"⟩
    let member : Exact := ⟨.triple 1 2 3, .ofParts none (some 5) none, .none⟩
    let after : Exact := ⟨.triple 4 0 0, .ofParts none (some 1) none, .none⟩
    let later : Exact := ⟨.triple 4 0 0, .none, .none⟩
    r.Built ∧ r.satisfiedBy (.exact member) = true ∧
    (r.isBelow (.exact after) = true ∧
      ((Version.exact member).relate (.exact after) = .lower ∨
        (Version.exact member).relate (.exact after) = .lowerPrerelease)) ∧
    (r.isAbove (.exact before) = true ∧
      ((Version.exact before).relate (.exact member) = .lower ∨
        (Version.exact before).relate (.exact member) = .lowerPrerelease)) ∧
    ((compare (Version.exact after) (.exact later)).isLE = true ∧
      r.isBelow (.exact later) = true) := by
  intro r before member after later
  have hr : r.Built := by
    refine .composite fun s hs => ?_
    rcases List.mem_pair.1 hs with rfl | rfl
    · exact .caret _
    · exact .composite fun t ht => List.mem_singleton.1 ht ▸ .exact _
  have hmember : r.satisfiedBy (.exact member) = true := by decide
  have hafter : r.isBelow (.exact after) = true := by decide
  have hbefore : r.isAbove (.exact before) = true := by decide
  have hlater : (compare (Version.exact after) (.exact later)).isLE = true := by decide
  obtain ⟨below, above, monotone⟩ := Built.pruning_sound hr
  exact ⟨hr, hmember, ⟨hafter, below member after hafter hmember⟩,
    ⟨hbefore, above member before hbefore hmember⟩, hlater, (monotone after later hlater).1 hafter⟩

end Range

end Versioning
