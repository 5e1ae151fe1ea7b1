import Versioning.Proofs.Placement.Bound

/-!
# Sides of a bound

A bound cuts the order of exact versions into what is below it, at it and above it. At a pattern are
all the versions that it stands for, and none if its ceiling could not be counted up. Each operator
takes in some of the three sides, and the tags that the bound opts into, and goes by nothing else.
-/

namespace Versioning

/-! ## The ends of a pattern -/

theorem Pattern.isLE_compare_floor_ceil (w : Pattern) : (compare w.floor w.ceil).isLE = true := by
  have le_succ (n : Number) : (compare n n.succ).isLE = true :=
    Nat.isLE_compare.2 n.toNat_le_succ
  rw [Release.compare_eq_then]
  unfold floor ceil
  cases w.minor.number? with
  | none => simpa [Release.major, Release.minor?, Release.patch?] using le_succ w.major
  | some n =>
      have hminor : (compare (some n) (some n.succ)).isLE = true := le_succ n
      simpa [Release.major, Release.minor?, Release.patch?] using hminor

/-! ## Sides -/

namespace Version

variable {w : Pattern} {v : Exact}

/-- The side of the bound that the version is on. -/
def side : Version → Exact → Ordering
  | exact b, v => v.precedence b
  | pattern w, v =>
    if v.precedence (.ofRelease w.floor) = .lt then .lt
    else if v.precedence (.ofRelease w.ceil) = .lt then .eq
    else .gt

theorem precedence_ceil_of_lt (h : v.precedence (.ofRelease w.floor) = .lt) :
    v.precedence (.ofRelease w.ceil) = .lt := by
  have hle : ((Exact.ofRelease w.floor).precedence (.ofRelease w.ceil)).isLE = true := by
    rw [Exact.precedence]
    change ((compare w.floor w.ceil).then .eq).isLE = true
    rw [Ordering.then_eq]
    exact w.isLE_compare_floor_ceil
  exact Std.TransCmp.lt_of_lt_of_isLE h hle

theorem side_pattern_eq_lt :
    (pattern w).side v = .lt ↔ v.precedence (.ofRelease w.floor) = .lt := by
  by_cases hf : v.precedence (.ofRelease w.floor) = .lt
  · simp [side, hf]
  · by_cases hc : v.precedence (.ofRelease w.ceil) = .lt <;> simp [side, hf, hc]

/-- The lowest exact version that a bound stands for. -/
def lowest : Version → Exact
  | exact v => v
  | pattern w => .ofRelease w.floor

/-- Below a bound is below the lowest version that it stands for. -/
theorem side_eq_lt {v : Version} {u : Exact} : v.side u = .lt ↔ u.precedence v.lowest = .lt := by
  cases v with
  | exact v => rfl
  | pattern w => exact side_pattern_eq_lt

theorem side_pattern_eq_gt :
    (pattern w).side v = .gt ↔ v.precedence (.ofRelease w.ceil) ≠ .lt := by
  by_cases hf : v.precedence (.ofRelease w.floor) = .lt
  · simp [side, hf, precedence_ceil_of_lt hf]
  · by_cases hc : v.precedence (.ofRelease w.ceil) = .lt <;> simp [side, hf, hc]

/-- Lower versions are on no higher side. -/
theorem side_lt_of_isLE {bound : Version} {u v : Exact} (huv : (u.precedence v).isLE = true)
    (h : bound.side v = .lt) : bound.side u = .lt := by
  cases bound with
  | exact b => exact Std.TransCmp.lt_of_isLE_of_lt huv h
  | pattern w =>
      rw [side_pattern_eq_lt] at h ⊢
      exact Std.TransCmp.lt_of_isLE_of_lt huv h

theorem side_gt_of_isLE {bound : Version} {u v : Exact} (huv : (u.precedence v).isLE = true)
    (h : bound.side u = .gt) : bound.side v = .gt := by
  cases bound with
  | exact b => exact Std.TransCmp.gt_of_isGE_of_gt (Std.OrientedCmp.isGE_of_isLE huv) h
  | pattern w =>
      rw [side_pattern_eq_gt] at h ⊢
      exact mt (Std.TransCmp.lt_of_isLE_of_lt huv) h

end Version

/-! ## Operators -/

namespace Operator

variable {o : Operator} {bound : Version} {v : Exact} {r : Ordering}

/-- Whether a version that stands in this order to the bound satisfies the operator. -/
def Holds : Operator → Ordering → Prop
  | less, r => r = .lt
  | lessOrEqual, r => r ≠ .gt
  | greater, r => r = .gt
  | greaterOrEqual, r => r ≠ .lt
  | equal, r => r = .eq

/-- An operator that holds leaves the version inside. -/
theorem outside?_eq_none : o.outside? r = none ↔ o.Holds r := by
  cases o <;> cases r <;> simp [outside?, Holds]

theorem outside?_eq_lower : o.outside? r = some .lower ↔
    ¬ o.Holds r ∧ r ≠ .gt ∧ o ∈ [greater, greaterOrEqual, equal] := by
  cases o <;> cases r <;> simp [outside?, Holds]

theorem outside?_eq_greater : o.outside? r = some .greater ↔
    ¬ o.Holds r ∧ r ≠ .lt ∧ o ∈ [less, lessOrEqual, equal] := by
  cases o <;> cases r <;> simp [outside?, Holds]

/-- A pattern as a bound cuts the order in two places where an exact version cuts it in one. -/
theorem place_exact (o : Operator) (bound : Version) (v : Exact) :
    o.place bound (.exact v) =
      (o.outside? (bound.side v)).getD (.inside (bound.admits (.exact v))) := by
  cases bound with
  | exact b => exact o.placeAgainst_exact b v
  | pattern w =>
      have huntagged (x : Version) (h : x.isPrerelease = false) :
          x.admits (.exact v) = v.prerelease.isNone := Version.admits_of_untagged h v
      have hceil := Version.precedence_ceil_of_lt (w := w) (v := v)
      cases o <;>
        simp only [place, Version.ofRelease, placeAgainst_exact, Interval.place_exact,
          huntagged (.exact (.ofRelease w.floor)) rfl, huntagged (.exact (.ofRelease w.ceil)) rfl,
          huntagged (.pattern w) rfl, Bool.or_self, Version.side]
      all_goals
        cases hf : v.precedence (.ofRelease w.floor) <;>
          cases hc : v.precedence (.ofRelease w.ceil) <;>
          simp_all [outside?, Interval.outside?]

theorem place_eq_lower :
    o.place bound (.exact v) = .lower ↔ o.outside? (bound.side v) = some .lower := by
  rw [place_exact, Placement.getD_inside_eq_lower]

theorem place_eq_greater :
    o.place bound (.exact v) = .greater ↔ o.outside? (bound.side v) = some .greater := by
  rw [place_exact, Placement.getD_inside_eq_greater]

theorem place_eq_satisfied : o.place bound (.exact v) = .satisfied ↔
    o.outside? (bound.side v) = none ∧ bound.admits (.exact v) = true := by
  rw [place_exact, Placement.getD_inside_eq_satisfied (o.outside?_ne_satisfied _)]

theorem place_eq_excluded : o.place bound (.exact v) = .excluded ↔
    o.outside? (bound.side v) = none ∧ bound.admits (.exact v) = false := by
  rw [place_exact, Placement.getD_inside_eq_excluded (o.outside?_ne_excluded _)]

theorem place_less_eq_greater :
    less.place bound (.exact v) = .greater ↔ bound.side v ≠ .lt := by
  rw [place_eq_greater]
  cases bound.side v <;> simp [outside?]

theorem place_greaterOrEqual_eq_lower :
    greaterOrEqual.place bound (.exact v) = .lower ↔ bound.side v = .lt := by
  rw [place_eq_lower]
  cases bound.side v <;> simp [outside?]

theorem place_lessOrEqual_eq_greater :
    lessOrEqual.place bound (.exact v) = .greater ↔ bound.side v = .gt := by
  rw [place_eq_greater]
  cases bound.side v <;> simp [outside?]

theorem place_greater_eq_lower :
    greater.place bound (.exact v) = .lower ↔ bound.side v ≠ .gt := by
  rw [place_eq_lower]
  cases bound.side v <;> simp [outside?]

theorem place_equal_eq_lower :
    equal.place bound (.exact v) = .lower ↔ bound.side v = .lt := by
  rw [place_eq_lower]
  cases bound.side v <;> simp [outside?]

theorem place_equal_eq_greater :
    equal.place bound (.exact v) = .greater ↔ bound.side v = .gt := by
  rw [place_eq_greater]
  cases bound.side v <;> simp [outside?]

/-- What the bound admits is on a side or satisfies the comparison. -/
theorem place_ne_excluded (h : bound.admits (.exact v) = true) :
    o.place bound (.exact v) ≠ .excluded := by
  rw [place_exact, h]
  cases o <;> cases bound.side v <;> decide

end Operator

/-! ## Exact bounds -/

namespace Range

/-- A comparison with an exact version goes by the order without builds and by tags. A version for
which the operator does not hold is on the side where it stands, and any other is inside, where its
tag, if it has one, takes a bound with a tag and the same release. -/
theorem place_comparison_exact (o : Operator) (b v : Exact) :
    let r := v.precedence b
    let place := (comparison o (.exact b)).place (.exact v)
    let optsIn : Prop := b.prerelease.isNone = false ∧ b.release = v.release
    (place = .lower ↔ ¬ o.Holds r ∧ r ≠ .gt ∧ o ∈ [.greater, .greaterOrEqual, .equal]) ∧
    (place = .greater ↔ ¬ o.Holds r ∧ r ≠ .lt ∧ o ∈ [.less, .lessOrEqual, .equal]) ∧
    (place = .satisfied ↔ o.Holds r ∧ (v.prerelease.isNone = true ∨ optsIn)) ∧
    (place = .excluded ↔ o.Holds r ∧ v.prerelease.isNone = false ∧ ¬ optsIn) := by
  intro r place optsIn
  let bound : Version := .exact b
  have hadmits : bound.admits (.exact v) = true ↔ v.prerelease.isNone = true ∨ optsIn :=
    Version.admits_exact
  have hrefuses : bound.admits (.exact v) = false ↔ v.prerelease.isNone = false ∧ ¬ optsIn := by
    rw [← Bool.not_eq_true, hadmits, not_or, Bool.not_eq_true]
  rw [← hadmits, ← hrefuses, ← Operator.outside?_eq_lower, ← Operator.outside?_eq_greater,
    ← Operator.outside?_eq_none]
  change (o.place bound (.exact v) = .lower ↔ _) ∧ (o.place bound (.exact v) = .greater ↔ _) ∧
    (o.place bound (.exact v) = .satisfied ↔ _) ∧ (o.place bound (.exact v) = .excluded ↔ _)
  exact ⟨Operator.place_eq_lower, Operator.place_eq_greater, Operator.place_eq_satisfied,
    Operator.place_eq_excluded⟩

end Range

/-! ## Operators in pairs -/

namespace Range

/-- A comparison is satisfied by what lies on the right side and is admitted. -/
theorem satisfiedBy_comparison (o : Operator) (bound : Version) (v : Exact) :
    (comparison o bound).satisfiedBy (.exact v) =
      ((o.outside? (bound.side v)).isNone && bound.admits (.exact v)) := by
  rw [Bool.eq_iff_iff, Bool.and_eq_true, Option.isNone_iff_eq_none, ← Operator.place_eq_satisfied]
  exact beq_iff_eq

/-- A version without a tag satisfies one of `<` and `>=` and one of `<=` and `>`. With a tag it may
satisfy neither, but never both, and `=` is what `<=` and `>=` have in common. -/
theorem comparisons_complement (bound : Version) (v : Exact) :
    let satisfied (o : Operator) : Bool := (comparison o bound).satisfiedBy (.exact v)
    (v.prerelease.isNone = true →
      (satisfied .less = !satisfied .greaterOrEqual) ∧
      (satisfied .lessOrEqual = !satisfied .greater) ∧
      ∀ o, (comparison o bound).place (.exact v) ≠ .excluded) ∧
    ¬ (satisfied .less = true ∧ satisfied .greaterOrEqual = true) ∧
    ¬ (satisfied .lessOrEqual = true ∧ satisfied .greater = true) ∧
    (satisfied .equal = true ↔ satisfied .lessOrEqual = true ∧ satisfied .greaterOrEqual = true) := by
  intro satisfied
  have hsatisfied (o : Operator) : satisfied o =
      ((o.outside? (bound.side v)).isNone && bound.admits (.exact v)) :=
    satisfiedBy_comparison o bound v
  simp only [hsatisfied]
  refine ⟨fun hv => ?_, ?_⟩
  · have hadmits : bound.admits (.exact v) = true := by
      rw [Version.admits, Version.isPrerelease_exact, hv]
      rfl
    refine ⟨?_, ?_, fun o => Operator.place_ne_excluded hadmits⟩ <;> rw [hadmits]
    · cases bound.side v <;> rfl
    · cases bound.side v <;> rfl
  · cases bound.side v <;> simp [Operator.outside?]

/-- The ceiling of this pattern could not be counted up, so its own versions are above it. -/
theorem comparisons_complement_saturated :
    let bound : Version := .pattern (.anyPatch 1 18446744073709551615)
    let v : Exact := .ofRelease (.triple 1 18446744073709551615 7)
    v.prerelease.isNone = true ∧ (comparison .greater bound).satisfiedBy (.exact v) = true ∧
      (comparison .lessOrEqual bound).satisfiedBy (.exact v) = false ∧
      (comparison .equal bound).satisfiedBy (.exact v) = false := by
  intro bound v
  have hv : v.prerelease.isNone = true := rfl
  have hgreater : (comparison .greater bound).satisfiedBy (.exact v) = true := by decide
  obtain ⟨huntagged, _, _, hequal⟩ := comparisons_complement bound v
  have hlessOrEqual : (comparison .lessOrEqual bound).satisfiedBy (.exact v) = false :=
    (huntagged hv).2.1.trans (congrArg not hgreater)
  refine ⟨hv, hgreater, hlessOrEqual, Bool.eq_false_iff.2 fun h => ?_⟩
  exact Bool.noConfusion (hlessOrEqual.symm.trans (hequal.1 h).1)

end Range

end Versioning
