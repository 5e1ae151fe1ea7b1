import Versioning.Proofs.Order.Precedence
import Versioning.Range.Placement

/-!
# Placement against exact bounds

Comparisons settle the rule on prerelease tags by the relation to their bound, and intervals by the
releases of their bounds. Both come to the same: a version inside is satisfied if it has no tag, or
if a bound has a tag and belongs to the release of the version. So an interval places versions as
its two comparisons do together.
-/

namespace Versioning

/-! ## Opting in -/

theorem Version.beq_exact {a b : Exact} : (exact a == exact b) = (a == b) := by
  rw [Bool.eq_iff_iff, ← relate_eq_equal]
  exact beq_iff_eq (a := (exact a).relate (exact b))

theorem Version.isPrerelease_exact (v : Exact) : (exact v).isPrerelease = !v.prerelease.isNone :=
  rfl

/-- A tag opts in to the tags of its own release. -/
theorem Interval.optsIn_exact {b v : Exact} : optsIn (.exact b) (.exact v) = true ↔
    b.prerelease.isNone = false ∧ b.release = v.release := by
  have release_beq : ((Version.exact b).release == (Version.exact v).release) = true ↔
      b.release = v.release := by
    change (Version.exact (.ofRelease b.release) == .exact (.ofRelease v.release)) = true ↔ _
    rw [Version.beq_exact, Exact.beq_iff]
    simp [Exact.ofRelease]
  rw [optsIn, Bool.and_eq_true, release_beq, Version.isPrerelease_exact, Bool.not_eq_true']

/-- Whether a version inside a range is in it as far as the bound goes: it has no tag, or the bound
opts into it. -/
def Version.admits (bound v : Version) : Bool :=
  !v.isPrerelease || Interval.optsIn bound v

theorem Version.admits_exact {b v : Exact} : admits (.exact b) (.exact v) = true ↔
    v.prerelease.isNone = true ∨ b.prerelease.isNone = false ∧ b.release = v.release := by
  rw [admits, Bool.or_eq_true, Interval.optsIn_exact, isPrerelease_exact, Bool.not_not]

/-- A bound without a tag admits only versions without tags. -/
theorem Version.admits_of_untagged {bound : Version} (h : bound.isPrerelease = false)
    (v : Exact) : bound.admits (.exact v) = v.prerelease.isNone := by
  rw [admits, Interval.optsIn, h, isPrerelease_exact, Bool.not_not, Bool.false_and, Bool.or_false]

/-- What is level with a bound is admitted by it. -/
theorem Version.admits_of_precedence {b v : Exact} (h : v.precedence b = .eq) :
    admits (.exact b) (.exact v) = true := by
  obtain ⟨hr, ht⟩ := Exact.precedence_eq_eq.1 h
  rw [admits_exact]
  cases hv : v.prerelease.isNone with
  | true => exact .inl rfl
  | false =>
      have hb : b.prerelease.isNone = false := by
        rw [← hv]
        exact congrArg Option.isNone ht.symm
      exact .inr ⟨hb, hr.symm⟩

namespace Placement

/-- The placement of a version that is neither below nor above. -/
def inside (admitted : Bool) : Placement :=
  if admitted then satisfied else excluded

variable {side : Option Placement} {a : Bool}

theorem getD_inside_eq_lower : side.getD (inside a) = lower ↔ side = some lower := by
  cases side <;> cases a <;> simp [inside]

theorem getD_inside_eq_greater : side.getD (inside a) = greater ↔ side = some greater := by
  cases side <;> cases a <;> simp [inside]

theorem getD_inside_eq_satisfied (h : side ≠ some satisfied) :
    side.getD (inside a) = satisfied ↔ side = none ∧ a = true := by
  cases side <;> cases a <;> simp_all [inside]

theorem getD_inside_eq_excluded (h : side ≠ some excluded) :
    side.getD (inside a) = excluded ↔ side = none ∧ a = false := by
  cases side <;> cases a <;> simp_all [inside]

end Placement

/-! ## Comparisons -/

/-- The relation to the bound tells as much as the releases and tags of both. -/
theorem Version.placeInside_exact (b v : Exact) :
    placeInside (.exact b) (.exact v) ((exact v).relate (.exact b)) =
      .inside (admits (.exact b) (.exact v)) := by
  rw [relate_exact]
  cases hr : compare v.release b.release with
  -- Another release: the bound has no say, and only the tag of the version counts.
  | lt | gt =>
      have hne : b.release ≠ v.release := by
        intro h
        rw [h, Std.ReflOrd.compare_self] at hr
        contradiction
      have hadm : admits (.exact b) (.exact v) = v.prerelease.isNone := by
        rw [Bool.eq_iff_iff, admits_exact]
        simp [hne]
      rw [hadm]
      cases h : v.prerelease.isNone <;>
        simp [Relation.ofParts, placeInside, isPrerelease_exact, h, Placement.inside]
  -- The same release: a lower version has a tag, and a bound below the version has one.
  | eq =>
      have heq : b.release = v.release := (Std.LawfulEqOrd.eq_of_compare hr).symm
      cases hp : compare v.prerelease b.prerelease with
      | lt =>
          have hv : v.prerelease.isNone = false := Prerelease.isNone_eq_false_of_lt hp
          have hadm : admits (.exact b) (.exact v) = !b.prerelease.isNone := by
            rw [Bool.eq_iff_iff, admits_exact]
            simp [hv, heq]
          rw [hadm]
          rfl
      | gt =>
          have hb : b.prerelease.isNone = false := Prerelease.isNone_eq_false_of_gt hp
          rw [admits_exact.2 (.inr ⟨hb, heq⟩)]
          simp [Relation.ofParts, placeInside, isPrerelease_exact, hb, Placement.inside]
      | eq =>
          have h : v.precedence b = .eq := by rw [Exact.precedence, hr, hp]; rfl
          rw [admits_of_precedence h]
          cases compare v.build b.build <;> rfl

namespace Operator

/-- The side of a comparison on which a version is that stands in this order to the bound, unless
it is inside. -/
def outside? : Operator → Ordering → Option Placement
  | less, .lt => none
  | less, _ => some .greater
  | lessOrEqual, .gt => some .greater
  | lessOrEqual, _ => none
  | greater, .gt => none
  | greater, _ => some .lower
  | greaterOrEqual, .lt => some .lower
  | greaterOrEqual, _ => none
  | equal, .lt => some .lower
  | equal, .eq => none
  | equal, .gt => some .greater

theorem outside?_ne_satisfied (o : Operator) (r : Ordering) : o.outside? r ≠ some .satisfied := by
  cases o <;> cases r <;> simp [outside?]

theorem outside?_ne_excluded (o : Operator) (r : Ordering) : o.outside? r ≠ some .excluded := by
  cases o <;> cases r <;> simp [outside?]

theorem placeAgainst_exact (o : Operator) (b v : Exact) :
    o.placeAgainst (.exact b) (.exact v) =
      (o.outside? (v.precedence b)).getD (.inside (Version.admits (.exact b) (.exact v))) := by
  simp only [placeAgainst, Version.precedence_relate, Version.placeInside_exact]
  cases h : v.precedence b with
  | lt | gt => cases o <;> rfl
  | eq =>
      rw [Version.admits_of_precedence h]
      cases o <;> rfl

end Operator

/-! ## Intervals -/

namespace Interval

def outside? (lower upper : Ordering) : Option Placement :=
  if lower = .lt then some .lower
  else if upper ≠ .lt then some .greater
  else none

theorem place_exact (l u v : Exact) : place ⟨.exact l, .exact u⟩ (.exact v) =
    (outside? (v.precedence l) (v.precedence u)).getD
      (.inside (Version.admits (.exact l) (.exact v) || Version.admits (.exact u) (.exact v))) := by
  have admits_or : (Version.admits (.exact l) (.exact v) || Version.admits (.exact u) (.exact v)) =
      (!(Version.exact v).isPrerelease || optsIn (.exact l) (.exact v) ||
        optsIn (.exact u) (.exact v)) := by
    rw [Version.admits, Version.admits]
    cases (Version.exact v).isPrerelease <;> rfl
  rw [place, Version.below_exact, Version.below_exact, admits_or]
  cases v.precedence l with
  | lt => rfl
  | eq | gt => cases v.precedence u <;> rfl

theorem place_eq_lower {l u v : Exact} :
    place ⟨.exact l, .exact u⟩ (.exact v) = .lower ↔ v.precedence l = .lt := by
  rw [place_exact, Placement.getD_inside_eq_lower]
  cases v.precedence l <;> cases v.precedence u <;> decide

/-- The upper end is no part of an interval. -/
theorem place_eq_greater {l u v : Exact} : place ⟨.exact l, .exact u⟩ (.exact v) = .greater ↔
    v.precedence l ≠ .lt ∧ v.precedence u ≠ .lt := by
  rw [place_exact, Placement.getD_inside_eq_greater]
  cases v.precedence l <;> cases v.precedence u <;> decide

/-- An interval, even an inverted one, places a version as the comparison with its lower bound and
the one with its upper bound do together: outside if one of them says so, the lower one first, and
inside satisfied if one of them is. -/
theorem place_eq_comparisons (lower upper v : Exact) :
    place ⟨.exact lower, .exact upper⟩ (.exact v) =
      (let p := Operator.greaterOrEqual.place (.exact lower) (.exact v)
       let q := Operator.less.place (.exact upper) (.exact v)
       if p = .lower then .lower
       else if q = .greater then .greater
       else if p = .satisfied ∨ q = .satisfied then .satisfied
       else .excluded) := by
  rw [place_exact]
  simp only [Operator.place, Operator.placeAgainst_exact]
  cases v.precedence lower <;> cases v.precedence upper <;>
    cases Version.admits (.exact lower) (.exact v) <;>
    cases Version.admits (.exact upper) (.exact v) <;> rfl

end Interval

end Versioning
