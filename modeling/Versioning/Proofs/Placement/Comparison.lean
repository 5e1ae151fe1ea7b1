import Versioning.Proofs.Placement.Boundary
import Versioning.Proofs.Placement.Side
import Versioning.Proofs.Range.Reading

/-!
# Comparisons with releases

A bound without a tag opts into no tags, so a comparison with it takes in the versions without tags
whose release is on its side. What stands for any version is the comparison with `0.0.0`, and two
versions are below that: `0` and `0.0`, which leave zeros out.
-/

namespace Versioning

namespace Range

theorem satisfiedBy_comparison_ofRelease {o : Operator} {r : Release} {v : Exact} :
    (comparison o (.ofRelease r)).satisfiedBy (.exact v) = true ↔
      v.prerelease.isNone = true ∧ o.outside? (compare v.release r) = none := by
  have huntagged : (Version.ofRelease r).isPrerelease = false := rfl
  have hside : (Version.ofRelease r).side v = v.precedence (.ofRelease r) := rfl
  rw [satisfiedBy_comparison, Version.admits_of_untagged huntagged, hside, Bool.and_eq_true,
    Option.isNone_iff_eq_none, and_comm]
  apply and_congr_right
  intro hv
  rw [Exact.precedence_ofRelease hv]

theorem parse_star : Range.parse "*" = .ok (comparison .greaterOrEqual (.ofNumbers 0 0 0)) := by
  have hread : Grammar.ReadsAs (Text.trim "*".toList) [.any] :=
    ⟨.single (.any (.single rfl)), by simp [Grammar.AlternativeText.TriplesExact,
      Grammar.AlternativeText.versions]⟩
  rw [parse_of_readsAs hread]
  rfl

/-- Of the versions without tags, `*` is satisfied by all but `0` and `0.0`, and of those with tags
by none. -/
theorem satisfiedBy_star_iff (v : Exact) : ∃ r, Range.parse "*" = .ok r ∧
    (r.satisfiedBy (.exact v) = true ↔
      v.prerelease.isNone = true ∧ v.release ≠ .single 0 ∧ v.release ≠ .pair 0 0) := by
  refine ⟨_, parse_star, ?_⟩
  have hbelow : compare v.release (.triple 0 0 0) = .lt ↔
      v.release = .single 0 ∨ v.release = .pair 0 0 := by
    simp [Release.lt_triple_zero]
  have hside : Operator.greaterOrEqual.outside? (compare v.release (.triple 0 0 0)) = none ↔
      compare v.release (.triple 0 0 0) ≠ .lt := by
    cases compare v.release (.triple 0 0 0) <;> simp [Operator.outside?]
  rw [Version.ofNumbers, satisfiedBy_comparison_ofRelease, hside, ne_eq, hbelow, not_or]

theorem star_not_satisfiedBy_zero : ¬ ∀ (s : String) (v : Exact) (r : Range),
    Exact.parse s = .ok v → Range.parse "*" = .ok r →
    (v.prerelease.isNone = true → r.satisfiedBy (.exact v) = true) ∧
      (v.prerelease.isNone = false → r.satisfiedBy (.exact v) = false) := by
  intro h
  have hread : Exact.parse "0" = .ok (.ofRelease (.single 0)) := rfl
  have hzero := (h "0" _ _ hread parse_star).1 rfl
  rw [Version.ofNumbers] at hzero
  exact absurd hzero (by decide)

end Range

end Versioning
