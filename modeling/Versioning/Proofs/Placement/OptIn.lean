import Versioning.Proofs.Placement.Side

/-!
# Opting in to prerelease tags

No range takes in a version with a tag of its own accord: one of its bounds has a tag, too, and
belongs to the same release. This holds of every range, also of intervals whose bounds are patterns.
-/

namespace Versioning

namespace Range

/-! ## Boundaries -/

mutual

/-- The versions at the ends of a range and of its alternatives. -/
def boundaries : Range → List Version
  | comparison _ bound => [bound]
  | interval i => [i.lower, i.upper]
  | caret v => [(caretBounds v).lower, (caretBounds v).upper]
  | tilde v => [(tildeBounds v).lower, (tildeBounds v).upper]
  | exact v => [v]
  | composite rs => boundariesAll rs

def boundariesAll : List Range → List Version
  | [] => []
  | r :: rs => r.boundaries ++ boundariesAll rs

end

end Range

/-- The bound has a tag and gives the numbers of `v`. -/
def Version.Announces (bound v : Version) : Prop :=
  bound.isPrerelease = true ∧ bound.major = v.major ∧ bound.minor = v.minor ∧ bound.patch = v.patch

theorem Interval.announces_of_optsIn {bound : Version} {v : Exact}
    (h : optsIn bound (.exact v) = true) : bound.Announces (.exact v) := by
  cases bound with
  | exact b =>
      obtain ⟨hb, hr⟩ := optsIn_exact.1 h
      refine ⟨by rw [Version.isPrerelease_exact, hb]; rfl, ?_⟩
      simp only [Version.major, Version.minor, Version.patch, hr, and_self]
  | pattern w => exact absurd h (by simp [optsIn, Version.isPrerelease, Version.prerelease,
      Prerelease.isNone])

/-- A version with a tag is admitted only by opting in. -/
theorem Version.optsIn_of_admits {bound v : Version} (hv : v.isPrerelease = true)
    (h : bound.admits v = true) : Interval.optsIn bound v = true := by
  rw [admits, hv] at h
  exact h

/-! ## Comparisons and intervals -/

/-- Either end may opt in, whichever of them the version is near. -/
theorem Interval.optsIn_of_place {i : Interval} {v : Version} (hv : v.isPrerelease = true)
    (h : i.place v = .satisfied) : optsIn i.lower v = true ∨ optsIn i.upper v = true := by
  unfold place at h
  split at h
  · contradiction
  · split at h
    · contradiction
    · split at h
      · rename_i hin
        rwa [hv, Bool.not_true, Bool.false_or, Bool.or_eq_true] at hin
      · contradiction

theorem Operator.announces_of_place {o : Operator} {bound : Version} {v : Exact}
    (hv : (Version.exact v).isPrerelease = true) (h : o.place bound (.exact v) = .satisfied) :
    bound.Announces (.exact v) := by
  obtain ⟨_, hadmits⟩ := place_eq_satisfied.1 h
  exact Interval.announces_of_optsIn (Version.optsIn_of_admits hv hadmits)

theorem Interval.exists_announces_of_place {i : Interval} {v : Exact}
    (hv : (Version.exact v).isPrerelease = true) (h : i.place (.exact v) = .satisfied) :
    ∃ b ∈ [i.lower, i.upper], b.Announces (.exact v) := by
  rcases optsIn_of_place hv h with h | h
  · exact ⟨i.lower, by simp, announces_of_optsIn h⟩
  · exact ⟨i.upper, by simp, announces_of_optsIn h⟩

/-! ## Ranges -/

namespace Range

mutual

/-- By induction on the range, since a composite has the boundaries of its alternatives. -/
theorem exists_announces {v : Exact} (hv : (Version.exact v).isPrerelease = true) :
    (r : Range) → r.place (.exact v) = .satisfied →
    ∃ b ∈ r.boundaries, b.Announces (.exact v)
  | .comparison _ bound, h => ⟨bound, by simp [boundaries], Operator.announces_of_place hv h⟩
  | .interval _, h => Interval.exists_announces_of_place hv h
  | .caret _, h => Interval.exists_announces_of_place hv h
  | .tilde _, h => Interval.exists_announces_of_place hv h
  | .exact w, h => ⟨w, by simp [boundaries], Operator.announces_of_place hv h⟩
  | .composite rs, h =>
      exists_announces_of_mem hv rs (Placement.ofAlternatives_eq_satisfied.1 h)

theorem exists_announces_of_mem {v : Exact} (hv : (Version.exact v).isPrerelease = true) :
    (rs : List Range) → Placement.satisfied ∈ placeAll rs (.exact v) →
    ∃ b ∈ boundariesAll rs, b.Announces (.exact v)
  | [], h => by cases h
  | r :: rs, h => by
      rcases List.mem_cons.1 h with h | h
      · obtain ⟨b, hb, ha⟩ := exists_announces hv r h.symm
        exact ⟨b, List.mem_append_left _ hb, ha⟩
      · obtain ⟨b, hb, ha⟩ := exists_announces_of_mem hv rs h
        exact ⟨b, List.mem_append_right _ hb, ha⟩

end

/-- A version with a tag satisfies a range only if a boundary of the range has a tag, too, and the
same numbers. -/
theorem tagged_boundary_of_satisfiedBy (r : Range) {v : Exact}
    (hv : (Version.exact v).isPrerelease = true) (h : r.satisfiedBy (.exact v) = true) :
    ∃ b ∈ r.boundaries, b.isPrerelease = true ∧ b.major = (Version.exact v).major ∧
      b.minor = (Version.exact v).minor ∧ b.patch = (Version.exact v).patch :=
  exists_announces hv r (beq_iff_eq.1 h)

theorem tagged_boundary_of_nested_caret :
    let r : Range := .composite [.comparison .less (.pattern (.single 1)),
      .composite [.caret (.exact ⟨.triple 1 2 3, .ofParts none (some 4) none, .none⟩)]]
    let v : Exact := ⟨.triple 1 2 3, .ofParts none (some 5) none, .ofText "7"⟩
    (Version.exact v).isPrerelease = true ∧ r.satisfiedBy (.exact v) = true ∧
    ∃ b ∈ r.boundaries, b.isPrerelease = true ∧ b.major = (Version.exact v).major ∧
      b.minor = (Version.exact v).minor ∧ b.patch = (Version.exact v).patch := by
  intro r v
  have hv : (Version.exact v).isPrerelease = true := by decide
  have hr : r.satisfiedBy (.exact v) = true := by decide
  exact ⟨hv, hr, tagged_boundary_of_satisfiedBy r hv hr⟩

end Range

end Versioning
