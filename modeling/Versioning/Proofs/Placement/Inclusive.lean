import Versioning.Proofs.Placement.Denotation

/-!
# Tags at the end of an interval

An interval ends before the version that comes next after its last one. Since tags are passed over
on the way there, some of those above the last version are in the interval, too: `1.2.3-beta.2.x` is
in the one through `1.2.3-beta.2`.
-/

namespace Versioning

/-- What comes next has a tag if the version has one, and then the same release. -/
theorem Version.admits_next_iff {u v : Exact} (hv : v.prerelease.isNone = false) :
    admits (.exact u.next) (.exact v) = true ↔
      u.prerelease.isNone = false ∧ u.release = v.release := by
  rw [admits_exact, hv]
  cases hu : u.prerelease.isNone with
  | true =>
      rw [Exact.next_untagged hu]
      simp [Exact.ofRelease, Prerelease.isNone]
  | false =>
      rw [Exact.next_tagged hu, Prerelease.isNone_next, hu]
      simp

namespace Range

variable {l u v : Exact}

/-- Of the versions with tags an interval takes in, as far as one of its two ends opts into them,
those from the first to the last one, and beyond the last one those that are passed over on the way
to what comes next. -/
theorem through_satisfiedBy_tagged_iff (hl : l.release.IsFull) (hu : u.release.IsFull)
    (hfull : v.release.IsFull) (hv : v.prerelease.isNone = false)
    (hpatch : ∀ p ∈ u.release.patch?, p.toNat < Number.maxValue)
    (hnumber : ∀ n ∈ u.prerelease.number, n.toNat < Number.maxValue) :
    let optsIn (bound : Exact) : Prop :=
      bound.prerelease.isNone = false ∧ bound.release = v.release
    ((interval (.through (.exact l) (.exact u))).satisfiedBy (.exact v) = true ↔
      (l.precedence v).isLE = true ∧ ((v.precedence u).isLE = true ∨ u.StepsOver v) ∧
        (optsIn l ∨ optsIn u)) ∧
    (u.StepsOver v → u.precedence v = .lt) := by
  intro optsIn
  have hlower : (Version.exact l.floor).admits (.exact v) = true ↔ optsIn l := by
    rw [Version.admits_exact, Exact.release_floor hl, hv]
    simp [Exact.floor, optsIn]
  have hplace : (interval (.through (.exact l) (.exact u))).satisfiedBy (.exact v) = true ↔
      Interval.place ⟨.exact l.floor, .exact u.next⟩ (.exact v) = .satisfied := beq_iff_eq
  have hfirst : (l.precedence v).isLE = true ↔ v.precedence l ≠ .lt := isLE_iff_not_lt
  constructor
  · rw [hplace, Interval.place_eq_satisfied, Exact.precedence_floor hl, hlower,
      Exact.lt_next_iff hpatch hnumber hu hfull hv, Version.admits_next_iff hv, hfirst]
  · intro h
    exact ((Exact.between_next_iff hpatch hnumber hu hfull hv).2 h).1

theorem through_satisfiedBy_tagged_beta :
    let tag (n : Number) (after : Option Label) : Prerelease :=
      .ofParts (Label.ofText? "beta") (some n) after
    let l : Exact := ⟨.triple 1 2 3, tag 1 none, .none⟩
    let u : Exact := ⟨.triple 1 2 3, tag 2 none, .none⟩
    let v : Exact := ⟨.triple 1 2 3, tag 2 (Label.ofText? "x"), .none⟩
    l.release.IsFull ∧ u.release.IsFull ∧ v.release.IsFull ∧ v.prerelease.isNone = false ∧
      (∀ p ∈ u.release.patch?, p.toNat < Number.maxValue) ∧
      (∀ n ∈ u.prerelease.number, n.toNat < Number.maxValue) ∧
      (interval (.through (.exact l) (.exact u))).satisfiedBy (.exact v) = true ∧
      u.precedence v = .lt := by
  intro tag l u v
  have hl : l.release.IsFull := rfl
  have hu : u.release.IsFull := rfl
  have hfull : v.release.IsFull := rfl
  have hv : v.prerelease.isNone = false := by decide
  have hpatch : ∀ p ∈ u.release.patch?, p.toNat < Number.maxValue := by decide
  have hnumber : ∀ n ∈ u.prerelease.number, n.toNat < Number.maxValue := by decide
  have hsteps : u.StepsOver v := ⟨rfl, by decide⟩
  have hlower : (l.precedence v).isLE = true := by decide
  obtain ⟨satisfied_iff, lt_of_stepsOver⟩ :=
    through_satisfiedBy_tagged_iff hl hu hfull hv hpatch hnumber
  exact ⟨hl, hu, hfull, hv, hpatch, hnumber,
    satisfied_iff.2 ⟨hlower, .inr hsteps, .inl ⟨by decide, rfl⟩⟩, lt_of_stepsOver hsteps⟩

theorem through_not_up_to_last : ¬ ∀ l u v : Exact, l.release.IsFull → u.release.IsFull →
    v.release.IsFull → v.prerelease.isNone = false →
    (∀ p ∈ u.release.patch?, p.toNat < Number.maxValue) →
    (∀ n ∈ u.prerelease.number, n.toNat < Number.maxValue) →
    let optsIn (bound : Exact) : Prop :=
      bound.prerelease.isNone = false ∧ bound.release = v.release
    ((interval (.through (.exact l) (.exact u))).satisfiedBy (.exact v) = true ↔
      (l.precedence v).isLE = true ∧ (v.precedence u).isLE = true ∧ (optsIn l ∨ optsIn u)) := by
  intro h
  let tag (n : Number) (after : Option Label) : Prerelease :=
    .ofParts (Label.ofText? "beta") (some n) after
  have hclaimed := (h ⟨.triple 1 2 3, tag 1 none, .none⟩ ⟨.triple 1 2 3, tag 2 none, .none⟩
    ⟨.triple 1 2 3, tag 2 (Label.ofText? "x"), .none⟩ rfl rfl rfl (by decide) (by decide)
    (by decide)).1 (by decide)
  exact absurd hclaimed.2.1 (by decide)

end Range

end Versioning
