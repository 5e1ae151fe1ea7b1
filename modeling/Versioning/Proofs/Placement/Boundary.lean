import Versioning.Parse
import Versioning.Proofs.Placement.Bound

/-!
# Across the upper bound

The bound above a caret or tilde is a release of three numbers that ends in zeros, and a missing
number is below zero. So the line that starts at the bound reaches below it with the partial
versions that leave out those zeros: `^1.3.0` is satisfied by `2` and by `2.0`, and `~1.3.0` by
`1.4`. Nothing else gets across.
-/

namespace Versioning

/-! ## Releases -/

namespace Release

/-- Above a release of three numbers and below the next line there is, outside its own line, only
what the next line has without its zero. -/
theorem between_majors {r : Release} {m n p : Number} (hm : m.toNat < Number.maxValue) :
    compare (triple m n p) r = .lt ∧ compare r (triple m.succ 0 0) = .lt ∧ r.major ≠ m ↔
      r = single m.succ ∨ r = pair m.succ 0 := by
  have hsucc := Number.toNat_succ_of_lt hm
  rw [lt_triple_zero]
  constructor
  · rintro ⟨hl, hu, hne⟩
    have hle : m.toNat ≤ r.major.toNat := major_le_of_lt hl
    rcases hu with hu | hu | ⟨k, _, _, hk⟩ | hu
    · exact absurd (Number.ext (by omega)) hne
    · exact .inl hu
    · exact absurd hk (Nat.not_lt_zero _)
    · exact .inr hu
  · intro h
    have hmajor : r.major = m.succ := by rcases h with rfl | rfl <;> rfl
    refine ⟨compare_eq_lt.2 (.inl ?_), ?_, fun he => ?_⟩
    · rw [hmajor, hsucc]
      exact Nat.lt_succ_self _
    · exact .inr (h.imp_right .inr)
    · rw [hmajor] at he
      have := congrArg Number.toNat he
      omega

theorem between_minors {r : Release} {m n p : Number} (hn : n.toNat < Number.maxValue) :
    compare (triple m n p) r = .lt ∧ compare r (triple m n.succ 0) = .lt ∧
      ¬ (r.major = m ∧ r.minor? = some n) ↔ r = pair m n.succ := by
  have hsucc := Number.toNat_succ_of_lt hn
  constructor
  · rintro ⟨hl, hu, hne⟩
    have hmajor : r.major = m :=
      Number.ext (Nat.le_antisymm (major_le_of_lt hu) (major_le_of_lt hl))
    have habove : ∃ k, r.minor? = some k ∧ n.toNat < k.toNat := by
      rcases compare_eq_lt.1 hl with hlt | ⟨_, hminor | ⟨hminor, _⟩⟩
      · rw [hmajor] at hlt
        exact absurd hlt (Nat.lt_irrefl _)
      · exact lt_compare_minor.1 hminor
      · exact absurd ⟨hmajor, hminor.symm⟩ hne
    obtain ⟨k, hk, hnk⟩ := habove
    rcases lt_triple_zero.1 hu with hlt | rfl | ⟨l, hl, _, hln⟩ | hr
    · rw [hmajor] at hlt
      exact absurd hlt (Nat.lt_irrefl _)
    · contradiction
    · rw [hk] at hl
      cases hl
      omega
    · exact hr
  · rintro rfl
    refine ⟨compare_eq_lt.2 (.inr ⟨rfl, .inl (Number.lt_succ hn)⟩),
      lt_triple_zero.2 (.inr (.inr (.inr rfl))), ?_⟩
    rintro ⟨_, he⟩
    have := congrArg Number.toNat (Option.some.inj he)
    omega

theorem major_nextBreaking_of_zero {r : Release} (h : ¬ 0 < r.major.toNat) :
    r.nextBreaking.major = 0 := by
  simp only [nextBreaking, if_neg h]
  split <;> rfl

end Release

/-! ## Intervals -/

namespace Interval

theorem place_eq_satisfied {l u v : Exact} :
    place ⟨.exact l, .exact u⟩ (.exact v) = .satisfied ↔ v.precedence l ≠ .lt ∧
      v.precedence u = .lt ∧ (Version.admits (.exact l) (.exact v) = true ∨
        Version.admits (.exact u) (.exact v) = true) := by
  have hside : outside? (v.precedence l) (v.precedence u) ≠ some .satisfied := by
    unfold outside?
    split
    · simp
    · split <;> simp
  rw [place_exact, Placement.getD_inside_eq_satisfied hside, Bool.or_eq_true, ← and_assoc]
  refine and_congr_left' ?_
  cases v.precedence l <;> cases v.precedence u <;> decide

/-- Away from the release of its lower bound, an interval is satisfied by what has no tag and stands
between the two releases. -/
theorem satisfied_away {l v : Exact} {r : Release} :
    place ⟨.exact l, .exact (.ofRelease r)⟩ (.exact v) = .satisfied ∧ v.release ≠ l.release ↔
      v.prerelease.isNone = true ∧ compare l.release v.release = .lt ∧
        compare v.release r = .lt := by
  rw [place_eq_satisfied]
  simp only [Version.admits_exact]
  constructor
  · rintro ⟨⟨hl, hu, hadmits⟩, hne⟩
    have hv : v.prerelease.isNone = true := by
      rcases hadmits with (hv | ⟨_, he⟩) | (hv | ⟨hr, _⟩)
      · exact hv
      · exact absurd he.symm hne
      · exact hv
      · contradiction
    rw [Exact.precedence_ofRelease hv] at hu
    rw [Exact.precedence_of_release_ne hne] at hl
    refine ⟨hv, ?_, hu⟩
    cases hc : compare v.release l.release with
    | lt => contradiction
    | eq => exact absurd (Std.LawfulEqOrd.eq_of_compare hc) hne
    | gt => exact Std.OrientedCmp.lt_of_gt hc
  · rintro ⟨hv, hl, hu⟩
    have hgt : compare v.release l.release = .gt := Std.OrientedCmp.gt_of_lt hl
    have hne : v.release ≠ l.release := by
      intro he
      rw [he, Std.ReflOrd.compare_self] at hgt
      contradiction
    rw [Exact.precedence_of_release_ne hne, Exact.precedence_ofRelease hv, hgt]
    exact ⟨⟨by decide, hu, .inl (.inl hv)⟩, hne⟩

theorem satisfied_beyond {l v : Exact} {r : Release} {P : Release → Prop} (hP : ¬ P l.release) :
    place ⟨.exact l, .exact (.ofRelease r)⟩ (.exact v) = .satisfied ∧ P v.release ↔
      v.prerelease.isNone = true ∧
        (compare l.release v.release = .lt ∧ compare v.release r = .lt ∧ P v.release) := by
  have hne (h : P v.release) : v.release ≠ l.release := fun he => hP (he ▸ h)
  constructor
  · rintro ⟨hs, h⟩
    obtain ⟨hv, hl, hu⟩ := satisfied_away.1 ⟨hs, hne h⟩
    exact ⟨hv, hl, hu, h⟩
  · rintro ⟨hv, hl, hu, h⟩
    exact ⟨(satisfied_away.2 ⟨hv, hl, hu⟩).1, h⟩

end Interval

/-! ## Carets and tildes -/

namespace Range

variable {m n p : Number} {tag : Prerelease} {b : Build} {v : Exact}

theorem caret_crosses_iff (hm : m.toNat < Number.maxValue) :
    (caret (.exact ⟨.triple m n p, tag, b⟩)).satisfiedBy (.exact v) = true ∧
        v.release.major ≠ m ↔
      0 < m.toNat ∧ v.prerelease.isNone = true ∧
        (v.release = .single m.succ ∨ v.release = .pair m.succ 0) := by
  have hplace : (caret (.exact ⟨.triple m n p, tag, b⟩)).satisfiedBy (.exact v) = true ↔
      Interval.place ⟨.exact ⟨.triple m n p, tag, .none⟩,
        .exact (.ofRelease (Release.triple m n p).nextBreaking)⟩ (.exact v) = .satisfied :=
    beq_iff_eq
  rw [hplace, Interval.satisfied_beyond (P := fun r => r.major ≠ m) (not_not_intro rfl)]
  by_cases hpos : 0 < m.toNat
  · have hnext : (Release.triple m n p).nextBreaking = .triple m.succ 0 0 := if_pos hpos
    rw [hnext, Release.between_majors hm]
    simp [hpos]
  -- Without a major the bound is of the major 0, too.
  · have hnext : (Release.triple m n p).nextBreaking.major = 0 :=
      Release.major_nextBreaking_of_zero hpos
    refine iff_of_false ?_ fun h => hpos h.1
    rintro ⟨_, _, hu, hne⟩
    have hle := Release.major_le_of_lt hu
    rw [hnext] at hle
    exact hne (Number.ext (by simp at hle; omega))

theorem tilde_crosses_iff (hn : n.toNat < Number.maxValue) :
    (tilde (.exact ⟨.triple m n p, tag, b⟩)).satisfiedBy (.exact v) = true ∧
        ¬ (v.release.major = m ∧ v.release.minor? = some n) ↔
      v.prerelease.isNone = true ∧ v.release = .pair m n.succ := by
  have hplace : (tilde (.exact ⟨.triple m n p, tag, b⟩)).satisfiedBy (.exact v) = true ↔
      Interval.place ⟨.exact ⟨.triple m n p, tag, .none⟩,
        .exact (.ofRelease (.triple m n.succ 0))⟩ (.exact v) = .satisfied :=
    beq_iff_eq
  rw [hplace, Interval.satisfied_beyond (P := fun r => ¬ (r.major = m ∧ r.minor? = some n))
    (not_not_intro ⟨rfl, rfl⟩), Release.between_minors hn]

/-- What crosses the boundary of a caret or tilde, whatever tags the base and the candidate have:
of the next line, the untagged versions that leave out the zeros of the bound, and nothing else. -/
theorem compatible_crosses_iff (m n p : Number) (tag : Prerelease) (b : Build) (v : Exact)
    (hm : m.toNat < Number.maxValue) (hn : n.toNat < Number.maxValue) :
    let base : Version := .exact ⟨.triple m n p, tag, b⟩
    let w : Version := .exact v
    ((caret base).satisfiedBy w = true ∧ w.major ≠ base.major ↔
      0 < m.toNat ∧ v.prerelease.isNone = true ∧
        (v.release = .single m.succ ∨ v.release = .pair m.succ 0)) ∧
    ((tilde base).satisfiedBy w = true ∧ ¬ (w.major = base.major ∧ w.minor = base.minor) ↔
      v.prerelease.isNone = true ∧ v.release = .pair m n.succ) := by
  have hminor : Component.ofNumber? v.release.minor? = .number n ↔ v.release.minor? = some n := by
    cases v.release.minor? <;> simp [Component.ofNumber?]
  refine ⟨caret_crosses_iff hm, ?_⟩
  rw [← tilde_crosses_iff hn, ← hminor]
  rfl

theorem compatible_crosses_two_zero :
    let base : Version := .exact ⟨.triple 1 3 0, .ofParts (Label.ofText? "rc") (some 1) none, .none⟩
    (caret base).satisfiedBy (.exact (.ofRelease (.pair 2 0))) = true ∧
      (tilde base).satisfiedBy (.exact (.ofRelease (.pair 1 4))) = true := by
  intro base
  have hm : (1 : Number).toNat < Number.maxValue := by decide
  have hn : (3 : Number).toNat < Number.maxValue := by decide
  exact ⟨((compatible_crosses_iff 1 3 0 _ .none (.ofRelease (.pair 2 0)) hm hn).1.2
    ⟨by decide, rfl, .inr rfl⟩).1,
    ((compatible_crosses_iff 1 3 0 _ .none (.ofRelease (.pair 1 4)) hm hn).2.2 ⟨rfl, rfl⟩).1⟩

theorem compatible_not_within_line : ¬ ∀ (m n p : Number) (tag : Prerelease) (b : Build)
    (s : String) (v : Exact), m.toNat < Number.maxValue → n.toNat < Number.maxValue →
    p.toNat < Number.maxValue → Exact.parse s = .ok v →
    let base : Version := .exact ⟨.triple m n p, tag, b⟩
    let w : Version := .exact v
    ((caret base).satisfiedBy w = true → w.major = base.major) ∧
      ((tilde base).satisfiedBy w = true → w.major = base.major ∧ w.minor = base.minor) := by
  intro h
  have hread : Exact.parse "2.0" = .ok (.ofRelease (.pair 2 0)) := by rfl
  have hwithin := (h 1 3 0 .none .none "2.0" _ (by decide) (by decide) (by decide) hread).1
  exact absurd (hwithin (by decide)) (by decide)

end Range

end Versioning
