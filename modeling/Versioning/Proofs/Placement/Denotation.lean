import Versioning.Proofs.Navigation.Successor
import Versioning.Proofs.Placement.Boundary
import Versioning.Proofs.Placement.Side

/-!
# What patterns stand for

A pattern stands for the releases of three numbers that it matches. They have a lowest and a highest
one, and as long as the numbers of the pattern can be counted up, its ceiling is the first release
above them. So a pattern as a bound comes to the same as a comparison with some or with all of these
releases, and an interval reaches from the lowest version that its first end stands for up to the
highest one of its last end.
-/

namespace Versioning

/-- The number that is its own successor. -/
def Number.last : Number :=
  ⟨maxValue, Nat.le_refl _⟩

@[simp] theorem Number.toNat_last : last.toNat = maxValue := rfl

/-- A full release has nothing to fill in. -/
theorem Exact.release_floor {v : Exact} (h : v.release.IsFull) : v.floor.release = v.release := by
  obtain ⟨m, n, p, hr⟩ := h.exists_triple
  rw [floor, hr]
  rfl

theorem Exact.precedence_floor {u v : Exact} (h : v.release.IsFull) :
    u.precedence v.floor = u.precedence v := by
  rw [precedence, release_floor h]
  rfl

/-! ## The releases of a pattern -/

namespace Pattern

variable {w : Pattern} {r : Release} {m n p : Number}

/-- The release has three numbers, of which the major is that of the pattern, and so is the minor
if the pattern gives one. -/
def Matches (w : Pattern) : Release → Prop
  | .triple m n _ => m = w.major ∧ ∀ k ∈ w.minor.number?, n = k
  | _ => False

instance (w : Pattern) : (r : Release) → Decidable (w.Matches r)
  | .triple m n _ => inferInstanceAs (Decidable (m = w.major ∧ ∀ k ∈ w.minor.number?, n = k))
  | .single _ | .pair _ _ => inferInstanceAs (Decidable False)

/-- The highest release of the set. -/
def last (w : Pattern) : Release :=
  .triple w.major (w.minor.number?.getD .last) .last

/-- The numbers of the pattern have successors. -/
def CountsUp (w : Pattern) : Prop :=
  w.major.toNat < Number.maxValue ∧ ∀ n ∈ w.minor.number?, n.toNat < Number.maxValue

instance (w : Pattern) : Decidable w.CountsUp :=
  inferInstanceAs (Decidable (_ ∧ _))

theorem Matches.isFull (h : w.Matches r) : r.IsFull := by
  cases r with
  | triple m n p => rfl
  | single m | pair m n => exact h.elim

theorem matches_floor (w : Pattern) : w.Matches w.floor :=
  ⟨rfl, fun k hk => by rw [hk]; rfl⟩

theorem matches_last (w : Pattern) : w.Matches w.last :=
  ⟨rfl, fun k hk => by rw [hk]; rfl⟩

theorem isLE_floor_iff : (compare w.floor (.triple m n p)).isLE = true ↔
    w.major.toNat < m.toNat ∨ m = w.major ∧ ∀ k ∈ w.minor.number?, k.toNat ≤ n.toNat := by
  rw [isLE_iff_not_lt, floor, ne_eq, Release.triple_lt_triple, Number.ext_iff]
  cases w.minor.number? with
  | none =>
      simp only [Option.getD_none, Number.toNat_zero, Nat.not_lt_zero, and_false, or_false,
        Option.mem_def, reduceCtorEq, false_imp_iff, implies_true, and_true]
      omega
  | some k =>
      simp only [Option.getD_some, Number.toNat_zero, Nat.not_lt_zero, and_false, or_false,
        Option.mem_def, Option.some.injEq, forall_eq']
      omega

theorem isLE_last_iff : (compare (.triple m n p) w.last).isLE = true ↔
    m.toNat < w.major.toNat ∨ m = w.major ∧ ∀ k ∈ w.minor.number?, n.toNat ≤ k.toNat := by
  have hn : n.toNat ≤ Number.maxValue := n.le_max
  have hp : p.toNat ≤ Number.maxValue := p.le_max
  rw [isLE_iff_not_lt, last, ne_eq, Release.triple_lt_triple, Number.ext_iff]
  cases w.minor.number? with
  | none =>
      simp only [Option.getD_none, Number.toNat_last, Option.mem_def, reduceCtorEq, false_imp_iff,
        implies_true, and_true]
      omega
  | some k =>
      simp only [Option.getD_some, Number.toNat_last, Option.mem_def, Option.some.injEq, forall_eq']
      omega

/-- A pattern matches all releases from its lowest to its highest one. -/
theorem matches_iff (hr : r.IsFull) :
    w.Matches r ↔ (compare w.floor r).isLE = true ∧ (compare r w.last).isLE = true := by
  obtain ⟨m, n, p, rfl⟩ := hr.exists_triple
  rw [isLE_floor_iff, isLE_last_iff, Matches]
  constructor
  · rintro ⟨rfl, hn⟩
    exact ⟨.inr ⟨rfl, fun k hk => hn k hk ▸ Nat.le_refl _⟩,
      .inr ⟨rfl, fun k hk => hn k hk ▸ Nat.le_refl _⟩⟩
  · rintro ⟨hlower | ⟨rfl, hlower⟩, hupper | ⟨hm, hupper⟩⟩
    · omega
    · exact absurd hlower (hm ▸ Nat.lt_irrefl _)
    · omega
    · exact ⟨rfl, fun k hk => Number.ext (Nat.le_antisymm (hupper k hk) (hlower k hk))⟩

/-- Between the last release of a pattern and its ceiling there is no full release. -/
theorem lt_ceil_iff (hw : w.CountsUp) (hr : r.IsFull) :
    compare r w.ceil = .lt ↔ (compare r w.last).isLE = true := by
  obtain ⟨m, n, p, rfl⟩ := hr.exists_triple
  obtain ⟨hmajor, hminor⟩ := hw
  rw [isLE_last_iff, ceil, Number.ext_iff]
  cases h : w.minor.number? with
  | none =>
      simp only [Release.triple_lt_triple, Number.toNat_succ_of_lt hmajor, Number.toNat_zero,
        Nat.not_lt_zero, and_false, or_false, Option.mem_def, reduceCtorEq, false_imp_iff,
        implies_true, and_true]
      omega
  | some k =>
      simp only [Release.triple_lt_triple, Number.toNat_succ_of_lt (hminor k h), Number.toNat_zero,
        Nat.not_lt_zero, and_false, or_false, Option.mem_def, Option.some.injEq, forall_eq']
      omega

end Pattern

/-! ## The versions of a bound -/

namespace Version

variable {bound : Version} {u v : Exact}

/-- The exact versions that a bound stands for: an exact version for itself, and a pattern for the
releases that it matches. -/
def Denotes : Version → Exact → Prop
  | exact v, u => u = v
  | pattern w, u => ∃ r, w.Matches r ∧ u = .ofRelease r

/-- The highest exact version that a bound stands for. -/
def highest : Version → Exact
  | exact v => v
  | pattern w => .ofRelease w.last

theorem denotes_lowest (bound : Version) : bound.Denotes bound.lowest := by
  cases bound with
  | exact v => rfl
  | pattern w => exact ⟨w.floor, w.matches_floor, rfl⟩

theorem denotes_highest (bound : Version) : bound.Denotes bound.highest := by
  cases bound with
  | exact v => rfl
  | pattern w => exact ⟨w.last, w.matches_last, rfl⟩

theorem Denotes.within (h : bound.Denotes u) :
    (bound.lowest.precedence u).isLE = true ∧ (u.precedence bound.highest).isLE = true := by
  cases bound with
  | exact v =>
      cases h
      exact ⟨Std.ReflCmp.isLE_rfl, Std.ReflCmp.isLE_rfl⟩
  | pattern w =>
      obtain ⟨r, hr, rfl⟩ := h
      rw [lowest, highest, Exact.precedence_ofRelease rfl, Exact.precedence_ofRelease rfl]
      exact (Pattern.matches_iff hr.isFull).1 hr

/-- To be at least the lowest version of a bound is to be at least some version of it. -/
theorem isLE_lowest_iff : (bound.lowest.precedence v).isLE = true ↔
    ∃ u, bound.Denotes u ∧ (u.precedence v).isLE = true :=
  ⟨fun h => ⟨_, bound.denotes_lowest, h⟩,
    fun ⟨_, hu, h⟩ => Std.TransCmp.isLE_trans hu.within.1 h⟩

theorem isLE_highest_iff : (v.precedence bound.highest).isLE = true ↔
    ∃ u, bound.Denotes u ∧ (v.precedence u).isLE = true :=
  ⟨fun h => ⟨_, bound.denotes_highest, h⟩,
    fun ⟨_, hu, h⟩ => Std.TransCmp.isLE_trans h hu.within.2⟩

theorem lt_lowest_iff : v.precedence bound.lowest = .lt ↔
    ∀ u, bound.Denotes u → v.precedence u = .lt :=
  ⟨fun h _ hu => Std.TransCmp.lt_of_lt_of_isLE h hu.within.1, fun h => h _ bound.denotes_lowest⟩

theorem highest_lt_iff : bound.highest.precedence v = .lt ↔
    ∀ u, bound.Denotes u → u.precedence v = .lt :=
  ⟨fun h _ hu => Std.TransCmp.lt_of_isLE_of_lt hu.within.2 h, fun h => h _ bound.denotes_highest⟩

/-- A version without a tag is matched if it is not outside of what the pattern stands for. -/
theorem matches_iff_between {w : Pattern} (hfull : v.release.IsFull)
    (hv : v.prerelease.isNone = true) : w.Matches v.release ↔
      ((pattern w).lowest.precedence v).isLE = true ∧
        (v.precedence (pattern w).highest).isLE = true := by
  rw [lowest, highest, Exact.precedence_untagged rfl hv, Exact.precedence_ofRelease hv]
  exact Pattern.matches_iff hfull

theorem side_pattern_eq_gt_iff {w : Pattern} (hw : w.CountsUp) (hfull : v.release.IsFull)
    (hv : v.prerelease.isNone = true) :
    (pattern w).side v = .gt ↔ (pattern w).highest.precedence v = .lt := by
  rw [side_pattern_eq_gt, Exact.precedence_ofRelease hv, ne_eq, Pattern.lt_ceil_iff hw hfull,
    isLE_iff_not_lt, Decidable.not_not, highest, Exact.precedence_untagged rfl hv]
  rfl

/-! ## The ends of an interval -/

/-- A version with three numbers, or a pattern, whose number that is counted up past the end of an
interval has a successor. -/
inductive CountsUp : Version → Prop
  | exact {b : Exact} {m n p : Number} (hb : b.release = .triple m n p)
      (hp : p.toNat < Number.maxValue) : CountsUp (.exact b)
  | pattern {w : Pattern} (hw : w.CountsUp) : CountsUp (.pattern w)

/-- The floor of a bound stands for its lowest version. -/
theorem CountsUp.below_floor (h : bound.CountsUp) :
    (Version.exact v).below bound.floor = true ↔ v.precedence bound.lowest = .lt := by
  cases h with
  | @exact b m n p hb hp =>
      have hfull : b.release.IsFull := hb ▸ rfl
      rw [Version.floor, below_exact, beq_iff_eq, Exact.precedence_floor hfull]
      rfl
  | pattern hw =>
      rw [Version.floor, ofRelease, below_exact, beq_iff_eq]
      rfl

/-- What comes next after an end of an interval is the first version above all it stands for. -/
theorem CountsUp.below_next (h : bound.CountsUp) (hfull : v.release.IsFull)
    (hv : v.prerelease.isNone = true) :
    (Version.exact v).below bound.next = true ↔ (v.precedence bound.highest).isLE = true := by
  cases h with
  | @exact b m n p hb hp =>
      rw [Version.next, below_exact, beq_iff_eq, highest]
      cases htag : b.prerelease.isNone with
      | true =>
          rw [Exact.next_untagged htag, Exact.precedence_ofRelease hv,
            Exact.precedence_untagged hv htag]
          refine Release.lt_nextPatch_iff (hb ▸ rfl) hfull fun k hk => ?_
          rw [hb] at hk
          cases hk
          exact hp
      -- Without a tag, the version is above all tags of a release or below them all.
      | false =>
          have hnext : b.prerelease.next.isNone = false := b.prerelease.isNone_next.trans htag
          rw [Exact.next_tagged htag, Exact.isLE_precedence_tagged hv htag,
            Exact.precedence_tagged_eq_lt hv hnext]
  | @pattern w hw =>
      rw [Version.next, ofRelease, below_exact, beq_iff_eq, highest, Exact.precedence_ofRelease hv,
        Exact.precedence_ofRelease hv]
      exact Pattern.lt_ceil_iff hw hfull

end Version

/-! ## Ranges -/

theorem Interval.place_untagged {i : Interval} {v : Exact} (hv : v.prerelease.isNone = true) :
    i.place (.exact v) = .satisfied ↔
      (Version.exact v).below i.lower = false ∧ (Version.exact v).below i.upper = true := by
  rw [place, Version.isPrerelease_exact, hv]
  cases (Version.exact v).below i.lower <;> cases (Version.exact v).below i.upper <;> simp

namespace Range

variable {v : Exact}

theorem satisfiedBy_comparison_untagged {o : Operator} {bound : Version}
    (hv : v.prerelease.isNone = true) :
    (comparison o bound).satisfiedBy (.exact v) = true ↔ o.Holds (bound.side v) := by
  have hadmits : bound.admits (.exact v) = true := by
    rw [Version.admits, Version.isPrerelease_exact, hv]
    rfl
  rw [satisfiedBy_comparison, hadmits, Bool.and_true, Option.isNone_iff_eq_none,
    Operator.outside?_eq_none]

/-- An interval takes in what lies between its lowest and its highest version, both included. -/
theorem satisfiedBy_through {first last : Version} (hfirst : first.CountsUp)
    (hlast : last.CountsUp) (hfull : v.release.IsFull) (hv : v.prerelease.isNone = true) :
    (interval (.through first last)).satisfiedBy (.exact v) = true ↔
      (first.lowest.precedence v).isLE = true ∧ (v.precedence last.highest).isLE = true := by
  have hplace : (interval (.through first last)).satisfiedBy (.exact v) = true ↔
      (Interval.through first last).place (.exact v) = .satisfied := beq_iff_eq
  rw [hplace, Interval.place_untagged hv, ← hlast.below_next hfull hv, isLE_iff_not_lt, ne_eq,
    ← hfirst.below_floor, Bool.not_eq_true]
  rfl

/-- A pattern as a bound does for a full release what comparing with the releases that it matches
does, and an interval takes in what is between two of the versions that its ends stand for. -/
theorem bounds_denote {v : Exact} (hfull : v.release.IsFull) (hv : v.prerelease.isNone = true) :
    (∀ w : Pattern, w.CountsUp →
      let bound : Version := .pattern w
      let satisfied (r : Range) : Prop := r.satisfiedBy (.exact v) = true
      (satisfied (comparison .equal bound) ↔ w.Matches v.release) ∧
      (satisfied (exact bound) ↔ w.Matches v.release) ∧
      (satisfied (interval (.through bound bound)) ↔ w.Matches v.release) ∧
      (satisfied (comparison .greaterOrEqual bound) ↔
        ∃ u, bound.Denotes u ∧ (u.precedence v).isLE = true) ∧
      (satisfied (comparison .lessOrEqual bound) ↔
        ∃ u, bound.Denotes u ∧ (v.precedence u).isLE = true) ∧
      (satisfied (comparison .less bound) ↔ ∀ u, bound.Denotes u → v.precedence u = .lt) ∧
      (satisfied (comparison .greater bound) ↔ ∀ u, bound.Denotes u → u.precedence v = .lt)) ∧
    ∀ first last : Version, first.CountsUp → last.CountsUp →
      ((interval (.through first last)).satisfiedBy (.exact v) = true ↔
        ∃ u₁ u₂, first.Denotes u₁ ∧ last.Denotes u₂ ∧
          (u₁.precedence v).isLE = true ∧ (v.precedence u₂).isLE = true) := by
  constructor
  · intro w hw bound satisfied
    have hlower : bound.side v = .lt ↔ v.precedence bound.lowest = .lt := Version.side_eq_lt
    have hupper : bound.side v = .gt ↔ bound.highest.precedence v = .lt :=
      Version.side_pattern_eq_gt_iff hw hfull hv
    have hatLeast : bound.side v ≠ .lt ↔ (bound.lowest.precedence v).isLE = true := by
      rw [ne_eq, hlower, isLE_iff_not_lt]
    have hatMost : bound.side v ≠ .gt ↔ (v.precedence bound.highest).isLE = true := by
      rw [ne_eq, hupper, isLE_iff_not_lt]
    have hequal : bound.side v = .eq ↔ w.Matches v.release := by
      rw [Version.matches_iff_between hfull hv, ← hatLeast, ← hatMost]
      cases bound.side v <;> decide
    have hcomparison (o : Operator) : satisfied (comparison o bound) ↔ o.Holds (bound.side v) :=
      satisfiedBy_comparison_untagged hv
    refine ⟨(hcomparison .equal).trans hequal, (hcomparison .equal).trans hequal, ?_,
      (hcomparison .greaterOrEqual).trans (hatLeast.trans Version.isLE_lowest_iff),
      (hcomparison .lessOrEqual).trans (hatMost.trans Version.isLE_highest_iff),
      (hcomparison .less).trans (hlower.trans Version.lt_lowest_iff),
      (hcomparison .greater).trans (hupper.trans Version.highest_lt_iff)⟩
    rw [Version.matches_iff_between hfull hv]
    exact satisfiedBy_through (.pattern hw) (.pattern hw) hfull hv
  · intro first last hfirst hlast
    rw [satisfiedBy_through hfirst hlast hfull hv, Version.isLE_lowest_iff,
      Version.isLE_highest_iff]
    constructor
    · rintro ⟨⟨u₁, h₁, hlower⟩, u₂, h₂, hupper⟩
      exact ⟨u₁, u₂, h₁, h₂, hlower, hupper⟩
    · rintro ⟨u₁, u₂, h₁, h₂, hlower, hupper⟩
      exact ⟨⟨u₁, h₁, hlower⟩, u₂, h₂, hupper⟩

theorem bounds_denote_one_two :
    let v : Exact := ⟨.triple 1 2 7, .none, .ofText "5"⟩
    let w : Pattern := .anyPatch 1 2
    let tagged : Exact := ⟨.triple 1 2 7, .ofParts (Label.ofText? "rc") (some 1) none, .none⟩
    v.release.IsFull ∧ v.prerelease.isNone = true ∧ w.CountsUp ∧
      (comparison .equal (.pattern w)).satisfiedBy (.exact v) = true ∧
      (comparison .lessOrEqual (.pattern w)).satisfiedBy (.exact v) = true ∧
      (Version.exact tagged).CountsUp ∧
      ∃ u₁ u₂, (Version.exact tagged).Denotes u₁ ∧ (Version.pattern w).Denotes u₂ ∧
        (u₁.precedence v).isLE = true ∧ (v.precedence u₂).isLE = true := by
  intro v w tagged
  have hw : w.CountsUp := by decide
  have htagged : (Version.exact tagged).CountsUp := .exact rfl (by decide)
  obtain ⟨patterns, intervals⟩ := bounds_denote (v := v) rfl rfl
  obtain ⟨hequal, _, _, _, hatMost, _⟩ := patterns w hw
  refine ⟨rfl, rfl, hw, hequal.2 (by decide), hatMost.2 ?_, htagged, ?_⟩
  · exact ⟨.ofRelease (.triple 1 2 9), ⟨_, by decide, rfl⟩, by decide⟩
  · exact (intervals (.exact tagged) (.pattern w) htagged (.pattern hw)).1 (by decide)

end Range

end Versioning
