import Versioning.Proofs.Order.Wildcards
import Versioning.Proofs.Placement.Boundary
import Versioning.Proofs.Placement.Builds
import Versioning.Proofs.Placement.Side
import Versioning.Proofs.Range.Bounds

/-!
# Bounds that are equal

A version with a wildcard equals the versions with any number in its place. As a bound, the wildcard
takes in all of those numbers and the number only itself. So equal bounds place versions alike
unless a wildcard of the one overlooks a number of the other. The lowest version that they stand for
is the same if that number is zero, and that is all that `<` and `>=` go by.
-/

namespace Versioning

/-! ## What wildcards overlook -/

/-- The number that the wildcard of the other slot stands for as well. -/
def Component.overlooked? : Component → Component → Option Number
  | wildcard, number n | number n, wildcard => some n
  | _, _ => none

namespace Component

variable {a b : Component}

theorem overlooked?_comm (a b : Component) : a.overlooked? b = b.overlooked? a := by
  cases a <;> cases b <;> rfl

/-- Slots that agree have one number or none, unless a number is overlooked. -/
theorem number?_of_relate (h : a.relate b = .eq) :
    (a.overlooked? b = none ∧ a.number? = b.number?) ∨
      ∃ n, a.overlooked? b = some n ∧
        (a.number? = some n ∧ b.number? = none ∨ a.number? = none ∧ b.number? = some n) := by
  cases a <;> cases b <;> simp_all [overlooked?, relate, number?]

theorem getD_number?_of_relate (h : a.relate b = .eq) :
    a.number?.getD 0 = b.number?.getD 0 ↔ ∀ n ∈ a.overlooked? b, n = 0 := by
  rcases number?_of_relate h with ⟨ho, hn⟩ | ⟨n, ho, ⟨ha, hb⟩ | ⟨ha, hb⟩⟩
  · simp [ho, hn]
  · simp [ho, ha, hb]
  · simp [ho, ha, hb, eq_comm]

end Component

namespace Version

/-- The numbers of either version in whose places the other has a wildcard. -/
def overlooked (v w : Version) : List Number :=
  (v.minor.overlooked? w.minor).toList ++ (v.patch.overlooked? w.patch).toList

theorem overlooked_comm (v w : Version) : v.overlooked w = w.overlooked v := by
  rw [overlooked, overlooked, Component.overlooked?_comm v.minor, Component.overlooked?_comm v.patch]

/-! ## Where bounds start -/

theorem tag?_lowest (v : Version) : v.lowest.prerelease.tag? = v.prerelease.tag? := by
  cases v <;> rfl

theorem IsBound.release_lowest {v : Version} (h : v.IsBound) : v.lowest.release =
    .triple v.major (v.minor.number?.getD 0) (v.patch.number?.getD 0) := by
  cases h with
  | exact h => rfl
  | pattern w => cases w <;> rfl

/-- Equal bounds start at one version if no number is overlooked but zeros. -/
theorem precedence_lowest {v w : Version} (hv : v.IsBound) (hw : w.IsBound)
    (heq : (v == w) = true) :
    v.lowest.precedence w.lowest = .eq ↔ ∀ n ∈ v.overlooked w, n = 0 := by
  obtain ⟨hmajor, hminor, hpatch, htag, _⟩ := beq_iff.1 heq
  rw [Exact.precedence_eq_eq, tag?_lowest, tag?_lowest, hv.release_lowest, hw.release_lowest]
  simp [hmajor, htag, Component.getD_number?_of_relate hminor,
    Component.getD_number?_of_relate hpatch, overlooked, or_imp, forall_and]

end Version

/-! ## Where bounds end -/

theorem Exact.precedence_eq_of_lt_iff {a b : Exact}
    (h : ∀ u : Exact, u.precedence a = .lt ↔ u.precedence b = .lt) : a.precedence b = .eq := by
  have hself (c : Exact) : c.precedence c = .eq := Std.ReflCmp.compare_self
  have hab := h a
  have hba := h b
  rw [hself] at hab hba
  rw [precedence_swap b a] at hba
  cases hcmp : a.precedence b <;> simp_all

namespace Version

/-- The version is above all that the bound stands for. -/
def ExceededBy (u : Exact) : Version → Prop
  | exact v => u.precedence v = .gt
  | pattern w => u.precedence (.ofRelease w.ceil) ≠ .lt

theorem side_eq_gt {v : Version} {u : Exact} : v.side u = .gt ↔ v.ExceededBy u := by
  cases v with
  | exact v => rfl
  | pattern w => exact side_pattern_eq_gt

/-- A version without a tag and the pattern of its line do not end at the same version. -/
theorem not_exceededBy_iff {v : Exact} (hv : v.prerelease.isNone = true) (r : Release) :
    ¬ ∀ u : Exact, u.precedence v = .gt ↔ u.precedence (.ofRelease r) ≠ .lt := by
  intro h
  cases hlt : v.precedence (.ofRelease r) with
  | lt =>
      -- A tag of the release is below it, and above all versions of lower releases.
      let tagged : Exact := ⟨r, .tag ⟨none, some 0, none⟩, .none⟩
      rw [Exact.precedence_ofRelease hv] at hlt
      have hne : tagged.release ≠ v.release := by
        intro he
        rw [← he] at hlt
        exact absurd hlt (by simp [tagged])
      have habove : tagged.precedence v = .gt := by
        rw [Exact.precedence_of_release_ne hne]
        exact Std.OrientedCmp.gt_of_lt hlt
      have hbelow : tagged.precedence (.ofRelease r) = .lt := by
        rw [Exact.precedence]
        simp only [tagged, Exact.ofRelease, Std.ReflOrd.compare_self]
        rfl
      exact (h tagged).1 habove hbelow
  | eq | gt =>
      have hself := (h v).2 (by rw [hlt]; decide)
      have hrefl : v.precedence v = .eq := Std.ReflCmp.compare_self
      rw [hrefl] at hself
      contradiction

theorem sameButBuild_of_beq {a b : Exact} (h : (exact a == exact b) = true) :
    (exact a).SameButBuild (exact b) := by
  rw [beq_exact, Exact.beq_iff] at h
  exact .exact h.1 h.2.1

theorem overlooked_exact (a b : Exact) : (exact a).overlooked (exact b) = [] := by
  have slot (o p : Option Number) :
      (Component.ofNumber? o).overlooked? (.ofNumber? p) = none := by
    cases o <;> cases p <;> rfl
  simp [overlooked, minor, patch, slot]

/-- A patch that is a number is overlooked by every pattern that it agrees with. -/
theorem overlooked_ne_nil {v : Exact} {w : Pattern} (hv : (exact v).IsBound)
    (heq : (exact v == pattern w) = true) : (exact v).overlooked (pattern w) ≠ [] := by
  obtain ⟨_, _, hpatch, _⟩ := beq_iff.1 heq
  cases hv with
  | @exact m n p =>
      have hwild : (pattern w).patch = .wildcard := by
        cases w <;> first | rfl | contradiction
      rw [overlooked, hwild]
      simp [patch, Release.patch?, Component.ofNumber?, Component.overlooked?]

theorem overlooked_pattern (w x : Pattern) : (pattern w).overlooked (pattern x) =
    ((pattern w).minor.overlooked? (pattern x).minor).toList := by
  have hpatch : (pattern w).patch.overlooked? (pattern x).patch = none := by
    cases w <;> cases x <;> rfl
  simp [overlooked, hpatch]

/-- Equal patterns end at one version if no number is overlooked. -/
theorem ceil_eq_iff {w x : Pattern} (heq : (pattern w == pattern x) = true) :
    w.ceil = x.ceil ↔ (pattern w).overlooked (pattern x) = [] := by
  obtain ⟨hmajor, hminor, _⟩ := beq_iff.1 heq
  have hne (n : Number) : n.succ ≠ 0 := by
    intro h
    have := congrArg Number.toNat h
    simp [Number.maxValue] at this
  change w.major = x.major at hmajor
  rw [overlooked_pattern]
  rcases Component.number?_of_relate hminor with ⟨ho, hn⟩ | ⟨n, ho, ⟨hw, hx⟩ | ⟨hw, hx⟩⟩
  · change w.minor.number? = x.minor.number? at hn
    simp [ho, Pattern.ceil, hmajor, hn]
  · change w.minor.number? = some n at hw
    change x.minor.number? = none at hx
    simp [ho, Pattern.ceil, hw, hx, hne]
  · change w.minor.number? = none at hw
    change x.minor.number? = some n at hx
    simp [ho, Pattern.ceil, hw, hx, hne, eq_comm (a := (0 : Number))]

/-- Equal bounds end at one version only if no number is overlooked. -/
theorem overlooked_of_exceededBy {v w : Version} (heq : (v == w) = true)
    (h : ∀ u, v.ExceededBy u ↔ w.ExceededBy u) : v.overlooked w = [] := by
  obtain ⟨_, _, _, htag, _⟩ := beq_iff.1 heq
  cases v with
  | exact a =>
      cases w with
      | exact b => exact overlooked_exact a b
      | pattern x => exact absurd h (not_exceededBy_iff (Option.isNone_iff_eq_none.2 htag) x.ceil)
  | pattern x =>
      cases w with
      | exact b =>
          have hnone := Option.isNone_iff_eq_none.2 htag.symm
          exact absurd (fun u => (h u).symm) (not_exceededBy_iff hnone x.ceil)
      | pattern y =>
          have hceil := Exact.precedence_eq_of_lt_iff fun u => not_iff_not.1 (h u)
          exact (ceil_eq_iff heq).1 (Exact.precedence_eq_eq.1 hceil).1

end Version

/-! ## Operators -/

/-- With the bounds `v` and `w`, the operator overlooks no number that it goes by. -/
def Operator.Agree (v w : Version) : Operator → Prop
  | less | greaterOrEqual => ∀ n ∈ v.overlooked w, n = 0
  | lessOrEqual | greater | equal => v.overlooked w = []

instance (v w : Version) : (o : Operator) → Decidable (o.Agree v w)
  | .less | .greaterOrEqual => inferInstanceAs (Decidable (∀ n ∈ v.overlooked w, n = 0))
  | .lessOrEqual | .greater | .equal => inferInstanceAs (Decidable (v.overlooked w = []))

namespace Operator

variable {v w : Version}

theorem place_less (u : Version) : less.place v u = less.placeAgainst (.exact v.lowest) u := by
  cases v <;> rfl

theorem place_greaterOrEqual (u : Version) :
    greaterOrEqual.place v u = greaterOrEqual.placeAgainst (.exact v.lowest) u := by
  cases v <;> rfl

/-- Bounds that are equal and overlook no number of each other are the same bound. -/
theorem place_eq_of_overlooked (o : Operator) (hv : v.IsBound) (hw : w.IsBound)
    (heq : (v == w) = true) (h : v.overlooked w = []) (u : Version) : o.place v u = o.place w u := by
  cases v with
  | exact a =>
      cases w with
      | exact b => exact o.place_congr (Version.sameButBuild_of_beq heq) (.refl u)
      | pattern x => exact absurd h (Version.overlooked_ne_nil hv heq)
  | pattern x =>
      cases w with
      | exact b =>
          rw [Version.overlooked_comm] at h
          exact absurd h (Version.overlooked_ne_nil hw (Version.beq_symm heq))
      | pattern y =>
          have hlowest := (Version.precedence_lowest hv hw heq).2 (by simp [h])
          have hfloor : x.floor = y.floor := (Exact.precedence_eq_eq.1 hlowest).1
          have hceil := (Version.ceil_eq_iff heq).2 h
          cases o <;> simp only [place, hfloor, hceil]

/-- Equal bounds place all exact versions alike if and only if no number is overlooked that the
operator goes by. -/
theorem place_eq_iff_agree (o : Operator) (hv : v.IsBound) (hw : w.IsBound)
    (heq : (v == w) = true) :
    (∀ u : Exact, o.place v (.exact u) = o.place w (.exact u)) ↔ o.Agree v w := by
  have lowest (h : ∀ n ∈ v.overlooked w, n = 0) :
      (Version.exact v.lowest).SameButBuild (.exact w.lowest) := by
    obtain ⟨hr, ht⟩ := Exact.precedence_eq_eq.1 ((Version.precedence_lowest hv hw heq).2 h)
    exact .exact hr ht
  constructor
  · intro h
    cases o with
    | less =>
        apply (Version.precedence_lowest hv hw heq).1
        apply Exact.precedence_eq_of_lt_iff
        intro u
        rw [← Version.side_eq_lt, ← Version.side_eq_lt, ← not_iff_not, ← ne_eq, ← ne_eq,
          ← place_less_eq_greater, h, place_less_eq_greater]
    | greaterOrEqual =>
        apply (Version.precedence_lowest hv hw heq).1
        apply Exact.precedence_eq_of_lt_iff
        intro u
        rw [← Version.side_eq_lt, ← Version.side_eq_lt, ← place_greaterOrEqual_eq_lower, h,
          place_greaterOrEqual_eq_lower]
    | lessOrEqual =>
        apply Version.overlooked_of_exceededBy heq
        intro u
        rw [← Version.side_eq_gt, ← Version.side_eq_gt, ← place_lessOrEqual_eq_greater, h,
          place_lessOrEqual_eq_greater]
    | greater =>
        apply Version.overlooked_of_exceededBy heq
        intro u
        rw [← Version.side_eq_gt, ← Version.side_eq_gt, ← not_iff_not, ← ne_eq, ← ne_eq,
          ← place_greater_eq_lower, h, place_greater_eq_lower]
    | equal =>
        apply Version.overlooked_of_exceededBy heq
        intro u
        rw [← Version.side_eq_gt, ← Version.side_eq_gt, ← place_equal_eq_greater, h,
          place_equal_eq_greater]
  · intro h u
    cases o with
    | less =>
        rw [place_less, place_less]
        exact placeAgainst_congr _ (lowest h) (.refl _)
    | greaterOrEqual =>
        rw [place_greaterOrEqual, place_greaterOrEqual]
        exact placeAgainst_congr _ (lowest h) (.refl _)
    | lessOrEqual | greater | equal => exact place_eq_of_overlooked _ hv hw heq h _

end Operator

/-! ## Intervals -/

theorem Interval.place_eq_of_beq {i j : Interval} {l u l' u' : Exact}
    (hi : i = ⟨.exact l, .exact u⟩) (hj : j = ⟨.exact l', .exact u'⟩) (h : (i == j) = true)
    (v : Version) : i.place v = j.place v := by
  subst hi hj
  obtain ⟨hl, hu⟩ := Bool.and_eq_true_iff.1 h
  exact place_congr (Version.sameButBuild_of_beq hl) (Version.sameButBuild_of_beq hu) (.refl v)

end Versioning
