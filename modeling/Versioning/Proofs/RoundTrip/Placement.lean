import Versioning.Proofs.Placement.Boundary
import Versioning.Proofs.Placement.Side
import Versioning.Proofs.RoundTrip.Json

/-!
# Placement after a round trip

The exact versions `1` and `1.2` come back from their texts as patterns. As a bound such a version
stands for itself, below everything that fills in its missing numbers, while the pattern stands for
all of these. So the range that comes back places other versions than before, unless it goes by
bounds that the two have in common.
-/

namespace Versioning

/-! ## Slot by slot -/

theorem Component.relate_mono {a b : Option Number} (h : (compare a b).isLE = true)
    (c : Component) :
    (c.relate (ofNumber? a) = .lt → c.relate (ofNumber? b) = .lt) ∧
      (c.relate (ofNumber? a) = .eq →
        c.relate (ofNumber? b) = .lt ∨ c.relate (ofNumber? b) = .eq) := by
  have slot (o : Option Number) :
      ((ofNumber? o).relate (ofNumber? a) = .lt → (ofNumber? o).relate (ofNumber? b) = .lt) ∧
        ((ofNumber? o).relate (ofNumber? a) = .eq →
          (ofNumber? o).relate (ofNumber? b) = .lt ∨ (ofNumber? o).relate (ofNumber? b) = .eq) := by
    simp only [relate_ofNumber?]
    refine ⟨fun ho => Std.TransCmp.lt_of_lt_of_isLE ho h, fun ho => ?_⟩
    rwa [Std.LawfulEqOrd.eq_of_compare ho, ← Ordering.isLE_iff_eq_lt_or_eq_eq]
  cases c with
  | number n => exact slot (some n)
  | absent => exact slot none
  | wildcard => simp

namespace Release

/-- No slot of the release is above that of the other. -/
structure SlotsLE (r s : Release) : Prop where
  major : (compare (some r.major) (some s.major)).isLE = true
  minor : (compare r.minor? s.minor?).isLE = true
  patch : (compare r.patch? s.patch?).isLE = true

end Release

namespace Version

theorem relateRelease_ofRelease (u : Version) (r : Release) : relateRelease u (ofRelease r) =
    (((Component.number u.major).relate (.ofNumber? (some r.major))).then
      (u.minor.relate (.ofNumber? r.minor?))).then (u.patch.relate (.ofNumber? r.patch?)) :=
  rfl

theorem below_ofRelease {u : Version} {r : Release} : u.below (ofRelease r) = true ↔
    relateRelease u (ofRelease r) = .lt ∨
      relateRelease u (ofRelease r) = .eq ∧ compare u.prerelease .none = .lt := by
  rw [below, relate, Relation.precedence_ofParts, beq_iff_eq, Ordering.then_eq_lt]
  rfl

/-- What is below a release, be it a pattern, is below what is above the release in every slot. -/
theorem below_mono {u : Version} {r s : Release} (h : r.SlotsLE s)
    (hu : u.below (ofRelease r) = true) : u.below (ofRelease s) = true := by
  have hmajor := Component.relate_mono h.major (.number u.major)
  have hminor := Component.relate_mono h.minor u.minor
  have hpatch := Component.relate_mono h.patch u.patch
  rw [below_ofRelease, relateRelease_ofRelease] at hu ⊢
  simp only [Ordering.then_eq_lt, Ordering.then_eq_eq] at hu ⊢
  -- What decides for `r` is a slot of `u` that is lower, or the tag of `u`. The slots before it
  -- agree with `r`, so they agree with `s` or decide earlier.
  grind

end Version

/-! ## The pattern of a release -/

theorem Number.isLE_compare_some {a b : Number} :
    (compare (some a) (some b)).isLE = true ↔ a.toNat ≤ b.toNat := by
  change (compare a.toNat b.toNat).isLE = true ↔ _
  rw [Nat.isLE_compare]

namespace Release

variable {r : Release} {w : Pattern}

theorem floor_of_pattern? (h : r.pattern? = some w) : w.floor = r.fill := by
  cases r <;> cases h <;> rfl

theorem ceil_of_pattern? (h : r.pattern? = some w) : w.ceil = r.ceil := by
  cases r <;> cases h <;> rfl

theorem lt_fill_of_pattern? (h : r.pattern? = some w) : compare r r.fill = .lt := by
  rw [compare_eq_lt]
  cases r <;> cases h <;> simp [fill, major, minor?, patch?, compare]

theorem fill_slotsLE_ceil (h : r.pattern? = some w) : r.fill.SlotsLE r.ceil := by
  have le_succ (n : Number) : (compare (some n) (some n.succ)).isLE = true :=
    Number.isLE_compare_some.2 n.toNat_le_succ
  cases r with
  | single m => exact ⟨le_succ m, rfl, rfl⟩
  | pair m n => exact ⟨Number.isLE_compare_some.2 (Nat.le_refl _), le_succ n, rfl⟩
  | triple => contradiction

/-- What breaks next, for a release and for the pattern with the same text. -/
theorem nextBreaking_cases (h : r.pattern? = some w) :
    (r.fill = triple 0 0 0 ∧ r.nextBreaking = triple 0 0 1 ∧
        (w.nextBreaking = single 1 ∨ w.nextBreaking = pair 0 1)) ∨
      (∃ m n, r.fill = triple m n 0 ∧ r.nextBreaking = triple m.succ 0 0 ∧
        (w.nextBreaking = single m.succ ∨ w.nextBreaking = pair m.succ 0)) ∨
      ∃ n, r.fill = triple 0 n 0 ∧ r.nextBreaking = triple 0 n.succ 0 ∧
        w.nextBreaking = pair 0 n.succ := by
  cases r with
  | single m =>
      cases h
      by_cases hm : 0 < m.toNat
      · have hne : ¬ (m = 0 ∧ Component.absent.isNumber = true) := fun h => absurd h.2 (by decide)
        exact .inr (.inl ⟨m, 0, rfl, if_pos hm, .inl (if_neg hne)⟩)
      · obtain rfl := Number.eq_zero_of_not_pos hm
        exact .inl ⟨rfl, rfl, .inl rfl⟩
  | pair m n =>
      cases h
      by_cases hm : 0 < m.toNat
      · have hne : ¬ (m = 0 ∧ (Component.number n).isNumber = true) := by
          rintro ⟨rfl, _⟩
          exact Nat.lt_irrefl _ hm
        exact .inr (.inl ⟨m, n, rfl, if_pos hm, .inr (if_neg hne)⟩)
      · obtain rfl := Number.eq_zero_of_not_pos hm
        by_cases hn : 0 < n.toNat
        · exact .inr (.inr ⟨n, rfl, if_pos hn, rfl⟩)
        · obtain rfl := Number.eq_zero_of_not_pos hn
          exact .inl ⟨rfl, rfl, .inr rfl⟩
  | triple => contradiction

theorem triple_lt_nextMajor {m n : Number} :
    compare (triple m n 0) (triple m.succ 0 0) = .lt ↔ m.toNat < m.succ.toNat := by
  simp [lt_triple_zero, major, minor?]

theorem triple_lt_nextMinor {m n : Number} :
    compare (triple m n 0) (triple m n.succ 0) = .lt ↔ n.toNat < n.succ.toNat := by
  simp [lt_triple_zero, major, minor?]

/-- If nothing is between a release and what breaks next, a number was not counted up. -/
theorem nextBreaking_slotsLE (h : r.pattern? = some w)
    (hempty : compare r.fill r.nextBreaking ≠ .lt) :
    r.nextBreaking.SlotsLE r.fill ∧ w.nextBreaking.SlotsLE r.fill := by
  have zero_le (n : Number) : (compare (some 0) (some n)).isLE = true :=
    Number.isLE_compare_some.2 (Nat.zero_le _)
  rcases nextBreaking_cases h with ⟨hf, hr, _⟩ | ⟨m, n, hf, hr, hw⟩ | ⟨n, hf, hr, hw⟩
  · rw [hf, hr] at hempty
    exact absurd (by decide) hempty
  · rw [hf, hr, ne_eq, triple_lt_nextMajor, Nat.not_lt] at hempty
    have hsucc := Number.isLE_compare_some.2 hempty
    rw [hf, hr]
    refine ⟨⟨hsucc, zero_le n, rfl⟩, ?_⟩
    rcases hw with hw | hw <;> rw [hw]
    · exact ⟨hsucc, rfl, rfl⟩
    · exact ⟨hsucc, zero_le n, rfl⟩
  · rw [hf, hr, ne_eq, triple_lt_nextMinor, Nat.not_lt] at hempty
    have hsucc := Number.isLE_compare_some.2 hempty
    rw [hf, hr, hw]
    exact ⟨⟨rfl, hsucc, rfl⟩, rfl, hsucc, rfl⟩

theorem nextBreaking_lt_or_gt (h : r.pattern? = some w)
    (hlt : compare r.fill r.nextBreaking = .lt) :
    compare r.nextBreaking w.nextBreaking = .lt ∨
      compare w.nextBreaking r.nextBreaking = .lt ∧ compare r.fill w.nextBreaking = .lt := by
  rcases nextBreaking_cases h with ⟨_, hr, hw⟩ | ⟨m, n, hf, hr, hw⟩ | ⟨n, hf, hr, hw⟩
  · left
    rcases hw with hw | hw <;> rw [hr, hw] <;> decide
  · right
    rw [hf, hr, triple_lt_nextMajor] at hlt
    have above {s : Release} (hs : s.major = m.succ) : compare (triple m n 0) s = .lt :=
      compare_eq_lt.2 (.inl (hs ▸ hlt))
    rw [hf, hr, lt_triple_zero]
    rcases hw with hw | hw <;> rw [hw]
    · exact ⟨.inr (.inl rfl), above rfl⟩
    · exact ⟨.inr (.inr (.inr rfl)), above rfl⟩
  · right
    rw [hf, hr, triple_lt_nextMinor] at hlt
    rw [hf, hr, hw, lt_triple_zero]
    exact ⟨.inr (.inr (.inr rfl)), compare_eq_lt.2 (.inr ⟨rfl, .inl (Number.compare_eq_lt.2 hlt)⟩)⟩

end Release

/-! ## Ranges around the pattern of a release -/

section

variable {r : Release} {w : Pattern}

/-- A version with a tag that fills in the missing numbers is above the release and below the next
line. -/
theorem Exact.exists_between (h : r.pattern? = some w) :
    ∃ u : Exact, u.precedence (.ofRelease r) = .gt ∧ u.precedence (.ofRelease r.ceil) = .lt := by
  let tag : Prerelease := .tag ⟨none, some 0, none⟩
  have hlt := Release.lt_fill_of_pattern? h
  have hne : r.fill ≠ r := by
    intro he
    rw [he, Std.ReflOrd.compare_self] at hlt
    contradiction
  have hfill : (Version.exact ⟨r.fill, tag, .none⟩).below (.ofRelease r.fill) = true := by
    apply Version.below_ofRelease.2
    refine .inr ⟨?_, rfl⟩
    rw [Version.ofRelease, Version.relateRelease_exact]
    exact Std.ReflOrd.compare_self
  have hceil := Version.below_mono (Release.fill_slotsLE_ceil h) hfill
  rw [Version.ofRelease, Version.below_exact, beq_iff_eq] at hceil
  refine ⟨⟨r.fill, tag, .none⟩, ?_, hceil⟩
  rw [Exact.precedence_of_release_ne hne]
  exact Std.OrientedCmp.gt_of_lt hlt

/-- An operator holds versions to other bounds. -/
theorem Operator.exists_place_ne (o : Operator) (h : r.pattern? = some w) :
    ∃ u : Version, o.place (.pattern w) u ≠ o.place (.ofRelease r) u := by
  have hrefl : (Exact.ofRelease r).precedence (.ofRelease r) = .eq := Std.ReflCmp.compare_self
  have hself : (Version.ofRelease r).side (.ofRelease r) ≠ .lt := by
    change (Exact.ofRelease r).precedence (.ofRelease r) ≠ .lt
    rw [hrefl]
    decide
  have hfloor : (Version.pattern w).side (.ofRelease r) = .lt := by
    rw [Version.side_pattern_eq_lt, Exact.precedence_ofRelease rfl, Release.floor_of_pattern? h]
    exact Release.lt_fill_of_pattern? h
  obtain ⟨u, hu, hceil⟩ := Exact.exists_between h
  have habove : (Version.ofRelease r).side u = .gt := hu
  have hwithin : (Version.pattern w).side u ≠ .gt := by
    rw [ne_eq, Version.side_pattern_eq_gt, Release.ceil_of_pattern? h]
    exact not_not_intro hceil
  -- Below the missing numbers the release itself tells the two apart, and above them a tag does.
  cases o with
  | less =>
      exact ⟨.exact (.ofRelease r), fun hsame =>
        place_less_eq_greater.1 (hsame.trans (place_less_eq_greater.2 hself)) hfloor⟩
  | greaterOrEqual =>
      exact ⟨.exact (.ofRelease r), fun hsame => hself
        (place_greaterOrEqual_eq_lower.1
          (hsame.symm.trans (place_greaterOrEqual_eq_lower.2 hfloor)))⟩
  | equal =>
      exact ⟨.exact (.ofRelease r), fun hsame => hself
        (place_equal_eq_lower.1 (hsame.symm.trans (place_equal_eq_lower.2 hfloor)))⟩
  | lessOrEqual =>
      exact ⟨.exact u, fun hsame => hwithin
        (place_lessOrEqual_eq_greater.1 (hsame.trans (place_lessOrEqual_eq_greater.2 habove)))⟩
  | greater =>
      exact ⟨.exact u, fun hsame =>
        place_greater_eq_lower.1 (hsame.symm.trans (place_greater_eq_lower.2 hwithin)) habove⟩

/-- The lower of two upper bounds is in one interval and above the other. -/
theorem Interval.place_ne_of_lt {l a b : Release} (hl : compare l a = .lt)
    (hlt : compare a b = .lt) :
    place ⟨.ofRelease l, .ofRelease a⟩ (.ofRelease a) ≠
      place ⟨.ofRelease l, .ofRelease b⟩ (.ofRelease a) := by
  have hprecedence (r : Release) : (Exact.ofRelease a).precedence (.ofRelease r) = compare a r :=
    Exact.precedence_ofRelease rfl r
  have habove : place ⟨.ofRelease l, .ofRelease a⟩ (.ofRelease a) = .greater := by
    apply place_eq_greater.2
    rw [hprecedence, hprecedence, Std.ReflOrd.compare_self, Std.OrientedCmp.gt_of_lt hl]
    decide
  rw [habove]
  intro hgreater
  apply (place_eq_greater.1 hgreater.symm).2
  rw [hprecedence]
  exact hlt

/-- An interval whose upper bound is not above the lower one is empty. -/
theorem Interval.place_of_slotsLE {l a : Release} (h : a.SlotsLE l) (u : Version) :
    place ⟨.ofRelease l, .ofRelease a⟩ u =
      if u.below (.ofRelease l) then .lower else .greater := by
  cases hbelow : u.below (.ofRelease l) with
  | true => simp [place, hbelow]
  | false =>
      have hupper : u.below (.ofRelease a) = false := by
        rw [← Bool.not_eq_true] at hbelow ⊢
        exact mt (Version.below_mono h) hbelow
      simp [place, hbelow, hupper]

/-- A caret ends before what breaks next, which has fewer numbers for the pattern. -/
theorem Range.place_caret_pattern_iff (h : r.pattern? = some w) :
    (∀ u, (caret (.pattern w)).place u = (caret (.ofRelease r)).place u) ↔
      compare r.fill r.nextBreaking ≠ .lt := by
  have hpattern (u : Version) : (caret (.pattern w)).place u =
      Interval.place ⟨.ofRelease r.fill, .ofRelease w.nextBreaking⟩ u := by
    rw [place, caretBounds, Version.floor, Release.floor_of_pattern? h]
    rfl
  have hrelease (u : Version) : (caret (.ofRelease r)).place u =
      Interval.place ⟨.ofRelease r.fill, .ofRelease r.nextBreaking⟩ u := by
    rw [place]
    rfl
  constructor
  · intro hsame hlt
    rcases Release.nextBreaking_lt_or_gt h hlt with hless | ⟨hless, hfill⟩
    · have hne := Interval.place_ne_of_lt hlt hless
      rw [← hpattern, ← hrelease] at hne
      exact hne (hsame _).symm
    · have hne := Interval.place_ne_of_lt hfill hless
      rw [← hpattern, ← hrelease] at hne
      exact hne (hsame _)
  · intro hempty u
    obtain ⟨hr, hw⟩ := Release.nextBreaking_slotsLE h hempty
    rw [hpattern, hrelease, Interval.place_of_slotsLE hr, Interval.place_of_slotsLE hw]

theorem Range.place_tilde_pattern (h : r.pattern? = some w) (u : Version) :
    (tilde (.pattern w)).place u = (tilde (.ofRelease r)).place u := by
  rw [place, place, tildeBounds, Version.floor, Version.ceil, Release.floor_of_pattern? h,
    Release.ceil_of_pattern? h]
  rfl

end

/-! ## Ranges around a version -/

/-- The ranges that are made of a single version. -/
inductive Range.Form
  | comparison (operator : Operator)
  | caret
  | tilde
  | exact

def Range.Form.around : Form → Version → Range
  | comparison o, v => .comparison o v
  | caret, v => .caret v
  | tilde, v => .tilde v
  | exact, v => .exact v

namespace Range

theorem Form.all_around {P : Version → Prop} (f : Form) {v : Version} (h : P v) :
    All P (f.around v) := by
  cases f with
  | comparison o => exact .comparison o h
  | caret => exact .caret h
  | tilde => exact .tilde h
  | exact => exact .exact h

theorem Form.reread_around (f : Form) (v : Version) : (f.around v).reread = f.around v.reread := by
  cases f <;> rfl

theorem Form.place_pattern_iff (f : Form) {r : Release} {w : Pattern} (h : r.pattern? = some w) :
    (∀ u, (f.around (.pattern w)).place u = (f.around (.ofRelease r)).place u) ↔
      f = .tilde ∨ f = .caret ∧ compare r.fill r.nextBreaking ≠ .lt := by
  cases f with
  | comparison o =>
      obtain ⟨u, hu⟩ := o.exists_place_ne h
      simpa [around, place] using ⟨u, hu⟩
  | exact =>
      obtain ⟨u, hu⟩ := Operator.equal.exists_place_ne h
      simpa [around, place] using ⟨u, hu⟩
  | caret => simpa [around] using place_caret_pattern_iff h
  | tilde => simpa [around] using place_tilde_pattern h

end Range

theorem Release.pattern?_eq_none {r : Release} :
    r.pattern? = none ↔ Component.ofNumber? r.patch? ≠ .absent := by
  cases r <;> simp [pattern?, patch?, Component.ofNumber?]

theorem Prerelease.Canonical.eq_none {p : Prerelease} (h : p.Canonical) (hp : p.isNone = true) :
    p = .none := by
  cases h with
  | none => rfl
  | tag hne => simp [isNone, tag?_tag hne] at hp

theorem Exact.Canonical.eq_ofRelease {v : Exact} {w : Pattern} (h : v.Canonical)
    (hw : v.pattern? = some w) : v = ofRelease v.release ∧ v.release.pattern? = some w := by
  unfold pattern? at hw
  split at hw
  · rename_i hnone
    obtain ⟨hp, hb⟩ := Bool.and_eq_true_iff.1 hnone
    refine ⟨?_, hw⟩
    rw [ofRelease, ← h.prerelease.eq_none hp, ← Build.isNone_iff.1 hb]
  · contradiction

/-- The versions that their texts do not give back are those with one or two numbers alone. -/
theorem Version.reread_eq_iff {v : Version} : v.reread = v ↔
    v.isPattern = true ∨ v.isPrerelease = true ∨ v.build.isNone = false ∨ v.patch ≠ .absent := by
  cases v with
  | exact v =>
      have hreread : (exact v).reread = exact v ↔ v.pattern? = none := by
        rw [reread]
        cases v.pattern? <;> simp
      rw [hreread, Exact.pattern?_eq_none, Release.pattern?_eq_none]
      simp [isPattern, isPrerelease_exact, build, patch]
  | pattern w => simp [reread, isPattern]

theorem Version.Canonical.exists_release {v : Version} (h : v.Canonical) (hv : v.reread ≠ v) :
    ∃ r w, r.pattern? = some w ∧ v = ofRelease r ∧ v.reread = pattern w := by
  cases v with
  | exact v =>
      cases hw : v.pattern? with
      | none => exact absurd (by rw [reread, hw]; rfl) hv
      | some w =>
          obtain ⟨hrelease, hpattern⟩ := Exact.Canonical.eq_ofRelease h hw
          exact ⟨v.release, w, hpattern, congrArg exact hrelease, by rw [reread, hw]; rfl⟩
  | pattern w => exact absurd rfl hv

namespace Range

/-- A range around a version that was read comes back from its JSON value as a range of the same
form, around what the text of the version is read as. It places all versions as before if the
version is a pattern, has a tag or a build, or has three numbers. For one or two numbers alone, only
a tilde does so, and a caret that is empty since a number cannot be counted up. -/
theorem json_place_iff (f : Form) (v : Version) (h : v.IsRead) :
    ∃ w, Version.parse v.text = .ok w ∧ ofJson? (f.around v).toJson = .ok (f.around w) ∧
      ((∀ u, (f.around w).place u = (f.around v).place u) ↔
        (v.isPattern = true ∨ v.isPrerelease = true ∨ v.build.isNone = false ∨
          v.patch ≠ .absent) ∨
        f = .tilde ∨ f = .caret ∧ v.floor.below v.nextBreaking = false) := by
  refine ⟨v.reread, h.canonical.parse_text, ?_, ?_⟩
  · rw [ofJson?_toJson (f.all_around h.canonical), f.reread_around]
  rw [← Version.reread_eq_iff]
  by_cases hv : v.reread = v
  · simp [hv]
  · obtain ⟨r, w, hw, rfl, hreread⟩ := h.canonical.exists_release hv
    have hbelow : (Version.ofRelease r).floor.below (Version.ofRelease r).nextBreaking = false ↔
        compare r.fill r.nextBreaking ≠ .lt := by
      change (Version.ofRelease r.fill).below (.ofRelease r.nextBreaking) = false ↔ _
      rw [Version.ofRelease, Version.ofRelease, Version.below_exact, beq_eq_false_iff_ne,
        Exact.precedence_ofRelease rfl]
      rfl
    rw [hreread] at hv ⊢
    rw [f.place_pattern_iff hw, hbelow, or_iff_right hv]

theorem json_place_tilde_two_one :
    let v : Version := .ofRelease (.pair 2 1)
    v.IsRead ∧ ∃ w, Version.parse v.text = .ok w ∧
      ofJson? (tilde v).toJson = .ok (tilde w) ∧ ∀ u, (tilde w).place u = (tilde v).place u := by
  intro v
  have hread : v.IsRead := ⟨"2.1", .inr (.inl ⟨.ofRelease (.pair 2 1), rfl, rfl⟩)⟩
  obtain ⟨w, hw, hjson, hplace⟩ := json_place_iff .tilde v hread
  exact ⟨hread, w, hw, hjson, hplace.2 (.inr (.inl rfl))⟩

theorem json_not_keeps_place : ¬ ∀ (f : Form) (s : String) (v : Exact), Exact.parse s = .ok v →
    ∃ r, ofJson? (f.around (.exact v)).toJson = .ok r ∧
      ∀ u, r.place u = (f.around (.exact v)).place u := by
  intro h
  have hread : Exact.parse "2.1" = .ok (.ofRelease (.pair 2 1)) := rfl
  obtain ⟨r, hr, hplace⟩ := h .exact "2.1" _ hread
  have hjson := ofJson?_toJson (Form.exact.all_around (P := Version.Canonical)
    (v := .ofRelease (.pair 2 1)) (Exact.canonical_ofRelease _))
  obtain rfl := Except.ok.inj (hr.symm.trans hjson)
  exact absurd (hplace (.ofRelease (.pair 2 1))) (by decide)

end Range

end Versioning
