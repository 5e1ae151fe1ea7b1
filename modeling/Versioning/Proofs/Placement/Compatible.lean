import Versioning.Proofs.Placement.Denotation

/-!
# Compatible versions

Among versions with three numbers a caret keeps the numbers of its base up to the leftmost that is
not zero, and a tilde keeps the major and the minor; the versions that they take in go up from the
base, and of those with tags only the tags of the base's own release. Around a pattern either takes
in what it takes in around some release that the pattern matches.
-/

namespace Versioning

/-! ## Numbers that are kept -/

namespace Release

variable {r base : Release} {m n p a b c : Number}

/-- The numbers up to the leftmost that is not zero, or else all of them. -/
def leading (r : Release) : List Number :=
  r.numbers.take ((r.numbers.takeWhile (· = 0)).length + 1)

theorem leading_isPrefix (r : Release) : r.leading <+: r.numbers :=
  List.take_prefix _ _

theorem leading_triple (m n p : Number) : (triple m n p).leading =
    if m = 0 then if n = 0 then [m, n, p] else [m, n] else [m] := by
  rw [leading, numbers]
  by_cases hm : m = 0
  · by_cases hn : n = 0
    · by_cases hp : p = 0 <;> simp [hm, hn, hp]
    · simp [hm, hn]
  · simp [hm]

theorem leading_of_major_ne_zero (h : r.major ≠ 0) : r.leading = [r.major] := by
  cases r <;> simp_all [leading, numbers, major]

theorem singleton_isPrefix_numbers : [m] <+: r.numbers ↔ r.major = m := by
  cases r <;> simp [numbers, major, eq_comm]

/-- Below `1.0.0` the minor is among the leading numbers. -/
theorem eq_of_leading_isPrefix (hbase : base.IsFull) (hr : r.IsFull) (hzero : base.major = 0)
    (h : base.leading <+: r.numbers) : r.major = base.major ∧ r.minor? = base.minor? := by
  obtain ⟨m, n, p, rfl⟩ := hbase.exists_triple
  obtain ⟨a, b, c, rfl⟩ := hr.exists_triple
  change m = 0 at hzero
  rw [leading_triple, if_pos hzero, numbers] at h
  have hkept : m = a ∧ n = b := by
    split at h
    all_goals
      obtain ⟨hm, h⟩ := List.cons_prefix_cons.1 h
      exact ⟨hm, (List.cons_prefix_cons.1 h).1⟩
  exact ⟨hkept.1.symm, congrArg some hkept.2.symm⟩

/-! ## Up to where a number is counted up -/

section

variable (hle : (compare (triple m n p) (triple a b c)).isLE = true)
include hle

theorem lt_succ_major_iff : compare (triple a b c) (triple m.succ 0 0) = .lt ↔
    m.toNat < Number.maxValue ∧ m = a := by
  rw [isLE_iff_not_lt, ne_eq, triple_lt_triple] at hle
  simp only [triple_lt_triple, Number.toNat_succ, Number.toNat_zero, Number.ext_iff]
  omega

theorem lt_succ_minor_iff : compare (triple a b c) (triple m n.succ 0) = .lt ↔
    n.toNat < Number.maxValue ∧ m = a ∧ n = b := by
  rw [isLE_iff_not_lt, ne_eq, triple_lt_triple] at hle
  simp only [triple_lt_triple, Number.toNat_succ, Number.toNat_zero, Number.ext_iff]
  omega

theorem lt_succ_patch_iff : compare (triple a b c) (triple m n p.succ) = .lt ↔
    p.toNat < Number.maxValue ∧ m = a ∧ n = b ∧ p = c := by
  rw [isLE_iff_not_lt, ne_eq, triple_lt_triple] at hle
  simp only [triple_lt_triple, Number.toNat_succ, Number.ext_iff]
  omega

end

theorem nextBreaking_triple (m n p : Number) : (triple m n p).nextBreaking =
    if m = 0 then if n = 0 then triple m n p.succ else triple m n.succ 0
    else triple m.succ 0 0 := by
  have pos {k : Number} : 0 < k.toNat ↔ k ≠ 0 := by
    rw [ne_eq, Number.ext_iff, Number.toNat_zero]
    omega
  simp only [nextBreaking, major, minor?, patch?, Option.getD_some, pos, ite_not]
  by_cases hm : m = 0
  · by_cases hn : n = 0 <;> simp [hm, hn]
  · simp [hm]

/-- From a release on, what comes before its next breaking one keeps its leading numbers. There is
nothing if the last of these could not be counted up. -/
theorem lt_nextBreaking_iff (hbase : base.IsFull) (hr : r.IsFull)
    (hle : (compare base r).isLE = true) : compare r base.nextBreaking = .lt ↔
      (∀ k ∈ base.leading.getLast?, k.toNat < Number.maxValue) ∧ base.leading <+: r.numbers := by
  obtain ⟨m, n, p, rfl⟩ := hbase.exists_triple
  obtain ⟨a, b, c, rfl⟩ := hr.exists_triple
  rw [nextBreaking_triple, leading_triple, numbers]
  by_cases hm : m = 0
  · by_cases hn : n = 0
    · rw [if_pos hm, if_pos hn, if_pos hm, if_pos hn, lt_succ_patch_iff hle]
      simp
    · rw [if_pos hm, if_neg hn, if_pos hm, if_neg hn, lt_succ_minor_iff hle]
      simp
  · rw [if_neg hm, if_neg hm, lt_succ_major_iff hle]
    simp

theorem lt_ceil_iff (hbase : base.IsFull) (hr : r.IsFull) (hle : (compare base r).isLE = true) :
    compare r base.ceil = .lt ↔ (∀ k ∈ base.minor?, k.toNat < Number.maxValue) ∧
      r.major = base.major ∧ r.minor? = base.minor? := by
  obtain ⟨m, n, p, rfl⟩ := hbase.exists_triple
  obtain ⟨a, b, c, rfl⟩ := hr.exists_triple
  rw [ceil, lt_succ_minor_iff hle]
  simp [major, minor?, eq_comm]

/-- A full release is not between a shorter release and the one that fills it with zeros. -/
theorem lt_fill_iff {s : Release} (hr : r.IsFull) : compare r s.fill = .lt ↔ compare r s = .lt := by
  obtain ⟨a, b, c, rfl⟩ := hr.exists_triple
  cases s with
  | single m => simp [fill, compare_eq_lt, major, minor?, patch?, compare_minor_lt]
  | pair m n => simp [fill, compare_eq_lt, major, minor?, patch?, compare_minor_lt]
  | triple m n p => rfl

end Release

/-! ## Intervals from a floor -/

theorem Exact.isLE_compare_release {a b : Exact} (h : (a.precedence b).isLE = true) :
    (compare a.release b.release).isLE = true := by
  rw [precedence] at h
  cases hr : compare a.release b.release <;> rw [hr] at h <;> first | rfl | contradiction

namespace Interval

variable {base v : Exact} {r : Release}

theorem place_from_floor (hbase : base.release.IsFull) :
    place ⟨.exact base.floor, .ofRelease r⟩ (.exact v) = .satisfied ↔
      (base.precedence v).isLE = true ∧ v.precedence (.ofRelease r) = .lt ∧
        (v.prerelease.isNone = false →
          base.prerelease.isNone = false ∧ v.release = base.release) := by
  have huntagged : (Version.ofRelease r).admits (.exact v) = v.prerelease.isNone :=
    Version.admits_of_untagged rfl v
  have hadmits : (Version.exact base.floor).admits (.exact v) = true ∨
      (Version.ofRelease r).admits (.exact v) = true ↔
        (v.prerelease.isNone = false →
          base.prerelease.isNone = false ∧ v.release = base.release) := by
    rw [huntagged, Version.admits_exact, Exact.release_floor hbase, eq_comm (a := base.release)]
    cases v.prerelease.isNone with
    | true => simp
    | false => simp [Exact.floor]
  rw [isLE_iff_not_lt, ← Exact.precedence_floor hbase, ← hadmits]
  exact place_eq_satisfied

/-- If the release of the base is below the upper bound, so are all of its tags, and what remains is
which releases are below the bound. -/
theorem place_from_floor_iff {keeps : Prop} (hbase : base.release.IsFull)
    (hlt : compare base.release r = .lt)
    (hkeeps : (compare base.release v.release).isLE = true →
      (compare v.release r = .lt ↔ keeps)) :
    place ⟨.exact base.floor, .ofRelease r⟩ (.exact v) = .satisfied ↔
      (base.precedence v).isLE = true ∧ keeps ∧
        (v.prerelease.isNone = false →
          base.prerelease.isNone = false ∧ v.release = base.release) := by
  rw [place_from_floor hbase]
  constructor
  · rintro ⟨hle, hupper, hoptsIn⟩
    refine ⟨hle, (hkeeps (Exact.isLE_compare_release hle)).1 ?_, hoptsIn⟩
    cases hv : v.prerelease.isNone with
    | true => rwa [Exact.precedence_ofRelease hv] at hupper
    | false => rwa [(hoptsIn hv).2]
  · rintro ⟨hle, hk, hoptsIn⟩
    have hupper : compare v.release r = .lt := (hkeeps (Exact.isLE_compare_release hle)).2 hk
    exact ⟨hle, Exact.lt_ofRelease hupper, hoptsIn⟩

theorem place_from_floor_untagged (hbase : base.release.IsFull)
    (htag : base.prerelease.isNone = true) (hv : v.prerelease.isNone = true) :
    place ⟨.exact base.floor, .ofRelease r⟩ (.exact v) = .satisfied ↔
      (compare base.release v.release).isLE = true ∧ compare v.release r = .lt := by
  rw [place_from_floor hbase, Exact.precedence_untagged htag hv, Exact.precedence_ofRelease hv, hv]
  simp

end Interval

/-! ## Around an exact version -/

namespace Range

variable {base v : Exact}

theorem satisfiedBy_caret : (caret (.exact base)).satisfiedBy (.exact v) = true ↔
    Interval.place ⟨.exact base.floor, .ofRelease base.release.nextBreaking⟩ (.exact v) =
      .satisfied :=
  beq_iff_eq

theorem satisfiedBy_tilde : (tilde (.exact base)).satisfiedBy (.exact v) = true ↔
    Interval.place ⟨.exact base.floor, .ofRelease base.release.ceil⟩ (.exact v) = .satisfied :=
  beq_iff_eq

/-- What a caret or tilde takes in of the versions with three numbers: those from the base on that
keep its leading numbers, or its major and minor, and of those with tags only what is of the release
of a base with a tag. -/
theorem compatible_satisfiedBy_iff (hbase : base.release.IsFull) (hfull : v.release.IsFull) :
    let optsIn : Prop := base.prerelease.isNone = false ∧ v.release = base.release
    ((∀ k ∈ base.release.leading.getLast?, k.toNat < Number.maxValue) →
      ((caret (.exact base)).satisfiedBy (.exact v) = true ↔
        (base.precedence v).isLE = true ∧ base.release.leading <+: v.release.numbers ∧
          (v.prerelease.isNone = false → optsIn))) ∧
    ((∀ k ∈ base.release.minor?, k.toNat < Number.maxValue) →
      ((tilde (.exact base)).satisfiedBy (.exact v) = true ↔
        (base.precedence v).isLE = true ∧
          (v.release.major = base.release.major ∧ v.release.minor? = base.release.minor?) ∧
          (v.prerelease.isNone = false → optsIn))) := by
  intro optsIn
  have hself : (compare base.release base.release).isLE = true := Std.ReflCmp.isLE_rfl
  constructor
  · intro hroom
    have hlt : compare base.release base.release.nextBreaking = .lt :=
      (Release.lt_nextBreaking_iff hbase hbase hself).2 ⟨hroom, Release.leading_isPrefix _⟩
    rw [satisfiedBy_caret, Interval.place_from_floor_iff hbase hlt]
    intro hle
    rw [Release.lt_nextBreaking_iff hbase hfull hle, and_iff_right hroom]
  · intro hroom
    have hlt : compare base.release base.release.ceil = .lt :=
      (Release.lt_ceil_iff hbase hbase hself).2 ⟨hroom, rfl, rfl⟩
    rw [satisfiedBy_tilde, Interval.place_from_floor_iff hbase hlt]
    intro hle
    rw [Release.lt_ceil_iff hbase hfull hle, and_iff_right hroom]

theorem compatible_satisfiedBy_zero_three :
    let tag (n : Number) : Prerelease := .ofParts (Label.ofText? "beta") (some n) none
    let base : Exact := ⟨.triple 0 3 1, tag 2, .none⟩
    let later : Exact := ⟨.triple 0 3 9, .none, .ofText "7"⟩
    let tagged : Exact := ⟨.triple 0 3 9, tag 4, .none⟩
    base.release.IsFull ∧ later.release.IsFull ∧
      (∀ k ∈ base.release.leading.getLast?, k.toNat < Number.maxValue) ∧
      (∀ k ∈ base.release.minor?, k.toNat < Number.maxValue) ∧
      (caret (.exact base)).satisfiedBy (.exact later) = true ∧
      (tilde (.exact base)).satisfiedBy (.exact later) = true ∧
      (caret (.exact base)).satisfiedBy (.exact tagged) = false := by
  intro tag base later tagged
  have hbase : base.release.IsFull := rfl
  have hlater : later.release.IsFull := rfl
  have htagged : tagged.release.IsFull := rfl
  have hcaret : ∀ k ∈ base.release.leading.getLast?, k.toNat < Number.maxValue := by decide
  have htilde : ∀ k ∈ base.release.minor?, k.toNat < Number.maxValue := by decide
  obtain ⟨caret_iff, tilde_iff⟩ := compatible_satisfiedBy_iff hbase hlater
  refine ⟨hbase, hlater, hcaret, htilde, (caret_iff hcaret).2 ⟨by decide, by decide, ?_⟩,
    (tilde_iff htilde).2 ⟨by decide, by decide, ?_⟩, Bool.eq_false_iff.2 fun h => ?_⟩
  · exact fun h => Bool.noConfusion h
  · exact fun h => Bool.noConfusion h
  · have hrelease := (((compatible_satisfiedBy_iff hbase htagged).1 hcaret).1 h).2.2 rfl
    exact absurd hrelease.2 (by decide)

theorem satisfiedBy_caret_untagged (hbase : base.release.IsFull)
    (htag : base.prerelease.isNone = true) (hfull : v.release.IsFull)
    (hv : v.prerelease.isNone = true) :
    (caret (.exact base)).satisfiedBy (.exact v) = true ↔
      (compare base.release v.release).isLE = true ∧
        (∀ k ∈ base.release.leading.getLast?, k.toNat < Number.maxValue) ∧
        base.release.leading <+: v.release.numbers := by
  rw [satisfiedBy_caret, Interval.place_from_floor_untagged hbase htag hv]
  exact and_congr_right (Release.lt_nextBreaking_iff hbase hfull)

theorem satisfiedBy_tilde_untagged (hbase : base.release.IsFull)
    (htag : base.prerelease.isNone = true) (hfull : v.release.IsFull)
    (hv : v.prerelease.isNone = true) :
    (tilde (.exact base)).satisfiedBy (.exact v) = true ↔
      (compare base.release v.release).isLE = true ∧
        (∀ k ∈ base.release.minor?, k.toNat < Number.maxValue) ∧
        v.release.major = base.release.major ∧ v.release.minor? = base.release.minor? := by
  rw [satisfiedBy_tilde, Interval.place_from_floor_untagged hbase htag hv]
  exact and_congr_right (Release.lt_ceil_iff hbase hfull)

end Range

/-! ## Around a pattern -/

namespace Pattern

variable {w : Pattern} {r s : Release}

/-- Missing numbers apart, what breaks next after a pattern is its ceiling if the major is zero, and
else the next major line. -/
theorem fill_nextBreaking (w : Pattern) : w.nextBreaking.fill =
    if w.major = 0 then w.ceil else .triple w.major.succ 0 0 := by
  rw [nextBreaking]
  by_cases hm : w.major = 0
  · rw [if_pos hm]
    cases w with
    | single m | anyMinor m | anyBoth m =>
        rw [if_neg fun h => Bool.noConfusion h.2]
        rfl
    | pair m n | anyPatch m n =>
        rw [if_pos ⟨hm, rfl⟩]
        rfl
  · rw [if_neg hm, if_neg fun h => hm h.1]
    cases w <;> rfl

theorem Matches.major_eq (h : w.Matches r) : r.major = w.major := by
  obtain ⟨m, n, p, rfl⟩ := h.isFull.exists_triple
  exact h.1

/-- A pattern matches all or nothing of a minor line. -/
theorem Matches.of_line (h : w.Matches r) (hs : s.IsFull) (hmajor : s.major = r.major)
    (hminor : s.minor? = r.minor?) : w.Matches s := by
  obtain ⟨m, n, p, rfl⟩ := h.isFull.exists_triple
  obtain ⟨a, b, c, rfl⟩ := hs.exists_triple
  cases hmajor
  cases hminor
  exact h

/-- What takes in a version that is taken in around itself, and otherwise only around releases of
its own minor line, adds nothing to what a pattern matches. -/
theorem matches_iff_exists {v : Exact} {takes : Exact → Prop} (hfull : v.release.IsFull)
    (hv : v.prerelease.isNone = true) (hself : takes v)
    (hline : ∀ u : Exact, w.Matches u.release → u.prerelease.isNone = true → takes u →
      v.release.major = u.release.major ∧ v.release.minor? = u.release.minor?) :
    w.Matches v.release ↔ ∃ u, w.Matches u.release ∧ u.prerelease.isNone = true ∧ takes u := by
  constructor
  · exact fun hmatch => ⟨v, hmatch, hv, hself⟩
  · rintro ⟨u, hu, htag, hs⟩
    obtain ⟨hmajor, hminor⟩ := hline u hu htag hs
    exact hu.of_line hfull hmajor hminor

end Pattern

namespace Range

variable {w : Pattern} {v : Exact}

theorem satisfiedBy_tilde_pattern (hw : w.CountsUp) (hfull : v.release.IsFull)
    (hv : v.prerelease.isNone = true) :
    (tilde (.pattern w)).satisfiedBy (.exact v) = true ↔ w.Matches v.release := by
  have hplace : (tilde (.pattern w)).satisfiedBy (.exact v) = true ↔
      Interval.place ⟨.exact (Exact.ofRelease w.floor).floor, .ofRelease w.ceil⟩ (.exact v) =
        .satisfied := beq_iff_eq
  rw [hplace, Interval.place_from_floor_untagged w.matches_floor.isFull rfl hv,
    Pattern.lt_ceil_iff hw hfull, Pattern.matches_iff hfull]
  rfl

theorem satisfiedBy_caret_pattern (hw : w.CountsUp) (hfull : v.release.IsFull)
    (hv : v.prerelease.isNone = true) :
    (caret (.pattern w)).satisfiedBy (.exact v) = true ↔
      if w.major = 0 then w.Matches v.release
      else (compare w.floor v.release).isLE = true ∧ v.release.major = w.major := by
  have hplace : (caret (.pattern w)).satisfiedBy (.exact v) = true ↔
      Interval.place ⟨.exact (Exact.ofRelease w.floor).floor, .ofRelease w.nextBreaking⟩
        (.exact v) = .satisfied := beq_iff_eq
  rw [hplace, Interval.place_from_floor_untagged w.matches_floor.isFull rfl hv,
    ← Release.lt_fill_iff hfull, w.fill_nextBreaking]
  change (compare w.floor v.release).isLE = true ∧ _ ↔ _
  split
  · rw [Pattern.lt_ceil_iff hw hfull, Pattern.matches_iff hfull]
  · rw [and_congr_right_iff]
    intro hle
    obtain ⟨a, b, c, hr⟩ := hfull.exists_triple
    rw [hr] at hle ⊢
    rw [Release.lt_succ_major_iff hle, and_iff_right hw.1, eq_comm]
    rfl

/-- Below `1.0.0` a version is taken in by its own caret. From there on all carets end with the
major line, and the one that begins first is that of the pattern's floor. -/
theorem caret_pattern_iff_exists (hw : w.CountsUp) (hfull : v.release.IsFull)
    (hv : v.prerelease.isNone = true)
    (hroom : ∀ k ∈ v.release.numbers, k.toNat < Number.maxValue) :
    (caret (.pattern w)).satisfiedBy (.exact v) = true ↔
      ∃ u : Exact, w.Matches u.release ∧ u.prerelease.isNone = true ∧
        (caret (.exact u)).satisfiedBy (.exact v) = true := by
  rw [satisfiedBy_caret_pattern hw hfull hv]
  by_cases hzero : w.major = 0
  · rw [if_pos hzero]
    refine Pattern.matches_iff_exists hfull hv ?_ fun u hu htag hs => ?_
    · rw [satisfiedBy_caret_untagged hfull hv hfull hv]
      refine ⟨Std.ReflCmp.isLE_rfl, fun k hk => hroom k ?_, Release.leading_isPrefix _⟩
      exact List.mem_of_mem_take (List.mem_of_getLast? hk)
    · obtain ⟨_, _, hleading⟩ := (satisfiedBy_caret_untagged hu.isFull htag hfull hv).1 hs
      exact Release.eq_of_leading_isPrefix hu.isFull hfull (hu.major_eq.trans hzero) hleading
  · rw [if_neg hzero]
    have hleading_iff {u : Release} (hu : w.Matches u) :
        u.leading <+: v.release.numbers ↔ v.release.major = w.major := by
      rw [Release.leading_of_major_ne_zero (hu.major_eq ▸ hzero),
        Release.singleton_isPrefix_numbers, hu.major_eq]
    constructor
    · rintro ⟨hle, hmajor⟩
      have hfloor : w.floor.leading = [w.major] := Release.leading_of_major_ne_zero hzero
      refine ⟨.ofRelease w.floor, w.matches_floor, rfl, ?_⟩
      rw [satisfiedBy_caret_untagged w.matches_floor.isFull rfl hfull hv]
      refine ⟨hle, ?_, (hleading_iff w.matches_floor).2 hmajor⟩
      rw [Exact.ofRelease, hfloor]
      rintro _ ⟨⟩
      exact hw.1
    · rintro ⟨u, hu, htag, hs⟩
      obtain ⟨hle, _, hleading⟩ := (satisfiedBy_caret_untagged hu.isFull htag hfull hv).1 hs
      exact ⟨Std.TransCmp.isLE_trans ((Pattern.matches_iff hu.isFull).1 hu).1 hle,
        (hleading_iff hu).1 hleading⟩

theorem tilde_pattern_iff_exists (hw : w.CountsUp) (hfull : v.release.IsFull)
    (hv : v.prerelease.isNone = true)
    (hroom : ∀ k ∈ v.release.numbers, k.toNat < Number.maxValue) :
    (tilde (.pattern w)).satisfiedBy (.exact v) = true ↔
      ∃ u : Exact, w.Matches u.release ∧ u.prerelease.isNone = true ∧
        (tilde (.exact u)).satisfiedBy (.exact v) = true := by
  rw [satisfiedBy_tilde_pattern hw hfull hv]
  refine Pattern.matches_iff_exists hfull hv ?_ fun u hu htag hs => ?_
  · rw [satisfiedBy_tilde_untagged hfull hv hfull hv]
    refine ⟨Std.ReflCmp.isLE_rfl, fun k hk => hroom k ?_, rfl, rfl⟩
    obtain ⟨a, b, c, hr⟩ := hfull.exists_triple
    rw [hr] at hk ⊢
    cases hk
    exact List.mem_cons_of_mem _ List.mem_cons_self
  · exact ((satisfiedBy_tilde_untagged hu.isFull htag hfull hv).1 hs).2.2

/-- A caret or tilde of a pattern takes in those full releases that the caret or tilde of some
release takes in which the pattern matches. -/
theorem compatible_pattern_is_union (hw : w.CountsUp) (hfull : v.release.IsFull)
    (hv : v.prerelease.isNone = true)
    (hroom : ∀ k ∈ v.release.numbers, k.toNat < Number.maxValue) :
    ((caret (.pattern w)).satisfiedBy (.exact v) = true ↔
      ∃ u : Exact, w.Matches u.release ∧ u.prerelease.isNone = true ∧
        (caret (.exact u)).satisfiedBy (.exact v) = true) ∧
    ((tilde (.pattern w)).satisfiedBy (.exact v) = true ↔
      ∃ u : Exact, w.Matches u.release ∧ u.prerelease.isNone = true ∧
        (tilde (.exact u)).satisfiedBy (.exact v) = true) :=
  ⟨caret_pattern_iff_exists hw hfull hv hroom, tilde_pattern_iff_exists hw hfull hv hroom⟩

theorem compatible_pattern_is_union_zero_seven :
    let w : Pattern := .anyMinor 0
    let v : Exact := ⟨.triple 0 7 5, .none, .ofText "63"⟩
    w.CountsUp ∧ v.release.IsFull ∧ v.prerelease.isNone = true ∧
      (∀ k ∈ v.release.numbers, k.toNat < Number.maxValue) ∧
      (caret (.pattern w)).satisfiedBy (.exact v) = true ∧
      ∃ u : Exact, w.Matches u.release ∧ u.prerelease.isNone = true ∧
        (tilde (.exact u)).satisfiedBy (.exact v) = true := by
  intro w v
  have hw : w.CountsUp := by decide
  have hroom : ∀ k ∈ v.release.numbers, k.toNat < Number.maxValue := by decide
  obtain ⟨caret_iff, tilde_iff⟩ := compatible_pattern_is_union hw (v := v) rfl rfl hroom
  exact ⟨hw, rfl, rfl, hroom, caret_iff.2 ⟨.ofRelease (.triple 0 7 2), by decide, rfl, by decide⟩,
    tilde_iff.1 (by decide)⟩

end Range

end Versioning
