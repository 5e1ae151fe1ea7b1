import Versioning.Proofs.Placement.Compatible

/-!
# Steps go forward

Each step to a later version counts one number up and resets those behind it. As long as that number
has a successor, the step leads above the version, and from a pattern above all that it matches. A
number without a successor stays as it is, but those behind it are reset all the same: then the step
leads back.
-/

namespace Versioning

/-! ## Steps -/

/-- The number in a place: the major, the minor or the patch. -/
def Release.number? (r : Release) : Fin 3 → Option Number
  | 0 => some r.major
  | 1 => r.minor?
  | 2 => r.patch?

/-- The steps to a later version. -/
inductive Advance
  | nextMajor
  | nextMinor
  | nextPatch
  | nextBreaking
  | ceil
  | next
deriving DecidableEq

namespace Advance

def apply : Advance → Version → Version
  | nextMajor, v => v.nextMajor
  | nextMinor, v => v.nextMinor
  | nextPatch, v => v.nextPatch
  | nextBreaking, v => v.nextBreaking
  | ceil, v => v.ceil
  | next, v => v.next

/-- The place of the number of a release that counts up. -/
def slot : Advance → Release → Fin 3
  | nextMajor, _ => 0
  | nextMinor, _ => 1
  | nextPatch, _ | next, _ => 2
  | nextBreaking, r =>
    if 0 < r.major.toNat then 0 else if 0 < (r.minor?.getD 0).toNat then 1 else 2
  | ceil, r => if r.minor?.isNone then 0 else 1

/-- The number of a version that counts up, unless it is missing. A version with a tag goes to its
next patch by dropping the tag, where nothing counts up. -/
def counted? (a : Advance) (v : Exact) : Option Number :=
  match a with
  | nextPatch => if v.prerelease.isNone then v.release.patch? else none
  | next => if v.prerelease.isNone then v.release.patch? else v.prerelease.number
  | _ => v.release.number? (a.slot v.release)

/-- The number of a pattern that counts up, unless it is open. -/
def countedOf? (w : Pattern) : Advance → Option Number
  | nextMajor => some w.major
  | nextMinor => w.minor.number?
  | nextPatch => none
  | nextBreaking => if w.major = 0 then some (w.minor.number?.getD w.major) else some w.major
  | ceil | next => some (w.minor.number?.getD w.major)

end Advance

/-! ## Releases -/

namespace Release

variable {r s : Release}

/-- The number in the place, if there is one, has a successor. -/
def HasRoom (r : Release) (slot : Fin 3) : Prop :=
  ∀ k ∈ r.number? slot, k.toNat < Number.maxValue

theorem lt_of_major_lt (h : compare r.major s.major = .lt) : compare r s = .lt :=
  compare_eq_lt.2 (.inl (Number.compare_eq_lt.1 h))

theorem lt_nextMajor (h : r.HasRoom 0) : compare r r.nextMajor = .lt := by
  cases r <;> exact lt_of_major_lt (Number.lt_succ (h _ rfl))

theorem lt_nextMinor (h : r.HasRoom 1) : compare r r.nextMinor = .lt := by
  cases r with
  | single m => exact compare_eq_lt.2 (.inr ⟨rfl, .inl rfl⟩)
  | pair m n | triple m n p =>
      exact compare_eq_lt.2 (.inr ⟨rfl, .inl (Number.lt_succ (h n rfl))⟩)

theorem lt_ceil (h : r.HasRoom (Advance.ceil.slot r)) : compare r r.ceil = .lt := by
  cases r with
  | single m => exact lt_of_major_lt (Number.lt_succ (h m rfl))
  | pair m n | triple m n p =>
      exact compare_eq_lt.2 (.inr ⟨rfl, .inl (Number.lt_succ (h n rfl))⟩)

/-- The number that counts up is the first that is not zero, or else the patch. -/
theorem lt_nextBreaking (h : r.HasRoom (Advance.nextBreaking.slot r)) :
    compare r r.nextBreaking = .lt := by
  rw [Advance.slot] at h
  rw [nextBreaking]
  by_cases hm : 0 < r.major.toNat
  · rw [if_pos hm] at h ⊢
    exact lt_of_major_lt (Number.lt_succ (h _ rfl))
  · have hmajor := Number.eq_zero_of_not_pos hm
    by_cases hn : 0 < (r.minor?.getD 0).toNat
    · rw [if_neg hm, if_pos hn] at h ⊢
      refine compare_eq_lt.2 (.inr ⟨hmajor, .inl ?_⟩)
      cases hminor : r.minor? with
      | none => simp [hminor] at hn
      | some n => exact Number.lt_succ (h n hminor)
    · have hminor := Number.eq_zero_of_not_pos hn
      rw [if_neg hm, if_neg hn] at h ⊢
      cases r with
      | single m => exact compare_eq_lt.2 (.inr ⟨hmajor, .inl rfl⟩)
      | pair m n => exact compare_eq_lt.2 (.inr ⟨hmajor, .inr ⟨congrArg some hminor, rfl⟩⟩)
      | triple m n p =>
          exact compare_eq_lt.2
            (.inr ⟨hmajor, .inr ⟨congrArg some hminor, Number.lt_succ (h p rfl)⟩⟩)

theorem isLE_fill (r : Release) : (compare r r.fill).isLE = true := by
  cases r with
  | single m => exact Ordering.isLE_of_eq_lt (compare_eq_lt.2 (.inr ⟨rfl, .inl rfl⟩))
  | pair m n => exact Ordering.isLE_of_eq_lt (compare_eq_lt.2 (.inr ⟨rfl, .inr ⟨rfl, rfl⟩⟩))
  | triple m n p => exact Std.ReflCmp.isLE_rfl

end Release

/-! ## From an exact version -/

/-- A tag is dropped, which leads above it without counting. -/
theorem Exact.lt_nextPatch_tagged {v : Exact} (hv : v.prerelease.isNone = false) :
    v.precedence (.ofRelease v.nextPatch) = .lt := by
  rw [precedence_ofRelease_tagged hv, nextPatch, if_neg (Bool.eq_false_iff.1 hv)]
  exact v.release.isLE_fill

theorem Version.relate_of_lt {u v : Exact} (h : u.precedence v = .lt) :
    (exact v).relate (exact u) = .greater ∨ (exact v).relate (exact u) = .greaterPrerelease := by
  have hgt : ((exact v).relate (exact u)).precedence = .gt := by
    rw [precedence_relate]
    exact Std.OrientedCmp.gt_of_lt h
  cases hr : (exact v).relate (exact u) <;> rw [hr] at hgt <;>
    first | exact .inl rfl | exact .inr rfl | contradiction

theorem Advance.exists_apply_exact {a : Advance} {v : Exact}
    (h : ∀ k ∈ a.counted? v, k.toNat < Number.maxValue) :
    ∃ w, a.apply (.exact v) = .exact w ∧ v.precedence w = .lt := by
  cases a with
  | nextMajor => exact ⟨_, rfl, Exact.lt_ofRelease (Release.lt_nextMajor h)⟩
  | nextMinor => exact ⟨_, rfl, Exact.lt_ofRelease (Release.lt_nextMinor h)⟩
  | nextBreaking => exact ⟨_, rfl, Exact.lt_ofRelease (Release.lt_nextBreaking h)⟩
  | ceil => exact ⟨_, rfl, Exact.lt_ofRelease (Release.lt_ceil h)⟩
  | nextPatch =>
      refine ⟨_, rfl, ?_⟩
      cases hv : v.prerelease.isNone with
      | true =>
          rw [counted?, if_pos hv] at h
          have hlt := Exact.lt_next_untagged hv h
          rwa [Exact.next, if_pos hv] at hlt
      | false => exact Exact.lt_nextPatch_tagged hv
  | next =>
      refine ⟨_, rfl, ?_⟩
      cases hv : v.prerelease.isNone with
      | true =>
          rw [counted?, if_pos hv] at h
          exact Exact.lt_next_untagged hv h
      | false =>
          rw [counted?, if_neg (Bool.eq_false_iff.1 hv)] at h
          exact Exact.lt_next_tagged hv h

/-! ## From a pattern -/

namespace Pattern

variable {w : Pattern} {r : Release}

theorem Matches.lt_succ_major (h : w.Matches r) (hroom : w.major.toNat < Number.maxValue) :
    compare r (.triple w.major.succ 0 0) = .lt := by
  refine Release.lt_of_major_lt ?_
  rw [h.major_eq]
  exact Number.lt_succ hroom

/-- What a pattern matches ends at the minor line, or at the major line if the minor is open. -/
theorem Matches.lt_ceil (h : w.Matches r)
    (hroom : (w.minor.number?.getD w.major).toNat < Number.maxValue) : compare r w.ceil = .lt := by
  obtain ⟨m, n, p, rfl⟩ := h.isFull.exists_triple
  rw [ceil]
  cases hminor : w.minor.number? with
  | none =>
      rw [hminor] at hroom
      exact h.lt_succ_major hroom
  | some k =>
      rw [hminor] at hroom
      refine Release.compare_eq_lt.2 (.inr ⟨h.1, .inl ?_⟩)
      rw [h.2 k hminor]
      exact Number.lt_succ hroom

theorem fill_nextMajor (w : Pattern) : w.nextMajor.fill = .triple w.major.succ 0 0 := by
  cases w <;> rfl

end Pattern

theorem Version.relate_ofRelease_of_lt {v : Exact} {r : Release} (h : compare v.release r = .lt) :
    (ofRelease r).relate (exact v) = .greater := by
  have hgt : compare r v.release = .gt := Std.OrientedCmp.gt_of_lt h
  rw [ofRelease, relate_exact]
  change Relation.ofParts (compare r v.release) _ _ = .greater
  rw [hgt]
  rfl

theorem Advance.exists_apply_pattern {a : Advance} {w : Pattern} {r : Release}
    (ha : a ∈ [nextMajor, nextBreaking, ceil, next])
    (h : ∀ k ∈ a.countedOf? w, k.toNat < Number.maxValue) (hr : w.Matches r) :
    ∃ s, a.apply (.pattern w) = .ofRelease s ∧ compare r s = .lt := by
  cases a with
  | nextMinor | nextPatch => simp at ha
  | nextMajor =>
      refine ⟨_, rfl, (Release.lt_fill_iff hr.isFull).1 ?_⟩
      rw [w.fill_nextMajor]
      exact hr.lt_succ_major (h _ rfl)
  | nextBreaking =>
      refine ⟨_, rfl, (Release.lt_fill_iff hr.isFull).1 ?_⟩
      rw [w.fill_nextBreaking]
      rw [countedOf?] at h
      by_cases hzero : w.major = 0
      · rw [if_pos hzero] at h ⊢
        exact hr.lt_ceil (h _ rfl)
      · rw [if_neg hzero] at h ⊢
        exact hr.lt_succ_major (h _ rfl)
  | ceil | next => exact ⟨_, rfl, hr.lt_ceil (h _ rfl)⟩

/-- A step from an exact version leads above it, and a step from a pattern above all releases that
the pattern matches and all of their tags, as long as the number that counts up has a successor. -/
theorem Advance.moves_forward :
    (∀ (a : Advance) (v : Exact), (∀ k ∈ a.counted? v, k.toNat < Number.maxValue) →
      let w := a.apply (.exact v)
      w.relate (.exact v) = .greater ∨ w.relate (.exact v) = .greaterPrerelease) ∧
    ∀ a ∈ [nextMajor, nextBreaking, ceil, next], ∀ (w : Pattern) (v : Exact),
      (∀ k ∈ a.countedOf? w, k.toNat < Number.maxValue) → w.Matches v.release →
        (a.apply (.pattern w)).relate (.exact v) = .greater := by
  constructor
  · intro a v h
    obtain ⟨w, hw, hlt⟩ := exists_apply_exact h
    rw [hw]
    exact Version.relate_of_lt hlt
  · intro a ha w v h hv
    obtain ⟨s, hs, hlt⟩ := exists_apply_pattern ha h hv
    rw [hs]
    exact Version.relate_ofRelease_of_lt hlt

theorem Advance.moves_forward_beta_two :
    let tag (n : Number) : Prerelease := .ofParts (Label.ofText? "beta") (some n) none
    let u : Exact := ⟨.triple 1 2 3, tag 2, .ofText "7"⟩
    let w : Pattern := .anyPatch 0 7
    let v : Exact := ⟨.triple 0 7 9, tag 2, .none⟩
    (∀ k ∈ next.counted? u, k.toNat < Number.maxValue) ∧
      ((next.apply (.exact u)).relate (.exact u) = .greater ∨
        (next.apply (.exact u)).relate (.exact u) = .greaterPrerelease) ∧
      (∀ k ∈ nextBreaking.countedOf? w, k.toNat < Number.maxValue) ∧ w.Matches v.release ∧
      (nextBreaking.apply (.pattern w)).relate (.exact v) = .greater := by
  intro tag u w v
  have hu : ∀ k ∈ next.counted? u, k.toNat < Number.maxValue := by decide
  have hw : ∀ k ∈ nextBreaking.countedOf? w, k.toNat < Number.maxValue := by decide
  have hv : w.Matches v.release := by decide
  obtain ⟨exact_forward, pattern_forward⟩ := moves_forward
  exact ⟨hu, exact_forward next u hu, hw, hv, pattern_forward nextBreaking (by decide) w v hw hv⟩

/-! ## Numbers without a successor -/

namespace Release

variable {m n p : Number} {slot : Fin 3}

/-- The numbers behind the place are zeros. -/
def EndsAt (r : Release) (slot : Fin 3) : Prop :=
  ∀ i, slot < i → ∀ k ∈ r.number? i, k = 0

theorem endsAt_triple :
    (triple m n p).EndsAt slot ↔ (slot < 1 → n = 0) ∧ (slot < 2 → p = 0) := by
  constructor
  · exact fun h => ⟨fun hslot => h 1 hslot n rfl, fun hslot => h 2 hslot p rfl⟩
  · rintro ⟨hn, hp⟩ i hi k hk
    match i with
    | 0 => exact absurd hi (Fin.not_lt_zero _)
    | 1 => cases hk; exact hn hi
    | 2 => cases hk; exact hp hi

/-- Counts up the number in the given place and resets those behind it. -/
def countUp (m n p : Number) : Fin 3 → Release
  | 0 => triple m.succ 0 0
  | 1 => triple m n.succ 0
  | 2 => triple m n p.succ

theorem lt_countUp_iff : compare (triple m n p) (countUp m n p slot) = .lt ↔
    (triple m n p).HasRoom slot := by
  have hle : (compare (triple m n p) (triple m n p)).isLE = true := Std.ReflCmp.isLE_rfl
  match slot with
  | 0 => rw [countUp, lt_succ_major_iff hle]; simp [HasRoom, number?, major]
  | 1 => rw [countUp, lt_succ_minor_iff hle]; simp [HasRoom, number?, minor?]
  | 2 => rw [countUp, lt_succ_patch_iff hle]; simp [HasRoom, number?, patch?]

/-- A number without a successor stays, and those behind it that are not zero fall to zero. -/
theorem countUp_lt_iff : compare (countUp m n p slot) (triple m n p) = .lt ↔
    ¬ (triple m n p).HasRoom slot ∧ ¬ (triple m n p).EndsAt slot := by
  have hm : m.toNat ≤ Number.maxValue := m.le_max
  have hn : n.toNat ≤ Number.maxValue := n.le_max
  have hp : p.toNat ≤ Number.maxValue := p.le_max
  rw [endsAt_triple]
  match slot with
  | 0 | 1 | 2 =>
    simp only [HasRoom, number?, major, minor?, patch?, Option.mem_def, Option.some.injEq,
      forall_eq', countUp, triple_lt_triple, Number.toNat_succ, Number.toNat_zero]
    simp only [Number.ext_iff, Number.toNat_zero, Fin.reduceLT, forall_const, false_imp_iff,
      true_and, and_true, not_true_eq_false, and_false, iff_false]
    omega

theorem nextBreaking_eq_countUp (m n p : Number) : (triple m n p).nextBreaking =
    countUp m n p (Advance.nextBreaking.slot (triple m n p)) := by
  by_cases hm : 0 < m.toNat
  · have hslot : Advance.nextBreaking.slot (triple m n p) = 0 := if_pos hm
    rw [hslot]
    exact if_pos hm
  · obtain rfl := Number.eq_zero_of_not_pos hm
    by_cases hn : 0 < n.toNat
    · have hslot : Advance.nextBreaking.slot (triple 0 n p) = 1 := if_pos hn
      rw [hslot]
      exact if_pos hn
    · obtain rfl := Number.eq_zero_of_not_pos hn
      rfl

end Release

theorem Version.relate_ofRelease (r s : Release) :
    (ofRelease r).relate (ofRelease s) = .ofParts (compare r s) .eq .eq :=
  relate_exact _ _

theorem Advance.apply_ofNumbers (a : Advance) (m n p : Number) : a.apply (.ofNumbers m n p) =
    .ofRelease (.countUp m n p (a.slot (.triple m n p))) := by
  cases a with
  | nextBreaking => exact congrArg Version.ofRelease (Release.nextBreaking_eq_countUp m n p)
  | nextMajor | nextMinor | nextPatch | ceil | next => rfl

/-- A step from a release of three numbers leads forward if the number that counts up has a
successor. Otherwise it leads back, unless the numbers behind are zeros already, and then it leads
nowhere. -/
theorem Advance.relate_apply_iff (a : Advance) (m n p : Number) :
    let v : Version := .ofNumbers m n p
    let r : Release := .triple m n p
    ((a.apply v).relate v = .greater ↔ r.HasRoom (a.slot r)) ∧
    ((a.apply v).relate v = .equal ↔ ¬ r.HasRoom (a.slot r) ∧ r.EndsAt (a.slot r)) ∧
    ((a.apply v).relate v = .lower ↔ ¬ r.HasRoom (a.slot r) ∧ ¬ r.EndsAt (a.slot r)) := by
  intro v r
  have hgreater : compare (Release.countUp m n p (a.slot r)) r = .gt ↔ r.HasRoom (a.slot r) := by
    rw [Std.OrientedCmp.gt_iff_lt]
    exact Release.lt_countUp_iff
  have hlower : compare (Release.countUp m n p (a.slot r)) r = .lt ↔
      ¬ r.HasRoom (a.slot r) ∧ ¬ r.EndsAt (a.slot r) := Release.countUp_lt_iff
  have hrelate : (a.apply v).relate v =
      .ofParts (compare (Release.countUp m n p (a.slot r)) r) .eq .eq := by
    rw [a.apply_ofNumbers]
    exact Version.relate_ofRelease _ _
  rw [hrelate]
  cases hc : compare (Release.countUp m n p (a.slot r)) r with
  | lt =>
      obtain ⟨hroom, hends⟩ := hlower.1 hc
      simp [Version.Relation.ofParts, hroom, hends]
  | eq =>
      have hroom : ¬ r.HasRoom (a.slot r) := by
        rw [← hgreater, hc]
        decide
      have hends : r.EndsAt (a.slot r) := Classical.byContradiction fun hends => by
        have hlt := hlower.2 ⟨hroom, hends⟩
        rw [hc] at hlt
        contradiction
      simp [Version.Relation.ofParts, hroom, hends]
  | gt => simp [Version.Relation.ofParts, hgreater.1 hc]

/-- The minor of `1.18446744073709551615.5` has no successor, and its patch is dropped. -/
theorem Advance.can_lead_back : ¬ ∀ (a : Advance) (m n p : Number),
    (a.apply (.ofNumbers m n p)).relate (.ofNumbers m n p) ≠ .lower := by
  intro h
  exact h ceil 1 18446744073709551615 5 (by decide)

end Versioning
