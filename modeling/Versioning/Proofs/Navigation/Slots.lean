import Versioning.Version

/-!
# Steps by slots

Each step to a release, slot by slot: what becomes of the major, of the minor and of the patch. The
slots of a pattern may be open, but those that a step fills never are, and it fills no patch without
a minor. So what it fills in always makes up a release, and it leads to that one.
-/

namespace Versioning

/-! ## Slots -/

/-- A slot that is left out stays out, and any other becomes zero. -/
def Component.reset : Component → Component
  | absent => absent
  | number _ | wildcard => number 0

theorem Component.isPositive_ofNumber? (o : Option Number) :
    (ofNumber? o).isPositive = true ↔ 0 < (o.getD 0).toNat := by
  cases o <;> simp [ofNumber?, isPositive, number?]

/-- What is put in the slots of a version, which need not make up a release. -/
structure Slots where
  major : Number
  minor : Component
  patch : Component

namespace Slots

/-- The release with these slots, unless one of them is a wildcard or the patch stands alone. -/
def release? (s : Slots) : Option Release :=
  if s.minor.isWildcard || s.patch.isWildcard then none
  else Release.ofParts? s.major s.minor.number? s.patch.number?

theorem release?_ofNumber? (m : Number) (n p : Option Number) :
    release? ⟨m, .ofNumber? n, .ofNumber? p⟩ = Release.ofParts? m n p := by
  cases n <;> cases p <;> rfl

end Slots

namespace Version

def slots (v : Version) : Slots :=
  ⟨v.major, v.minor, v.patch⟩

/-- The version is exact, and its release is the one with the slots. -/
def HasSlots (v : Version) (s : Slots) : Prop :=
  ∃ e : Exact, v = exact e ∧ s.release? = some e.release

theorem HasSlots.ofRelease {r : Release} {s : Slots} (h : s.release? = some r) :
    (Version.ofRelease r).HasSlots s :=
  ⟨_, rfl, h⟩

theorem hasSlots_exact (v : Exact) : (exact v).HasSlots (exact v).slots :=
  ⟨v, rfl, (Slots.release?_ofNumber? ..).trans v.release.ofParts?_parts⟩

/-! ## What the steps fill -/

def nextMajorSlots (v : Version) : Slots :=
  ⟨v.major.succ, v.minor.reset, v.patch.reset⟩

/-- An open minor of a pattern counts up from zero, where adding would leave it open. -/
def nextMinorSlots (v : Version) : Slots :=
  let minor : Component :=
    if v.isPattern then .number (v.minor.number?.elim 1 Number.succ) else v.minor.increment 1
  ⟨v.major, minor, v.patch.reset⟩

/-- A version with a tag goes to the patch that it announces. -/
def nextPatchSlots (v : Version) : Slots :=
  let patch : Component := if v.isPrerelease then v.patch.orZero else v.patch.increment 1
  ⟨v.major, v.minor.orZero, patch⟩

def nextBreakingSlots : Version → Slots
  | exact v =>
    if 0 < v.release.major.toNat then ⟨v.release.major.succ, .number 0, .number 0⟩
    else if (exact v).minor.isPositive then ⟨0, (exact v).minor.increment 1, .number 0⟩
    else ⟨0, .number 0, (exact v).patch.orZero.increment 1⟩
  | pattern w =>
    if w.major = 0 ∧ w.minor.isNumber then (pattern w).nextMinorSlots
    else (pattern w).nextMajorSlots

def floorSlots (v : Version) : Slots :=
  ⟨v.major, v.minor.orZero, v.patch.orZero⟩

def ceilSlots (v : Version) : Slots :=
  v.minor.number?.elim ⟨v.major.succ, .number 0, .number 0⟩ fun n =>
    ⟨v.major, .number n.succ, .number 0⟩

def nextSlots (v : Version) : Slots :=
  if v.isPattern then v.ceilSlots else if v.isPrerelease then v.slots else v.nextPatchSlots

theorem hasSlots_nextMajor (v : Version) : v.nextMajor.HasSlots v.nextMajorSlots := by
  cases v with
  | exact v => rcases v with ⟨_ | _ | _, _, _⟩ <;> exact .ofRelease rfl
  | pattern w => cases w <;> exact .ofRelease rfl

theorem hasSlots_nextMinor (v : Version) : v.nextMinor.HasSlots v.nextMinorSlots := by
  cases v with
  | exact v => rcases v with ⟨_ | _ | _, _, _⟩ <;> exact .ofRelease rfl
  | pattern w => cases w <;> exact .ofRelease rfl

/-- The minor has to be filled before the patch can be. -/
theorem hasSlots_nextPatch (v : Exact) :
    (exact v).nextPatch.HasSlots (exact v).nextPatchSlots := by
  apply HasSlots.ofRelease
  rw [Exact.nextPatch, nextPatchSlots, isPrerelease, prerelease]
  cases v.prerelease.isNone <;> rcases v with ⟨_ | _ | _, _, _⟩ <;> rfl

/-- Where the minor counts up it is there, since a number that is missing is not positive. -/
theorem hasSlots_nextBreaking (v : Version) : v.nextBreaking.HasSlots v.nextBreakingSlots := by
  cases v with
  | exact v =>
      have hpositive := Component.isPositive_ofNumber? v.release.minor?
      apply HasSlots.ofRelease
      rw [nextBreakingSlots, Release.nextBreaking, minor, patch]
      by_cases hm : 0 < v.release.major.toNat
      · rw [if_pos hm, if_pos hm]
        rfl
      · rw [if_neg hm, if_neg hm]
        by_cases hn : 0 < (v.release.minor?.getD 0).toNat
        · rw [if_pos hn, if_pos (hpositive.2 hn)]
          cases hr : v.release with
          | single m => simp [hr, Release.minor?] at hn
          | pair m n | triple m n p => rfl
        · rw [if_neg hn, if_neg (mt hpositive.1 hn)]
          cases v.release <;> rfl
  | pattern w =>
      rw [nextBreakingSlots, nextBreaking, Pattern.nextBreaking]
      by_cases h : w.major = 0 ∧ w.minor.isNumber
      · rw [if_pos h, if_pos h]
        exact hasSlots_nextMinor (pattern w)
      · rw [if_neg h, if_neg h]
        exact hasSlots_nextMajor (pattern w)

theorem hasSlots_floor (v : Version) : v.floor.HasSlots v.floorSlots := by
  cases v with
  | exact v => rcases v with ⟨_ | _ | _, _, _⟩ <;> exact ⟨_, rfl, rfl⟩
  | pattern w => cases w <;> exact .ofRelease rfl

theorem hasSlots_ceil (v : Version) : v.ceil.HasSlots v.ceilSlots := by
  cases v with
  | exact v => rcases v with ⟨_ | _ | _, _, _⟩ <;> exact .ofRelease rfl
  | pattern w => cases w <;> exact .ofRelease rfl

/-- A tag counts up by itself and leaves the slots as they are. -/
theorem hasSlots_next (v : Version) : v.next.HasSlots v.nextSlots := by
  cases v with
  | exact v =>
      rw [next, Exact.next, nextSlots, isPrerelease, prerelease]
      cases v.prerelease.isNone with
      | true => exact hasSlots_nextPatch v
      | false => exact hasSlots_exact ⟨v.release, v.prerelease.next, .none⟩
  | pattern w => exact hasSlots_ceil (pattern w)

end Version

end Versioning
