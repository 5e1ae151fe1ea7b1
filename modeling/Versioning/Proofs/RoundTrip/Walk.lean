import Versioning.Proofs.Navigation.Slots
import Versioning.Proofs.RoundTrip.Json
import Versioning.Step

/-!
# Walks stay well formed

A version that was read has a canonical tag and a dotted build. Every step keeps that: it drops
them, counts the number of the tag up, or takes new ones that were read. So wherever a walk leads,
the version is read back from its text as itself. And what a step puts in the slots, from whatever
was in them, makes up a release.
-/

namespace Versioning

/-! ## Steps -/

theorem Exact.ofParts?_eq_ok {major : Number} {minor patch : Option Number} {p : Prerelease}
    {b : Build} {v : Exact} : Exact.ofParts? major minor patch p b = .ok v ↔
      Release.ofParts? major minor patch = some v.release ∧ v.prerelease = p ∧ v.build = b := by
  unfold Exact.ofParts?
  constructor
  · intro h
    split at h <;> cases h
    exact ⟨‹_›, rfl, rfl⟩
  · rintro ⟨h, rfl, rfl⟩
    rw [h]

theorem Exact.canonical_of_ofParts? {major : Number} {minor patch : Option Number} {p : Prerelease}
    {b : Build} {v : Exact} (hp : p.Canonical) (hb : b.Dotted)
    (h : Exact.ofParts? major minor patch p b = .ok v) : v.Canonical := by
  obtain ⟨_, rfl, rfl⟩ := Exact.ofParts?_eq_ok.1 h
  exact ⟨hp, hb⟩

theorem Strict.canonical_of_toVersion {s : Strict} {v : Version} (h : s.toVersion = .ok v) :
    v.Canonical := by
  obtain ⟨p, hp, h⟩ := bind_eq_ok.1 h
  obtain ⟨b, hb, h⟩ := bind_eq_ok.1 h
  obtain ⟨e, he, h⟩ := bind_eq_ok.1 h
  cases h
  exact Exact.canonical_of_ofParts? (Prerelease.canonical_of_parse hp) (Build.dotted_of_parse hb) he

namespace Step

/-- New tags were read. -/
def FromText : Step → Prop
  | retag p b => (∃ s, Prerelease.parse s = .ok p) ∧ ∃ s, Build.parse s = .ok b
  | _ => True

theorem canonical_apply {v w : Version} {step : Step} (hv : v.Canonical) (hstep : step.FromText)
    (h : step.apply v = .ok w) : w.Canonical := by
  cases step with
  | nextMajor | nextMinor | nextBreaking | ceil =>
      cases h
      cases v <;> exact Exact.canonical_ofRelease _
  | nextPatch | release =>
      cases h
      cases v with
      | exact v => exact Exact.canonical_ofRelease _
      | pattern w => trivial
  | floor =>
      cases h
      cases v with
      | exact v => exact Exact.Canonical.floor hv
      | pattern w => exact Exact.canonical_ofRelease _
  | next =>
      cases h
      cases v with
      | exact v => exact Exact.Canonical.next hv
      | pattern w => exact Exact.canonical_ofRelease _
  | reread => exact Version.canonical_of_parse (mapError_eq_ok.1 h)
  | rereadExact =>
      obtain ⟨e, he, rfl⟩ := map_eq_ok.1 (mapError_eq_ok.1 h)
      exact Exact.canonical_of_parse he
  | json => exact (Version.stable_of_ofJson? (mapError_eq_ok.1 h)).canonical
  | strict =>
      obtain ⟨s, _, hs⟩ := bind_eq_ok.1 (mapError_eq_ok.1 h)
      exact Strict.canonical_of_toVersion hs
  | retag p b =>
      obtain ⟨⟨_, hp⟩, _, hb⟩ := hstep
      obtain ⟨e, he, rfl⟩ := map_eq_ok.1 (mapError_eq_ok.1 h)
      exact Exact.canonical_of_ofParts? (Prerelease.canonical_of_parse hp)
        (Build.dotted_of_parse hb) he

theorem canonical_walk {v : Version} {steps : List (Except Refusal Step)} (hv : v.Canonical)
    (hsteps : ∀ step, .ok step ∈ steps → step.FromText) :
    ∀ w r, .ok (w, r) ∈ walk v steps → w.Canonical := by
  induction steps generalizing v with
  | nil => simp [walk]
  | cons step steps ih =>
      intro w r hw
      have hrest : ∀ s, .ok s ∈ steps → s.FromText := fun s hs =>
        hsteps s (List.mem_cons_of_mem _ hs)
      rw [walk] at hw
      split at hw
      · rename_i u hu
        obtain ⟨s, rfl, hs⟩ := bind_eq_ok.1 hu
        have hu : u.Canonical := canonical_apply hv (hsteps s List.mem_cons_self) hs
        rcases List.mem_cons.1 hw with he | hw
        · cases he
          exact hu
        · exact ih hu hrest w r hw
      · rcases List.mem_cons.1 hw with he | hw
        · cases he
        · exact ih hv hrest w r hw

end Step

/-! ## Well-formed versions -/

namespace Version

/-- Only the slots of a pattern are open, and then the patch is; no slot is filled behind a minor
that is left out. -/
def SlotsFit (v : Version) : Prop :=
  if v.isPattern then
    (∀ n, v.patch ≠ .number n) ∧ (v.minor = .absent → v.patch ≠ .wildcard)
  else
    v.minor ≠ .wildcard ∧ v.patch ≠ .wildcard ∧ (v.minor = .absent → ∀ n, v.patch ≠ .number n)

theorem slotsFit (v : Version) : v.SlotsFit := by
  cases v with
  | exact v =>
      rcases v with ⟨_ | _ | _, _, _⟩ <;>
        simp [SlotsFit, isPattern, minor, patch, Release.minor?, Release.patch?, Component.ofNumber?]
  | pattern w =>
      cases w <;> simp [SlotsFit, isPattern, minor, patch, Pattern.minor, Pattern.patch]

/-- Slots that fit hold no patch behind a minor that is no number. -/
theorem SlotsFit.number?_patch {v : Version} (h : v.SlotsFit) (hminor : v.minor.number? = none) :
    v.patch.number? = none := by
  unfold SlotsFit at h
  cases hpatch : v.patch with
  | absent | wildcard => rfl
  | number p =>
      split at h
      · exact absurd hpatch (h.1 p)
      · cases hslot : v.minor with
        | number n => simp [hslot] at hminor
        | absent => exact absurd hpatch (h.2.2 hslot p)
        | wildcard => exact absurd hslot h.1

/-- The numbers in the slots make up a release, so they can be kept when the tags change. -/
theorem exists_ofParts? (v : Version) :
    ∃ r, Release.ofParts? v.major v.minor.number? v.patch.number? = some r := by
  rw [← Option.ne_none_iff_exists']
  intro hnone
  obtain ⟨hminor, hpatch⟩ := Release.ofParts?_eq_none.1 hnone
  exact hpatch (v.slotsFit.number?_patch hminor)

/-- The text of the version is read as the version, by the reader of its kind. -/
def Rereads : Version → Prop
  | exact v => Exact.parse v.text = .ok v
  | pattern w => Pattern.parse w.text = .ok w

theorem Canonical.rereads {v : Version} (h : v.Canonical) : v.Rereads := by
  cases v with
  | exact v => exact Exact.Canonical.parse_text h
  | pattern w => exact w.parse_text

end Version

namespace Step

theorem retag_succeeds (v : Version) (p : Prerelease) (b : Build) :
    ∃ w, (retag p b).apply v = .ok w := by
  obtain ⟨r, hr⟩ := v.exists_ofParts?
  have he : Exact.ofParts? v.major v.minor.number? v.patch.number? p b = .ok ⟨r, p, b⟩ :=
    Exact.ofParts?_eq_ok.2 ⟨hr, rfl, rfl⟩
  exact ⟨.exact ⟨r, p, b⟩, mapError_eq_ok.2 (map_eq_ok.2 ⟨_, he, rfl⟩)⟩

/-- What a step puts in the slots. A step that reads something leaves that to the reader, and a
pattern is its own next patch and its own release. -/
def slots? (v : Version) : Step → Option Slots
  | nextMajor => some v.nextMajorSlots
  | nextMinor => some v.nextMinorSlots
  | nextPatch => if v.isPattern then none else some v.nextPatchSlots
  | nextBreaking => some v.nextBreakingSlots
  | floor => some v.floorSlots
  | ceil => some v.ceilSlots
  | release => if v.isPattern then none else some v.slots
  | next => some v.nextSlots
  | reread | rereadExact | json | strict => none
  | retag _ _ => some ⟨v.major, .ofNumber? v.minor.number?, .ofNumber? v.patch.number?⟩

/-- A step that fills the slots is not refused: they make up a release, and it leads there. -/
theorem hasSlots_apply {v : Version} {step : Step} {s : Slots} (h : step.slots? v = some s) :
    ∃ w, step.apply v = .ok w ∧ w.HasSlots s := by
  cases step with
  | nextMajor => cases h; exact ⟨_, rfl, v.hasSlots_nextMajor⟩
  | nextMinor => cases h; exact ⟨_, rfl, v.hasSlots_nextMinor⟩
  | nextBreaking => cases h; exact ⟨_, rfl, v.hasSlots_nextBreaking⟩
  | floor => cases h; exact ⟨_, rfl, v.hasSlots_floor⟩
  | ceil => cases h; exact ⟨_, rfl, v.hasSlots_ceil⟩
  | next => cases h; exact ⟨_, rfl, v.hasSlots_next⟩
  | nextPatch =>
      cases v with
      | exact v => cases h; exact ⟨_, rfl, Version.hasSlots_nextPatch v⟩
      | pattern w => cases h
  | release =>
      cases v with
      | exact v => cases h; exact ⟨_, rfl, Version.hasSlots_exact (.ofRelease v.release)⟩
      | pattern w => cases h
  | reread | rereadExact | json | strict => cases h
  | retag p b =>
      cases h
      obtain ⟨w, hw⟩ := retag_succeeds v p b
      obtain ⟨e, he, rfl⟩ := map_eq_ok.1 (mapError_eq_ok.1 hw)
      have hr : Release.ofParts? v.major v.minor.number? v.patch.number? = some e.release :=
        (Exact.ofParts?_eq_ok.1 he).1
      exact ⟨_, hw, e, rfl, (Slots.release?_ofNumber? ..).trans hr⟩

/-- Wherever a walk from a version that was read leads, with tags that were read, the slots of the
version fit, it can be tagged anew, and its text is read as the version itself. -/
theorem walk_wellFormed (v : Version) (steps : List (Except Refusal Step)) (hv : v.IsRead)
    (hsteps : ∀ step, .ok step ∈ steps → step.FromText) (w : Version)
    (hw : w = v ∨ ∃ r, .ok (w, r) ∈ walk v steps) :
    w.SlotsFit ∧ w.Rereads ∧ ∀ p b, (retag p b).FromText → ∃ u, (retag p b).apply w = .ok u := by
  have hcanonical : w.Canonical := by
    rcases hw with rfl | ⟨r, hr⟩
    · exact hv.canonical
    · exact canonical_walk hv.canonical hsteps w r hr
  exact ⟨w.slotsFit, hcanonical.rereads, fun p b _ => retag_succeeds w p b⟩

theorem walk_wellFormed_pattern_to_tag :
    let p : Prerelease := .ofParts (Label.ofText? "rc") (some 1) none
    let v : Version := .pattern (.anyPatch 1 2)
    let w : Version := .exact ⟨.triple 1 3 0, .ofParts (Label.ofText? "rc") (some 2) none, .none⟩
    v.IsRead ∧ (retag p (.ofText "7")).FromText ∧
      (∃ r, .ok (w, r) ∈ walk v [.ok .ceil, .ok (retag p (.ofText "7")), .ok .next]) ∧
      w.Rereads := by
  intro p v w
  have hv : v.IsRead := ⟨"1.2.x", .inl rfl⟩
  have htag : (retag p (.ofText "7")).FromText := ⟨⟨"rc.1", rfl⟩, ⟨"7", rfl⟩⟩
  have hw : ∃ r, .ok (w, r) ∈ walk v [.ok .ceil, .ok (retag p (.ofText "7")), .ok .next] :=
    ⟨_, .tail _ (.tail _ (.head _))⟩
  refine ⟨hv, htag, hw, (walk_wellFormed v _ hv (fun step hstep => ?_) w (.inr hw)).2.1⟩
  simp only [List.mem_cons, Except.ok.injEq, List.not_mem_nil, or_false] at hstep
  rcases hstep with rfl | rfl | rfl
  · trivial
  · exact htag
  · trivial

end Step

end Versioning
