import Versioning.Proofs.RoundTrip.Canonical
import Versioning.Strict

/-!
# Strict versions and back

The identifiers of a strict version are dotted texts or empty, and its tag has no numbers with
leading zeros. A version that was read may have such numbers in its tag, and a strict version may
have numbers there that are too large. Nothing else stands in the way from the one to the other, and
the way back leads to where it began, but that missing numbers have become zeros.
-/

namespace Versioning

open Text (IsIdentifiers isSegmentChar HasLeadingZero lastDigits? lastNumeral?)

/-! ## Strict identifiers -/

namespace IdentifierPart

theorem segmentFault?_eq_none {part : IdentifierPart} {segs : List (List Char)} :
    part.segmentFault? segs = none ↔
      ∀ seg ∈ segs, seg ≠ [] ∧ (part = prerelease → ¬ HasLeadingZero seg) := by
  induction segs with
  | nil => simp [segmentFault?]
  | cons seg segs ih =>
      rw [segmentFault?, List.forall_mem_cons, ← ih]
      by_cases hne : seg = []
      · simp [hne]
      · have hzero : (part = prerelease ∧ seg.all Char.isDigit = true ∧ 1 < seg.length ∧
            seg.head? = some '0') ↔ part = prerelease ∧ HasLeadingZero seg := by
          simp only [HasLeadingZero, Text.IsDigits, List.all_eq_true]
          tauto
        rw [if_neg hne]
        simp only [hzero]
        by_cases hlead : part = prerelease ∧ HasLeadingZero seg
        · simp [hlead]
        · rw [if_neg hlead]
          exact (and_iff_right ⟨hne, fun hp hl => hlead ⟨hp, hl⟩⟩).symm

/-- Strict identifiers are dotted texts, without leading zeros in a tag. -/
theorem fault?_eq_none {part : IdentifierPart} {s : List Char} : part.fault? s = none ↔
    IsIdentifiers s ∧ (part = prerelease → ∀ seg ∈ Text.segments s, ¬ HasLeadingZero seg) := by
  have body_iff : (s.all fun c => isSegmentChar c || c == '.') = true ↔
      ∀ c ∈ s, isSegmentChar c = true ∨ c = '.' := by
    simp only [List.all_eq_true, Bool.or_eq_true, beq_iff_eq]
  rw [fault?, IsIdentifiers, Text.isDotted_iff_forall_mem, ← body_iff]
  by_cases hs : s = []
  · subst hs
    exact iff_of_true rfl ⟨.inl rfl, fun _ => by decide⟩
  by_cases hbody : (s.all fun c => isSegmentChar c || c == '.') = true
  · have htake : (s.takeWhile fun c => isSegmentChar c || c == '.') = s := by
      simpa using Grammar.takeWhile_append_of_head (List.all_eq_true.1 hbody) (r := []) (by simp)
    simp only [htake, hbody, hs, if_true, if_false, Option.or_none, true_and, false_or,
      segmentFault?_eq_none]
    exact ⟨fun h => ⟨fun seg hseg => (h seg hseg).1, fun hp seg hseg => (h seg hseg).2 hp⟩,
      fun h seg hseg => ⟨h.1 seg hseg, fun hp => h.2 hp seg hseg⟩⟩
  · simp [hbody, hs]

end IdentifierPart

/-! ## Identifiers as tags and builds -/

theorem Prerelease.Canonical.parse_text {p : Prerelease} (h : p.Canonical) :
    Prerelease.parse p.text = .ok p := by
  cases h with
  | none => rfl
  | @tag t hne hd hn =>
      have htext : (Prerelease.tag t).text = String.ofList t.text.toList := by
        simp [text, tag?_tag hne]
      rw [htext, parse_of_isDotted (hd.isDotted_text hne)]
      exact ofDotted_text hd hne hn _ _

theorem Prerelease.Canonical.isIdentifiers_text {p : Prerelease} (h : p.Canonical) :
    IsIdentifiers p.text.toList := by
  cases h with
  | none => exact .inl rfl
  | tag hne hd _ =>
      rw [text, tag?_tag hne]
      exact .inr (hd.isDotted_text hne)

/-- The tag is written as the identifiers that it was read from. -/
theorem Prerelease.text_of_parse {s : String} {p : Prerelease} (hs : IsIdentifiers s.toList)
    (h : Prerelease.parse s = .ok p) : p.text = s := by
  rcases hs with hs | hs
  · obtain rfl : s = "" := String.toList_inj.1 hs
    cases h
    rfl
  · rw [← String.ofList_toList (s := s), parse_of_isDotted hs] at h
    obtain ⟨t, rfl, hne, _, _, htext⟩ := (ofDotted_eq_ok hs).1 h
    rw [text, tag?_tag hne]
    exact String.toList_inj.1 htext

/-- Identifiers are a tag unless the last numeral in them is too large. -/
theorem Prerelease.exists_parse_iff {s : String} (hs : IsIdentifiers s.toList) :
    (∃ p, Prerelease.parse s = .ok p) ↔
      ∀ numeral ∈ lastNumeral? s.toList, Nat.ofDigitChars 10 numeral 0 ≤ Number.maxValue := by
  rcases hs with hs | hs
  · obtain rfl : s = "" := String.toList_inj.1 hs
    exact iff_of_true ⟨.none, rfl⟩ (by decide)
  · have hparse : Prerelease.parse s = ofDotted s.toList ⟨s.toList, []⟩ := by
      rw [← parse_of_isDotted hs, String.ofList_toList]
    rw [hparse, exists_ofDotted_iff]

theorem Build.isIdentifiers_text {b : Build} (h : b.Dotted) :
    IsIdentifiers b.text.toList := by
  rcases b with ⟨_ | l⟩
  · exact .inl rfl
  · exact .inr (h l rfl)

theorem Build.parse_of_isIdentifiers {s : String} (hs : IsIdentifiers s.toList) :
    Build.parse s = .ok (.ofText s) := by
  rcases hs with hs | hs
  · obtain rfl : s = "" := String.toList_inj.1 hs
    rfl
  · have htrim : Text.trim s.toList = s.toList := Text.trim_eq_self_of_not_isBlank hs.not_isBlank
    have hread : Grammar.dotted? s.toList = some ⟨s.toList, []⟩ := by
      simpa using Grammar.dotted?_complete (.segments (r := []) hs) (by simp)
    simp only [Build.parse, htrim, if_neg hs.ne_nil]
    rw [complete_eq_ok.2 (by rw [hread]; rfl)]
    simp [pure, Except.pure, bind, Except.bind]

theorem Build.text_ofText {s : String} (hs : IsIdentifiers s.toList) :
    (Build.ofText s).text = s := by
  rcases hs with hs | hs
  · obtain rfl : s = "" := String.toList_inj.1 hs
    rfl
  · obtain ⟨l, hl, htext⟩ := Label.exists_of_isDotted hs
    rw [String.ofList_toList] at hl
    rw [ofText, hl]
    exact String.toList_inj.1 htext

/-! ## There and back -/

namespace Strict

theorem ofParts?_eq_ok {major minor patch : Number} {prerelease build : String} {x : Strict} :
    ofParts? major minor patch prerelease build = .ok x ↔ x.major = major ∧ x.minor = minor ∧
      x.patch = patch ∧ x.prerelease = prerelease ∧ x.build = build := by
  constructor
  · intro h
    unfold ofParts? at h
    split at h
    · contradiction
    · split at h
      · contradiction
      · cases h
        exact ⟨rfl, rfl, rfl, rfl, rfl⟩
  · rintro ⟨rfl, rfl, rfl, rfl, rfl⟩
    unfold ofParts?
    split
    · simp_all [x.prerelease_ok]
    · split
      · simp_all [x.build_ok]
      · rfl

theorem isIdentifiers_prerelease (x : Strict) : IsIdentifiers x.prerelease.toList :=
  (IdentifierPart.fault?_eq_none.1 x.prerelease_ok).1

theorem not_hasLeadingZero (x : Strict) :
    ∀ seg ∈ Text.segments x.prerelease.toList, ¬ HasLeadingZero seg :=
  (IdentifierPart.fault?_eq_none.1 x.prerelease_ok).2 rfl

theorem isIdentifiers_build (x : Strict) : IsIdentifiers x.build.toList :=
  (IdentifierPart.fault?_eq_none.1 x.build_ok).1

theorem toVersion_eq (x : Strict) : x.toVersion = (Prerelease.parse x.prerelease).map fun p =>
    .exact ⟨.triple x.major x.minor x.patch, p, .ofText x.build⟩ := by
  rw [toVersion, Build.parse_of_isIdentifiers x.isIdentifiers_build]
  cases Prerelease.parse x.prerelease <;> rfl

/-- Only a number that is too large stands in the way of a strict version. -/
theorem exists_error_toVersion_iff (x : Strict) : (∃ e, x.toVersion = .error e) ↔
    ∃ digits ∈ lastDigits? x.prerelease.toList, UInt64.size ≤ Nat.ofDigitChars 10 digits 0 := by
  have hparse := Prerelease.exists_parse_iff x.isIdentifiers_prerelease
  have herror : (∃ e, x.toVersion = .error e) ↔ ¬ ∃ p, Prerelease.parse x.prerelease = .ok p := by
    rw [toVersion_eq]
    cases Prerelease.parse x.prerelease <;> simp [Except.map]
  rw [herror, hparse, Text.lastDigits?_eq_lastNumeral? x.not_hasLeadingZero]
  simp only [not_forall, Nat.not_le, exists_prop]
  rfl

theorem toStrict_of_toVersion {x : Strict} {v : Version} (h : x.toVersion = .ok v) :
    v.toStrict = .ok x := by
  rw [toVersion_eq] at h
  obtain ⟨p, hp, rfl⟩ := map_eq_ok.1 h
  have htag := Prerelease.text_of_parse x.isIdentifiers_prerelease hp
  exact ofParts?_eq_ok.2 ⟨rfl, rfl, rfl, htag.symm, (Build.text_ofText x.isIdentifiers_build).symm⟩

end Strict

namespace Version

/-- Only a leading zero in its tag stands in the way of an exact version. -/
theorem exists_toStrict_iff {v : Exact} (h : v.Canonical) :
    (∃ x, (exact v).toStrict = .ok x) ↔
      ∀ seg ∈ Text.segments v.prerelease.text.toList, ¬ HasLeadingZero seg := by
  constructor
  · rintro ⟨x, hx⟩
    obtain ⟨_, _, _, htag, _⟩ := Strict.ofParts?_eq_ok.1 hx
    rw [← htag]
    exact x.not_hasLeadingZero
  · intro hzero
    let x : Strict := {
      major := v.release.major
      minor := v.release.minor?.getD 0
      patch := v.release.patch?.getD 0
      prerelease := v.prerelease.text
      build := v.build.text
      prerelease_ok := IdentifierPart.fault?_eq_none.2
        ⟨h.prerelease.isIdentifiers_text, fun _ => hzero⟩
      build_ok := IdentifierPart.fault?_eq_none.2
        ⟨Build.isIdentifiers_text h.build, fun hp => by contradiction⟩ }
    exact ⟨x, Strict.ofParts?_eq_ok.2 ⟨rfl, rfl, rfl, rfl, rfl⟩⟩

theorem toVersion_of_toStrict {v : Exact} (h : v.Canonical) {x : Strict}
    (hx : (exact v).toStrict = .ok x) :
    x.toVersion = .ok (exact ⟨v.release.fill, v.prerelease, v.build⟩) := by
  obtain ⟨hmajor, hminor, hpatch, htag, hbuild⟩ := Strict.ofParts?_eq_ok.1 hx
  have hfill : Release.triple x.major x.minor x.patch = v.release.fill := by
    rw [hmajor, hminor, hpatch]
    cases v.release <;> rfl
  rw [Strict.toVersion_eq, hfill, htag, hbuild, h.prerelease.parse_text, Build.ofText_text]
  rfl

/-- An exact version that was read has a strict form unless a segment of its tag has a leading
zero, and the strict form leads back to the version with zeros for the missing numbers. A strict
version is a version unless the last number of its tag is too large, and the version leads back to
the strict version itself. -/
theorem strict_roundTrip :
    (∀ (s : String) (v : Exact), Exact.parse s = .ok v →
      ((∃ x, (exact v).toStrict = .ok x) ↔
        ∀ seg ∈ Text.segments v.prerelease.text.toList, ¬ HasLeadingZero seg) ∧
      ∀ x, (exact v).toStrict = .ok x →
        x.toVersion = .ok (exact ⟨v.release.fill, v.prerelease, v.build⟩)) ∧
    ∀ x : Strict,
      ((∃ e, x.toVersion = .error e) ↔ ∃ digits ∈ lastDigits? x.prerelease.toList,
        UInt64.size ≤ Nat.ofDigitChars 10 digits 0) ∧
      ∀ v, x.toVersion = .ok v → v.toStrict = .ok x := by
  refine ⟨fun s v hv => ?_, fun x => ⟨x.exists_error_toVersion_iff, fun v => ?_⟩⟩
  · have hcanonical := Exact.canonical_of_parse hv
    exact ⟨exists_toStrict_iff hcanonical, fun x => toVersion_of_toStrict hcanonical⟩
  · exact Strict.toStrict_of_toVersion

theorem strict_roundTrip_beta_07a :
    let v : Exact := ⟨.pair 1 2, .ofParts (Label.ofText? "beta.07a") (some 3) none, .ofText "01"⟩
    let w : Exact := ⟨.triple 1 2 0, v.prerelease, v.build⟩
    Exact.parse "1.2-beta.07a.3+01" = .ok v ∧ ∃ x, (exact v).toStrict = .ok x ∧
      x.toVersion = .ok (exact w) ∧ (exact w).toStrict = .ok x := by
  intro v w
  have hv : Exact.parse "1.2-beta.07a.3+01" = .ok v := rfl
  obtain ⟨hstrict, hback⟩ := strict_roundTrip.1 _ v hv
  obtain ⟨x, hx⟩ := hstrict.2 (by decide)
  exact ⟨hv, x, hx, hback x hx, (strict_roundTrip.2 x).2 _ (hback x hx)⟩

end Version

end Versioning
