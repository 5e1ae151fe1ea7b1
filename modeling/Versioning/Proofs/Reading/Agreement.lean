import Versioning.Proofs.RoundTrip.Reread

/-!
# One text and three readers

The reader of both kinds takes what the reader of exact versions or the one of patterns takes, and
gives what one of them gives. Both of them take the texts of one or two numbers, and see the same
slots there; the reader of both kinds then goes with the pattern.
-/

namespace Versioning

open Grammar

/-- What is read as a pattern has its form, without the blanks at the ends. -/
theorem Pattern.parse_eq_ok {s : String} {w : Pattern} : Pattern.parse s = .ok w ↔
    ∃ y, PatternForm y (Text.trim s.toList) [] ∧ patternValue (Text.trim s.toList) y = .ok w := by
  simp only [parse, bind_eq_ok, nonempty_eq_ok, complete_eq_ok]
  constructor
  · rintro ⟨_, ⟨_, rfl⟩, y, hread, hw⟩
    exact ⟨y, patternText?_sound hread, hw⟩
  · rintro ⟨y, hy, hw⟩
    exact ⟨_, ⟨ReleaseForm.ne_nil hy, rfl⟩, y, patternText?_complete hy EndsExact.nil.release, hw⟩

/-! ## Numbers alone -/

theorem Exact.parse_pattern_iff {s : String} {e : Exact} (he : Exact.parse s = .ok e)
    {w : Pattern} : Pattern.parse s = .ok w ↔ e.pattern? = some w := by
  obtain ⟨x, hx, he⟩ := Exact.parse_eq_ok.1 he
  rw [Pattern.parse_eq_ok]
  constructor
  · rintro ⟨y, hy, hw⟩
    obtain ⟨rfl, hp, hb⟩ := hx.eq_of_patternForm hy
    have hexact := Exact.isExact_of_value hx he
    -- Three numbers would be no pattern.
    rw [ExactText.isExact, hp, hb, ← isNumberTriple_map_number,
      isNumberTriple_of_value hw] at hexact
    cases hpattern : e.pattern? with
    | none =>
        rw [hpattern] at hexact
        contradiction
    | some w' =>
        rw [Exact.patternValue_of_value he hpattern] at hw
        cases hw
        rfl
  · intro hw
    have hexact : x.isExact = false := by
      rw [Exact.isExact_of_value hx he, hw]
      rfl
    exact ⟨_, hx.patternForm hexact, Exact.patternValue_of_value he hw⟩

theorem Exact.slots_of_pattern? {e : Exact} {w : Pattern} (h : e.pattern? = some w) :
    e.release.major = w.major ∧ Component.ofNumber? e.release.minor? = w.minor ∧
      Component.ofNumber? e.release.patch? = w.patch := by
  unfold pattern? at h
  split at h
  · cases hr : e.release <;> rw [hr] at h <;> cases h <;> exact ⟨rfl, rfl, rfl⟩
  · contradiction

/-! ## The reader of both kinds -/

namespace Version

theorem parse_eq_ok_pattern {s : String} {w : Pattern} :
    Version.parse s = .ok (pattern w) ↔ Pattern.parse s = .ok w := by
  rw [Pattern.parse_eq_ok]
  simp only [Version.parse, bind_eq_ok, nonempty_eq_ok, complete_eq_ok]
  constructor
  · rintro ⟨_, ⟨_, rfl⟩, x, hread, h⟩
    cases x with
    | exact x =>
        obtain ⟨_, _, h⟩ := bind_eq_ok.1 h
        cases h
    | pattern y =>
        obtain ⟨_, hw, h⟩ := bind_eq_ok.1 h
        cases h
        exact ⟨y, patternForm_of_versionText? hread, hw⟩
  · rintro ⟨y, hy, hw⟩
    refine ⟨_, ⟨ReleaseForm.ne_nil hy, rfl⟩, _,
      versionText?_of_pattern hy (isNumberTriple_of_value hw), ?_⟩
    rw [VersionText.value, hw]
    rfl

theorem parse_eq_ok_exact {s : String} {e : Exact} :
    Version.parse s = .ok (exact e) ↔ Exact.parse s = .ok e ∧ e.pattern? = none := by
  rw [Exact.parse_eq_ok]
  simp only [Version.parse, bind_eq_ok, nonempty_eq_ok, complete_eq_ok]
  constructor
  · rintro ⟨_, ⟨_, rfl⟩, x, hread, h⟩
    cases x with
    | exact x =>
        obtain ⟨_, he, h⟩ := bind_eq_ok.1 h
        cases h
        obtain ⟨hx, hexact⟩ := exactForm_of_versionText? hread
        rw [Exact.isExact_of_value hx he, Option.isNone_iff_eq_none] at hexact
        exact ⟨⟨x, hx, he⟩, hexact⟩
    | pattern y =>
        obtain ⟨_, _, h⟩ := bind_eq_ok.1 h
        cases h
  · rintro ⟨⟨x, hx, he⟩, hpattern⟩
    have hexact : x.isExact = true := by
      rw [Exact.isExact_of_value hx he, hpattern]
      rfl
    refine ⟨_, ⟨hx.ne_nil, rfl⟩, .exact x, ?_, ?_⟩
    · rw [versionText?_of_exact hx, hexact]
      rfl
    · rw [VersionText.value, he]
      rfl

/-- The reader of both kinds reads a text if and only if one of the other two does. It gives the
pattern whenever the reader of patterns does, and the exact version if that has a tag, a build or
three numbers. Where both of the other two read the text they see the same slots. -/
theorem parse_agrees (s : String) :
    ((∃ v, Version.parse s = .ok v) ↔
      (∃ e, Exact.parse s = .ok e) ∨ ∃ w, Pattern.parse s = .ok w) ∧
    (∀ w, Version.parse s = .ok (pattern w) ↔ Pattern.parse s = .ok w) ∧
    (∀ e, Version.parse s = .ok (exact e) ↔ Exact.parse s = .ok e ∧
      (e.prerelease.isNone = false ∨ e.build.isNone = false ∨
        ∃ m n p, e.release = .triple m n p)) ∧
    ∀ e w, Exact.parse s = .ok e → Pattern.parse s = .ok w →
      (exact e).major = (pattern w).major ∧ (exact e).minor = (pattern w).minor ∧
        (exact e).patch = (pattern w).patch := by
  refine ⟨⟨?_, ?_⟩, fun w => parse_eq_ok_pattern, fun e => ?_, fun e w he hw => ?_⟩
  · rintro ⟨e | w, h⟩
    · exact .inl ⟨e, (parse_eq_ok_exact.1 h).1⟩
    · exact .inr ⟨w, parse_eq_ok_pattern.1 h⟩
  · rintro (⟨e, he⟩ | ⟨w, hw⟩)
    · cases hpattern : e.pattern? with
      | none => exact ⟨_, parse_eq_ok_exact.2 ⟨he, hpattern⟩⟩
      | some w => exact ⟨_, parse_eq_ok_pattern.2 ((Exact.parse_pattern_iff he).2 hpattern)⟩
    · exact ⟨_, parse_eq_ok_pattern.2 hw⟩
  · have htriple : e.release.pattern? = none ↔ ∃ m n p, e.release = .triple m n p := by
      cases e.release <;> simp [Release.pattern?]
    rw [parse_eq_ok_exact, Exact.pattern?_eq_none, htriple]
  · exact Exact.slots_of_pattern? ((Exact.parse_pattern_iff he).1 hw)

theorem parse_agrees_one_two :
    let e : Exact := .ofRelease (.pair 1 2)
    let w : Pattern := .pair 1 2
    Exact.parse " 01.2 " = .ok e ∧ Pattern.parse " 01.2 " = .ok w ∧
      Version.parse " 01.2 " = .ok (pattern w) ∧ (exact e).major = (pattern w).major ∧
        (exact e).minor = (pattern w).minor ∧ (exact e).patch = (pattern w).patch := by
  intro e w
  have he : Exact.parse " 01.2 " = .ok e := rfl
  have hw : Pattern.parse " 01.2 " = .ok w := rfl
  obtain ⟨_, hpattern, _, hslots⟩ := parse_agrees " 01.2 "
  exact ⟨he, hw, (hpattern w).2 hw, hslots e w he hw⟩

end Version

end Versioning
