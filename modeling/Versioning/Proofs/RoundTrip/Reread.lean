import Versioning.Proofs.RoundTrip.Canonical

/-!
# Reading either kind of version

The reader of both kinds takes numbers alone for a pattern, unless there are three of them. So the
exact versions `1` and `1.2` come back from their texts as patterns, and all other versions that
were read come back as themselves.
-/

namespace Versioning

open Grammar

/-! ## The pattern with the same text -/

def Release.pattern? : Release → Option Pattern
  | single m => some (.single m)
  | pair m n => some (.pair m n)
  | triple _ _ _ => none

/-- The pattern with the same text, for numbers alone that are fewer than three. -/
def Exact.pattern? (v : Exact) : Option Pattern :=
  if v.prerelease.isNone && v.build.isNone then v.release.pattern? else none

theorem Exact.pattern?_eq_none {v : Exact} :
    v.pattern? = none ↔
      v.prerelease.isNone = false ∨ v.build.isNone = false ∨ v.release.pattern? = none := by
  unfold pattern?
  cases v.prerelease.isNone <;> cases v.build.isNone <;> simp

/-- What the text of the version is read as. -/
def Version.reread : Version → Version
  | exact v => v.pattern?.elim (exact v) pattern
  | pattern w => pattern w

namespace Grammar

theorem ReleaseText.Denotes.isTriple_eq {input : List Char} {y : ReleaseText Piece} {r : Release}
    (h : y.Denotes input r) : y.isTriple = r.pattern?.isNone := by
  cases h <;> rfl

theorem ReleaseText.Denotes.patternValue {input : List Char} {y : ReleaseText Piece} {r : Release}
    {w : Pattern} (h : y.Denotes input r) (hw : r.pattern? = some w) :
    Grammar.patternValue input (y.map .number) = .ok w := by
  cases h with
  | single hm =>
      cases hw
      simp only [Grammar.patternValue, ReleaseText.map, ReleaseText.major, hm]
      rfl
  | pair hm hn =>
      cases hw
      simp only [Grammar.patternValue, ReleaseText.map, ReleaseText.major, ReleaseText.minor?,
        Slot.value, hm, hn]
      rfl
  | triple => contradiction

end Grammar

theorem Prerelease.isNone_of_tag {x : Option Piece} {s r input : List Char} {p : Prerelease}
    (hx : TaggedForm '-' x s r) (h : x.elim (.ok .none) (Prerelease.ofDotted input) = .ok p) :
    p.isNone = x.isNone := by
  cases hx with
  | absent =>
      cases h
      rfl
  | present hx =>
      obtain ⟨t, rfl, hne, _⟩ := ofDotted_sound hx.isDotted h
      simp [isNone, tag?_tag hne]

theorem Build.isNone_metadata {x : ReleaseText Piece} {p b : Option Piece} {s r : List Char}
    (hb : TaggedForm '+' b s r) : (ExactText.metadata ⟨x, p, b⟩).isNone = b.isNone := by
  cases hb with
  | absent => rfl
  | present hb =>
      obtain ⟨l, hl, _⟩ := Label.exists_of_isDotted hb.isDotted
      simp [ExactText.metadata, ofText, hl, isNone]

/-- What reads as exact has no pattern with the same text. -/
theorem Exact.isExact_of_value {x : ExactText} {s r input : List Char} {v : Exact}
    (hx : ExactForm x s r) (h : x.value input = .ok v) : x.isExact = v.pattern?.isNone := by
  rw [ExactText.value_eq] at h
  obtain ⟨p, hp, h⟩ := bind_eq_ok.1 h
  obtain ⟨a, ha, h⟩ := bind_eq_ok.1 h
  cases h
  cases hx with
  | @intro _ tag build _ _ _ _ _ htag hbuild =>
      have htriple := (ReleaseText.value_eq_ok.1 ha).isTriple_eq
      have hnone := Prerelease.isNone_of_tag htag hp
      rw [Exact.pattern?, hnone, Build.isNone_metadata hbuild, ExactText.isExact, htriple]
      cases tag <;> cases build <;> simp

theorem Exact.patternValue_of_value {x : ExactText} {input : List Char} {v : Exact} {w : Pattern}
    (h : x.value input = .ok v) (hw : v.pattern? = some w) :
    patternValue input (x.release.map .number) = .ok w := by
  rw [ExactText.value_eq] at h
  obtain ⟨p, _, h⟩ := bind_eq_ok.1 h
  obtain ⟨a, ha, h⟩ := bind_eq_ok.1 h
  cases h
  apply (ReleaseText.value_eq_ok.1 ha).patternValue
  unfold Exact.pattern? at hw
  split at hw
  · exact hw
  · contradiction

namespace Version

/-- A text that is read as an exact version by itself. -/
theorem parse_of_exactForm {s : String} {x : ExactText} {v : Exact} (hx : ExactForm x s.toList [])
    (hv : x.value s.toList = .ok v) : Version.parse s = .ok (exact v).reread := by
  have hexact := Exact.isExact_of_value hx hv
  rw [Version.parse, hx.nonempty]
  change (complete .digit versionText? s.toList >>= fun x => x.value s.toList) = _
  rw [complete_eq_ok.2 (versionText?_of_exact hx), hexact, reread]
  cases hw : v.pattern? with
  | none =>
      change (x.value s.toList >>= fun v => .ok (exact v)) = _
      rw [hv]
      rfl
  | some w =>
      change (patternValue s.toList (x.release.map .number) >>= fun w => .ok (pattern w)) = _
      rw [Exact.patternValue_of_value hv hw]
      rfl

theorem parse_text_pattern (w : Pattern) : Version.parse w.text = .ok (pattern w) := by
  obtain ⟨y, hy, hw⟩ := w.exists_form []
  rw [List.append_nil] at hy
  rw [Version.parse, PatternForm.nonempty hy]
  change (complete .digit versionText? w.text.toList >>= fun x => x.value w.text.toList) = _
  rw [complete_eq_ok.2 (versionText?_of_pattern hy (isNumberTriple_of_value (hw [])))]
  change (patternValue w.text.toList y >>= fun w => .ok (pattern w)) = _
  rw [hw]
  rfl

/-- The text of a version that was read, read again by the reader of both kinds. -/
theorem Canonical.parse_text {v : Version} (h : v.Canonical) :
    Version.parse v.text = .ok v.reread := by
  cases v with
  | exact v =>
      obtain ⟨x, hx, hv⟩ := Exact.Canonical.exists_form h
      exact parse_of_exactForm hx (hv _)
  | pattern w => exact parse_text_pattern w

/-! ## Versions that come back -/

/-- The version is read back from its text as itself. -/
structure Stable (v : Version) : Prop where
  canonical : v.Canonical
  reread_eq : v.reread = v

theorem Stable.parse_text {v : Version} (h : v.Stable) : Version.parse v.text = .ok v := by
  rw [h.canonical.parse_text, h.reread_eq]

theorem stable_pattern (w : Pattern) : (pattern w).Stable :=
  ⟨trivial, rfl⟩

theorem stable_exact {v : Exact} (h : v.Canonical) (hv : v.pattern? = none) : (exact v).Stable := by
  refine ⟨h, ?_⟩
  rw [reread, hv]
  rfl

/-- What the reader of both kinds gives comes back from its text. -/
theorem stable_of_parse {s : String} {v : Version} (h : Version.parse s = .ok v) : v.Stable := by
  obtain ⟨input, _, h⟩ := bind_eq_ok.1 h
  obtain ⟨x, hread, h⟩ := bind_eq_ok.1 h
  cases x with
  | pattern w =>
      obtain ⟨p, _, h⟩ := bind_eq_ok.1 h
      cases h
      exact stable_pattern p
  | exact x =>
      obtain ⟨e, he, h⟩ := bind_eq_ok.1 h
      cases h
      obtain ⟨hx, hexact⟩ := exactForm_of_versionText? (complete_eq_ok.1 hread)
      rw [Exact.isExact_of_value hx he, Option.isNone_iff_eq_none] at hexact
      exact stable_exact (Exact.canonical_of_value hx he) hexact

end Version

end Versioning
