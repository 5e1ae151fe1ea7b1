import Versioning.Proofs.RoundTrip.Version

/-!
# Canonical versions

The versions that texts give: the tag has its number last, and the build is a dotted text. Counting
up and filling in the numbers keeps them so.
-/

namespace Versioning

open Grammar
open Text (IsDotted)

/-! ## What is read is canonical -/

theorem Grammar.DottedForm.isDotted {p : Piece} {s r : List Char} (h : DottedForm p s r) :
    IsDotted p.text := by
  cases h with
  | segments h => exact h

theorem isDotted_of_complete {expected : Expected} {input : List Char} {p : Piece}
    (h : complete expected (fun s => (dotted? s).map fun p => (p, p.after)) input = .ok p) :
    IsDotted p.text := by
  obtain ⟨q, hq, he⟩ := Option.map_eq_some_iff.1 (complete_eq_ok.1 h)
  obtain ⟨rfl, _⟩ := Prod.mk.inj he
  exact (dotted?_sound hq).isDotted

theorem Build.dotted_ofText {s : List Char} (h : IsDotted s) :
    (Build.ofText (String.ofList s)).Dotted := by
  obtain ⟨l, hl, htext⟩ := Label.exists_of_isDotted h
  rw [ofText, hl]
  rintro _ ⟨⟩
  rwa [htext]

theorem Build.dotted_none : Build.none.Dotted := by
  simp [Dotted, none]

/-- A dotted text has no blanks, so it is taken as it stands. -/
theorem Prerelease.parse_of_isDotted {s : List Char} (h : IsDotted s) :
    Prerelease.parse (String.ofList s) = ofDotted s ⟨s, []⟩ := by
  have htrim : Text.trim s = s := Text.trim_eq_self_of_not_isBlank h.not_isBlank
  have hread : dotted? s = some ⟨s, []⟩ := by
    simpa using dotted?_complete (.segments (r := []) h) (by simp)
  simp only [Prerelease.parse, String.toList_ofList, htrim, if_neg h.ne_nil]
  rw [complete_eq_ok.2 (by rw [hread]; rfl)]
  rfl

/-- The number of a tag that was read is its last numeral. -/
theorem Prerelease.canonical_of_parse {s : String} {p : Prerelease}
    (h : Prerelease.parse s = .ok p) : p.Canonical := by
  simp only [Prerelease.parse] at h
  split at h
  · cases h
    exact .none
  · obtain ⟨dotted, hread, h⟩ := bind_eq_ok.1 h
    exact canonical_ofDotted (isDotted_of_complete hread) h

theorem Build.dotted_of_parse {s : String} {b : Build} (h : Build.parse s = .ok b) :
    b.Dotted := by
  simp only [Build.parse] at h
  split at h
  · cases h
    exact dotted_none
  · obtain ⟨dotted, hread, h⟩ := bind_eq_ok.1 h
    cases h
    exact dotted_ofText (isDotted_of_complete hread)

/-- The tag and the build of a version come from dotted texts. -/
theorem Exact.canonical_of_value {x : ExactText} {input s r : List Char} {v : Exact}
    (hx : ExactForm x s r) (h : x.value input = .ok v) : v.Canonical := by
  rw [ExactText.value_eq] at h
  obtain ⟨tag, htag, h⟩ := bind_eq_ok.1 h
  obtain ⟨release, _, h⟩ := bind_eq_ok.1 h
  cases h
  cases hx with
  | intro _ hp hb =>
      constructor
      · cases hp with
        | absent =>
            cases htag
            exact .none
        | present hp => exact Prerelease.canonical_ofDotted hp.isDotted htag
      · cases hb with
        | absent => exact Build.dotted_none
        | present hb => exact Build.dotted_ofText hb.isDotted

/-- What is read as an exact version has its form, without the blanks at the ends. -/
theorem Exact.parse_eq_ok {s : String} {v : Exact} : Exact.parse s = .ok v ↔
    ∃ y, ExactForm y (Text.trim s.toList) [] ∧ y.value (Text.trim s.toList) = .ok v := by
  simp only [parse, bind_eq_ok, nonempty_eq_ok, complete_eq_ok]
  constructor
  · rintro ⟨_, ⟨_, rfl⟩, y, hread, hv⟩
    exact ⟨y, exactText?_sound hread, hv⟩
  · rintro ⟨y, hy, hv⟩
    exact ⟨_, ⟨hy.ne_nil, rfl⟩, y, exactText?_complete hy .nil, hv⟩

theorem Exact.canonical_of_parse {s : String} {v : Exact} (h : Exact.parse s = .ok v) :
    v.Canonical := by
  obtain ⟨y, hy, hv⟩ := parse_eq_ok.1 h
  exact canonical_of_value hy hv

/-- A pattern has no tag, and an exact version has a canonical one. -/
def Version.Canonical : Version → Prop
  | exact v => v.Canonical
  | pattern _ => True

theorem Version.canonical_of_parse {s : String} {v : Version} (h : Version.parse s = .ok v) :
    v.Canonical := by
  obtain ⟨input, _, h⟩ := bind_eq_ok.1 h
  obtain ⟨x, hread, h⟩ := bind_eq_ok.1 h
  cases x with
  | pattern w =>
      obtain ⟨p, _, h⟩ := bind_eq_ok.1 h
      cases h
      trivial
  | exact x =>
      obtain ⟨e, he, h⟩ := bind_eq_ok.1 h
      cases h
      have hx := (exactForm_of_versionText? (complete_eq_ok.1 hread)).1
      exact Exact.canonical_of_value hx he

namespace Version

/-- One of the readers gives the version. -/
def IsRead (v : Version) : Prop :=
  ∃ s, Version.parse s = .ok v ∨ (∃ e, Exact.parse s = .ok e ∧ v = exact e) ∨
    ∃ w, Pattern.parse s = .ok w ∧ v = pattern w

theorem IsRead.canonical {v : Version} (h : v.IsRead) : v.Canonical := by
  obtain ⟨s, h | ⟨e, he, rfl⟩ | ⟨w, _, rfl⟩⟩ := h
  · exact canonical_of_parse h
  · exact Exact.canonical_of_parse he
  · trivial

end Version

/-! ## Steps keep it -/

/-- Counting up does not touch the words. -/
theorem Tag.NumberIsLast.next {t : Tag} (h : t.NumberIsLast) : t.next.NumberIsLast := by
  rcases t with ⟨before, _ | n, after⟩
  · obtain ⟨rfl, _⟩ := h
    simp [Tag.next, NumberIsLast, wordSegments]
  · exact h

theorem Prerelease.Canonical.next {p : Prerelease} (h : p.Canonical) : p.next.Canonical := by
  cases h with
  | none => exact .none
  | @tag t hne hd hn =>
      rw [Prerelease.next, tag?_tag hne]
      exact .tag t.isEmpty_next ⟨hd.before, hd.after⟩ hn.next

theorem Exact.canonical_ofRelease (r : Release) : (Exact.ofRelease r).Canonical :=
  ⟨.none, Build.dotted_none⟩

theorem Exact.Canonical.floor {v : Exact} (h : v.Canonical) : v.floor.Canonical :=
  ⟨h.prerelease, Build.dotted_none⟩

theorem Exact.Canonical.next {v : Exact} (h : v.Canonical) : v.next.Canonical := by
  unfold Exact.next
  split
  · exact canonical_ofRelease _
  · exact ⟨h.prerelease.next, Build.dotted_none⟩

end Versioning
