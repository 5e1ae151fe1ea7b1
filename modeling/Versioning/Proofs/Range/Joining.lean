import Versioning.Proofs.Grammar.Extension
import Versioning.Proofs.Range.Reading
import Versioning.Range.Placement

/-!
# Joined ranges

Two texts of ranges with a separator between them are read as the alternatives of the first and then
those of the second. What is read of the first text does not change when the second comes after it,
and no blanks are left out in between as long as the two have none at their ends.
-/

namespace Versioning

open Grammar

/-! ## Values of texts that go on -/

section

variable {input : List Char} {t : List Char}

theorem numberAt_followedBy {field : Field} {p : Piece} {n : Number}
    (h : numberAt input field p = .ok n) (input' : List Char) :
    numberAt input' field (p.followedBy t) = .ok n := by
  rw [numberAt_eq_ok] at h ⊢
  exact h

theorem Prerelease.ofDotted_followedBy {p : Piece} {tag : Prerelease}
    (h : ofDotted input p = .ok tag) (input' : List Char) :
    ofDotted input' (p.followedBy t) = .ok tag := by
  rw [ofDotted] at h ⊢
  cases hsplit : Text.splitLast Text.isNumeral (Text.segments p.text) with
  | none =>
      rw [hsplit] at h
      simpa only [Piece.text_followedBy, hsplit] using h
  | some parts =>
      rw [hsplit] at h
      obtain ⟨n, hn, h⟩ := bind_eq_ok.1 h
      simp only [Piece.text_followedBy, hsplit]
      have hdigits := numberAt_eq_ok.1 hn
      exact bind_eq_ok.2 ⟨n, numberAt_eq_ok.2 hdigits, h⟩

namespace Grammar

theorem ReleaseText.value_followedBy {x : ReleaseText Piece} {r : Release}
    (h : x.value input = .ok r) (input' : List Char) :
    (x.followedBy Piece.followedBy t).value input' = .ok r := by
  rw [value_eq_ok] at h ⊢
  cases h with
  | single hm => exact .single (numberAt_followedBy hm _)
  | pair hm hn => exact .pair (numberAt_followedBy hm _) (numberAt_followedBy hn _)
  | triple hm hn hp =>
      exact .triple (numberAt_followedBy hm _) (numberAt_followedBy hn _)
        (numberAt_followedBy hp _)

theorem ExactText.tag_followedBy {x : ExactText} {p : Prerelease} (h : x.tag input = .ok p)
    (input' : List Char) : (x.followedBy t).tag input' = .ok p := by
  rcases x with ⟨_, _ | dotted, _⟩
  · exact h
  · exact Prerelease.ofDotted_followedBy h input'

theorem ExactText.metadata_followedBy (x : ExactText) : (x.followedBy t).metadata = x.metadata := by
  rcases x with ⟨_, _, _ | dotted⟩ <;> rfl

theorem ExactText.value_followedBy {x : ExactText} {v : Exact} (h : x.value input = .ok v)
    (input' : List Char) : (x.followedBy t).value input' = .ok v := by
  rw [value_eq] at h ⊢
  obtain ⟨p, hp, h⟩ := bind_eq_ok.1 h
  obtain ⟨r, hr, h⟩ := bind_eq_ok.1 h
  rw [metadata_followedBy]
  exact bind_eq_ok.2 ⟨p, tag_followedBy hp input',
    bind_eq_ok.2 ⟨r, ReleaseText.value_followedBy hr input', h⟩⟩

theorem Slot.value_followedBy {field : Field} {x? : Option Slot} {c : Component}
    (h : Slot.value input field x? = .ok c) (input' : List Char) :
    Slot.value input' field (x?.map (·.followedBy t)) = .ok c := by
  rcases x? with _ | p | _
  · exact h
  · obtain ⟨n, hn, h⟩ := bind_eq_ok.1 h
    exact bind_eq_ok.2 ⟨n, numberAt_followedBy hn input', h⟩
  · exact h

theorem patternValue_followedBy {x : PatternText} {w : Pattern} (h : patternValue input x = .ok w)
    (input' : List Char) : patternValue input' (x.followedBy Slot.followedBy t) = .ok w := by
  obtain ⟨m, hm, h⟩ := bind_eq_ok.1 h
  obtain ⟨n, hn, h⟩ := bind_eq_ok.1 h
  obtain ⟨p, hp, h⟩ := bind_eq_ok.1 h
  have hmajor : (x.followedBy Slot.followedBy t).major = x.major.followedBy t := by cases x <;> rfl
  have hminor : (x.followedBy Slot.followedBy t).minor? = x.minor?.map (·.followedBy t) := by
    cases x <;> rfl
  have hpatch : (x.followedBy Slot.followedBy t).patch? = x.patch?.map (·.followedBy t) := by
    cases x <;> rfl
  rw [patternValue, hmajor, hminor, hpatch]
  exact bind_eq_ok.2 ⟨m, numberAt_followedBy hm input', bind_eq_ok.2 ⟨n,
    Slot.value_followedBy hn input', bind_eq_ok.2 ⟨p, Slot.value_followedBy hp input', h⟩⟩⟩

theorem VersionText.value_followedBy {x : VersionText} {v : Version} (h : x.value input = .ok v)
    (input' : List Char) : (x.followedBy t).value input' = .ok v := by
  cases x with
  | exact x =>
      obtain ⟨e, he, h⟩ := bind_eq_ok.1 h
      exact bind_eq_ok.2 ⟨e, ExactText.value_followedBy he input', h⟩
  | pattern x =>
      obtain ⟨w, hw, h⟩ := bind_eq_ok.1 h
      exact bind_eq_ok.2 ⟨w, patternValue_followedBy hw input', h⟩

/-- A value depends on what is written and not on what comes after it. -/
theorem AlternativeText.Denotes.followedBy {a : AlternativeText} {r : Range}
    (h : a.Denotes input r) (input' : List Char) : (a.followedBy t).Denotes input' r := by
  cases h with
  | hyphen hv hw =>
      exact .hyphen (VersionText.value_followedBy hv input')
        (VersionText.value_followedBy hw input')
  | caret hv => exact .caret (VersionText.value_followedBy hv input')
  | tilde hv => exact .tilde (VersionText.value_followedBy hv input')
  | pinned hv => exact .pinned (VersionText.value_followedBy hv input')
  | comparison o hv => exact .comparison o (VersionText.value_followedBy hv input')
  | any => exact .any
  | plainExact hv => exact .plainExact (VersionText.value_followedBy hv input')
  | plainPattern hw => exact .plainPattern (VersionText.value_followedBy hw input')

end Grammar

end

/-! ## Joining -/

/-- Between two texts without blanks at their ends, blanks are kept. -/
theorem Text.trim_append {s t : List Char} (hs : trim s = s) (ht : trim t = t) (hsne : s ≠ [])
    (htne : t ≠ []) (m : List Char) : trim (s ++ (m ++ t)) = s ++ (m ++ t) := by
  apply trim_eq_self
  · rw [List.head?_append_of_ne_nil s hsne, ← hs]
    exact head?_trim s
  · rw [← List.append_assoc, List.getLast?_append_of_ne_nil _ htne, ← ht]
    exact getLast?_trim t

namespace Range

/-- A separator makes one text of two, with the alternatives of both. -/
theorem WrittenAs.append {rs qs : List Range} {t u sep : List Char} (ht : WrittenAs rs t)
    (hu : WrittenAs qs u) (hsep : SeparatorForm sep []) :
    WrittenAs (rs ++ qs) (t ++ (sep ++ u)) := by
  obtain ⟨as, has, hrs⟩ := ht.reads
  obtain ⟨bs, hbs, hqs⟩ := hu.reads
  refine ⟨Text.trim_append ht.trimmed hu.trimmed ht.ne_nil hu.ne_nil sep,
    as.map (·.followedBy (sep ++ u)) ++ bs, ⟨?_, ?_⟩, ?_⟩
  · exact has.1.append (hsep.append u) hbs.1
  · simp only [List.forall_mem_append, List.forall_mem_map]
    exact ⟨fun a ha => (has.2 a ha).followedBy _, hbs.2⟩
  · refine List.rel_append ?_ ?_
    · rw [List.forall₂_map_left_iff]
      exact hrs.imp fun _ _ h => h.followedBy _
    · refine hqs.imp fun a _ h => ?_
      rw [← a.followedBy_nil]
      exact h.followedBy _

/-- The alternatives of a range. A range that is not made of alternatives is its only one. -/
def alternatives : Range → List Range
  | composite rs => rs
  | r => [r]

theorem alternatives_of_denotes {input : List Char} {a : AlternativeText} {r : Range}
    (h : a.Denotes input r) : r.alternatives = [r] := by
  cases h <;> rfl

theorem WrittenAs.alternatives_ofAlternatives {rs : List Range} {t : List Char}
    (h : WrittenAs rs t) : (ofAlternatives rs).alternatives = rs := by
  obtain ⟨as, has, hall⟩ := h.reads
  cases hall with
  | nil => exact absurd rfl has.1.ne_nil
  | cons ha hrest =>
      cases hrest with
      | nil => exact alternatives_of_denotes ha
      | cons => rfl

/-- A range is satisfied as one of its alternatives is. -/
theorem satisfiedBy_eq_any_alternatives (r : Range) (v : Version) :
    r.satisfiedBy v = r.alternatives.any (·.satisfiedBy v) := by
  cases r with
  | composite rs => exact satisfiedBy_composite rs v
  | _ => simp [alternatives]

/-- Two texts that are read as ranges, without blanks at their ends and with a separator between
them, are read as the alternatives of the first followed by those of the second. A version satisfies
the range as it satisfies one of the two. -/
theorem parse_append {s sep t : String} {r q : Range} (hs : Text.trim s.toList = s.toList)
    (ht : Text.trim t.toList = t.toList) (hsep : SeparatorForm sep.toList [])
    (hr : Range.parse s = .ok r) (hq : Range.parse t = .ok q) :
    Range.parse (s ++ sep ++ t) = .ok (.composite (r.alternatives ++ q.alternatives)) ∧
      ∀ v, (composite (r.alternatives ++ q.alternatives)).satisfiedBy v =
        (r.satisfiedBy v || q.satisfiedBy v) := by
  constructor
  · obtain ⟨rs, hrs, rfl⟩ := parse_eq_ok.1 hr
    obtain ⟨qs, hqs, rfl⟩ := parse_eq_ok.1 hq
    rw [hrs.alternatives_ofAlternatives, hqs.alternatives_ofAlternatives]
    rw [hs] at hrs
    rw [ht] at hqs
    have happend : WrittenAs (rs ++ qs) (s ++ sep ++ t).toList := by
      rw [String.toList_append, String.toList_append, List.append_assoc]
      exact hrs.append hqs hsep
    rw [happend.parse_eq]
    obtain ⟨r, rs, rfl⟩ := List.exists_cons_of_ne_nil hrs.alternatives_ne_nil
    obtain ⟨q, qs, rfl⟩ := List.exists_cons_of_ne_nil hqs.alternatives_ne_nil
    cases rs <;> rfl
  · intro v
    rw [satisfiedBy_composite, List.any_append, ← satisfiedBy_eq_any_alternatives,
      ← satisfiedBy_eq_any_alternatives]

theorem parse_append_hyphen_caret :
    let s := "1.2 - 2.x"
    let sep := "\t||\n "
    let t := "<3 ^4.0.0-rc.1"
    let r : Range := .interval (.through (.pattern (.pair 1 2)) (.pattern (.anyMinor 2)))
    let rc : Exact := ⟨.triple 4 0 0, .ofParts (Label.ofText? "rc") (some 1) none, .none⟩
    let q : Range := .composite [.comparison .less (.pattern (.single 3)), .caret (.exact rc)]
    (Text.trim s.toList = s.toList ∧ Text.trim t.toList = t.toList ∧ SeparatorForm sep.toList [] ∧
      Range.parse s = .ok r ∧ Range.parse t = .ok q) ∧
    Range.parse (s ++ sep ++ t) = .ok (.composite (r.alternatives ++ q.alternatives)) ∧
      ∀ v, (composite (r.alternatives ++ q.alternatives)).satisfiedBy v =
        (r.satisfiedBy v || q.satisfiedBy v) := by
  intro s sep t r rc q
  have hhyphen : WrittenAs [r] "1.2 - 2.x".toList :=
    .single (by decide) (alternative?_sound rfl) (by decide) (.hyphen rfl rfl)
  have hless : WrittenAs [.comparison .less (.pattern (.single 3))] "<3".toList :=
    .single (by decide) (alternative?_sound rfl) (by decide) (.comparison .less rfl)
  have hcaret : WrittenAs [.caret (.exact rc)] "^4.0.0-rc.1".toList :=
    .single (by decide) (alternative?_sound rfl) (by decide) (.caret rfl)
  have hspace : SeparatorForm " ".toList [] := separator?_sound (by decide)
  have hs : Text.trim s.toList = s.toList := by decide
  have ht : Text.trim t.toList = t.toList := by decide
  have hsep : SeparatorForm sep.toList [] := separator?_sound (by decide)
  have hr : Range.parse s = .ok r := hhyphen.parse_eq
  have hcomposite : WrittenAs q.alternatives "<3 ^4.0.0-rc.1".toList :=
    hless.append hcaret hspace
  have hq : Range.parse t = .ok q := hcomposite.parse_eq
  exact ⟨⟨hs, ht, hsep, hr, hq⟩, parse_append hs ht hsep hr hq⟩

end Range

end Versioning
