import Mathlib.Logic.Function.Iterate
import Versioning.Proofs.Reading.Spelling
import Versioning.Proofs.RoundTrip.Strict

/-!
# Prereleases as texts

    tag := segment ("." segment)*        segment := [0-9A-Za-z-]+        numeral := 0 | [1-9][0-9]*

A text is read as a tag if and only if it is dotted and its last numeral fits into 64 bits. The tag
is split there: the segments on both sides are its words, and without a numeral all of the text
stands before the missing number. So nothing of the text is lost, and the tag is read back from it,
as are all tags that counting up leads to.
-/

namespace Versioning

open Text (IsDotted isNumeral joinSegments lastNumeral? segments)

namespace Tag

/-- The segments with dots between them, unless there are none. -/
def joined? (segs : List (List Char)) : Option (List Char) :=
  if segs = [] then none else some (joinSegments segs)

theorem joined?_wordSegments (word : Option Label) :
    joined? (wordSegments word) = word.map fun l => l.text.toList := by
  cases word with
  | none => rfl
  | some l =>
      rw [wordSegments, Option.elim_some, joined?, if_neg (Text.segments_ne_nil _),
        Text.joinSegments_segments]
      rfl

end Tag

namespace Prerelease

open Tag (joined? joined?_wordSegments wordSegments)

/-- How the parts of a tag make up its text. -/
inductive SplitAs (t : List Char) (p : Prerelease) : Prop
  | atNumeral {before after : List (List Char)} {numeral : List Char} {n : Number}
      (segments_eq : segments t = before ++ numeral :: after)
      (isNumeral_eq : isNumeral numeral = true)
      (last : ∀ seg ∈ after, isNumeral seg = false)
      (number_eq : p.number = some n) (value_eq : Nat.ofDigitChars 10 numeral 0 = n.toNat)
      (before_eq : (p.before.map fun l => l.text.toList) = joined? before)
      (after_eq : (p.after.map fun l => l.text.toList) = joined? after) : SplitAs t p
  | whole (noNumeral : ∀ seg ∈ segments t, isNumeral seg = false) (number_eq : p.number = .none)
      (before_eq : (p.before.map fun l => l.text.toList) = some t) (after_eq : p.after = .none) :
      SplitAs t p

theorem parse_eq_ok {s : String} {p : Prerelease} (hne : Text.trim s.toList ≠ []) :
    Prerelease.parse s = .ok p ↔ IsDotted (Text.trim s.toList) ∧
      ofDotted (Text.trim s.toList) ⟨Text.trim s.toList, []⟩ = .ok p := by
  simp only [Prerelease.parse, if_neg hne]
  constructor
  · intro h
    obtain ⟨dotted, hread, hp⟩ := bind_eq_ok.1 h
    have hdotted := isDotted_of_complete hread
    obtain ⟨q, hq, he⟩ := Option.map_eq_some_iff.1 (complete_eq_ok.1 hread)
    obtain ⟨rfl, hafter⟩ := Prod.mk.inj he
    have hall : Text.trim s.toList = q.text := by
      rw [Grammar.dotted?_append hq, hafter, List.append_nil]
    have hq : q = ⟨Text.trim s.toList, []⟩ := by rw [hall, ← hafter]
    rw [← hall] at hdotted
    rw [hq] at hp
    exact ⟨hdotted, hp⟩
  · rintro ⟨hdotted, hp⟩
    have hread : Grammar.dotted? (Text.trim s.toList) = some ⟨Text.trim s.toList, []⟩ := by
      simpa using Grammar.dotted?_complete (.segments (r := []) hdotted) (by simp)
    exact bind_eq_ok.2 ⟨_, complete_eq_ok.2 (by rw [hread]; rfl), hp⟩

theorem parse_of_blank {s : String} (h : Text.trim s.toList = []) :
    Prerelease.parse s = .ok .none := by
  simp only [Prerelease.parse, if_pos h]
  rfl

theorem exists_parse_iff_isDotted {s : String} (hne : Text.trim s.toList ≠ []) :
    (∃ p, Prerelease.parse s = .ok p) ↔ IsDotted (Text.trim s.toList) ∧
      ∀ numeral ∈ lastNumeral? (Text.trim s.toList),
        Nat.ofDigitChars 10 numeral 0 < UInt64.size := by
  simp only [parse_eq_ok hne, exists_and_left, exists_ofDotted_iff, Number.lt_uint64Size_iff]

/-- A tag whose number is the last numeral of its text is split there. -/
theorem splitAs_text {t : Tag} (hne : t.isEmpty = false) (hd : t.Dotted) (hn : t.NumberIsLast) :
    SplitAs t.text.toList (tag t) := by
  have hsegments := hd.segments_text hne
  have htag : (tag t).tag? = some t := tag?_tag hne
  rcases t with ⟨before, _ | n, after⟩
  · obtain ⟨rfl, hnumeral⟩ := hn
    cases before with
    | none => contradiction
    | some l =>
        refine .whole ?_ (by rw [number, htag]; rfl) ?_ (by rw [Prerelease.after, htag]; rfl)
        · rw [hsegments]
          simpa [Tag.segments, wordSegments] using hnumeral
        · rw [Prerelease.before, htag]
          simp [Tag.text, Tag.parts]
  · have hsplit : segments (Tag.text ⟨before, some n, after⟩).toList =
        wordSegments before ++ n.text.toList :: wordSegments after := by
      rw [hsegments]
      simp [Tag.segments]
    refine .atNumeral hsplit n.isNumeral_text hn (by rw [number, htag]; rfl)
      (Number.ofDigits?_eq_some.1 n.ofDigits?_text) ?_ ?_
    · rw [Prerelease.before, htag, joined?_wordSegments]
      rfl
    · rw [Prerelease.after, htag, joined?_wordSegments]
      rfl

theorem Canonical.iterate_next {p : Prerelease} (h : p.Canonical) (k : Nat) :
    (Prerelease.next^[k] p).Canonical := by
  induction k with
  | zero => exact h
  | succ k ih =>
      rw [Function.iterate_succ_apply']
      exact ih.next

/-- A blank text is no tag, and any other text is one if and only if it is dotted and its last
numeral fits into 64 bits. A tag is written as it was, split at that numeral, and it is read back
from its text, however often it has been counted up. -/
theorem parse_splits_at_last_numeral (s : String) :
    (Text.trim s.toList = [] → Prerelease.parse s = .ok .none) ∧
    (Text.trim s.toList ≠ [] → ((∃ p, Prerelease.parse s = .ok p) ↔
      IsDotted (Text.trim s.toList) ∧ ∀ numeral ∈ lastNumeral? (Text.trim s.toList),
        Nat.ofDigitChars 10 numeral 0 < UInt64.size)) ∧
    ∀ p, Prerelease.parse s = .ok p → p.text.toList = Text.trim s.toList ∧
      (Text.trim s.toList ≠ [] → SplitAs (Text.trim s.toList) p) ∧
        ∀ k, Prerelease.parse (next^[k] p).text = .ok (next^[k] p) := by
  refine ⟨parse_of_blank, exists_parse_iff_isDotted, fun p h => ?_⟩
  have hback (k : Nat) : Prerelease.parse (next^[k] p).text = .ok (next^[k] p) :=
    ((canonical_of_parse h).iterate_next k).parse_text
  by_cases hne : Text.trim s.toList = []
  · rw [parse_of_blank hne] at h
    cases h
    exact ⟨hne.symm, fun h => absurd hne h, hback⟩
  · obtain ⟨hdotted, hp⟩ := (parse_eq_ok hne).1 h
    obtain ⟨u, rfl, hu, hd, hn, htext⟩ := ofDotted_sound hdotted hp
    refine ⟨?_, fun _ => ?_, hback⟩
    · rw [text, tag?_tag hu]
      exact htext
    · have hsplit := splitAs_text hu hd hn
      rwa [htext] at hsplit

theorem parse_splits_at_last_numeral_rc_007_3_x : ∃ p, Text.trim " rc.007.3.x-1 ".toList ≠ [] ∧
    Prerelease.parse " rc.007.3.x-1 " = .ok p ∧ p.text.toList = "rc.007.3.x-1".toList ∧
      SplitAs "rc.007.3.x-1".toList p ∧
      Prerelease.parse (next^[2] p).text = .ok (next^[2] p) := by
  have hne : Text.trim " rc.007.3.x-1 ".toList ≠ [] := by decide
  obtain ⟨_, reads_iff, reads⟩ := parse_splits_at_last_numeral " rc.007.3.x-1 "
  obtain ⟨p, hp⟩ := (reads_iff hne).2 (by decide)
  obtain ⟨htext, hsplit, hback⟩ := reads p hp
  exact ⟨p, hne, hp, htext, hsplit hne, hback 2⟩

end Prerelease

end Versioning
