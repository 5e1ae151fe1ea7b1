import Versioning.Parse
import Versioning.Proofs.Reading.Conversion
import Versioning.Proofs.Text.Digits
import Versioning.Proofs.Text.Dotted

/-!
# Tags as texts

The text of a tag is its words and its number with dots between them, and reading it splits it
again at the last segment that is a numeral. So a tag is read back as itself if and only if its
number is the last numeral in it, which the parts alone do not say: the words may hold numerals.
-/

namespace Versioning

open Text (IsSegment IsDotted isNumeral joinSegments segments)

/-! ## Numerals -/

namespace Number

theorem text_ne_nil (n : Number) : n.text.toList ≠ [] := by
  rw [toList_text]
  exact Nat.toDigits_ne_nil

theorem isDigit_of_mem_text {n : Number} : ∀ c ∈ n.text.toList, c.isDigit = true := by
  rw [toList_text]
  exact fun c hc => Nat.isDigit_of_mem_toDigits (by decide) (by decide) hc

theorem isSegment_text (n : Number) : IsSegment n.text.toList := by
  refine ⟨n.text_ne_nil, fun c hc => ?_⟩
  simp [Text.isSegmentChar, Char.isAlphanum, isDigit_of_mem_text c hc]

theorem head?_toDigits {k : Nat} (hk : k ≠ 0) : ∀ c ∈ (Nat.toDigits 10 k).head?, c ≠ '0' := by
  induction k using Nat.strongRecOn with
  | ind k ih =>
      by_cases hlt : k < 10
      · rw [Nat.toDigits_of_lt_base hlt]
        simp [Nat.digitChar_eq_zero, hk]
      · have hle : 10 ≤ k := Nat.le_of_not_lt hlt
        rw [Nat.toDigits_of_base_le (by decide) hle]
        rw [List.head?_append_of_ne_nil _ Nat.toDigits_ne_nil]
        exact ih (k / 10) (by omega) (by omega)

theorem isNumeral_text (n : Number) : isNumeral n.text.toList = true := by
  by_cases hn : n.toNat = 0
  · rw [toList_text, hn]
    decide
  · have hhead := head?_toDigits hn
    have hdigits : ∀ c ∈ n.text.toList, c.isDigit = true := isDigit_of_mem_text
    rw [← toList_text] at hhead
    obtain ⟨c, s, hcs⟩ := List.exists_cons_of_ne_nil n.text_ne_nil
    rw [hcs] at hhead hdigits ⊢
    unfold isNumeral
    split
    · contradiction
    · rfl
    · rename_i h
      cases h
      simp only [Bool.and_eq_true, bne_iff_ne]
      exact ⟨hhead _ rfl, List.all_eq_true.2 hdigits⟩

end Number

/-! ## The segments of a tag -/

namespace Tag

/-- The segments of a word. -/
def wordSegments (word : Option Label) : List (List Char) :=
  word.elim [] fun l => segments l.text.toList

def segments (t : Tag) : List (List Char) :=
  wordSegments t.before ++ ((t.number.map fun n => n.text.toList).toList ++ wordSegments t.after)

theorem joinSegments_flatten {groups : List (List (List Char))} (h : ∀ g ∈ groups, g ≠ []) :
    joinSegments (groups.map joinSegments) = joinSegments groups.flatten := by
  induction groups with
  | nil => rfl
  | cons g groups ih =>
      obtain ⟨hg, hgroups⟩ := List.forall_mem_cons.1 h
      cases groups with
      | nil => simp [joinSegments]
      | cons g' groups =>
          have hne : (g' :: groups).flatten ≠ [] := by
            simp [(List.forall_mem_cons.1 hgroups).1]
          rw [List.flatten_cons, Text.joinSegments_append hg hne, ← ih hgroups,
            List.map_cons, ← List.singleton_append, Text.joinSegments_append (by simp) (by simp)]
          simp [joinSegments]

/-- The text of a tag is that of its segments, the number being one of them. -/
theorem toList_text (t : Tag) : t.text.toList = joinSegments t.segments := by
  let groups : List (List (List Char)) := (t.before.map fun l => Text.segments l.text.toList).toList ++
    (t.number.map fun n => [n.text.toList]).toList ++
      (t.after.map fun l => Text.segments l.text.toList).toList
  have hparts : t.parts.map String.toList = groups.map joinSegments := by
    rcases t with ⟨_ | b, _ | n, _ | a⟩ <;> simp [parts, groups] <;> simp [joinSegments]
  have hflat : groups.flatten = t.segments := by
    rcases t with ⟨_ | b, _ | n, _ | a⟩ <;> simp [segments, wordSegments, groups]
  have hne : ∀ g ∈ groups, g ≠ [] := by
    rcases t with ⟨_ | b, _ | n, _ | a⟩ <;> simp [groups, Text.segments_ne_nil]
  rw [← hflat, ← joinSegments_flatten hne, ← hparts, text, String.toList_intercalate]
  rfl

/-- The words of the tag are dotted texts. -/
structure Dotted (t : Tag) : Prop where
  before : ∀ word ∈ t.before, IsDotted word.text.toList
  after : ∀ word ∈ t.after, IsDotted word.text.toList

/-- The number of the tag is where reading looks for it: no numeral comes after it, and without a
number there is no numeral and only one word. -/
def NumberIsLast (t : Tag) : Prop :=
  match t.number with
  | some _ => ∀ seg ∈ wordSegments t.after, isNumeral seg = false
  | none => t.after = none ∧ ∀ seg ∈ wordSegments t.before, isNumeral seg = false

instance : (t : Tag) → Decidable t.NumberIsLast
  | ⟨_, some _, after⟩ =>
    inferInstanceAs (Decidable (∀ seg ∈ wordSegments after, isNumeral seg = false))
  | ⟨before, none, after⟩ =>
    inferInstanceAs (Decidable (after = none ∧ ∀ seg ∈ wordSegments before, isNumeral seg = false))

theorem isSegment_of_mem_wordSegments {word : Option Label}
    (h : ∀ l ∈ word, IsDotted l.text.toList) : ∀ seg ∈ wordSegments word, IsSegment seg := by
  cases word with
  | none => simp [wordSegments]
  | some l => exact (h l rfl).isSegment_of_mem

theorem Dotted.isSegment_of_mem {t : Tag} (h : t.Dotted) : ∀ seg ∈ t.segments, IsSegment seg := by
  intro seg hseg
  simp only [segments, List.mem_append, Option.mem_toList, Option.map_eq_some_iff] at hseg
  rcases hseg with hseg | ⟨n, _, rfl⟩ | hseg
  · exact isSegment_of_mem_wordSegments h.before seg hseg
  · exact n.isSegment_text
  · exact isSegment_of_mem_wordSegments h.after seg hseg

theorem segments_ne_nil {t : Tag} (h : t.isEmpty = false) : t.segments ≠ [] := by
  rcases t with ⟨_ | b, _ | n, _ | a⟩
  · contradiction
  all_goals simp [segments, wordSegments, Text.segments_ne_nil]

theorem Dotted.isDotted_text {t : Tag} (h : t.Dotted) (hne : t.isEmpty = false) :
    IsDotted t.text.toList := by
  rw [toList_text]
  exact Text.isDotted_joinSegments (segments_ne_nil hne) h.isSegment_of_mem

/-- A dotted tag falls apart into the segments that it was made of. -/
theorem Dotted.segments_text {t : Tag} (h : t.Dotted) (hne : t.isEmpty = false) :
    Text.segments t.text.toList = t.segments := by
  rw [toList_text]
  exact Text.segments_joinSegments_of_isSegment (segments_ne_nil hne) h.isSegment_of_mem

end Tag

/-! ## Reading a tag -/

theorem numberAt_text (input : List Char) (field : Field) (n : Number) (after : List Char) :
    numberAt input field ⟨n.text.toList, after⟩ = .ok n := by
  rw [numberAt, Number.ofDigits?_text]

theorem Label.exists_of_isDotted {s : List Char} (h : IsDotted s) :
    ∃ l, Label.ofText? (String.ofList s) = some l ∧ l.text.toList = s := by
  have htrim : Text.trim s = s := Text.trim_eq_self_of_not_isBlank h.not_isBlank
  cases hl : Label.ofText? (String.ofList s) with
  | none =>
      rw [ofText?_eq_none, String.toList_ofList, htrim] at hl
      exact absurd hl h.ne_nil
  | some l => exact ⟨l, rfl, by rw [toList_of_ofText? hl, String.toList_ofList, htrim]⟩

namespace Prerelease

open Tag (wordSegments)

/-- A word is its segments, joined. -/
theorem word_wordSegments (word : Option Label) : ofDotted.word (wordSegments word) = word := by
  cases word with
  | none => rfl
  | some l =>
      have h : String.ofList (joinSegments (segments l.text.toList)) = l.text := by simp
      rw [wordSegments, Option.elim_some, ofDotted.word, h, Label.ofText?_text]

theorem word_of_isSegment {segs : List (List Char)} (h : ∀ seg ∈ segs, IsSegment seg) :
    (∀ l ∈ ofDotted.word segs, IsDotted l.text.toList) ∧
      wordSegments (ofDotted.word segs) = segs := by
  cases segs with
  | nil => exact ⟨by simp [ofDotted.word, Label.ofText?, joinSegments], rfl⟩
  | cons seg segs =>
      have hne : seg :: segs ≠ [] := by simp
      obtain ⟨l, hl, htext⟩ := Label.exists_of_isDotted (Text.isDotted_joinSegments hne h)
      have hword : ofDotted.word (seg :: segs) = some l := hl
      rw [hword]
      refine ⟨?_, ?_⟩
      · rintro _ ⟨⟩
        rw [htext]
        exact Text.isDotted_joinSegments hne h
      · rw [wordSegments, Option.elim_some, htext,
          Text.segments_joinSegments_of_isSegment hne h]

/-- A tag whose number is the last numeral is read back from its text. -/
theorem ofDotted_text {t : Tag} (hd : t.Dotted) (hne : t.isEmpty = false) (hn : t.NumberIsLast)
    (input after : List Char) : ofDotted input ⟨t.text.toList, after⟩ = .ok (tag t) := by
  have hsegments := hd.segments_text hne
  rcases t with ⟨before, _ | n, word⟩
  · obtain ⟨rfl, hnumeral⟩ := hn
    cases before with
    | none => contradiction
    | some l =>
        have hnone : Text.splitLast isNumeral (Tag.segments ⟨some l, .none, .none⟩) = .none :=
          Text.splitLast_eq_none.2 (by simpa [Tag.segments, wordSegments] using hnumeral)
        have htext : String.ofList (Tag.text ⟨some l, .none, .none⟩).toList = l.text := by
          simp [Tag.text, Tag.parts]
        unfold ofDotted
        simp only [hsegments, hnone, htext, Label.ofText?_text]
        rfl
  · have hsplit : Text.splitLast isNumeral (Tag.segments ⟨before, some n, word⟩) =
        some (wordSegments before, n.text.toList, wordSegments word) :=
      Text.splitLast_eq_some.2 ⟨by simp [Tag.segments], n.isNumeral_text, hn⟩
    have hparts : ofParts before (some n) word = tag ⟨before, some n, word⟩ := by
      simp [ofParts, hne]
    unfold ofDotted
    simp only [hsegments, hsplit, word_wordSegments, numberAt_text]
    exact congrArg Except.ok hparts

/-- What is read as a tag has its number last and is written as it was. -/
theorem ofDotted_sound {s input after : List Char} {p : Prerelease} (hs : IsDotted s)
    (h : ofDotted input ⟨s, after⟩ = .ok p) :
    ∃ t, p = tag t ∧ t.isEmpty = false ∧ t.Dotted ∧ t.NumberIsLast ∧ t.text.toList = s := by
  have hsegment := hs.isSegment_of_mem
  unfold ofDotted at h
  split at h
  · rename_i hsplit
    obtain ⟨l, hl, htext⟩ := Label.exists_of_isDotted hs
    simp only [hl] at h
    cases h
    refine ⟨⟨some l, .none, .none⟩, rfl, rfl, ⟨?_, by simp⟩, ⟨rfl, ?_⟩, ?_⟩
    · rintro _ ⟨⟩
      rwa [htext]
    · rw [wordSegments, Option.elim_some, htext]
      exact Text.splitLast_eq_none.1 hsplit
    · simpa [Tag.text, Tag.parts] using htext
  · rename_i before numeral word hsplit
    obtain ⟨n, hn, h⟩ := bind_eq_ok.1 h
    obtain ⟨he, hlast, hnumeral⟩ := Text.splitLast_eq_some.1 hsplit
    have hntext := Number.toList_text_of_isNumeral hlast (numberAt_eq_ok.1 hn)
    simp only [he, List.mem_append, List.mem_cons] at hsegment
    obtain ⟨hbefore, hword⟩ := word_of_isSegment fun seg hseg => hsegment seg (.inl hseg)
    obtain ⟨hafter, hword'⟩ := word_of_isSegment fun seg hseg => hsegment seg (.inr (.inr hseg))
    -- The words are read already: how plays no part in the tag that they make with the number.
    generalize ofDotted.word before = b at h hbefore hword
    generalize ofDotted.word word = w at h hafter hword'
    have hne : Tag.isEmpty ⟨b, some n, w⟩ = false := by simp [Tag.isEmpty]
    refine ⟨⟨b, some n, w⟩, ?_, hne, ⟨hbefore, hafter⟩, ?_, ?_⟩
    · cases h
      simp [ofParts, hne]
    · rw [Tag.NumberIsLast]
      simp only [hword']
      exact hnumeral
    · have hsegments : Tag.segments ⟨b, some n, w⟩ = segments s := by
        simp only [Tag.segments, hword, hword', he, Option.map_some, Option.toList_some, hntext,
          List.singleton_append]
      rw [Tag.toList_text, hsegments, Text.joinSegments_segments]

/-- A dotted text is read as the tag that is written so and has its number last. -/
theorem ofDotted_eq_ok {s input after : List Char} {p : Prerelease} (hs : IsDotted s) :
    ofDotted input ⟨s, after⟩ = .ok p ↔
      ∃ t, p = tag t ∧ t.isEmpty = false ∧ t.Dotted ∧ t.NumberIsLast ∧ t.text.toList = s := by
  constructor
  · exact ofDotted_sound hs
  · rintro ⟨t, rfl, hne, hd, hn, rfl⟩
    exact ofDotted_text hd hne hn input after

/-- Reading a tag fails only at its last numeral. -/
theorem exists_ofDotted_iff {s input after : List Char} :
    (∃ p, ofDotted input ⟨s, after⟩ = .ok p) ↔
      ∀ numeral ∈ Text.lastNumeral? s, Nat.ofDigitChars 10 numeral 0 ≤ Number.maxValue := by
  rw [Text.lastNumeral?_eq_splitLast, ofDotted]
  cases Text.splitLast isNumeral (segments s) with
  | none => simp
  | some parts =>
      obtain ⟨before, numeral, word⟩ := parts
      simp only [Option.map_some, Option.mem_some_iff, forall_eq']
      constructor
      · rintro ⟨p, h⟩
        obtain ⟨n, hn, _⟩ := bind_eq_ok.1 h
        exact exists_numberAt_iff.1 ⟨n, hn⟩
      · intro h
        obtain ⟨n, hn⟩ := exists_numberAt_iff.2 h
        exact ⟨_, bind_eq_ok.2 ⟨n, hn, rfl⟩⟩

end Prerelease

end Versioning
