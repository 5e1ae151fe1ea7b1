import Versioning.Proofs.RoundTrip.Canonical

/-!
# Spellings of exact versions

    spelling := number ("." number ("." number)?)? ("-" dotted)? ("+" dotted)?

A text is read as an exact version if and only if it is a spelling whose numbers fit into 64 bits:
the one to three at its head, and the last numeral of its tag. The version has the parts that are
spelled, and its text is the spelling without the leading zeros of the numbers.
-/

namespace Versioning

open Grammar
open Text (IsDigits IsDotted joinSegments dropZeros lastNumeral?)

theorem Number.lt_uint64Size_iff {n : Nat} : n < UInt64.size ↔ n ≤ maxValue :=
  Nat.lt_succ_iff

/-! ## What is spelled -/

/-- A number as it is written, perhaps with leading zeros. -/
structure Digits where
  text : List Char
  isDigits : IsDigits text
  lt : Nat.ofDigitChars 10 text 0 < UInt64.size

def Digits.value (d : Digits) : Nat :=
  Nat.ofDigitChars 10 d.text 0

theorem Digits.exists_list {ts : List (List Char)}
    (h : ∀ s ∈ ts, IsDigits s ∧ Nat.ofDigitChars 10 s 0 ≤ Number.maxValue) :
    ∃ ds : List Digits, ds.map Digits.text = ts := by
  refine ⟨ts.pmap (fun s h => ⟨s, h.1, Number.lt_uint64Size_iff.2 h.2⟩) h, ?_⟩
  simp [List.map_pmap]

/-- The parts of an exact version as they are written. -/
structure Spelling where
  numbers : List Digits
  tag? : Option (List Char)
  build? : Option (List Char)
  one_le_length : 1 ≤ numbers.length
  length_le_three : numbers.length ≤ 3
  isDotted_tag : ∀ s ∈ tag?, IsDotted s
  numeral_lt : ∀ s ∈ tag?, ∀ numeral ∈ lastNumeral? s, Nat.ofDigitChars 10 numeral 0 < UInt64.size
  isDotted_build : ∀ s ∈ build?, IsDotted s

namespace Spelling

/-- A part behind its mark, or nothing. -/
def marked (mark : Char) (part? : Option (List Char)) : List Char :=
  part?.elim [] (mark :: ·)

def text (x : Spelling) : List Char :=
  joinSegments (x.numbers.map Digits.text) ++ (marked '-' x.tag? ++ marked '+' x.build?)

def withoutZeros (x : Spelling) : List Char :=
  joinSegments (x.numbers.map fun d => dropZeros d.text) ++
    (marked '-' x.tag? ++ marked '+' x.build?)

end Spelling

/-! ## The numbers -/

namespace Grammar

/-- The numbers as they are written. -/
def ReleaseText.pieces : ReleaseText Piece → List Piece
  | single m => [m]
  | pair m n => [m, n]
  | triple m n p => [m, n, p]

end Grammar

theorem Release.toList_text (r : Release) :
    r.text.toList = joinSegments (r.numbers.map fun n => n.text.toList) := by
  cases r <;> simp [Release.text, numbers, joinSegments]

namespace Grammar

theorem NumberForm.eq_append {p : Piece} {s r : List Char} (h : NumberForm p s r) :
    s = p.text ++ r ∧ IsDigits p.text := by
  cases h with
  | digits hne hd => exact ⟨rfl, hne, hd⟩

theorem ReleaseForm.eq_append {y : ReleaseText Piece} {s r : List Char}
    (h : ReleaseForm NumberForm y s r) :
    s = joinSegments (y.pieces.map Piece.text) ++ r ∧ ∀ p ∈ y.pieces, IsDigits p.text := by
  cases h with
  | single hm =>
      obtain ⟨hs, hm⟩ := hm.eq_append
      simp [hs, hm, ReleaseText.pieces, joinSegments]
  | pair hm hn =>
      obtain ⟨hs, hm⟩ := hm.eq_append
      obtain ⟨ht, hn⟩ := hn.eq_append
      simp [hs, ht, hm, hn, ReleaseText.pieces, joinSegments]
  | triple hm hn hp =>
      obtain ⟨hs, hm⟩ := hm.eq_append
      obtain ⟨ht, hn⟩ := hn.eq_append
      obtain ⟨hu, hp⟩ := hp.eq_append
      simp [hs, ht, hu, hm, hn, hp, ReleaseText.pieces, joinSegments]

/-- One to three runs of digits with dots between them are a release. -/
theorem ReleaseForm.exists_of_isDigits {ns : List (List Char)} (hone : 1 ≤ ns.length)
    (hthree : ns.length ≤ 3) (h : ∀ ds ∈ ns, IsDigits ds) (r : List Char) :
    ∃ y : ReleaseText Piece, ReleaseForm NumberForm y (joinSegments ns ++ r) r ∧
      y.pieces.map Piece.text = ns := by
  have form {ds : List Char} (hds : ds ∈ ns) (r : List Char) : NumberForm ⟨ds, r⟩ (ds ++ r) r :=
    .digits (h ds hds).1 (h ds hds).2
  match ns, hone, hthree with
  | [m], _, _ =>
      refine ⟨.single ⟨m, r⟩, ?_, rfl⟩
      simpa [joinSegments] using ReleaseForm.single (form (by simp) r)
  | [m, n], _, _ =>
      let t := n ++ r
      refine ⟨.pair ⟨m, '.' :: t⟩ ⟨n, r⟩, ?_, rfl⟩
      simpa [joinSegments, t] using
        ReleaseForm.pair (form (by simp) ('.' :: t)) (form (by simp) r)
  | [m, n, p], _, _ =>
      let u := p ++ r
      let t := n ++ '.' :: u
      refine ⟨.triple ⟨m, '.' :: t⟩ ⟨n, '.' :: u⟩ ⟨p, r⟩, ?_, rfl⟩
      simpa [joinSegments, t, u] using
        ReleaseForm.triple (form (by simp) ('.' :: t)) (form (by simp) ('.' :: u))
          (form (by simp) r)

/-- The numbers have the values of what is written. -/
theorem ReleaseText.Denotes.map_toNat {input : List Char} {y : ReleaseText Piece} {r : Release}
    (h : y.Denotes input r) :
    r.numbers.map Number.toNat = y.pieces.map fun p => Nat.ofDigitChars 10 p.text 0 := by
  cases h with
  | single hm => simp [pieces, Release.numbers, numberAt_eq_ok.1 hm]
  | pair hm hn => simp [pieces, Release.numbers, numberAt_eq_ok.1 hm, numberAt_eq_ok.1 hn]
  | triple hm hn hp =>
      simp [pieces, Release.numbers, numberAt_eq_ok.1 hm, numberAt_eq_ok.1 hn, numberAt_eq_ok.1 hp]

theorem ReleaseText.exists_value {input : List Char} {y : ReleaseText Piece}
    (h : ∀ p ∈ y.pieces, Nat.ofDigitChars 10 p.text 0 ≤ Number.maxValue) :
    ∃ r, y.value input = .ok r := by
  have number (field : Field) {p : Piece} (hp : p ∈ y.pieces) :
      ∃ n, numberAt input field p = .ok n := exists_numberAt_iff.2 (h p hp)
  simp only [value_eq_ok]
  cases y with
  | single m =>
      obtain ⟨a, ha⟩ := number .major (List.mem_singleton_self m)
      exact ⟨_, .single ha⟩
  | pair m n =>
      obtain ⟨a, ha⟩ := number .major (p := m) (by simp [pieces])
      obtain ⟨b, hb⟩ := number .minor (p := n) (by simp [pieces])
      exact ⟨_, .pair ha hb⟩
  | triple m n p =>
      obtain ⟨a, ha⟩ := number .major (p := m) (by simp [pieces])
      obtain ⟨b, hb⟩ := number .minor (p := n) (by simp [pieces])
      obtain ⟨c, hc⟩ := number .patch (p := p) (by simp [pieces])
      exact ⟨_, .triple ha hb hc⟩

theorem ReleaseText.le_maxValue_of_value {input : List Char} {y : ReleaseText Piece} {r : Release}
    (h : y.value input = .ok r) :
    ∀ p ∈ y.pieces, Nat.ofDigitChars 10 p.text 0 ≤ Number.maxValue := by
  intro p hp
  have hmem := List.mem_map_of_mem (f := fun p : Piece => Nat.ofDigitChars 10 p.text 0) hp
  rw [← (value_eq_ok.1 h).map_toNat] at hmem
  obtain ⟨n, _, hn⟩ := List.mem_map.1 hmem
  rw [← hn]
  exact n.le_max

theorem ReleaseText.length_pieces (y : ReleaseText Piece) :
    1 ≤ y.pieces.length ∧ y.pieces.length ≤ 3 := by
  cases y <;> simp [pieces]

/-! ## Tags and builds -/

theorem TaggedForm.eq_append {mark : Char} {x : Option Piece} {s r : List Char}
    (h : TaggedForm mark x s r) :
    s = Spelling.marked mark (x.map Piece.text) ++ r ∧ ∀ p ∈ x, IsDotted p.text := by
  cases h with
  | absent => simp [Spelling.marked]
  | present h =>
      cases h with
      | segments h => simp [Spelling.marked, h]

theorem TaggedForm.of_isDotted (mark : Char) {part? : Option (List Char)}
    (h : ∀ s ∈ part?, IsDotted s) (r : List Char) :
    TaggedForm mark (part?.map fun s => ⟨s, r⟩) (Spelling.marked mark part? ++ r) r := by
  cases part? with
  | none => exact .absent
  | some s => exact .present (.segments (h s rfl))

end Grammar

/-! ## Spellings and forms -/

namespace Spelling

/-- What is read as a version is a spelling. -/
theorem exists_of_form {y : ExactText} {input t : List Char} {v : Exact} (hy : ExactForm y t [])
    (hv : y.value input = .ok v) : ∃ x : Spelling, x.text = t := by
  rw [ExactText.value_eq] at hv
  obtain ⟨tag, htag, hv⟩ := bind_eq_ok.1 hv
  obtain ⟨r, hr, _⟩ := bind_eq_ok.1 hv
  cases hy with
  | @intro z p b _ _ _ _ hz hp hb =>
      obtain ⟨rfl, hdigits⟩ := hz.eq_append
      obtain ⟨rfl, htagged⟩ := hp.eq_append
      obtain ⟨rfl, hbuilt⟩ := hb.eq_append
      have hnumbers : ∀ ds ∈ z.pieces.map Piece.text,
          IsDigits ds ∧ Nat.ofDigitChars 10 ds 0 ≤ Number.maxValue := by
        have hfit := ReleaseText.le_maxValue_of_value hr
        simpa using fun q hq => ⟨hdigits q hq, hfit q hq⟩
      obtain ⟨ds, hds⟩ := Digits.exists_list hnumbers
      have hlength : ds.length = z.pieces.length := by simpa using congrArg List.length hds
      have hnumeral : ∀ q ∈ p, ∀ numeral ∈ lastNumeral? q.text,
          Nat.ofDigitChars 10 numeral 0 ≤ Number.maxValue := by
        rintro q rfl
        exact Prerelease.exists_ofDotted_iff.1 ⟨tag, htag⟩
      obtain ⟨hone, hthree⟩ := z.length_pieces
      refine ⟨⟨ds, p.map Piece.text, b.map Piece.text, ?_, ?_, ?_, ?_, ?_⟩, ?_⟩
      · omega
      · omega
      · simpa using htagged
      · intro s hs numeral h
        obtain ⟨q, hq, rfl⟩ := Option.map_eq_some_iff.1 hs
        exact Number.lt_uint64Size_iff.2 (hnumeral q hq numeral h)
      · simpa using hbuilt
      · simp [text, hds]

theorem exists_form (x : Spelling) : ∃ y : ReleaseText Piece,
    y.pieces.map Piece.text = x.numbers.map Digits.text ∧
      ExactForm ⟨y, x.tag?.map fun s => ⟨s, marked '+' x.build?⟩, x.build?.map fun s => ⟨s, []⟩⟩
        x.text [] := by
  have hdigits : ∀ ds ∈ x.numbers.map Digits.text, IsDigits ds := by
    simpa using fun d _ => d.isDigits
  obtain ⟨y, hy, hpieces⟩ := ReleaseForm.exists_of_isDigits (by simpa using x.one_le_length)
    (by simpa using x.length_le_three) hdigits (marked '-' x.tag? ++ marked '+' x.build?)
  have hbuild := TaggedForm.of_isDotted '+' x.isDotted_build []
  rw [List.append_nil] at hbuild
  exact ⟨y, hpieces, .intro hy (TaggedForm.of_isDotted '-' x.isDotted_tag _) hbuild⟩

/-! ## What the parts of a spelling are read as -/

theorem exists_release (x : Spelling) {y : ReleaseText Piece}
    (hy : y.pieces.map Piece.text = x.numbers.map Digits.text) (input : List Char) :
    ∃ r, y.value input = .ok r ∧ r.numbers.map Number.toNat = x.numbers.map Digits.value := by
  have hvalues : y.pieces.map (fun p => Nat.ofDigitChars 10 p.text 0) =
      x.numbers.map Digits.value := by
    have := congrArg (List.map fun s => Nat.ofDigitChars 10 s 0) hy
    rwa [List.map_map, List.map_map] at this
  have hfit : ∀ p ∈ y.pieces, Nat.ofDigitChars 10 p.text 0 ≤ Number.maxValue := by
    intro p hp
    have hmem : p.text ∈ x.numbers.map Digits.text := hy ▸ List.mem_map_of_mem hp
    obtain ⟨d, _, hd⟩ := List.mem_map.1 hmem
    rw [← hd]
    exact Number.lt_uint64Size_iff.1 d.lt
  obtain ⟨r, hr⟩ := ReleaseText.exists_value hfit
  exact ⟨r, hr, (ReleaseText.value_eq_ok.1 hr).map_toNat.trans hvalues⟩

/-- The numbers are written without leading zeros. -/
theorem text_of_values (x : Spelling) {r : Release}
    (h : r.numbers.map Number.toNat = x.numbers.map Digits.value) :
    r.text.toList = joinSegments (x.numbers.map fun d => dropZeros d.text) := by
  have htexts : r.numbers.map (fun n => n.text.toList) =
      x.numbers.map fun d => dropZeros d.text :=
    calc r.numbers.map (fun n => n.text.toList)
        = (r.numbers.map Number.toNat).map (Nat.toDigits 10) := by simp
      _ = (x.numbers.map Digits.value).map (Nat.toDigits 10) := by rw [h]
      _ = x.numbers.map fun d => dropZeros d.text := by
        simp [Digits.value, Text.toDigits_ofDigitChars, Digits.isDigits]
  rw [Release.toList_text, htexts]

/-- The tag is read inside the version as it is by itself, and it is written as it was. -/
theorem exists_tag (x : Spelling) (input after : List Char) : ∃ p : Prerelease,
    (x.tag?.map fun s => ⟨s, after⟩).elim (.ok .none) (Prerelease.ofDotted input) = .ok p ∧
      (x.tag?.elim (.ok .none) fun s => Prerelease.parse (String.ofList s)) = .ok p ∧
      p.suffix = marked '-' x.tag? := by
  have hdotted := x.isDotted_tag
  have hnumeral := x.numeral_lt
  cases htag : x.tag? with
  | none => exact ⟨.none, rfl, rfl, rfl⟩
  | some s =>
      have hs := hdotted s htag
      have hfit : ∀ numeral ∈ lastNumeral? s, Nat.ofDigitChars 10 numeral 0 ≤ Number.maxValue :=
        fun numeral h => Number.lt_uint64Size_iff.1 (hnumeral s htag numeral h)
      obtain ⟨p, hp⟩ := Prerelease.exists_ofDotted_iff.2 hfit
      have hshape := (Prerelease.ofDotted_eq_ok hs).1 hp
      refine ⟨p, hp, ?_, ?_⟩
      · rw [Option.elim_some, Prerelease.parse_of_isDotted hs]
        exact (Prerelease.ofDotted_eq_ok hs).2 hshape
      · obtain ⟨t, rfl, hne, _, _, rfl⟩ := hshape
        rw [Prerelease.suffix, Prerelease.tag?_tag hne]
        rfl

theorem label_of_build (x : Spelling) (z : ReleaseText Piece) (p : Option Piece) :
    (ExactText.metadata ⟨z, p, x.build?.map fun s => ⟨s, []⟩⟩).label?.map
      (fun l => l.text.toList) = x.build? := by
  have hdotted := x.isDotted_build
  cases hbuild : x.build? with
  | none => rfl
  | some s =>
      obtain ⟨l, hl, htext⟩ := Label.exists_of_isDotted (hdotted s hbuild)
      simp [ExactText.metadata, Build.ofText, hl, htext]

end Spelling

theorem Build.suffix_eq_marked (b : Build) :
    b.suffix = Spelling.marked '+' (b.label?.map fun l => l.text.toList) := by
  rw [suffix, Spelling.marked]
  cases b.label? <;> rfl

/-! ## Spellings and versions -/

/-- The version has the parts that are spelled: the values of the numbers and none besides, the tag
that is read from its text, and the text of the build. -/
structure Spelling.Spells (x : Spelling) (v : Exact) : Prop where
  major : some v.release.major.toNat = x.numbers[0]?.map Digits.value
  minor : v.release.minor?.map Number.toNat = x.numbers[1]?.map Digits.value
  patch : v.release.patch?.map Number.toNat = x.numbers[2]?.map Digits.value
  prerelease :
    (x.tag?.elim (.ok .none) fun s => Prerelease.parse (String.ofList s)) = .ok v.prerelease
  build : v.build.label?.map (fun l => l.text.toList) = x.build?

namespace Exact

theorem exists_of_spelling (x : Spelling) (input : List Char) : ∃ y v, ExactForm y x.text [] ∧
    y.value input = .ok v ∧ x.Spells v ∧ v.text.toList = x.withoutZeros := by
  obtain ⟨z, hz, hform⟩ := x.exists_form
  obtain ⟨r, hr, hvalues⟩ := x.exists_release hz input
  obtain ⟨p, hp, hparse, hsuffix⟩ := x.exists_tag input (Spelling.marked '+' x.build?)
  let y : ExactText := ⟨z, x.tag?.map fun s => ⟨s, Spelling.marked '+' x.build?⟩,
    x.build?.map fun s => ⟨s, []⟩⟩
  have hbuild : y.metadata.label?.map (fun l => l.text.toList) = x.build? := x.label_of_build _ _
  have hnumber (i : Nat) : x.numbers[i]?.map Digits.value = r.numbers[i]?.map Number.toNat := by
    rw [← List.getElem?_map, ← hvalues, List.getElem?_map]
  refine ⟨y, ⟨r, p, y.metadata⟩, hform, ?_, ⟨?_, ?_, ?_, hparse, hbuild⟩, ?_⟩
  · rw [ExactText.value_eq, ExactText.tag, hp, hr]
    rfl
  · rw [hnumber]
    cases r <;> rfl
  · rw [hnumber]
    cases r <;> rfl
  · rw [hnumber]
    cases r <;> rfl
  · rw [toList_text, x.text_of_values hvalues, hsuffix, Build.suffix_eq_marked, hbuild]
    rfl

/-- A text is read as an exact version if and only if it is a spelling, up to blanks at its ends.
The version has the parts that are spelled, and it is written without leading zeros. -/
theorem parse_spelling (s : String) :
    ((∃ v, Exact.parse s = .ok v) ↔ ∃ x : Spelling, x.text = Text.trim s.toList) ∧
      ∀ x : Spelling, x.text = Text.trim s.toList →
        ∃ v, Exact.parse s = .ok v ∧ x.Spells v ∧ v.text.toList = x.withoutZeros := by
  have parsed (x : Spelling) (hx : x.text = Text.trim s.toList) :
      ∃ v, Exact.parse s = .ok v ∧ x.Spells v ∧ v.text.toList = x.withoutZeros := by
    obtain ⟨y, v, hy, hv, hspells, htext⟩ := exists_of_spelling x (Text.trim s.toList)
    rw [hx] at hy
    exact ⟨v, parse_eq_ok.2 ⟨y, hy, hv⟩, hspells, htext⟩
  refine ⟨⟨?_, ?_⟩, parsed⟩
  · rintro ⟨v, hv⟩
    obtain ⟨y, hy, hv⟩ := parse_eq_ok.1 hv
    exact Spelling.exists_of_form hy hv
  · rintro ⟨x, hx⟩
    obtain ⟨v, hv, _⟩ := parsed x hx
    exact ⟨v, hv⟩

theorem parse_spelling_leading_zeros :
    let x : Spelling := {
      numbers := [⟨"02".toList, by decide, by decide⟩, ⟨"010".toList, by decide, by decide⟩]
      tag? := some "rc.007.1".toList
      build? := some "x.0".toList
      one_le_length := by decide
      length_le_three := by decide
      isDotted_tag := by decide
      numeral_lt := by decide
      isDotted_build := by decide }
    x.text = Text.trim " 02.010-rc.007.1+x.0 ".toList ∧
      ∃ v, Exact.parse " 02.010-rc.007.1+x.0 " = .ok v ∧ x.Spells v ∧
        v.text = "2.10-rc.007.1+x.0" := by
  intro x
  have hx : x.text = Text.trim " 02.010-rc.007.1+x.0 ".toList := by decide
  obtain ⟨v, hv, hspells, htext⟩ := (parse_spelling _).2 x hx
  exact ⟨hx, v, hv, hspells, String.toList_inj.1 (htext.trans (by decide))⟩

end Exact

end Versioning
