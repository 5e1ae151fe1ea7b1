import Versioning.Grammar.Version
import Versioning.Proofs.Text.Dotted

/-!
# The language of versions

    number  := [0-9]+                             dotted  := segment ("." segment)*
    release := number ("." slot ("." slot)?)?     exact   := release ("-" dotted)? ("+" dotted)?
    bound   := number "." number "." number ("-" dotted)? ("+" dotted)? | pattern

A form relates what is written, a text that starts with it, and the text after it, without a word on
what may come after it. A reader gives what has the form, and what has the form is read wherever the
text after it cannot go on with it.
-/

namespace Versioning.Grammar

open Text (IsSegment IsDotted isSegmentChar)

/-- `form x s r` says that `s` is a writing of `x` with `r` after it. -/
abbrev Form (α : Type) := α → List Char → List Char → Prop

inductive NumberForm : Form Piece
  | digits {ds r : List Char} (hne : ds ≠ []) (h : ∀ c ∈ ds, c.isDigit = true) :
      NumberForm ⟨ds, r⟩ (ds ++ r) r

inductive DottedForm : Form Piece
  | segments {s r : List Char} (h : IsDotted s) : DottedForm ⟨s, r⟩ (s ++ r) r

/-- A slot of a pattern. -/
inductive SlotForm : Form Slot
  | number {p : Piece} {s r : List Char} (h : NumberForm p s r) : SlotForm (.number p) s r
  | wildcard {c : Char} {r : List Char} (h : isWildcardChar c = true) :
      SlotForm .wildcard (c :: r) r

inductive ReleaseForm {σ : Type} (slot : Form σ) : Form (ReleaseText σ)
  | single {m : Piece} {s r : List Char} (hm : NumberForm m s r) : ReleaseForm slot (.single m) s r
  | pair {m : Piece} {n : σ} {s t r : List Char} (hm : NumberForm m s ('.' :: t))
      (hn : slot n t r) : ReleaseForm slot (.pair m n) s r
  | triple {m : Piece} {n p : σ} {s t u r : List Char} (hm : NumberForm m s ('.' :: t))
      (hn : slot n t ('.' :: u)) (hp : slot p u r) : ReleaseForm slot (.triple m n p) s r

/-- A dotted text behind its mark, or nothing. -/
inductive TaggedForm (mark : Char) : Form (Option Piece)
  | absent {r : List Char} : TaggedForm mark none r r
  | present {p : Piece} {s r : List Char} (h : DottedForm p s r) :
      TaggedForm mark (some p) (mark :: s) r

inductive ExactForm : Form ExactText
  | intro {x : ReleaseText Piece} {prerelease build : Option Piece} {s t u r : List Char}
      (hx : ReleaseForm NumberForm x s t) (hp : TaggedForm '-' prerelease t u)
      (hb : TaggedForm '+' build u r) : ExactForm ⟨x, prerelease, build⟩ s r

abbrev PatternForm : Form PatternText := ReleaseForm SlotForm

/-- A version in a range. Three numbers without tags are both an exact version and a pattern. -/
inductive BoundForm : Form VersionText
  | exact {m n p : Piece} {prerelease build : Option Piece} {s r : List Char}
      (h : ExactForm ⟨.triple m n p, prerelease, build⟩ s r) :
      BoundForm (.exact ⟨.triple m n p, prerelease, build⟩) s r
  | pattern {w : PatternText} {s r : List Char} (h : PatternForm w s r) : BoundForm (.pattern w) s r

/-! ## What is read has the form -/

theorem number?_sound {s r : List Char} {p : Piece} (h : number? s = some (p, r)) :
    NumberForm p s r := by
  obtain ⟨q, hq, he⟩ := Option.map_eq_some_iff.1 h
  cases he
  obtain ⟨hne, rfl⟩ := run?_eq_some.1 hq
  have hd : ∀ c ∈ s.takeWhile Char.isDigit, c.isDigit = true :=
    List.all_eq_true.1 List.all_takeWhile
  have h := NumberForm.digits (r := s.dropWhile Char.isDigit) hne hd
  rwa [List.takeWhile_append_dropWhile] at h

theorem slot?_sound {s r : List Char} {x : Slot} (h : slot? s = some (x, r)) : SlotForm x s r := by
  unfold slot? at h
  split at h
  · cases h
    exact .number (number?_sound ‹_›)
  · obtain ⟨q, hq, he⟩ := Option.map_eq_some_iff.1 h
    cases he
    cases s with
    | nil => contradiction
    | cons c s =>
        simp only [wildcard?] at hq
        split at hq
        · cases hq
          exact .wildcard ‹_›
        · contradiction

theorem dotSlot?_eq_some {σ : Type} {slot? : List Char → Option (σ × List Char)} {s r : List Char}
    {x : σ} : dotSlot? slot? s = some (x, r) ↔ ∃ t, s = '.' :: t ∧ slot? t = some (x, r) := by
  constructor
  · intro h
    unfold dotSlot? at h
    split at h
    · exact ⟨_, rfl, h⟩
    · contradiction
  · rintro ⟨t, rfl, h⟩
    exact h

/-- A release has the form if its slots do. -/
theorem release?_sound {σ : Type} {slot? : List Char → Option (σ × List Char)} {slot : Form σ}
    (hslot : ∀ {s r x}, slot? s = some (x, r) → slot x s r) {s r : List Char} {x : ReleaseText σ}
    (h : release? slot? s = some (x, r)) : ReleaseForm slot x s r := by
  obtain ⟨⟨m, r₁⟩, hm, h⟩ := Option.bind_eq_some_iff.1 h
  have hm := number?_sound hm
  simp only at h
  split at h
  · cases h
    exact .single hm
  · rename_i n r₂ hn
    obtain ⟨t, rfl, hn⟩ := dotSlot?_eq_some.1 hn
    split at h
    · cases h
      exact .pair hm (hslot hn)
    · rename_i p r₃ hp
      obtain ⟨u, rfl, hp⟩ := dotSlot?_eq_some.1 hp
      cases h
      exact .triple hm (hslot hn) (hslot hp)

/-- A segment that has begun goes on with the segments and dots that follow. -/
theorem isDotted_append_moreDotted (s : List Char) {seg : List Char} (h : IsSegment seg) :
    IsDotted (seg ++ (moreDotted s).text) := by
  have extend {seg : List Char} {c : Char} (h : ∀ c ∈ seg, isSegmentChar c = true)
      (hc : isSegmentChar c = true) : IsSegment (seg ++ [c]) := by
    refine ⟨by simp, fun d hd => ?_⟩
    rcases List.mem_append.1 hd with hd | hd
    · exact h d hd
    · rwa [List.mem_singleton.1 hd]
  fun_induction moreDotted s generalizing seg with
  | case1 c s hc ih => exact .cons h (ih (extend (List.forall_mem_nil _) hc))
  | case2 c s hc => simpa using IsDotted.segment h
  | case3 c s _ hc ih => simpa using ih (extend h.2 hc)
  | case4 c s _ hc => simpa using IsDotted.segment h
  | case5 => simpa using IsDotted.segment h

theorem dotted?_sound {s : List Char} {p : Piece} (h : dotted? s = some p) :
    DottedForm p s p.after := by
  have hs := dotted?_append h
  have hp : IsDotted p.text := by
    cases s with
    | nil => contradiction
    | cons c s =>
        simp only [dotted?] at h
        split at h
        · rename_i hc
          cases h
          have hseg : IsSegment [c] := ⟨by simp, by simpa using hc⟩
          exact isDotted_append_moreDotted s hseg
        · contradiction
  rw [hs]
  exact .segments hp

/-- A mark that nothing follows is left in the rest. -/
theorem tagged_sound (mark : Char) (s : List Char) :
    TaggedForm mark (tagged mark s).1 s (tagged mark s).2 := by
  unfold tagged
  split
  · exact .absent
  · split
    · rename_i hc
      subst hc
      split
      · exact .present (dotted?_sound ‹_›)
      · exact .absent
    · exact .absent

theorem exactText?_sound {s r : List Char} {v : ExactText} (h : exactText? s = some (v, r)) :
    ExactForm v s r := by
  obtain ⟨⟨x, r₁⟩, hx, h⟩ := Option.bind_eq_some_iff.1 h
  cases h
  exact .intro (release?_sound number?_sound hx) (tagged_sound '-' _) (tagged_sound '+' _)

theorem patternText?_sound {s r : List Char} {w : PatternText} (h : patternText? s = some (w, r)) :
    PatternForm w s r :=
  release?_sound slot?_sound h

theorem boundText?_sound {s r : List Char} {v : VersionText} (h : boundText? s = some (v, r)) :
    BoundForm v s r := by
  unfold boundText? at h
  split at h
  · cases h
    exact .exact (exactText?_sound ‹_›)
  · obtain ⟨⟨w, q⟩, hq, he⟩ := Option.map_eq_some_iff.1 h
    cases he
    exact .pattern (patternText?_sound hq)

/-- What is read as exact fills the text. -/
theorem exactForm_of_versionText? {x : ExactText} {s r : List Char}
    (h : versionText? s = some (.exact x, r)) : ExactForm x s [] ∧ x.isExact = true := by
  unfold versionText? at h
  split at h
  · rename_i y hy
    split at h
    · cases h
      exact ⟨exactText?_sound hy, ‹_›⟩
    · simp at h
  · simp at h

/-! ## What has the form is read -/

/-- No number goes on with the text. -/
def EndsNumber (r : List Char) : Prop :=
  ∀ c ∈ r.head?, c.isDigit = false

/-- No number or release goes on with the text. -/
def EndsRelease (r : List Char) : Prop :=
  ∀ c ∈ r.head?, c.isDigit = false ∧ c ≠ '.'

/-- No release or tag goes on with the text. -/
def EndsExact (r : List Char) : Prop :=
  ∀ c ∈ r.head?, isSegmentChar c = false ∧ c ≠ '.' ∧ c ≠ '+'

theorem EndsNumber.cons {c : Char} (h : c.isDigit = false) (r : List Char) :
    EndsNumber (c :: r) := by
  intro d hd
  cases hd
  exact h

theorem EndsNumber.dot (r : List Char) : EndsNumber ('.' :: r) :=
  .cons (by decide) r

theorem EndsRelease.number {r : List Char} (h : EndsRelease r) : EndsNumber r :=
  fun c hc => (h c hc).1

theorem EndsExact.nil : EndsExact [] := by
  intro c hc
  contradiction

theorem isDigit_eq_false_of_isSegmentChar {c : Char} (h : isSegmentChar c = false) :
    c.isDigit = false := by
  simp only [isSegmentChar, Char.isAlphanum, Bool.or_eq_false_iff] at h
  exact h.1.2

theorem forall_isWildcardChar {P : Char → Prop} :
    (∀ c, isWildcardChar c = true → P c) ↔ P '*' ∧ P 'x' ∧ P 'X' := by
  simp [isWildcardChar, or_imp, forall_and, and_assoc]

theorem isDigit_eq_false_of_isWildcardChar : ∀ c, isWildcardChar c = true → c.isDigit = false :=
  forall_isWildcardChar.2 (by decide)

theorem takeWhile_append_of_head {p : Char → Bool} {ds r : List Char} (h : ∀ c ∈ ds, p c = true)
    (hr : ∀ c ∈ r.head?, p c = false) : (ds ++ r).takeWhile p = ds := by
  rw [List.takeWhile_append_of_pos h]
  cases r with
  | nil => simp
  | cons c r => simp [hr c rfl]

theorem dropWhile_append_of_head {p : Char → Bool} {ds r : List Char} (h : ∀ c ∈ ds, p c = true)
    (hr : ∀ c ∈ r.head?, p c = false) : (ds ++ r).dropWhile p = r := by
  rw [List.dropWhile_append_of_pos h]
  exact Text.dropWhile_eq_self hr

/-- All digits are taken, so the rest must not begin with one. -/
theorem number?_complete {s r : List Char} {p : Piece} (h : NumberForm p s r) (hr : EndsNumber r) :
    number? s = some (p, r) := by
  cases h with
  | @digits ds _ hne hd =>
      have hrun : digits? (ds ++ r) = some ⟨ds, r⟩ := by
        rw [digits?, run?_eq_some, takeWhile_append_of_head hd hr, dropWhile_append_of_head hd hr]
        exact ⟨hne, rfl⟩
      rw [number?, hrun]
      rfl

theorem number?_eq_none {s : List Char} (h : EndsNumber s) : number? s = none := by
  rw [number?, Option.map_eq_none_iff, digits?, run?_eq_none]
  simpa using takeWhile_append_of_head (List.forall_mem_nil _) h

theorem slot?_complete {s r : List Char} {x : Slot} (h : SlotForm x s r) (hr : EndsNumber r) :
    slot? s = some (x, r) := by
  cases h with
  | number h => rw [slot?, number?_complete h hr]
  | @wildcard c _ hc =>
      have hnone := number?_eq_none (.cons (isDigit_eq_false_of_isWildcardChar c hc) r)
      rw [slot?, hnone, wildcard?, if_pos hc]
      rfl

theorem dotSlot?_eq_none {σ : Type} {slot? : List Char → Option (σ × List Char)} {r : List Char}
    (hr : EndsRelease r) : dotSlot? slot? r = none := by
  unfold dotSlot?
  split
  · exact absurd rfl (hr '.' rfl).2
  · rfl

/-- The rest must not go on as a release, or the reader would. -/
theorem release?_complete {σ : Type} {slot? : List Char → Option (σ × List Char)} {slot : Form σ}
    {s r : List Char} {x : ReleaseText σ} (h : ReleaseForm slot x s r) (hr : EndsRelease r)
    (hslot : ∀ {s r x}, slot x s r → EndsNumber r → slot? s = some (x, r)) :
    release? slot? s = some (x, r) := by
  cases h with
  | single hm =>
      simp [release?, number?_complete hm hr.number, dotSlot?_eq_none hr]
  | pair hm hn =>
      have hn := dotSlot?_eq_some.2 ⟨_, rfl, hslot hn hr.number⟩
      simp [release?, number?_complete hm (.dot _), hn, dotSlot?_eq_none hr]
  | triple hm hn hp =>
      have hn := dotSlot?_eq_some.2 ⟨_, rfl, hslot hn (.dot _)⟩
      have hp := dotSlot?_eq_some.2 ⟨_, rfl, hslot hp hr.number⟩
      simp [release?, number?_complete hm (.dot _), hn, hp]

theorem moreDotted_append_of_isSegmentChar {seg : List Char} (s : List Char)
    (h : ∀ c ∈ seg, isSegmentChar c = true) :
    moreDotted (seg ++ s) = ⟨seg ++ (moreDotted s).text, (moreDotted s).after⟩ := by
  induction seg with
  | nil => rfl
  | cons c seg ih =>
      obtain ⟨hc, hseg⟩ := List.forall_mem_cons.1 h
      have hdot : c ≠ '.' := by
        rintro rfl
        exact absurd hc (by decide)
      rw [List.cons_append, moreDotted]
      · rw [if_pos hc, ih hseg]
        rfl
      · intro _ _ he _
        exact hdot he

theorem moreDotted_eq_nil {r : List Char} (hr : ∀ c ∈ r.head?, isSegmentChar c = false ∧ c ≠ '.') :
    moreDotted r = ⟨[], r⟩ := by
  cases r with
  | nil => rfl
  | cons c r =>
      obtain ⟨hc, hdot⟩ := hr c rfl
      rw [moreDotted]
      · rw [if_neg (by simp [hc])]
      · intro _ _ he _
        exact hdot he

/-- A dotted text goes on with the segments and dots that follow. -/
theorem dotted?_append_of_isDotted {s : List Char} (h : IsDotted s) (r : List Char) :
    dotted? (s ++ r) = some ⟨s ++ (moreDotted r).text, (moreDotted r).after⟩ := by
  induction h with
  | @segment seg h =>
      obtain ⟨c, seg, rfl⟩ := List.exists_cons_of_ne_nil h.1
      obtain ⟨hc, hseg⟩ := List.forall_mem_cons.1 h.2
      rw [List.cons_append, dotted?, if_pos hc, moreDotted_append_of_isSegmentChar r hseg]
      rfl
  | @cons seg s h hs ih =>
      obtain ⟨c, seg, rfl⟩ := List.exists_cons_of_ne_nil h.1
      obtain ⟨hc, hseg⟩ := List.forall_mem_cons.1 h.2
      obtain ⟨d, s, rfl⟩ := List.exists_cons_of_ne_nil hs.ne_nil
      rw [List.cons_append, dotted?] at ih
      split at ih
      · rename_i hd
        have hdot : moreDotted ('.' :: d :: (s ++ r)) =
            ⟨'.' :: d :: (s ++ (moreDotted r).text), (moreDotted r).after⟩ := by
          rw [moreDotted, if_pos hd, Option.some.inj ih]
          rfl
        rw [List.append_assoc, List.cons_append, dotted?, if_pos hc,
          moreDotted_append_of_isSegmentChar _ hseg, List.cons_append, List.cons_append, hdot]
        simp [Piece.cons]
      · contradiction

theorem dotted?_complete {s r : List Char} {p : Piece} (h : DottedForm p s r)
    (hr : ∀ c ∈ r.head?, isSegmentChar c = false ∧ c ≠ '.') : dotted? s = some p := by
  cases h with
  | segments h => rw [dotted?_append_of_isDotted h r, moreDotted_eq_nil hr, List.append_nil]

theorem DottedForm.after_eq {p : Piece} {s r : List Char} (h : DottedForm p s r) : p.after = r := by
  cases h
  rfl

theorem tagged_complete {mark : Char} {x : Option Piece} {s r : List Char}
    (h : TaggedForm mark x s r)
    (hr : ∀ c ∈ r.head?, isSegmentChar c = false ∧ c ≠ '.' ∧ c ≠ mark) :
    tagged mark s = (x, r) := by
  cases h with
  | absent =>
      cases s with
      | nil => rfl
      | cons c s => rw [tagged, if_neg (hr c rfl).2.2]
  | present h =>
      rw [tagged, if_pos rfl, dotted?_complete h fun c hc => ⟨(hr c hc).1, (hr c hc).2.1⟩]
      simp only [h.after_eq]

/-- A tagged part starts with its mark, or with what comes after it. -/
theorem TaggedForm.head {P : Char → Prop} {mark : Char} {x : Option Piece} {s r : List Char}
    (h : TaggedForm mark x s r) (hmark : P mark) (hr : ∀ c ∈ r.head?, P c) :
    ∀ c ∈ s.head?, P c := by
  cases h with
  | absent => exact hr
  | present _ =>
      intro c hc
      cases hc
      exact hmark

theorem exactText?_complete {v : ExactText} {s r : List Char} (h : ExactForm v s r)
    (hr : EndsExact r) : exactText? s = some (v, r) := by
  cases h with
  | @intro x _ _ _ t u _ hx hp hb =>
      have hu : ∀ c ∈ u.head?, isSegmentChar c = false ∧ c ≠ '.' ∧ c ≠ '-' := by
        refine hb.head (by decide) fun c hc => ⟨(hr c hc).1, (hr c hc).2.1, ?_⟩
        rintro rfl
        exact absurd (hr '-' hc).1 (by decide)
      have ht : EndsRelease t := by
        refine hp.head (by decide) fun c hc => ?_
        exact ⟨isDigit_eq_false_of_isSegmentChar (hu c hc).1, (hu c hc).2.1⟩
      have hrelease : release? number? s = some (x, t) := release?_complete hx ht number?_complete
      simp [exactText?, hrelease, tagged_complete hp hu, tagged_complete hb hr]

theorem patternText?_complete {w : PatternText} {s r : List Char} (h : PatternForm w s r)
    (hr : EndsRelease r) : patternText? s = some (w, r) :=
  release?_complete h hr slot?_complete

/-! ## Bounds -/

/-- A pattern in which three numbers are read. -/
def VersionText.isNumberTriple : VersionText → Bool
  | exact _ => false
  | pattern w => Grammar.isNumberTriple w

theorem EndsExact.release {r : List Char} (h : EndsExact r) : EndsRelease r :=
  fun c hc => ⟨isDigit_eq_false_of_isSegmentChar (h c hc).1, (h c hc).2.1⟩

theorem release?_eq_triple {σ : Type} {slot? : List Char → Option (σ × List Char)}
    {s r : List Char} {m : Piece} {n p : σ} : release? slot? s = some (.triple m n p, r) ↔
      ∃ t u, number? s = some (m, t) ∧ dotSlot? slot? t = some (n, u) ∧
        dotSlot? slot? u = some (p, r) := by
  constructor
  · intro h
    obtain ⟨⟨m', t⟩, hm, h⟩ := Option.bind_eq_some_iff.1 h
    simp only at h
    split at h
    · cases h
    · split at h
      · cases h
      · cases h
        exact ⟨t, _, hm, ‹_›, ‹_›⟩
  · rintro ⟨t, u, hm, hn, hp⟩
    simp [release?, hm, hn, hp]

theorem dotSlot?_of_number? {s r : List Char} {p : Piece}
    (h : dotSlot? number? s = some (p, r)) : dotSlot? slot? s = some (.number p, r) := by
  obtain ⟨t, rfl, ht⟩ := dotSlot?_eq_some.1 h
  exact dotSlot?_eq_some.2 ⟨t, rfl, by rw [slot?, ht]⟩

/-- Where an exact version starts with three numbers, a pattern starts with the same, and it goes no
further. -/
theorem patternText?_of_triple {s r : List Char} {m n p : Piece} {prerelease build : Option Piece}
    (h : exactText? s = some (⟨.triple m n p, prerelease, build⟩, r)) :
    ∃ t, patternText? s = some (.triple m (.number n) (.number p), t) ∧ r <:+ t := by
  obtain ⟨⟨x, t⟩, hx, h⟩ := Option.bind_eq_some_iff.1 h
  cases h
  obtain ⟨u, v, hm, hn, hp⟩ := release?_eq_triple.1 hx
  exact ⟨t, release?_eq_triple.2 ⟨u, v, hm, dotSlot?_of_number? hn, dotSlot?_of_number? hp⟩,
    (tagged_isSuffix '+' _).trans (tagged_isSuffix '-' _)⟩

theorem boundText?_of_patternText? {w : PatternText} {s r : List Char}
    (h : patternText? s = some (w, r)) (hw : isNumberTriple w = false) :
    boundText? s = some (.pattern w, r) := by
  unfold boundText?
  split
  · rename_i htriple
    obtain ⟨t, ht, _⟩ := patternText?_of_triple htriple
    rw [h] at ht
    cases ht
    contradiction
  · rw [h]
    rfl

theorem boundText?_pattern {w : PatternText} {s r : List Char} (h : PatternForm w s r)
    (hw : isNumberTriple w = false) (hr : EndsRelease r) : boundText? s = some (.pattern w, r) :=
  boundText?_of_patternText? (patternText?_complete h hr) hw

theorem boundText?_complete {v : VersionText} {s r : List Char} (h : BoundForm v s r)
    (hv : v.isNumberTriple = false) (hr : EndsExact r) : boundText? s = some (v, r) := by
  cases h with
  | exact h => rw [boundText?, exactText?_complete h hr]
  | pattern h => exact boundText?_pattern h hv hr.release

/-! ## Either kind -/

theorem ReleaseForm.map_number {x : ReleaseText Piece} {s r : List Char}
    (h : ReleaseForm NumberForm x s r) : PatternForm (x.map .number) s r := by
  cases h with
  | single hm => exact .single hm
  | pair hm hn => exact .pair hm (.number hn)
  | triple hm hn hp => exact .triple hm (.number hn) (.number hp)

/-- A text that is written as a version of either kind is numbers alone. -/
theorem ExactForm.eq_of_patternForm {x : ExactText} {w : PatternText} {s : List Char}
    (hx : ExactForm x s []) (hw : PatternForm w s []) :
    w = x.release.map .number ∧ x.prerelease = none ∧ x.build = none := by
  cases hx with
  | @intro y _ _ _ t u _ hy hp hb =>
      have hu : EndsRelease u := hb.head (by decide) (by simp)
      have ht : EndsRelease t := hp.head (by decide) hu
      have hread := patternText?_complete hw EndsExact.nil.release
      rw [patternText?_complete hy.map_number ht] at hread
      cases hread
      cases hp with
      | absent =>
          cases hb with
          | absent => exact ⟨rfl, rfl, rfl⟩

theorem ExactForm.patternForm {x : ExactText} {s r : List Char} (h : ExactForm x s r)
    (hx : x.isExact = false) : PatternForm (x.release.map .number) s r := by
  simp only [ExactText.isExact, Bool.or_eq_false_iff, Option.isSome_eq_false_iff,
    Option.isNone_iff_eq_none] at hx
  cases h with
  | intro hy hp hb =>
      obtain ⟨⟨_, rfl⟩, rfl⟩ := hx
      cases hp
      cases hb
      exact hy.map_number

theorem isNumberTriple_map_number (x : ReleaseText Piece) :
    isNumberTriple (x.map .number) = x.isTriple := by
  cases x <;> rfl

/-- Three numbers or a tag make an exact version; all else that has its form is a pattern. -/
theorem versionText?_of_exact {x : ExactText} {s : List Char} (h : ExactForm x s []) :
    versionText? s =
      some (if x.isExact then .exact x else .pattern (x.release.map .number), []) := by
  rw [versionText?, exactText?_complete h .nil]

theorem versionText?_of_pattern {w : PatternText} {s : List Char} (h : PatternForm w s [])
    (hw : isNumberTriple w = false) : versionText? s = some (.pattern w, []) := by
  unfold versionText?
  split
  · rename_i x hx
    obtain ⟨rfl, hp, hb⟩ := (exactText?_sound hx).eq_of_patternForm h
    have hexact : x.isExact = false := by
      rw [ExactText.isExact, hp, hb, ← isNumberTriple_map_number, hw]
      rfl
    rw [hexact]
    rfl
  · rw [patternText?_complete h EndsExact.nil.release]
    rfl

theorem patternForm_of_versionText? {w : PatternText} {s : List Char}
    (h : versionText? s = some (.pattern w, [])) : PatternForm w s [] := by
  unfold versionText? at h
  split at h
  · rename_i x hx
    split at h
    · simp at h
    · rename_i hexact
      cases h
      exact (exactText?_sound hx).patternForm (Bool.eq_false_iff.2 hexact)
  · obtain ⟨⟨y, r⟩, hy, he⟩ := Option.map_eq_some_iff.1 h
    cases he
    exact patternText?_sound hy

end Versioning.Grammar
