import Mathlib.Order.Bounds.Basic
import Versioning.Proofs.Grammar.Longest
import Versioning.Proofs.Grammar.Whole
import Versioning.Proofs.Range.Reading
import Versioning.Proofs.RoundTrip.Prerelease

/-!
# Where a text is malformed

A text is malformed from the place where the reading stopped. What was read until then is a text of
the language, and no longer prefix of the text is one, since a reader goes as far as any form. So
the place is the end of the longest prefix that is well-formed.
-/

namespace Versioning

open Text (byteLength isBlank)

namespace Text

/-- The text is not empty and does not end in a blank. -/
def EndsVisibly (s : List Char) : Prop :=
  ∃ c ∈ s.getLast?, isBlank c = false

theorem EndsVisibly.ne_nil {s : List Char} (h : EndsVisibly s) : s ≠ [] := by
  rintro rfl
  obtain ⟨_, hc, _⟩ := h
  contradiction

theorem endsVisibly_of_not_isBlank {s : List Char} (hne : s ≠ [])
    (h : ∀ c ∈ s, isBlank c = false) : EndsVisibly s :=
  ⟨_, List.getLast?_eq_some_getLast hne, h _ (List.getLast_mem hne)⟩

theorem EndsVisibly.of_isSuffix {s t : List Char} (h : EndsVisibly t) (ht : t <:+ s) :
    EndsVisibly s := by
  obtain ⟨c, hc, hblank⟩ := h
  obtain ⟨u, rfl⟩ := ht
  exact ⟨c, by rw [Option.mem_def, List.getLast?_append, hc]; rfl, hblank⟩

/-- There is nothing to trim from a prefix of a trimmed text that does not end in a blank. -/
theorem EndsVisibly.trim_eq_self {s t : List Char} (h : EndsVisibly t) (ht : t <+: trim s) :
    trim t = t := by
  refine Text.trim_eq_self (fun c hc => ?_) fun c hc => ?_
  · obtain ⟨u, hu⟩ := ht
    refine head?_trim s c ?_
    rw [← hu, Option.mem_def, List.head?_append, hc]
    rfl
  · obtain ⟨d, hd, hblank⟩ := h
    rwa [Option.some.inj (hc.symm.trans hd)]

end Text

open Text (EndsVisibly)

namespace Grammar

/-! ## The end of a range -/

section

variable {s : List Char}

/-- A text with a version at its end does not end in a blank. -/
theorem BoundForm.endsVisibly {x : VersionText} {t : List Char} (h : BoundForm x t [])
    (ht : t <:+ s) : EndsVisibly s := by
  refine .of_isSuffix (Text.endsVisibly_of_not_isBlank ?_ h.not_isBlank) ht
  cases h with
  | exact h => exact h.ne_nil
  | pattern h => exact ReleaseForm.ne_nil h

theorem WildcardsForm.endsVisibly (h : WildcardsForm s []) : EndsVisibly s := by
  generalize hr : [] = r at h
  induction h with
  | @single c r hc =>
      subst hr
      exact ⟨c, rfl, (forall_isWildcardChar (P := (isBlank · = false))).2 (by decide) c hc⟩
  | cons hc _ ih => exact (ih hr).of_isSuffix ((List.suffix_cons _ _).trans (List.suffix_cons _ _))

theorem MarkedForm.endsVisibly {form : VersionText → AlternativeText} {a : AlternativeText}
    (h : MarkedForm form a s []) : EndsVisibly s := by
  cases h with
  | plain hs hv => exact hv.endsVisibly hs.isSuffix
  | pinned hs hv => exact hv.endsVisibly (hs.isSuffix.trans (List.suffix_cons _ _))

theorem AlternativeForm.endsVisibly {a : AlternativeText} (h : AlternativeForm a s []) :
    EndsVisibly s := by
  cases h with
  | spacedHyphen hl ht hu hv =>
      exact hv.endsVisibly <| hu.isSuffix.trans <| (List.suffix_cons _ _).trans <|
        ht.isSuffix.trans hl.isSuffix
  | tightHyphen hl _ ht hu hv =>
      exact hv.endsVisibly <| hu.isSuffix.trans <| (List.suffix_cons _ _).trans <|
        ht.isSuffix.trans (BoundForm.pattern hl).isSuffix
  | caret h | tilde h => exact h.endsVisibly.of_isSuffix (List.suffix_cons _ _)
  | tildeGreater h =>
      exact h.endsVisibly.of_isSuffix ((List.suffix_cons _ _).trans (List.suffix_cons _ _))
  | comparison operator hs hv => exact hv.endsVisibly (hs.isSuffix.trans (List.suffix_append _ _))
  | any h => exact h.endsVisibly
  | anyEqual operator _ h => exact h.endsVisibly.of_isSuffix (List.suffix_append _ _)
  | plain h => exact h.endsVisibly (List.suffix_refl _)

theorem RangeForm.endsVisibly {as : List AlternativeText} (h : RangeForm as s []) :
    EndsVisibly s := by
  generalize hr : [] = r at h
  induction h with
  | single ha =>
      subst hr
      exact ha.endsVisibly
  | cons ha ht _ ih => exact (ih hr).of_isSuffix (ht.isSuffix.trans ha.isSuffix)

end

/-! ## The longest head that is read -/

/-- What the reader takes off the head of a text is the longest head that it reads in full. -/
structure ReadsLongest {α : Type} (read : List Char → Option (α × List Char)) : Prop where
  whole {s r : List Char} {x : α} (h : read s = some (x, r)) :
    ∃ y u, s = u ++ r ∧ read u = some (y, []) ∧ EndsVisibly u
  reaches {u : List Char} {x : α} (h : read u = some (x, [])) (r : List Char) :
    Reaches read (u ++ r) r

theorem exactText?_readsLongest : ReadsLongest exactText? where
  whole h := by
    obtain ⟨v, u, rfl, rfl, hv⟩ := (exactText?_sound h).whole
    exact ⟨v, u, rfl, exactText?_complete hv .nil,
      Text.endsVisibly_of_not_isBlank hv.ne_nil hv.not_isBlank⟩
  reaches h r := by
    obtain ⟨w, t, hw, ht, _⟩ := ((exactText?_sound h).followedBy r).reaches
    exact ⟨w, t, hw, ht⟩

theorem patternText?_readsLongest : ReadsLongest patternText? where
  whole h := by
    obtain ⟨w, u, rfl, rfl, hw⟩ := PatternForm.whole (patternText?_sound h)
    exact ⟨w, u, rfl, patternText?_complete hw EndsExact.nil.release,
      Text.endsVisibly_of_not_isBlank (ReleaseForm.ne_nil hw) (PatternForm.not_isBlank hw)⟩
  reaches h r :=
    PatternForm.reaches (ReleaseForm.followedBy SlotForm.followedBy (patternText?_sound h) r)

theorem dottedText?_eq_some {s r : List Char} {p : Piece} :
    dottedText? s = some (p, r) ↔ dotted? s = some p ∧ p.after = r := by
  simp [dottedText?]

theorem dottedText?_sound {s r : List Char} {p : Piece} (h : dottedText? s = some (p, r)) :
    DottedForm p s r := by
  obtain ⟨hp, hr⟩ := dottedText?_eq_some.1 h
  have hform := dotted?_sound hp
  rwa [hr] at hform

theorem DottedForm.endsVisibly {p : Piece} {s : List Char} (h : DottedForm p s []) :
    EndsVisibly s := by
  cases h with
  | segments h =>
      rw [List.append_nil]
      exact Text.endsVisibly_of_not_isBlank h.ne_nil h.not_isBlank

theorem dottedText?_readsLongest : ReadsLongest dottedText? where
  whole h := by
    obtain ⟨q, u, rfl, rfl, hq⟩ := (dottedText?_sound h).whole
    have hread := dottedText?_eq_some.2 ⟨dotted?_complete hq (by simp), hq.after_eq⟩
    exact ⟨q, u, rfl, hread, hq.endsVisibly⟩
  reaches h r := ((dottedText?_sound h).followedBy r).reaches

theorem range?_readsLongest : ReadsLongest range? where
  whole h := by
    obtain ⟨bs, u, rfl, hu⟩ := (range?_sound h).whole
    obtain ⟨cs, hcs⟩ := hu.exists_readsAs
    exact ⟨cs, u, rfl, hcs.range?, hu.endsVisibly⟩
  reaches h r := ((range?_sound h).followedBy r).reaches

end Grammar

open Grammar

/-! ## The place of a malformed text -/

/-- The place of the error starts after the longest head that is read in full, if there is one. -/
theorem exists_place_of_complete {α : Type} {read : List Char → Option (α × List Char)}
    (hread : ReadsLongest read) {expected e : Expected} {t : List Char} {place : Text.Excerpt}
    (h : complete expected read t = .error (.malformed e place)) :
    ∃ before rest, t = before ++ rest ∧ place = ⟨before, rest, []⟩ ∧
      (before = [] ∨ EndsVisibly before ∧ ∃ y, read before = some (y, [])) ∧
      ∀ u r y, t = u ++ r → read u = some (y, []) → rest <:+ r := by
  unfold complete at h
  split at h
  · contradiction
  · rename_i x rest _ hx
    cases h
    obtain ⟨y, before, rfl, hy, hvisible⟩ := hread.whole hx
    refine ⟨before, rest, rfl, ?_, .inr ⟨hvisible, y, hy⟩, ?_⟩
    · simp [Piece.placeIn]
    · intro u r z ht hz
      obtain ⟨_, q, hq, hsuffix⟩ := hread.reaches hz r
      rw [← ht, hx] at hq
      cases hq
      exact hsuffix
  · rename_i hnone
    cases h
    refine ⟨[], t, rfl, rfl, .inl rfl, ?_⟩
    intro u r z ht hz
    obtain ⟨_, q, hq, _⟩ := hread.reaches hz r
    rw [← ht, hnone] at hq
    contradiction

/-- The text has the right form, though a number in it may be too large. -/
def WellFormed {α : Type} (parse : String → Except Error α) (u : List Char) : Prop :=
  ∀ expected place, parse (String.ofList u) ≠ .error (.malformed expected place)

/-- The lengths in bytes of the prefixes of `t` that are well-formed and do not end in a blank. -/
def wellFormedLengths {α : Type} (parse : String → Except Error α) (t : List Char) : Set Nat :=
  {k | ∃ u, u <+: t ∧ EndsVisibly u ∧ WellFormed parse u ∧ byteLength u = k}

/-- Malformed texts are reported from the end of the longest well-formed prefix. -/
def PointsPastLongestPrefix {α : Type} (parse : String → Except Error α) : Prop :=
  ∀ s expected place, parse s = .error (.malformed expected place) →
    place.source = Text.trim s.toList ∧
    place.offset + place.length = byteLength (Text.trim s.toList) ∧
    IsGreatest (insert 0 (wellFormedLengths parse (Text.trim s.toList))) place.offset

/-- Texts are malformed exactly if the reader does not take all of the trimmed text. -/
def ReadsBy {α β : Type} (parse : String → Except Error β) (expected : Expected)
    (read : List Char → Option (α × List Char)) : Prop :=
  ∀ s e place, parse s = .error (.malformed e place) ↔
    Text.trim s.toList ≠ [] ∧
      complete expected read (Text.trim s.toList) = .error (.malformed e place)

section

variable {α β : Type} {parse : String → Except Error β} {expected : Expected}
  {read : List Char → Option (α × List Char)}

/-- A parser that converts what was read finds a text malformed only where the reader stops. -/
theorem ReadsBy.of_bind (value : List Char → α → Except Error β)
    (hparse : ∀ s, Text.trim s.toList ≠ [] → parse s =
      complete expected read (Text.trim s.toList) >>= value (Text.trim s.toList))
    (hblank : ∀ s, Text.trim s.toList = [] → ∀ e place, parse s ≠ .error (.malformed e place))
    (hvalue : ∀ t x, FailsWith Error.IsConversion (value t x)) : ReadsBy parse expected read := by
  intro s e place
  by_cases hs : Text.trim s.toList = []
  · exact iff_of_false (hblank s hs e place) fun h => h.1 hs
  · rw [hparse s hs, bind_eq_error, and_iff_right hs]
    refine or_iff_left ?_
    rintro ⟨x, _, hx⟩
    exact hvalue _ x _ hx

/-- A text is well formed if the reader takes all of it. -/
theorem ReadsBy.wellFormed_iff (h : ReadsBy parse expected read) {u : List Char}
    (hne : u ≠ []) (htrim : Text.trim u = u) :
    WellFormed parse u ↔ ∃ y, read u = some (y, []) := by
  simp only [WellFormed, ne_eq, h (String.ofList u), String.toList_ofList, htrim, hne,
    not_false_eq_true, true_and]
  cases hu : complete expected read u with
  | ok y => simpa using ⟨y, complete_eq_ok.1 hu⟩
  | error e =>
      obtain ⟨e, place, rfl⟩ := exists_malformed_of_complete hu
      refine iff_of_false (by simp) ?_
      rintro ⟨y, hy⟩
      rw [complete_eq_ok.2 hy] at hu
      contradiction

/-- The reader stops as late as any text of the form can end, so the place lies right behind the
longest one. -/
theorem ReadsBy.pointsPastLongestPrefix (h : ReadsBy parse expected read)
    (hread : ReadsLongest read) : PointsPastLongestPrefix parse := by
  intro s e place herror
  have hwellFormed {u : List Char} (hu : u <+: Text.trim s.toList) (hvisible : EndsVisibly u) :
      WellFormed parse u ↔ ∃ y, read u = some (y, []) :=
    h.wellFormed_iff hvisible.ne_nil (hvisible.trim_eq_self hu)
  obtain ⟨before, rest, ht, rfl, hbefore, hlongest⟩ :=
    exists_place_of_complete hread ((h s e place).1 herror).2
  refine ⟨by simp [Text.Excerpt.source, ht], by simp [Text.Excerpt.offset, Text.Excerpt.length, ht],
    ?_, ?_⟩
  · rcases hbefore with rfl | ⟨hvisible, hy⟩
    · exact .inl rfl
    · have hu : before <+: Text.trim s.toList := ⟨rest, ht.symm⟩
      exact .inr ⟨before, hu, hvisible, (hwellFormed hu hvisible).2 hy, rfl⟩
  · rintro _ (rfl | ⟨u, hu, hvisible, hform, rfl⟩)
    · exact Nat.zero_le _
    · obtain ⟨y, hy⟩ := (hwellFormed hu hvisible).1 hform
      obtain ⟨r, hr⟩ := hu
      obtain ⟨w, rfl⟩ := hlongest u r y hr.symm hy
      have hbefore : before = u ++ w := by
        rw [← List.append_assoc, ht] at hr
        exact (List.append_cancel_right hr).symm
      simp [Text.Excerpt.offset, hbefore]

end

theorem Exact.readsBy : ReadsBy Exact.parse .digit exactText? := by
  refine .of_bind (fun t x => x.value t) (fun s hs => ?_) (fun s hs _ _ h => ?_)
    ExactText.failsWith_value
  · rw [Exact.parse, nonempty_of_trim_ne_nil hs]
    rfl
  · rw [Exact.parse, nonempty, hs] at h
    cases h

theorem Pattern.readsBy : ReadsBy Pattern.parse .digit patternText? := by
  refine .of_bind patternValue (fun s hs => ?_) (fun s hs _ _ h => ?_) failsWith_patternValue
  · rw [Pattern.parse, nonempty_of_trim_ne_nil hs]
    rfl
  · rw [Pattern.parse, nonempty, hs] at h
    cases h

theorem Prerelease.readsBy : ReadsBy Prerelease.parse .segment dottedText? := by
  refine .of_bind ofDotted (fun s hs => ?_) (fun s hs _ _ h => ?_) failsWith_ofDotted
  · simp only [Prerelease.parse, if_neg hs]
    rfl
  · rw [Prerelease.parse_of_blank hs] at h
    contradiction

theorem Build.readsBy : ReadsBy Build.parse .segment dottedText? := by
  refine .of_bind (fun _ dotted => .ok (.ofText (String.ofList dotted.text))) (fun s hs => ?_)
    (fun s hs _ _ h => ?_) fun _ _ => .ok _
  · simp only [Build.parse, if_neg hs]
    rfl
  · simp only [Build.parse, if_pos hs] at h
    contradiction

theorem Range.readsBy : ReadsBy Range.parse .digit range? := by
  refine .of_bind (fun t as => do return ofAlternatives (← as.mapM (·.value t)))
    (fun s hs => Range.parse_of_trim_ne_nil hs) (fun s hs _ _ h => ?_) fun t as =>
      (AlternativeText.failsWith_mapM_value as).bind fun _ => .ok _
  rw [Range.parse_eq_empty.2 hs] at h
  cases h

/-- A malformed text is reported from the end of its longest prefix that is well-formed and does not
end in a blank, and from its start if it has none. -/
theorem malformed_after_longest_prefix : PointsPastLongestPrefix Exact.parse ∧
    PointsPastLongestPrefix Pattern.parse ∧ PointsPastLongestPrefix Prerelease.parse ∧
    PointsPastLongestPrefix Build.parse ∧ PointsPastLongestPrefix Range.parse :=
  ⟨Exact.readsBy.pointsPastLongestPrefix exactText?_readsLongest,
    Pattern.readsBy.pointsPastLongestPrefix patternText?_readsLongest,
    Prerelease.readsBy.pointsPastLongestPrefix dottedText?_readsLongest,
    Build.readsBy.pointsPastLongestPrefix dottedText?_readsLongest,
    Range.readsBy.pointsPastLongestPrefix range?_readsLongest⟩

/-- The separator after a hyphen range is given back when no alternative follows it. -/
theorem malformed_after_longest_prefix_hyphen :
    Range.parse " 1.2.3 - 2.x || ^ " =
        .error (.malformed .endOfText ⟨"1.2.3 - 2.x".toList, " || ^".toList, []⟩) ∧
      IsGreatest (insert 0 (wellFormedLengths Range.parse "1.2.3 - 2.x || ^".toList)) 11 := by
  have htrim : Text.trim " 1.2.3 - 2.x || ^ ".toList = "1.2.3 - 2.x || ^".toList := rfl
  have hhyphen : ∃ a, alternative? "1.2.3 - 2.x || ^".toList = some (a, " || ^".toList) := ⟨_, rfl⟩
  have hmore : moreAlternatives " || ^".toList = ([], " || ^".toList) := by
    rw [moreAlternatives]
    rfl
  obtain ⟨a, ha⟩ := hhyphen
  have hread : range? "1.2.3 - 2.x || ^".toList = some ([a], " || ^".toList) := by
    rw [range?, ha, Option.map_some]
    exact congrArg (fun x => some (x.map (a :: ·) id)) hmore
  have herror : Range.parse " 1.2.3 - 2.x || ^ " =
      .error (.malformed .endOfText ⟨"1.2.3 - 2.x".toList, " || ^".toList, []⟩) := by
    rw [Range.readsBy, htrim, complete, hread]
    exact ⟨by decide, rfl⟩
  obtain ⟨_, _, _, _, hrange⟩ := malformed_after_longest_prefix
  have hgreatest := (hrange _ _ _ herror).2.2
  rw [htrim] at hgreatest
  exact ⟨herror, hgreatest⟩

end Versioning
