import Versioning.Grammar.Range
import Versioning.Proofs.Grammar.Version

/-!
# The language of ranges

    range       := alternative (separator alternative)*
    separator   := ws* "||" ws* | ws+                         ws := space, tab, CR or LF
    alternative := hyphen | caret | tilde | comparison | any | bound
    hyphen      := bound ws+ "-" ws+ bound | pattern ws* "-" ws* bound
    caret       := "^" "="? ws* bound
    tilde       := ("~>" | "~") "="? ws* bound
    comparison  := ("<=" | ">=" | "<" | ">" | "=") ws* bound
    any         := (">=" | "<=" | "=")? wildcard ("." wildcard)*

The forms leave all choices open: which alternative a text is, how far a separator goes, and whether
three numbers are an exact version or a pattern. Only the last one is a real choice. Once three
numbers are exact, the reader's choices lose no text of the language, and no text has two readings.
-/

namespace Versioning.Grammar

open Text (isSegmentChar)

inductive SpacesForm : List Char → List Char → Prop
  | nil {r : List Char} : SpacesForm r r
  | cons {c : Char} {s r : List Char} (hc : isSpace c = true) (h : SpacesForm s r) :
      SpacesForm (c :: s) r

inductive SomeSpacesForm : List Char → List Char → Prop
  | cons {c : Char} {s r : List Char} (hc : isSpace c = true) (h : SpacesForm s r) :
      SomeSpacesForm (c :: s) r

/-- What follows a caret or tilde. -/
inductive MarkedForm (form : VersionText → AlternativeText) : Form AlternativeText
  | plain {v : VersionText} {s t r : List Char} (hs : SpacesForm s t) (hv : BoundForm v t r) :
      MarkedForm form (form v) s r
  | pinned {v : VersionText} {s t r : List Char} (hs : SpacesForm s t) (hv : BoundForm v t r) :
      MarkedForm form (.pinned v) ('=' :: s) r

inductive WildcardsForm : List Char → List Char → Prop
  | single {c : Char} {r : List Char} (hc : isWildcardChar c = true) : WildcardsForm (c :: r) r
  | cons {c : Char} {s r : List Char} (hc : isWildcardChar c = true) (h : WildcardsForm s r) :
      WildcardsForm (c :: '.' :: s) r

inductive AlternativeForm : Form AlternativeText
  | spacedHyphen {lower upper : VersionText} {s t u v r : List Char} (hl : BoundForm lower s t)
      (ht : SomeSpacesForm t ('-' :: u)) (hu : SomeSpacesForm u v) (hv : BoundForm upper v r) :
      AlternativeForm (.hyphen lower upper) s r
  | tightHyphen {lower : PatternText} {upper : VersionText} {s t u v r : List Char}
      (hl : PatternForm lower s t) (hn : isNumberTriple lower = false)
      (ht : SpacesForm t ('-' :: u)) (hu : SpacesForm u v) (hv : BoundForm upper v r) :
      AlternativeForm (.hyphen (.pattern lower) upper) s r
  | caret {a : AlternativeText} {s r : List Char} (h : MarkedForm .caret a s r) :
      AlternativeForm a ('^' :: s) r
  | tilde {a : AlternativeText} {s r : List Char} (h : MarkedForm .tilde a s r) :
      AlternativeForm a ('~' :: s) r
  | tildeGreater {a : AlternativeText} {s r : List Char} (h : MarkedForm .tilde a s r) :
      AlternativeForm a ('~' :: '>' :: s) r
  | comparison {bound : VersionText} {s t r : List Char} (operator : Operator)
      (hs : SpacesForm s t) (hv : BoundForm bound t r) :
      AlternativeForm (.comparison operator bound) (operator.symbol.toList ++ s) r
  | any {s r : List Char} (h : WildcardsForm s r) : AlternativeForm .any s r
  | anyEqual {s r : List Char} (operator : Operator)
      (ho : operator ∈ [.greaterOrEqual, .lessOrEqual, .equal]) (h : WildcardsForm s r) :
      AlternativeForm .any (operator.symbol.toList ++ s) r
  | plain {v : VersionText} {s r : List Char} (h : BoundForm v s r) : AlternativeForm (.plain v) s r

inductive SeparatorForm : List Char → List Char → Prop
  | bars {s t r : List Char} (hs : SpacesForm s ('|' :: '|' :: t)) (ht : SpacesForm t r) :
      SeparatorForm s r
  | spaces {s r : List Char} (h : SomeSpacesForm s r) : SeparatorForm s r

inductive RangeForm : Form (List AlternativeText)
  | single {a : AlternativeText} {s r : List Char} (ha : AlternativeForm a s r) : RangeForm [a] s r
  | cons {a : AlternativeText} {as : List AlternativeText} {s t u r : List Char}
      (ha : AlternativeForm a s t) (ht : SeparatorForm t u) (h : RangeForm as u r) :
      RangeForm (a :: as) s r

/-! ## What is read has the form -/

theorem spacesForm_skipSpaces (s : List Char) : SpacesForm s (skipSpaces s) := by
  induction s with
  | nil => exact .nil
  | cons c s ih =>
      cases hc : isSpace c with
      | true =>
          rw [skipSpaces, List.dropWhile_cons_of_pos hc]
          exact .cons hc ih
      | false =>
          rw [skipSpaces, List.dropWhile_cons_of_neg (by simp [hc])]
          exact .nil

theorem spaces?_sound {s r : List Char} (h : spaces? s = some r) : SomeSpacesForm s r := by
  cases s with
  | nil => contradiction
  | cons c s =>
      simp only [spaces?] at h
      split at h
      · cases h
        exact .cons ‹_› (spacesForm_skipSpaces s)
      · contradiction

/-- The two spellings of an interval are tried in turn. -/
theorem hyphen?_sound {s r : List Char} {a : AlternativeText} (h : hyphen? s = some (a, r)) :
    AlternativeForm a s r := by
  rcases Option.or_eq_some_iff.1 h with h | ⟨_, h⟩
  · obtain ⟨⟨lower, t⟩, hl, h⟩ := Option.bind_eq_some_iff.1 h
    obtain ⟨v, hh, h⟩ := Option.bind_eq_some_iff.1 h
    obtain ⟨⟨upper, q⟩, hv, h⟩ := Option.bind_eq_some_iff.1 h
    cases h
    unfold spacedHyphen? at hh
    split at hh
    · exact .spacedHyphen (boundText?_sound hl) (spaces?_sound ‹_›) (spaces?_sound hh)
        (boundText?_sound hv)
    · contradiction
  · obtain ⟨⟨lower, t⟩, hl, h⟩ := Option.bind_eq_some_iff.1 h
    simp only at h
    split at h
    · contradiction
    · rename_i hn
      obtain ⟨v, hh, h⟩ := Option.bind_eq_some_iff.1 h
      obtain ⟨⟨upper, q⟩, hv, h⟩ := Option.bind_eq_some_iff.1 h
      cases h
      unfold tightHyphen? at hh
      split at hh
      · rename_i u ht
        cases hh
        exact .tightHyphen (patternText?_sound hl) (by simpa using hn)
          (ht ▸ spacesForm_skipSpaces t) (spacesForm_skipSpaces u) (boundText?_sound hv)
      · contradiction

theorem marked?_sound {form : VersionText → AlternativeText} {s r : List Char} {a : AlternativeText}
    (h : marked? form s = some (a, r)) : MarkedForm form a s r := by
  unfold marked? at h
  split at h
  all_goals
    obtain ⟨⟨v, q⟩, hv, he⟩ := Option.map_eq_some_iff.1 h
    cases he
  · exact .pinned (spacesForm_skipSpaces _) (boundText?_sound hv)
  · exact .plain (spacesForm_skipSpaces _) (boundText?_sound hv)

theorem caret?_sound {s r : List Char} {a : AlternativeText} (h : caret? s = some (a, r)) :
    AlternativeForm a s r := by
  unfold caret? at h
  split at h
  · exact .caret (marked?_sound h)
  · contradiction

theorem tilde?_sound {s r : List Char} {a : AlternativeText} (h : tilde? s = some (a, r)) :
    AlternativeForm a s r := by
  unfold tilde? at h
  split at h
  · exact .tildeGreater (marked?_sound h)
  · exact .tilde (marked?_sound h)
  · contradiction

theorem operator?_sound {s r : List Char} {o : Operator} (h : operator? s = some (o, r)) :
    s = o.symbol.toList ++ r := by
  unfold operator? at h
  split at h <;> cases h <;> rfl

theorem comparison?_sound {s r : List Char} {a : AlternativeText}
    (h : comparison? s = some (a, r)) : AlternativeForm a s r := by
  obtain ⟨⟨o, t⟩, ho, h⟩ := Option.bind_eq_some_iff.1 h
  obtain ⟨⟨bound, q⟩, hv, h⟩ := Option.bind_eq_some_iff.1 h
  cases h
  rw [operator?_sound ho]
  exact .comparison o (spacesForm_skipSpaces t) (boundText?_sound hv)

theorem wildcardsForm_skipWildcards {c : Char} (hc : isWildcardChar c = true) (s : List Char) :
    WildcardsForm (c :: s) (skipWildcards s) := by
  fun_induction skipWildcards s generalizing c with
  | case1 d s hd ih => exact .cons hc (ih hd)
  | case2 => exact .single hc
  | case3 => exact .single hc

theorem any?_sound {s r : List Char} {a : AlternativeText} (h : any? s = some (a, r)) :
    AlternativeForm a s r := by
  obtain ⟨q, hq, he⟩ := Option.map_eq_some_iff.1 h
  cases he
  have hform : WildcardsForm (skipEquality s) (skipWildcards q) := by
    cases hs : skipEquality s with
    | nil =>
        rw [hs] at hq
        contradiction
    | cons c t =>
        rw [hs, wildcard?] at hq
        split at hq
        · cases hq
          exact wildcardsForm_skipWildcards ‹_› _
        · contradiction
  unfold skipEquality at hform
  split at hform
  · exact .anyEqual .greaterOrEqual (by simp) hform
  · exact .anyEqual .lessOrEqual (by simp) hform
  · exact .anyEqual .equal (by simp) hform
  · exact .any hform

theorem plain?_sound {s r : List Char} {a : AlternativeText} (h : plain? s = some (a, r)) :
    AlternativeForm a s r := by
  obtain ⟨⟨v, q⟩, hv, he⟩ := Option.map_eq_some_iff.1 h
  cases he
  exact .plain (boundText?_sound hv)

/-- Every reader of an alternative gives one of the forms. -/
theorem alternative?_sound {s r : List Char} {a : AlternativeText}
    (h : alternative? s = some (a, r)) : AlternativeForm a s r := by
  simp only [alternative?, Option.or_eq_some_iff] at h
  rcases h with h | ⟨_, h | ⟨_, h | ⟨_, h | ⟨_, h | ⟨_, h⟩⟩⟩⟩⟩
  · exact hyphen?_sound h
  · exact caret?_sound h
  · exact tilde?_sound h
  · exact comparison?_sound h
  · exact any?_sound h
  · exact plain?_sound h

theorem separator?_sound {s r : List Char} (h : separator? s = some r) : SeparatorForm s r := by
  unfold separator? at h
  split at h
  · rename_i t ht
    cases h
    exact .bars (ht ▸ spacesForm_skipSpaces s) (spacesForm_skipSpaces t)
  · exact .spaces (spaces?_sound h)

/-- An alternative and those that are read after it. -/
theorem rangeForm_moreAlternatives {a : AlternativeText} {s t : List Char}
    (ha : AlternativeForm a s t) :
    RangeForm (a :: (moreAlternatives t).1) s (moreAlternatives t).2 := by
  fun_induction moreAlternatives t generalizing a s with
  | case1 t h => exact .single ha
  | case2 t b u h ih =>
      obtain ⟨v, hv, hb⟩ := Option.bind_eq_some_iff.1 h
      exact .cons ha (separator?_sound hv) (ih (alternative?_sound hb))

theorem range?_sound {s r : List Char} {as : List AlternativeText} (h : range? s = some (as, r)) :
    RangeForm as s r := by
  obtain ⟨⟨a, t⟩, ha, he⟩ := Option.map_eq_some_iff.1 h
  cases he
  exact rangeForm_moreAlternatives (alternative?_sound ha)

end Versioning.Grammar
