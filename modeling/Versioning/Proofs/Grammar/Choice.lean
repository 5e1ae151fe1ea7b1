import Versioning.Proofs.Grammar.Head

/-!
# No choice loses a text

A reader commits to the first form that fits, to the longest run and to the first separator. It
still reads every range that the grammar derives, and it reads it as the grammar does: wherever an
alternative ends, none of its readers could have gone on, and the readers tried before its own fail
or give the same.
-/

namespace Versioning.Grammar

open Text (isSegmentChar)

theorem skipSpaces_complete {s r : List Char} (h : SpacesForm s r)
    (hr : ∀ c ∈ r.head?, isSpace c = false) : skipSpaces s = r := by
  induction h with
  | nil => exact Text.dropWhile_eq_self hr
  | cons hc _ ih =>
      rw [skipSpaces, List.dropWhile_cons_of_pos hc]
      exact ih hr

theorem spaces?_complete {s r : List Char} (h : SomeSpacesForm s r)
    (hr : ∀ c ∈ r.head?, isSpace c = false) : spaces? s = some r := by
  cases h with
  | cons hc h => rw [spaces?, if_pos hc, skipSpaces_complete h hr]

theorem skipWildcards_eq_self {r : List Char} (hr : ∀ c ∈ r.head?, c ≠ '.') :
    skipWildcards r = r := by
  unfold skipWildcards
  split
  · exact absurd rfl (hr '.' rfl)
  · rfl

/-- After the first wildcard, the others are skipped with those that come after the form. -/
theorem WildcardsForm.exists_wildcard? {s r : List Char} (h : WildcardsForm s r) :
    ∃ t, wildcard? s = some t ∧ skipWildcards t = skipWildcards r := by
  induction h with
  | @single c r hc => exact ⟨r, by rw [wildcard?, if_pos hc], rfl⟩
  | @cons c s r hc h ih =>
      obtain ⟨t, ht, hskip⟩ := ih
      refine ⟨'.' :: s, by rw [wildcard?, if_pos hc], ?_⟩
      cases s with
      | nil => contradiction
      | cons d s =>
          have hd := h.head d rfl
          rw [wildcard?, if_pos hd] at ht
          cases ht
          rw [skipWildcards, if_pos hd, hskip]

/-- Nothing goes on with an alternative: the text ends, or a separator follows. -/
def EndsAlternative (r : List Char) : Prop :=
  (∀ c ∈ r.head?, isSpace c = true ∨ c = '|') ∧ ∀ c ∈ (skipSpaces r).head?, c ≠ '-'

theorem endsExact_of_isSpace :
    ∀ c, isSpace c = true → isSegmentChar c = false ∧ c ≠ '.' ∧ c ≠ '+' :=
  forall_isSpace.2 (by decide)

theorem EndsAlternative.exact {r : List Char} (h : EndsAlternative r) : EndsExact r := by
  intro c hc
  rcases h.1 c hc with h | rfl
  · exact endsExact_of_isSpace c h
  · decide

theorem SomeSpacesForm.endsExact {s r : List Char} (h : SomeSpacesForm s r) : EndsExact s :=
  fun c hc => endsExact_of_isSpace c (h.head c hc)

/-- What stands before a version can be skipped. -/
theorem BoundForm.skipSpaces {v : VersionText} {s t r : List Char} (hs : SpacesForm s t)
    (hv : BoundForm v t r) : skipSpaces s = t :=
  skipSpaces_complete hs fun c hc => isSpace_eq_false_of_isDigit (hv.head c hc)

theorem spacedHyphen?_complete {v : VersionText} {s t u r : List Char}
    (hs : SomeSpacesForm s ('-' :: t)) (ht : SomeSpacesForm t u) (hv : BoundForm v u r) :
    spacedHyphen? s = some u := by
  have hspaces : spaces? s = some ('-' :: t) := spaces?_complete hs (by simp [isSpace])
  rw [spacedHyphen?, hspaces]
  exact spaces?_complete ht fun c hc => isSpace_eq_false_of_isDigit (hv.head c hc)

theorem tightHyphen?_complete {v : VersionText} {s t u r : List Char}
    (hs : SpacesForm s ('-' :: t)) (ht : SpacesForm t u) (hv : BoundForm v u r) :
    tightHyphen? s = some u := by
  have hspaces : skipSpaces s = '-' :: t := skipSpaces_complete hs (by simp [isSpace])
  rw [tightHyphen?, hspaces]
  exact congrArg some (hv.skipSpaces ht)

theorem spaces?_eq_some {s r : List Char} (h : spaces? s = some r) : skipSpaces s = r := by
  cases s with
  | nil => contradiction
  | cons c s =>
      simp only [spaces?] at h
      split at h
      · rename_i hc
        cases h
        rw [skipSpaces, List.dropWhile_cons_of_pos hc]
        rfl
      · contradiction

/-- A hyphen with spaces is a hyphen with or without spaces. -/
theorem tightHyphen?_of_spacedHyphen? {s r : List Char} (h : spacedHyphen? s = some r) :
    tightHyphen? s = some r := by
  unfold spacedHyphen? at h
  split at h
  · rename_i t ht
    rw [tightHyphen?, spaces?_eq_some ht]
    exact congrArg some (spaces?_eq_some h)
  · contradiction

/-- After an alternative no hyphen follows, so none is read into it. -/
theorem EndsAlternative.tightHyphen?_eq_none {r : List Char} (h : EndsAlternative r) :
    tightHyphen? r = none := by
  unfold tightHyphen?
  split
  · rename_i t ht
    exact absurd rfl (h.2 '-' (by simp [ht]))
  · rfl

theorem EndsAlternative.spacedHyphen?_eq_none {r : List Char} (h : EndsAlternative r) :
    spacedHyphen? r = none := by
  cases hr : spacedHyphen? r with
  | none => rfl
  | some t =>
      have hnone := h.tightHyphen?_eq_none
      rw [tightHyphen?_of_spacedHyphen? hr] at hnone
      contradiction

namespace AlternativeText

/-- The versions that are written in the alternative. -/
def versions : AlternativeText → List VersionText
  | hyphen lower upper => [lower, upper]
  | caret v | tilde v | pinned v | comparison _ v | plain v => [v]
  | any => []

/-- Three numbers are an exact version wherever they stand. -/
def TriplesExact (a : AlternativeText) : Prop :=
  ∀ v ∈ a.versions, v.isNumberTriple = false

instance (a : AlternativeText) : Decidable a.TriplesExact :=
  inferInstanceAs (Decidable (∀ v ∈ a.versions, v.isNumberTriple = false))

end AlternativeText

/-- The upper version may be read further than its form says; the lower one ends at the space. -/
theorem spacedInterval?_complete {lower upper x : VersionText} {s t u v r q : List Char}
    (hl : BoundForm lower s t) (hln : lower.isNumberTriple = false)
    (ht : SomeSpacesForm t ('-' :: u)) (hu : SomeSpacesForm u v) (hv : BoundForm upper v r)
    (hx : boundText? v = some (x, q)) : spacedInterval? s = some (.hyphen lower x, q) := by
  simp [spacedInterval?, boundText?_complete hl hln ht.endsExact, spacedHyphen?_complete ht hu hv,
    hx]

/-- A hyphen without spaces may be read as one with spaces, which comes to the same. -/
theorem hyphen?_of_tight {lower : PatternText} {upper x : VersionText} {s t u v r q : List Char}
    (hl : PatternForm lower s t) (hn : isNumberTriple lower = false)
    (ht : SpacesForm t ('-' :: u)) (hu : SpacesForm u v) (hv : BoundForm upper v r)
    (hx : boundText? v = some (x, q)) : hyphen? s = some (.hyphen (.pattern lower) x, q) := by
  have hend : EndsRelease t := by
    refine ht.head (fun c hc => ?_) (by simp)
    exact ⟨isDigit_eq_false_of_isSpace c hc, (endsExact_of_isSpace c hc).2.1⟩
  have htight := tightHyphen?_complete ht hu hv
  have hlower := boundText?_pattern hl hn hend
  cases hs : spacedHyphen? t with
  | some w =>
      have hw : w = v := by
        rw [tightHyphen?_of_spacedHyphen? hs] at htight
        exact Option.some.inj htight
      rw [hw] at hs
      simp [hyphen?, spacedInterval?, hlower, hs, hx]
  | none =>
      simp [hyphen?, spacedInterval?, hlower, hs, tightInterval?, patternText?_complete hl hend, hn,
        htight, hx]

theorem MarkedForm.head {form : VersionText → AlternativeText} {a : AlternativeText}
    {s r : List Char} (h : MarkedForm form a s r) : ∀ c ∈ s.head?, c ≠ '>' := by
  cases h with
  | plain hs hv =>
      exact hv.head_ne hs (by decide) (by decide)
  | pinned _ _ => simp

theorem marked?_plain {form : VersionText → AlternativeText} {v x : VersionText}
    {s t r q : List Char} (hs : SpacesForm s t) (hv : BoundForm v t r)
    (hx : boundText? t = some (x, q)) : marked? form s = some (form x, q) := by
  have hne : ∀ c ∈ s.head?, c ≠ '=' := hv.head_ne hs (by decide) (by decide)
  unfold marked?
  split
  · exact absurd rfl (hne '=' rfl)
  · rw [hv.skipSpaces hs, hx]
    rfl

theorem marked?_pinned {form : VersionText → AlternativeText} {v x : VersionText}
    {s t r q : List Char} (hs : SpacesForm s t) (hv : BoundForm v t r)
    (hx : boundText? t = some (x, q)) : marked? form ('=' :: s) = some (.pinned x, q) := by
  rw [marked?, hv.skipSpaces hs, hx]
  rfl

/-- The equality sign after a mark decides, as no version starts with one. -/
theorem marked?_complete {form : VersionText → AlternativeText} {a : AlternativeText}
    {s r : List Char} (hversions : ∀ v, (form v).versions = [v]) (h : MarkedForm form a s r)
    (ha : a.TriplesExact) (hr : EndsExact r) : marked? form s = some (a, r) := by
  cases h with
  | plain hs hv =>
      exact marked?_plain hs hv (boundText?_complete hv (ha _ (by simp [hversions])) hr)
  | pinned hs hv =>
      have hversion := boundText?_complete hv (ha _ (by simp [AlternativeText.versions])) hr
      exact marked?_pinned hs hv hversion

/-- What is marked does not start with the `>` that could belong to the tilde. -/
theorem tilde?_eq_marked? {form : VersionText → AlternativeText} {a : AlternativeText}
    {s r : List Char} (h : MarkedForm form a s r) : tilde? ('~' :: s) = marked? .tilde s := by
  unfold tilde?
  split
  · rename_i he
    cases he
    exact absurd rfl (h.head '>' rfl)
  · rename_i he
    cases he
    rfl
  · rename_i hne
    exact absurd rfl (hne s)

/-- The longest operator is read, so no equality sign may follow the one that is meant. -/
theorem operator?_symbol (o : Operator) {s : List Char} (h : ∀ c ∈ s.head?, c ≠ '=') :
    operator? (o.symbol.toList ++ s) = some (o, s) := by
  have hne : ∀ t, s ≠ '=' :: t := by
    rintro t rfl
    exact h '=' rfl rfl
  cases o with
  | lessOrEqual | greaterOrEqual | equal => rfl
  | less | greater => simp [operator?, Operator.symbol]

theorem comparison?_of_boundText? (o : Operator) {v x : VersionText} {s t r q : List Char}
    (hs : SpacesForm s t) (hv : BoundForm v t r) (hx : boundText? t = some (x, q)) :
    comparison? (o.symbol.toList ++ s) = some (.comparison o x, q) := by
  have hne : ∀ c ∈ s.head?, c ≠ '=' := hv.head_ne hs (by decide) (by decide)
  simp [comparison?, operator?_symbol o hne, hv.skipSpaces hs, hx]

theorem any?_of_wildcards {s t r : List Char} (hs : skipEquality s = t) (h : WildcardsForm t r) :
    any? s = some (.any, skipWildcards r) := by
  obtain ⟨u, hu, hskip⟩ := h.exists_wildcard?
  simp [any?, hs, hu, hskip]

/-- After an operator, wildcards are no bound. -/
theorem comparison?_wildcards {o : Operator} {s r : List Char} (h : WildcardsForm s r) :
    comparison? (o.symbol.toList ++ s) = none := by
  have hne : ∀ c ∈ s.head?, c ≠ '=' := fun c hc =>
    (forall_isWildcardChar (P := (· ≠ '='))).2 (by decide) c (h.head c hc)
  have hskip : skipSpaces s = s :=
    Text.dropWhile_eq_self fun c hc => isSpace_eq_false_of_isWildcardChar c (h.head c hc)
  have hnum : EndsNumber s := fun c hc => isDigit_eq_false_of_isWildcardChar c (h.head c hc)
  simp [comparison?, operator?_symbol o hne, hskip, boundText?_eq_none hnum]

theorem plain_hyphen?_eq_none {v : VersionText} {s r : List Char} (h : BoundForm v s r)
    (hn : v.isNumberTriple = false) (hr : EndsAlternative r) : hyphen? s = none := by
  have hbound : boundText? s = some (v, r) := boundText?_complete h hn hr.exact
  have htight : tightInterval? s = none := by
    cases h with
    | exact h =>
        obtain ⟨t, ht, _⟩ := patternText?_of_triple (exactText?_complete h hr.exact)
        simp [tightInterval?, ht, isNumberTriple]
    | pattern h =>
        simp [tightInterval?, patternText?_complete h hr.exact.release, hr.tightHyphen?_eq_none]
  simp [hyphen?, spacedInterval?, hbound, hr.spacedHyphen?_eq_none, htight]

theorem alternative?_caret (s : List Char) : alternative? ('^' :: s) = marked? .caret s := by
  have hhyphen : hyphen? ('^' :: s) = none := hyphen?_eq_none (.cons (by decide) s)
  have hbound : boundText? ('^' :: s) = none := boundText?_eq_none (.cons (by decide) s)
  simp [alternative?, hhyphen, caret?, tilde?, comparison?, operator?, any?, skipEquality,
    wildcard?, isWildcardChar, plain?, hbound]

theorem alternative?_tilde (s : List Char) : alternative? ('~' :: s) = tilde? ('~' :: s) := by
  have hhyphen : hyphen? ('~' :: s) = none := hyphen?_eq_none (.cons (by decide) s)
  have hbound : boundText? ('~' :: s) = none := boundText?_eq_none (.cons (by decide) s)
  simp [alternative?, hhyphen, caret?, comparison?, operator?, any?, skipEquality,
    wildcard?, isWildcardChar, plain?, hbound]

/-- A text that starts with an operator is a comparison or wildcards. -/
theorem alternative?_symbol (o : Operator) (s : List Char) :
    alternative? (o.symbol.toList ++ s) = (comparison? (o.symbol.toList ++ s)).or
      (any? (o.symbol.toList ++ s)) := by
  have hhead : ∀ c ∈ (o.symbol.toList ++ s).head?, c.isDigit = false ∧ c ≠ '^' ∧ c ≠ '~' :=
    fun c hc => (forall_isOperatorChar (P := fun c => c.isDigit = false ∧ c ≠ '^' ∧ c ≠ '~')).2
      (by decide) c (head_symbol o s c hc)
  have hnumber : EndsNumber (o.symbol.toList ++ s) := fun c hc => (hhead c hc).1
  simp [alternative?, hyphen?_eq_none hnumber, caret?_eq_none fun c hc => (hhead c hc).2.1,
    tilde?_eq_none fun c hc => (hhead c hc).2.2, plain?, boundText?_eq_none hnumber]

theorem alternative?_wildcard {s : List Char} (h : ∀ c ∈ s.head?, isWildcardChar c = true) :
    alternative? s = any? s := by
  have hwildcard : ∀ c, isWildcardChar c = true →
      c.isDigit = false ∧ isOperatorChar c = false ∧ c ≠ '^' ∧ c ≠ '~' :=
    forall_isWildcardChar.2 (by decide)
  have hhead := fun c hc => hwildcard c (h c hc)
  have hnumber : EndsNumber s := fun c hc => (hhead c hc).1
  simp [alternative?, hyphen?_eq_none hnumber, caret?_eq_none fun c hc => (hhead c hc).2.2.1,
    tilde?_eq_none fun c hc => (hhead c hc).2.2.2,
    comparison?_eq_none fun c hc => (hhead c hc).2.1, plain?, boundText?_eq_none hnumber]

theorem alternative?_digit {s : List Char} (h : ∀ c ∈ s.head?, c.isDigit = true) :
    alternative? s = (hyphen? s).or (plain? s) := by
  have hoperator : ∀ c ∈ s.head?, isOperatorChar c = false := fun c hc =>
    isOperatorChar_eq_false_of_isDigit (h c hc)
  have hwildcard : ∀ c ∈ s.head?, isWildcardChar c = false := fun c hc =>
    isWildcardChar_eq_false_of_isDigit (h c hc)
  have hne {d : Char} (hd : d.isDigit = false) : ∀ c ∈ s.head?, c ≠ d := fun c hc =>
    ne_of_apply_ne Char.isDigit (by rw [h c hc, hd]; decide)
  have hany : any? s = none := by
    simp [any?, skipEquality_eq_self hoperator, wildcard?_eq_none hwildcard]
  simp [alternative?, caret?_eq_none (hne rfl), tilde?_eq_none (hne rfl),
    comparison?_eq_none hoperator, hany]

theorem skipEquality_symbol {o : Operator} (ho : o ∈ [.greaterOrEqual, .lessOrEqual, .equal])
    (s : List Char) : skipEquality (o.symbol.toList ++ s) = s := by
  simp only [List.mem_cons, List.not_mem_nil, or_false] at ho
  rcases ho with rfl | rfl | rfl <;> rfl

/-- Wildcards are no operator that could be skipped. -/
theorem WildcardsForm.skipEquality {s r : List Char} (h : WildcardsForm s r) :
    skipEquality s = s :=
  skipEquality_eq_self fun c hc =>
    (forall_isWildcardChar (P := (isOperatorChar · = false))).2 (by decide) c (h.head c hc)

/-- The readers are tried in an order, in which none takes what belongs to a later one. -/
theorem alternative?_complete {a : AlternativeText} {s r : List Char} (h : AlternativeForm a s r)
    (ha : a.TriplesExact) (hr : EndsAlternative r) : alternative? s = some (a, r) := by
  have hdot : ∀ c ∈ r.head?, c ≠ '.' := fun c hc => (hr.exact c hc).2.1
  cases h with
  | spacedHyphen hl ht hu hv =>
      have hupper := boundText?_complete hv (ha _ (by simp [AlternativeText.versions])) hr.exact
      have hinterval := spacedInterval?_complete hl (ha _ (by simp [AlternativeText.versions])) ht
        hu hv hupper
      simp [alternative?, hyphen?, hinterval]
  | tightHyphen hl hn ht hu hv =>
      have hupper := boundText?_complete hv (ha _ (by simp [AlternativeText.versions])) hr.exact
      have hinterval := hyphen?_of_tight hl hn ht hu hv hupper
      simp [alternative?, hinterval]
  | caret h =>
      rw [alternative?_caret]
      exact marked?_complete (fun _ => rfl) h ha hr.exact
  | tilde h =>
      rw [alternative?_tilde, tilde?_eq_marked? h]
      exact marked?_complete (fun _ => rfl) h ha hr.exact
  | tildeGreater h =>
      rw [alternative?_tilde]
      exact marked?_complete (fun _ => rfl) h ha hr.exact
  | comparison operator hs hv =>
      have hbound := boundText?_complete hv (ha _ (by simp [AlternativeText.versions])) hr.exact
      rw [alternative?_symbol, comparison?_of_boundText? operator hs hv hbound]
      rfl
  | anyEqual operator ho h =>
      rw [alternative?_symbol, comparison?_wildcards h,
        any?_of_wildcards (skipEquality_symbol ho _) h, skipWildcards_eq_self hdot]
      rfl
  | any h =>
      rw [alternative?_wildcard h.head, any?_of_wildcards h.skipEquality h,
        skipWildcards_eq_self hdot]
  | plain h =>
      have hn : VersionText.isNumberTriple _ = false := ha _ List.mem_cons_self
      simp [alternative?_digit h.head, plain_hyphen?_eq_none h hn hr, plain?,
        boundText?_complete h hn hr.exact]

theorem EndsAlternative.nil : EndsAlternative [] := by
  simp [EndsAlternative, skipSpaces]

/-- No alternative goes on across a separator, since what stands behind is no hyphen. -/
theorem SeparatorForm.endsAlternative {s r : List Char} (h : SeparatorForm s r)
    (hr : ∀ c ∈ r.head?, isSpace c = false ∧ c ≠ '|' ∧ c ≠ '-') : EndsAlternative s := by
  cases h with
  | @bars t _ hs _ =>
      have hskip : skipSpaces s = '|' :: '|' :: t := skipSpaces_complete hs (by simp [isSpace])
      refine ⟨hs.head (fun c hc => .inl hc) (by simp), ?_⟩
      simp [hskip]
  | spaces h =>
      have hskip : skipSpaces s = r :=
        spaces?_eq_some (spaces?_complete h fun c hc => (hr c hc).1)
      refine ⟨fun c hc => .inl (h.head c hc), ?_⟩
      rw [hskip]
      exact fun c hc => (hr c hc).2.2

theorem separator?_complete {s r : List Char} (h : SeparatorForm s r)
    (hr : ∀ c ∈ r.head?, isSpace c = false ∧ c ≠ '|' ∧ c ≠ '-') : separator? s = some r := by
  cases h with
  | @bars t _ hs ht =>
      have hskip : skipSpaces s = '|' :: '|' :: t := skipSpaces_complete hs (by simp [isSpace])
      rw [separator?, hskip]
      exact congrArg some (skipSpaces_complete ht fun c hc => (hr c hc).1)
  | spaces h =>
      have hspaces : spaces? s = some r := spaces?_complete h fun c hc => (hr c hc).1
      unfold separator?
      split
      · rename_i t ht
        rw [spaces?_eq_some hspaces] at ht
        subst ht
        exact absurd rfl (hr '|' rfl).2.1
      · exact hspaces

theorem moreAlternatives_nil : moreAlternatives [] = ([], []) := by
  rw [moreAlternatives]
  rfl

theorem moreAlternatives_of_separator? {s t r : List Char} {as : List AlternativeText}
    (h : separator? s = some t) (ht : range? t = some (as, r)) : moreAlternatives s = (as, r) := by
  obtain ⟨⟨a, u⟩, ha, he⟩ := Option.map_eq_some_iff.1 ht
  have hnext : nextAlternative? s = some (a, u) := by rw [nextAlternative?, h]; exact ha
  rw [moreAlternatives]
  split
  · rename_i hnone
    rw [hnext] at hnone
    contradiction
  · rename_i hsome
    rw [hnext] at hsome
    cases hsome
    exact he

/-- By induction on the alternatives, each of which is ended by the separator after it. -/
theorem range?_complete {as : List AlternativeText} {s : List Char} (h : RangeForm as s [])
    (has : ∀ a ∈ as, a.TriplesExact) : range? s = some (as, []) := by
  generalize hr : [] = r at h
  induction h with
  | single ha =>
      subst hr
      have ha := alternative?_complete ha (has _ List.mem_cons_self) .nil
      simp [range?, ha, moreAlternatives_nil]
  | cons ha ht h ih =>
      subst hr
      obtain ⟨hexact, has⟩ := List.forall_mem_cons.1 has
      have ha := alternative?_complete ha hexact (ht.endsAlternative h.head)
      have hmore := moreAlternatives_of_separator? (separator?_complete ht h.head) (ih has rfl)
      simp [range?, ha, hmore]

/-! ## Three numbers as exact versions -/

/-- Of the two kinds that three numbers can be taken for, one is chosen. -/
theorem BoundForm.exists_exact {v : VersionText} {s r : List Char} (h : BoundForm v s r) :
    ∃ w : VersionText, w.isNumberTriple = false ∧ BoundForm w s r := by
  cases h with
  | exact h => exact ⟨_, rfl, .exact h⟩
  | @pattern w _ _ h =>
      cases hw : isNumberTriple w with
      | false => exact ⟨.pattern w, hw, .pattern h⟩
      | true =>
          cases h with
          | single _ | pair _ _ => contradiction
          | triple hm hn hp =>
              cases hn with
              | wildcard _ => contradiction
              | number hn =>
                  cases hp with
                  | wildcard _ => contradiction
                  | number hp =>
                      exact ⟨.exact ⟨.triple _ _ _, none, none⟩, rfl,
                        .exact (.intro (.triple hm hn hp) .absent .absent)⟩

theorem MarkedForm.exists_exact {form : VersionText → AlternativeText} {a : AlternativeText}
    {s r : List Char} (hversions : ∀ v, (form v).versions = [v]) (h : MarkedForm form a s r) :
    ∃ b : AlternativeText, b.TriplesExact ∧ MarkedForm form b s r := by
  cases h with
  | plain hs hv =>
      obtain ⟨w, hn, hw⟩ := hv.exists_exact
      exact ⟨form w, by simpa [AlternativeText.TriplesExact, hversions] using hn, .plain hs hw⟩
  | pinned hs hv =>
      obtain ⟨w, hn, hw⟩ := hv.exists_exact
      exact ⟨.pinned w, by simpa [AlternativeText.TriplesExact, AlternativeText.versions] using hn,
        .pinned hs hw⟩

theorem AlternativeForm.exists_exact {a : AlternativeText} {s r : List Char}
    (h : AlternativeForm a s r) :
    ∃ b : AlternativeText, b.TriplesExact ∧ AlternativeForm b s r := by
  unfold AlternativeText.TriplesExact
  cases h with
  | spacedHyphen hl ht hu hv =>
      obtain ⟨l, hln, hl⟩ := hl.exists_exact
      obtain ⟨v, hvn, hv⟩ := hv.exists_exact
      exact ⟨_, by simpa [AlternativeText.versions] using ⟨hln, hvn⟩, .spacedHyphen hl ht hu hv⟩
  | tightHyphen hl hn ht hu hv =>
      obtain ⟨v, hvn, hv⟩ := hv.exists_exact
      exact ⟨_, by simpa [AlternativeText.versions] using ⟨hn, hvn⟩, .tightHyphen hl hn ht hu hv⟩
  | caret h =>
      obtain ⟨b, hb, h⟩ := h.exists_exact fun _ => rfl
      exact ⟨b, hb, .caret h⟩
  | tilde h =>
      obtain ⟨b, hb, h⟩ := h.exists_exact fun _ => rfl
      exact ⟨b, hb, .tilde h⟩
  | tildeGreater h =>
      obtain ⟨b, hb, h⟩ := h.exists_exact fun _ => rfl
      exact ⟨b, hb, .tildeGreater h⟩
  | comparison operator hs hv =>
      obtain ⟨v, hvn, hv⟩ := hv.exists_exact
      exact ⟨_, by simpa [AlternativeText.versions] using hvn, .comparison operator hs hv⟩
  | any h => exact ⟨_, by simp [AlternativeText.versions], .any h⟩
  | anyEqual operator ho h => exact ⟨_, by simp [AlternativeText.versions], .anyEqual operator ho h⟩
  | plain h =>
      obtain ⟨v, hvn, hv⟩ := h.exists_exact
      exact ⟨_, by simpa [AlternativeText.versions] using hvn, .plain hv⟩

theorem RangeForm.exists_exact {as : List AlternativeText} {s r : List Char}
    (h : RangeForm as s r) :
    ∃ bs : List AlternativeText, (∀ b ∈ bs, b.TriplesExact) ∧ RangeForm bs s r := by
  induction h with
  | single ha =>
      obtain ⟨b, hb, ha⟩ := ha.exists_exact
      exact ⟨[b], by simpa using hb, .single ha⟩
  | cons ha ht _ ih =>
      obtain ⟨b, hb, ha⟩ := ha.exists_exact
      obtain ⟨bs, hbs, h⟩ := ih
      exact ⟨b :: bs, List.forall_mem_cons.2 ⟨hb, hbs⟩, .cons ha ht h⟩

/-! ## The versions of a text -/

theorem MarkedForm.exists_boundForm {form : VersionText → AlternativeText} {a : AlternativeText}
    {s r : List Char} (hversions : ∀ v, (form v).versions = [v]) (h : MarkedForm form a s r) :
    ∀ v ∈ a.versions, ∃ t u, BoundForm v t u := by
  cases h with
  | plain _ hv => simpa [hversions] using ⟨_, _, hv⟩
  | pinned _ hv => simpa [AlternativeText.versions] using ⟨_, _, hv⟩

theorem AlternativeForm.exists_boundForm {a : AlternativeText} {s r : List Char}
    (h : AlternativeForm a s r) : ∀ v ∈ a.versions, ∃ t u, BoundForm v t u := by
  cases h with
  | spacedHyphen hl _ _ hv => simpa [AlternativeText.versions] using ⟨⟨_, _, hl⟩, _, _, hv⟩
  | tightHyphen hl _ _ _ hv =>
      simpa [AlternativeText.versions] using ⟨⟨_, _, .pattern hl⟩, _, _, hv⟩
  | caret h | tilde h | tildeGreater h => exact h.exists_boundForm fun _ => rfl
  | comparison _ _ hv | plain hv => simpa [AlternativeText.versions] using ⟨_, _, hv⟩
  | any | anyEqual => simp [AlternativeText.versions]

theorem RangeForm.exists_boundForm {as : List AlternativeText} {s r : List Char}
    (h : RangeForm as s r) : ∀ a ∈ as, ∀ v ∈ a.versions, ∃ t u, BoundForm v t u := by
  induction h with
  | single ha => simpa using ha.exists_boundForm
  | cons ha _ _ ih => exact List.forall_mem_cons.2 ⟨ha.exists_boundForm, ih⟩

end Versioning.Grammar
