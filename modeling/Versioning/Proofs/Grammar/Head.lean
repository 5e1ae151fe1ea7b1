import Versioning.Proofs.Grammar.Range

/-!
# Heads

The character that a text starts with decides which forms it can have and which readers fail on it.
-/

namespace Versioning.Grammar

/-! ## Heads of forms -/

theorem NumberForm.head {p : Piece} {s r : List Char} (h : NumberForm p s r) :
    ∀ c ∈ s.head?, c.isDigit = true := by
  cases h with
  | @digits ds _ hne hd =>
      obtain ⟨d, ds, rfl⟩ := List.exists_cons_of_ne_nil hne
      intro c hc
      cases hc
      exact hd _ List.mem_cons_self

theorem ReleaseForm.head {σ : Type} {slot : Form σ} {x : ReleaseText σ} {s r : List Char}
    (h : ReleaseForm slot x s r) : ∀ c ∈ s.head?, c.isDigit = true := by
  cases h with
  | single hm => exact hm.head
  | pair hm _ => exact hm.head
  | triple hm _ _ => exact hm.head

theorem BoundForm.head {v : VersionText} {s r : List Char} (h : BoundForm v s r) :
    ∀ c ∈ s.head?, c.isDigit = true := by
  cases h with
  | exact h =>
      cases h with
      | intro hx _ _ => exact hx.head
  | pattern h => exact h.head

/-- There may be no space at all, and then the head is that of the rest. -/
theorem SpacesForm.head {P : Char → Prop} {s r : List Char} (h : SpacesForm s r)
    (hspace : ∀ c, isSpace c = true → P c) (hr : ∀ c ∈ r.head?, P c) : ∀ c ∈ s.head?, P c := by
  cases h with
  | nil => exact hr
  | cons hc _ =>
      intro c h
      cases h
      exact hspace _ hc

theorem SomeSpacesForm.head {s r : List Char} (h : SomeSpacesForm s r) :
    ∀ c ∈ s.head?, isSpace c = true := by
  cases h with
  | cons hc _ =>
      intro c h
      cases h
      exact hc

theorem WildcardsForm.head {s r : List Char} (h : WildcardsForm s r) :
    ∀ c ∈ s.head?, isWildcardChar c = true := by
  cases h with
  | single hc | cons hc _ =>
      intro c h
      cases h
      exact hc

/-- What holds of every space is checked on the four of them. -/
theorem forall_isSpace {P : Char → Prop} :
    (∀ c, isSpace c = true → P c) ↔ P ' ' ∧ P '\t' ∧ P '\r' ∧ P '\n' := by
  simp [isSpace, or_imp, forall_and, and_assoc]

theorem isDigit_eq_false_of_isSpace : ∀ c, isSpace c = true → c.isDigit = false :=
  forall_isSpace.2 (by decide)

theorem isSpace_eq_false_of_isWildcardChar : ∀ c, isWildcardChar c = true → isSpace c = false :=
  forall_isWildcardChar.2 (by decide)

/-- The characters that operators are made of. -/
def isOperatorChar (c : Char) : Bool :=
  c == '<' || c == '>' || c == '='

theorem forall_isOperatorChar {P : Char → Prop} :
    (∀ c, isOperatorChar c = true → P c) ↔ P '<' ∧ P '>' ∧ P '=' := by
  simp [isOperatorChar, or_imp, forall_and, and_assoc]

theorem eq_false_of_isDigit {p : Char → Bool} (h : ∀ c, p c = true → c.isDigit = false) {c : Char}
    (hc : c.isDigit = true) : p c = false := by
  rw [Bool.eq_false_iff]
  intro hp
  rw [h c hp] at hc
  contradiction

theorem isSpace_eq_false_of_isDigit {c : Char} : c.isDigit = true → isSpace c = false :=
  eq_false_of_isDigit isDigit_eq_false_of_isSpace

theorem isWildcardChar_eq_false_of_isDigit {c : Char} :
    c.isDigit = true → isWildcardChar c = false :=
  eq_false_of_isDigit isDigit_eq_false_of_isWildcardChar

theorem isOperatorChar_eq_false_of_isDigit {c : Char} :
    c.isDigit = true → isOperatorChar c = false :=
  eq_false_of_isDigit (forall_isOperatorChar.2 (by decide))

theorem head_symbol (o : Operator) (s : List Char) :
    ∀ c ∈ (o.symbol.toList ++ s).head?, isOperatorChar c = true := by
  cases o <;> simp [Operator.symbol, isOperatorChar]

/-- A version may be skipped to, and what is skipped starts with a digit or a space. -/
theorem BoundForm.head_ne {v : VersionText} {s t r : List Char} {d : Char} (hv : BoundForm v t r)
    (hs : SpacesForm s t) (hspace : isSpace d = false) (hdigit : d.isDigit = false) :
    ∀ c ∈ s.head?, c ≠ d := by
  refine hs.head (fun c hc => ?_) fun c hc => ?_
  · exact ne_of_apply_ne isSpace (by rw [hc, hspace]; decide)
  · exact ne_of_apply_ne Char.isDigit (by rw [hv.head c hc, hdigit]; decide)

/-- No alternative starts like a separator or a hyphen, which is how the one before it ends. -/
theorem AlternativeForm.head {a : AlternativeText} {s r : List Char} (h : AlternativeForm a s r) :
    ∀ c ∈ s.head?, isSpace c = false ∧ c ≠ '|' ∧ c ≠ '-' := by
  have hdigit {v : VersionText} {s r : List Char} (h : BoundForm v s r) :
      ∀ c ∈ s.head?, isSpace c = false ∧ c ≠ '|' ∧ c ≠ '-' := fun c hc =>
    ⟨isSpace_eq_false_of_isDigit (h.head c hc), h.head_ne .nil rfl rfl c hc,
      h.head_ne .nil rfl rfl c hc⟩
  have hwildcard : ∀ c, isWildcardChar c = true → isSpace c = false ∧ c ≠ '|' ∧ c ≠ '-' :=
    forall_isWildcardChar.2 (by decide)
  have hoperator : ∀ c, isOperatorChar c = true → isSpace c = false ∧ c ≠ '|' ∧ c ≠ '-' :=
    forall_isOperatorChar.2 (by decide)
  cases h with
  | spacedHyphen hl _ _ _ => exact hdigit hl
  | tightHyphen hl _ _ _ _ => exact hdigit (.pattern hl)
  | caret _ | tilde _ | tildeGreater _ => simp [isSpace]
  | comparison operator _ _ | anyEqual operator _ _ =>
      exact fun c hc => hoperator c (head_symbol operator _ c hc)
  | any h => exact fun c hc => hwildcard c (h.head c hc)
  | plain h => exact hdigit h

theorem RangeForm.head {as : List AlternativeText} {s r : List Char} (h : RangeForm as s r) :
    ∀ c ∈ s.head?, isSpace c = false ∧ c ≠ '|' ∧ c ≠ '-' := by
  cases h with
  | single ha | cons ha _ _ => exact ha.head

/-! ## Readers that fail -/

theorem caret?_eq_none {s : List Char} (h : ∀ c ∈ s.head?, c ≠ '^') : caret? s = none := by
  unfold caret?
  split
  · exact absurd rfl (h '^' rfl)
  · rfl

theorem tilde?_eq_none {s : List Char} (h : ∀ c ∈ s.head?, c ≠ '~') : tilde? s = none := by
  unfold tilde?
  split
  · exact absurd rfl (h '~' rfl)
  · exact absurd rfl (h '~' rfl)
  · rfl

theorem operator?_eq_none {s : List Char} (h : ∀ c ∈ s.head?, isOperatorChar c = false) :
    operator? s = none := by
  unfold operator?
  split
  · exact absurd (h '<' rfl) (by decide)
  · exact absurd (h '>' rfl) (by decide)
  · exact absurd (h '<' rfl) (by decide)
  · exact absurd (h '>' rfl) (by decide)
  · exact absurd (h '=' rfl) (by decide)
  · rfl

theorem comparison?_eq_none {s : List Char} (h : ∀ c ∈ s.head?, isOperatorChar c = false) :
    comparison? s = none := by
  rw [comparison?, operator?_eq_none h]
  rfl

theorem skipEquality_eq_self {s : List Char} (h : ∀ c ∈ s.head?, isOperatorChar c = false) :
    skipEquality s = s := by
  unfold skipEquality
  split
  · exact absurd (h '>' rfl) (by decide)
  · exact absurd (h '<' rfl) (by decide)
  · exact absurd (h '=' rfl) (by decide)
  · rfl

theorem wildcard?_eq_none {s : List Char} (h : ∀ c ∈ s.head?, isWildcardChar c = false) :
    wildcard? s = none := by
  cases s with
  | nil => rfl
  | cons c s => rw [wildcard?, if_neg (by simp [h c rfl])]

/-- No version starts without a digit. -/
theorem boundText?_eq_none {s : List Char} (h : EndsNumber s) : boundText? s = none := by
  simp [boundText?, exactText?, patternText?, release?, number?_eq_none h]

theorem hyphen?_eq_none {s : List Char} (h : EndsNumber s) : hyphen? s = none := by
  simp [hyphen?, spacedInterval?, tightInterval?, boundText?_eq_none h, patternText?, release?,
    number?_eq_none h]

end Versioning.Grammar
