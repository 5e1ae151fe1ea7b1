import Mathlib.Data.List.TakeWhile
import Versioning.Proofs.Grammar.Version
import Versioning.Proofs.Reading.Conversion
import Versioning.Proofs.RoundTrip.Tag

/-!
# Components as texts

    component := "" | "*" | "x" | "X" | unsigned                     unsigned := "+"? [0-9]+

Digits are scanned from left to right, and at each of them the product with ten or the sum may be
too large. Once one is, the digits that follow keep the value too large. So whether the scan fails
depends on the value of all digits, and neither on their number nor on zeros at their head.
-/

namespace Versioning

open Text (IsDigits)

/-! ## The scan -/

namespace Number

/-- The number with a digit after it: first ten times the number, then the sum. -/
def push (n : Number) (c : Char) : Except NumberFault Number :=
  if c.isDigit then
    match (ofNat? (10 * n.toNat)).bind fun m => ofNat? (m.toNat + (c.toNat - '0'.toNat)) with
    | some k => .ok k
    | none => .error .tooLarge
  else .error .invalidDigit

/-- The number with the digits of the text after it, unless a character is no digit or makes the
number too large. -/
def scan (n : Number) (s : List Char) : Except NumberFault Number :=
  s.foldlM push n

/-- A product that is too large stays so when something is added. -/
theorem ofNat?_bind_add (a b : Nat) :
    ((ofNat? a).bind fun m => ofNat? (m.toNat + b)) = ofNat? (a + b) := by
  cases h : ofNat? a with
  | some m => rw [Option.bind_some, ofNat?_eq_some.1 h]
  | none =>
      rw [ofNat?_eq_none] at h
      exact (ofNat?_eq_none.2 (Nat.lt_of_lt_of_le h (Nat.le_add_right a b))).symm

theorem push_digit (n : Number) {c : Char} (hc : c.isDigit = true) :
    n.push c = match ofNat? (10 * n.toNat + (c.toNat - '0'.toNat)) with
      | some k => .ok k
      | none => .error .tooLarge := by
  rw [push, if_pos hc, ofNat?_bind_add]

theorem le_ofDigitChars (n : Nat) (ds : List Char) : n ≤ Nat.ofDigitChars 10 ds n := by
  rw [Nat.ofDigitChars_eq_ofDigitChars_zero]
  exact Nat.le_add_right_of_le (Nat.le_mul_of_pos_left n (Nat.pow_pos (by decide)))

/-- The digits at the head decide whether the number is too large, and only then the rest counts. -/
theorem scan_eq (n : Number) (s : List Char) :
    n.scan s = match ofNat? (Nat.ofDigitChars 10 (s.takeWhile Char.isDigit) n.toNat) with
      | some k => if s.all Char.isDigit then .ok k else .error .invalidDigit
      | none => .error .tooLarge := by
  -- The number before the rest of the text is the value of the digits scanned so far.
  induction s generalizing n with
  | nil => simp [scan, pure, Except.pure]
  | cons c s ih =>
      rw [scan, List.foldlM_cons]
      cases hc : c.isDigit with
      | false => simp [push, hc, bind, Except.bind]
      | true =>
          rw [List.takeWhile_cons_of_pos hc, Nat.ofDigitChars_cons, push_digit n hc]
          cases hk : ofNat? (10 * n.toNat + (c.toNat - '0'.toNat)) with
          | some k =>
              rw [ofNat?_eq_some.1 hk, List.all_cons, hc, Bool.true_and]
              exact ih k
          | none =>
              have hlarge := Nat.lt_of_lt_of_le (ofNat?_eq_none.1 hk)
                (le_ofDigitChars _ (s.takeWhile Char.isDigit))
              rw [ofNat?_eq_none.2 hlarge]
              rfl

theorem scan_of_digits (n : Number) {ds : List Char} (h : ∀ c ∈ ds, c.isDigit = true) :
    n.scan ds = match ofNat? (Nat.ofDigitChars 10 ds n.toNat) with
      | some k => .ok k
      | none => .error .tooLarge := by
  rw [scan_eq, List.takeWhile_eq_self_iff.2 h, List.all_eq_true.2 h]
  rfl

theorem scan_eq_ok {n k : Number} {s : List Char} : n.scan s = .ok k ↔
    (∀ c ∈ s, c.isDigit = true) ∧ Nat.ofDigitChars 10 s n.toNat = k.toNat := by
  constructor
  · intro h
    have hdigits : ∀ c ∈ s, c.isDigit = true := by
      rw [scan_eq] at h
      split at h
      · split at h
        · exact List.all_eq_true.1 ‹_›
        · contradiction
      · contradiction
    rw [scan_of_digits n hdigits] at h
    split at h
    · cases h
      exact ⟨hdigits, ofNat?_eq_some.1 ‹_›⟩
    · contradiction
  · rintro ⟨hdigits, hvalue⟩
    rw [scan_of_digits n hdigits, ofNat?_eq_some.2 hvalue]

end Number

/-! ## Unsigned numbers -/

/-- The text without a plus sign at its head. -/
def withoutPlus : List Char → List Char
  | '+' :: s => s
  | s => s

theorem withoutPlus_eq_self {s : List Char} (h : ∀ t, s = '+' :: t → False) :
    withoutPlus s = s := by
  unfold withoutPlus
  split
  · exact (h _ rfl).elim
  · rfl

/-- The text is the digits, perhaps after a plus sign. -/
inductive IsUnsigned (ds : List Char) : List Char → Prop
  | plain (h : IsDigits ds) : IsUnsigned ds ds
  | plus (h : IsDigits ds) : IsUnsigned ds ('+' :: ds)

theorem isUnsigned_iff {ds t : List Char} :
    IsUnsigned ds t ↔ IsDigits ds ∧ withoutPlus t = ds := by
  constructor
  · intro h
    cases h with
    | plain h =>
        refine ⟨h, withoutPlus_eq_self fun s hs => ?_⟩
        subst hs
        exact absurd (h.2 '+' List.mem_cons_self) (by decide)
    | plus h => exact ⟨h, rfl⟩
  · rintro ⟨h, rfl⟩
    revert h
    unfold withoutPlus
    split
    · exact .plus
    · exact .plain

theorem readUnsigned_eq (s : List Char) :
    readUnsigned s = if withoutPlus s = [] then .error .invalidDigit
      else Number.scan 0 (withoutPlus s) := by
  have hbody : readUnsigned s =
      (Number.ofDigits? ((withoutPlus s).takeWhile Char.isDigit)).elim (.error .tooLarge) fun n =>
        if withoutPlus s ≠ [] ∧ (withoutPlus s).all Char.isDigit then .ok n
          else .error .invalidDigit := by
    unfold readUnsigned
    split
    · rename_i t
      rw [withoutPlus]
      dsimp only
      cases Number.ofDigits? (t.takeWhile Char.isDigit) <;> rfl
    · rename_i hplus
      rw [withoutPlus_eq_self hplus]
      dsimp only
      cases Number.ofDigits? (s.takeWhile Char.isDigit) <;> rfl
  rw [hbody, Number.scan_eq, Number.ofDigits?, Number.toNat_zero]
  cases hs : withoutPlus s with
  | nil => rfl
  | cons c s =>
      simp only [ne_eq, reduceCtorEq, not_false_eq_true, true_and, ↓reduceIte]
      cases Number.ofNat? (Nat.ofDigitChars 10 ((c :: s).takeWhile Char.isDigit) 0) <;> rfl

theorem readUnsigned_eq_ok {t : List Char} {n : Number} : readUnsigned t = .ok n ↔
    ∃ ds, IsUnsigned ds t ∧ Nat.ofDigitChars 10 ds 0 = n.toNat := by
  simp only [isUnsigned_iff, IsDigits, readUnsigned_eq]
  constructor
  · intro h
    split at h
    · contradiction
    · obtain ⟨hdigits, hvalue⟩ := Number.scan_eq_ok.1 h
      exact ⟨_, ⟨⟨‹_›, hdigits⟩, rfl⟩, hvalue⟩
  · rintro ⟨_, ⟨⟨hne, hdigits⟩, rfl⟩, hvalue⟩
    rw [if_neg hne]
    exact Number.scan_eq_ok.2 ⟨hdigits, hvalue⟩

theorem readUnsigned_tooLarge {t ds : List Char} (h : IsUnsigned ds t)
    (hvalue : UInt64.size ≤ Nat.ofDigitChars 10 ds 0) : readUnsigned t = .error .tooLarge := by
  obtain ⟨⟨hne, hdigits⟩, rfl⟩ := isUnsigned_iff.1 h
  rw [readUnsigned_eq, if_neg hne, Number.scan_of_digits 0 hdigits, Number.toNat_zero,
    Number.ofNat?_eq_none.2 hvalue]

/-! ## Components -/

namespace Component

/-- The texts that stand for no number and are no fault. -/
def openTexts : List (List Char) :=
  [[], ['*'], ['x'], ['X']]

theorem mem_openTexts {t : List Char} :
    t ∈ openTexts ↔ t = [] ∨ ∃ c, Grammar.isWildcardChar c = true ∧ t = [c] := by
  simp [openTexts, Grammar.isWildcardChar, or_assoc, or_and_right, exists_or]

theorem parse_of_notMem {s : String} (h : Text.trim s.toList ∉ openTexts) :
    Component.parse s = parse.number (Text.trim s.toList) := by
  rw [mem_openTexts, not_or, not_exists] at h
  unfold Component.parse
  split
  · exact absurd ‹_› h.1
  · rename_i c hc
    rw [hc, if_neg fun hwildcard => h.2 c ⟨hwildcard, hc⟩]
  · rfl

theorem parse_blank {s : String} (h : Text.trim s.toList = []) :
    Component.parse s = .ok .absent := by
  rw [Component.parse, h]

theorem parse_wildcard {s : String} {c : Char} (hc : Grammar.isWildcardChar c = true)
    (h : Text.trim s.toList = [c]) : Component.parse s = .ok .wildcard := by
  simp only [Component.parse, h, if_pos hc]

theorem notMem_openTexts {ds t : List Char} (h : IsUnsigned ds t) : t ∉ openTexts := by
  rw [mem_openTexts]
  rintro (rfl | ⟨c, hc, rfl⟩)
  · cases h with
    | plain h => exact h.1 rfl
  · cases h with
    | plain h =>
        have hdigit := Grammar.isDigit_eq_false_of_isWildcardChar c hc
        rw [h.2 c List.mem_cons_self] at hdigit
        contradiction
    | plus h => exact absurd hc (by decide)

theorem parse_number_iff {s : String} {n : Number} : Component.parse s = .ok (.number n) ↔
    ∃ ds, IsUnsigned ds (Text.trim s.toList) ∧ Nat.ofDigitChars 10 ds 0 = n.toNat := by
  rw [← readUnsigned_eq_ok]
  by_cases h : Text.trim s.toList ∈ openTexts
  · refine iff_of_false (fun hn => ?_) fun hn => ?_
    · rcases mem_openTexts.1 h with h | ⟨c, hc, h⟩
      · simp [parse_blank h] at hn
      · simp [parse_wildcard hc h] at hn
    · obtain ⟨ds, hds, _⟩ := readUnsigned_eq_ok.1 hn
      exact notMem_openTexts hds h
  · rw [parse_of_notMem h, parse.number]
    cases readUnsigned (Text.trim s.toList) <;> simp

theorem parse_of_error {s : String} {fault : NumberFault} (h : Text.trim s.toList ∉ openTexts)
    (hfault : readUnsigned (Text.trim s.toList) = .error fault) :
    Component.parse s = .error (.field .component fault (.whole (Text.trim s.toList))) := by
  rw [parse_of_notMem h, parse.number, hfault]

/-- A component is read back from its text. -/
theorem parse_text (c : Component) : Component.parse c.text = .ok c := by
  cases c with
  | number n =>
      have htrim : Text.trim n.text.toList = n.text.toList :=
        Text.trim_eq_self_of_not_isBlank (Text.IsDotted.segment n.isSegment_text).not_isBlank
      rw [text, parse_number_iff, htrim]
      exact ⟨_, .plain ⟨n.text_ne_nil, n.isDigit_of_mem_text⟩,
        Number.ofDigits?_eq_some.1 n.ofDigits?_text⟩
  | absent => rfl
  | wildcard => rfl

/-- A component is read back from its text. A text is read as a number if and only if it is digits,
perhaps after a plus sign, whose value fits into 64 bits, and then the number is that value. Digits
of a larger value are too large, and what is neither digits nor an open text is a fault, which
spans the whole text. The digits are scanned one by one. -/
theorem parse_by_value :
    (∀ c : Component, Component.parse c.text = .ok c) ∧
    (∀ t, readUnsigned t = if withoutPlus t = [] then .error .invalidDigit
      else Number.scan 0 (withoutPlus t)) ∧
    ∀ (s : String) (t : List Char), Text.trim s.toList = t →
      (t = [] → Component.parse s = .ok .absent) ∧
      (t ∈ [['*'], ['x'], ['X']] → Component.parse s = .ok .wildcard) ∧
      (∀ n, Component.parse s = .ok (.number n) ↔ ∃ ds, IsUnsigned ds t ∧
        Nat.ofDigitChars 10 ds 0 < UInt64.size ∧ n.toNat = Nat.ofDigitChars 10 ds 0) ∧
      (∀ ds, IsUnsigned ds t → UInt64.size ≤ Nat.ofDigitChars 10 ds 0 →
        Component.parse s = .error (.field .component .tooLarge (.whole t))) ∧
      (t ∉ [[], ['*'], ['x'], ['X']] → (∀ n, Component.parse s ≠ .ok (.number n)) →
        ∃ fault, Component.parse s = .error (.field .component fault (.whole t))) := by
  refine ⟨parse_text, readUnsigned_eq, ?_⟩
  rintro s _ rfl
  refine ⟨parse_blank, fun h => ?_, fun n => ?_, fun ds hds hvalue => ?_, fun h hn => ?_⟩
  · have hopen : Text.trim s.toList ∈ openTexts := List.mem_cons_of_mem _ h
    rcases mem_openTexts.1 hopen with hnil | ⟨c, hc, h⟩
    · simp [hnil] at h
    · exact parse_wildcard hc h
  · rw [parse_number_iff]
    refine exists_congr fun ds => and_congr_right fun _ => ?_
    constructor
    · intro hvalue
      exact ⟨hvalue ▸ Nat.lt_succ_of_le n.le_max, hvalue.symm⟩
    · rintro ⟨_, hvalue⟩
      exact hvalue.symm
  · exact parse_of_error (notMem_openTexts hds) (readUnsigned_tooLarge hds hvalue)
  · cases hread : readUnsigned (Text.trim s.toList) with
    | error fault => exact ⟨fault, parse_of_error h hread⟩
    | ok n => exact absurd (parse_number_iff.2 (readUnsigned_eq_ok.1 hread)) (hn n)

/-- Zeros do not count, and one more is too much. -/
theorem parse_by_value_largest :
    let tooLarge := "18446744073709551616".toList
    Component.parse " +0018446744073709551615 " = .ok (.number 18446744073709551615) ∧
      IsUnsigned tooLarge tooLarge ∧ UInt64.size ≤ Nat.ofDigitChars 10 tooLarge 0 ∧
      Component.parse "18446744073709551616" =
        .error (.field .component .tooLarge (.whole tooLarge)) ∧
      (∀ n, Component.parse "1x" ≠ .ok (.number n)) ∧
      ∃ fault, Component.parse "1x" = .error (.field .component fault (.whole "1x".toList)) := by
  intro tooLarge
  have hlargest : IsUnsigned "0018446744073709551615".toList "+0018446744073709551615".toList :=
    .plus (by decide)
  have htooLarge : IsUnsigned tooLarge tooLarge := .plain (by decide)
  have hvalue : UInt64.size ≤ Nat.ofDigitChars 10 tooLarge 0 := by decide
  have hfault : ∀ n, Component.parse "1x" ≠ .ok (.number n) := fun n h => nomatch h
  obtain ⟨_, _, number, _⟩ := parse_by_value.2.2 " +0018446744073709551615 " _ rfl
  obtain ⟨_, _, _, overflow, _⟩ := parse_by_value.2.2 "18446744073709551616" tooLarge rfl
  obtain ⟨_, _, _, _, other⟩ := parse_by_value.2.2 "1x" _ rfl
  exact ⟨(number _).2 ⟨_, hlargest, by decide, by decide⟩, htooLarge, hvalue,
    overflow _ htooLarge hvalue, hfault, other (by decide) hfault⟩

end Component

end Versioning
