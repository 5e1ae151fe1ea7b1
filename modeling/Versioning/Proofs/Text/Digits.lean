import Versioning.Number
import Versioning.Text.Dotted

/-!
# Digits

A number has one text without leading zeros. So the text of the number that a run of digits stands
for is that run without its leading zeros, and a numeral is the text of its number. The number of a
tag is the last of the numerals in it.
-/

namespace Versioning

namespace Text

/-- Digits, at least one of them. -/
def IsDigits (s : List Char) : Prop :=
  s ≠ [] ∧ ∀ c ∈ s, c.isDigit = true

instance (s : List Char) : Decidable (IsDigits s) :=
  decidable_of_iff (s ≠ [] ∧ s.all Char.isDigit = true) (and_congr_right' List.all_eq_true)

/-- The digits without the zeros that are followed by another digit. -/
def dropZeros : List Char → List Char
  | '0' :: c :: s => dropZeros (c :: s)
  | s => s

theorem dropZeros_of_isNumeral {s : List Char} (h : isNumeral s = true) : dropZeros s = s := by
  unfold dropZeros
  split
  · simp [isNumeral] at h
  · rfl

/-- The last segment that is a numeral. -/
def lastNumeral? (s : List Char) : Option (List Char) :=
  ((segments s).filter isNumeral).getLast?

theorem lastNumeral?_eq_splitLast (s : List Char) :
    lastNumeral? s = (splitLast isNumeral (segments s)).map fun (_, numeral, _) => numeral := by
  rw [lastNumeral?]
  have filter_eq_nil {segs : List (List Char)} (h : ∀ seg ∈ segs, isNumeral seg = false) :
      segs.filter isNumeral = [] := by
    simpa using h
  cases hsplit : splitLast isNumeral (segments s) with
  | none => simp [filter_eq_nil (splitLast_eq_none.1 hsplit)]
  | some parts =>
      obtain ⟨before, numeral, after⟩ := parts
      obtain ⟨he, hlast, hnone⟩ := splitLast_eq_some.1 hsplit
      simp [he, hlast, filter_eq_nil hnone]

/-- Two digits or more, the first of which is zero. -/
def HasLeadingZero (s : List Char) : Prop :=
  1 < s.length ∧ s.head? = some '0' ∧ IsDigits s

instance (s : List Char) : Decidable (HasLeadingZero s) :=
  inferInstanceAs (Decidable (_ ∧ _))

/-- Numerals are the digits without leading zeros. -/
theorem isNumeral_iff {s : List Char} :
    isNumeral s = true ↔ IsDigits s ∧ ¬ HasLeadingZero s := by
  unfold isNumeral
  split
  · simp [IsDigits]
  · exact iff_of_true rfl (by decide)
  · rename_i c s hzero
    rw [Bool.and_eq_true, bne_iff_ne, List.all_eq_true]
    constructor
    · rintro ⟨hc, hd⟩
      exact ⟨⟨by simp, hd⟩, fun h => hc (by simpa using h.2.1)⟩
    · rintro ⟨hd, hlead⟩
      refine ⟨?_, hd.2⟩
      rintro rfl
      cases s with
      | nil => exact hzero rfl rfl
      | cons d s => exact hlead ⟨by simp, rfl, hd⟩

/-- The last segment of digits. -/
def lastDigits? (s : List Char) : Option (List Char) :=
  ((segments s).filter fun seg => decide (IsDigits seg)).getLast?

theorem lastDigits?_eq_lastNumeral? {s : List Char}
    (h : ∀ seg ∈ segments s, ¬ HasLeadingZero seg) : lastDigits? s = lastNumeral? s := by
  have hfilter : ∀ seg ∈ segments s, decide (IsDigits seg) = isNumeral seg := by
    intro seg hseg
    rw [Bool.eq_iff_iff, decide_eq_true_iff, isNumeral_iff]
    exact (and_iff_left (h seg hseg)).symm
  rw [lastDigits?, lastNumeral?, List.filter_congr hfilter]

/-- A digit is the text of its value. -/
theorem toDigits_digit {c : Char} (h : c.isDigit = true) :
    c.toNat - '0'.toNat < 10 ∧ Nat.toDigits 10 (c.toNat - '0'.toNat) = [c] := by
  obtain ⟨hl, hu⟩ : 48 ≤ c.toNat ∧ c.toNat ≤ 57 := by
    obtain ⟨hl, hu⟩ := Bool.and_eq_true_iff.1 h
    exact ⟨of_decide_eq_true hl, of_decide_eq_true hu⟩
  have hlt : c.toNat - '0'.toNat < 10 := by
    change c.toNat - 48 < 10
    omega
  have hchar : Nat.digitChar (c.toNat - '0'.toNat) = c := by
    apply Char.toNat_inj.1
    rw [Nat.toNat_digitChar_of_lt_ten hlt]
    change 48 + (c.toNat - 48) = c.toNat
    omega
  exact ⟨hlt, by rw [Nat.toDigits_of_lt_base hlt, hchar]⟩

/-- Digits after a number that is not zero go on with its text. -/
theorem toDigits_ofDigitChars_append {n : Nat} (hn : 0 < n) {ds : List Char}
    (h : ∀ c ∈ ds, c.isDigit = true) :
    Nat.toDigits 10 (Nat.ofDigitChars 10 ds n) = Nat.toDigits 10 n ++ ds := by
  induction ds generalizing n with
  | nil => simp [Nat.ofDigitChars]
  | cons c ds ih =>
      obtain ⟨hc, hds⟩ := List.forall_mem_cons.1 h
      obtain ⟨hlt, hdigit⟩ := toDigits_digit hc
      have hstep := Nat.toDigits_append_toDigits (by decide) hn hlt
      rw [Nat.ofDigitChars_cons, ih (by omega) hds, ← hstep, hdigit, List.append_assoc]
      rfl

theorem toDigits_ofDigitChars {ds : List Char} (h : IsDigits ds) :
    Nat.toDigits 10 (Nat.ofDigitChars 10 ds 0) = dropZeros ds := by
  fun_induction dropZeros ds with
  | case1 c s ih =>
      rw [← ih ⟨by simp, (List.forall_mem_cons.1 h.2).2⟩]
      rfl
  | case2 s hzeros =>
      obtain ⟨c, s, rfl⟩ := List.exists_cons_of_ne_nil h.1
      obtain ⟨hc, hs⟩ := List.forall_mem_cons.1 h.2
      have hdigit := (toDigits_digit hc).2
      rw [Nat.ofDigitChars_cons, Nat.mul_zero, Nat.zero_add]
      cases s with
      | nil => exact hdigit
      | cons d s =>
          have hpos : 0 < c.toNat - '0'.toNat := by
            apply Nat.pos_of_ne_zero
            intro hzero
            rw [hzero] at hdigit
            obtain rfl : '0' = c := List.cons.inj hdigit |>.1
            exact hzeros d s rfl
          rw [toDigits_ofDigitChars_append hpos hs, hdigit]
          rfl

end Text

theorem Number.toList_text_of_isDigits {n : Number} {ds : List Char} (h : Text.IsDigits ds)
    (hn : Nat.ofDigitChars 10 ds 0 = n.toNat) : n.text.toList = Text.dropZeros ds := by
  rw [toList_text, ← hn, Text.toDigits_ofDigitChars h]

theorem Text.isDigits_of_isNumeral {s : List Char} (h : isNumeral s = true) : IsDigits s := by
  refine ⟨?_, List.all_eq_true.1 (isDigit_of_isNumeral h)⟩
  rintro rfl
  contradiction

/-- A numeral is the text of the number that it stands for. -/
theorem Number.toList_text_of_isNumeral {n : Number} {s : List Char} (h : Text.isNumeral s = true)
    (hn : Nat.ofDigitChars 10 s 0 = n.toNat) : n.text.toList = s := by
  rw [toList_text_of_isDigits (Text.isDigits_of_isNumeral h) hn, Text.dropZeros_of_isNumeral h]

end Versioning
