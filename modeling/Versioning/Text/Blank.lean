/-!
# Blank characters

What counts as blank at the ends of a text, and the text without those ends.
-/

namespace Versioning.Text

/-- The characters with the Unicode property `White_Space`. -/
def isBlank (c : Char) : Bool :=
  let n := c.toNat
  (0x09 ≤ n && n ≤ 0x0d) || n == 0x20 || n == 0x85 || n == 0xa0 || n == 0x1680 ||
    (0x2000 ≤ n && n ≤ 0x200a) || n == 0x2028 || n == 0x2029 || n == 0x202f || n == 0x205f ||
    n == 0x3000

def trimEnd (s : List Char) : List Char :=
  (s.reverse.dropWhile isBlank).reverse

/-- The text without the blanks at both ends. -/
def trim (s : List Char) : List Char :=
  trimEnd (s.dropWhile isBlank)

@[simp] theorem trim_nil : trim [] = [] := rfl

theorem dropWhile_eq_self {p : Char → Bool} {s : List Char} (h : ∀ c ∈ s.head?, p c = false) :
    s.dropWhile p = s := by
  cases s with
  | nil => rfl
  | cons c s => simp [List.dropWhile, h c (by simp)]

theorem head?_dropWhile_not {p : Char → Bool} (s : List Char) :
    ∀ c ∈ (s.dropWhile p).head?, p c = false := by
  induction s with
  | nil => simp
  | cons c s ih =>
    cases hc : p c with
    | true => simpa [List.dropWhile, hc] using ih
    | false => simp [List.dropWhile, hc]

theorem trimEnd_eq_self {s : List Char} (h : ∀ c ∈ s.getLast?, isBlank c = false) :
    trimEnd s = s := by
  rw [trimEnd, dropWhile_eq_self (by simpa using h), List.reverse_reverse]

theorem trim_eq_self {s : List Char} (hd : ∀ c ∈ s.head?, isBlank c = false)
    (hl : ∀ c ∈ s.getLast?, isBlank c = false) : trim s = s := by
  rw [trim, dropWhile_eq_self hd, trimEnd_eq_self hl]

theorem head?_trimEnd {s : List Char} (h : ∀ c ∈ s.head?, isBlank c = false) :
    ∀ c ∈ (trimEnd s).head?, isBlank c = false := by
  cases s with
  | nil => simp [trimEnd]
  | cons a s =>
    have ha : isBlank a = false := h a (by simp)
    have : ∃ t, (s.reverse ++ [a]).dropWhile isBlank = t ++ [a] := by
      generalize s.reverse = r
      induction r with
      | nil => exact ⟨[], by simp [ha]⟩
      | cons b r ih =>
        cases hb : isBlank b with
        | true => simpa [List.dropWhile, hb] using ih
        | false => exact ⟨b :: r, by simp [hb]⟩
    obtain ⟨t, ht⟩ := this
    simp [trimEnd, ht, ha]

theorem head?_trim (s : List Char) : ∀ c ∈ (trim s).head?, isBlank c = false :=
  head?_trimEnd (head?_dropWhile_not s)

theorem getLast?_trim (s : List Char) : ∀ c ∈ (trim s).getLast?, isBlank c = false := by
  simpa [trim, trimEnd] using head?_dropWhile_not (p := isBlank) (s.dropWhile isBlank).reverse

@[simp] theorem trim_trim (s : List Char) : trim (trim s) = trim s :=
  trim_eq_self (head?_trim s) (getLast?_trim s)

end Versioning.Text
