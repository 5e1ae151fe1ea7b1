/-!
# Dotted texts

The texts of tags and builds: segments of letters, digits and hyphens, with dots between them. A
segment may be a numeral.
-/

namespace Versioning.Text

/-- ASCII letters, digits and the hyphen. -/
def isSegmentChar (c : Char) : Bool :=
  c.isAlphanum || c == '-'

/-- Whether the segment is `0`, or digits of which the first is not `0`. -/
def isNumeral : List Char → Bool
  | [] => false
  | ['0'] => true
  | c :: s => c != '0' && (c :: s).all Char.isDigit

def segments (s : List Char) : List (List Char) :=
  s.splitOn '.'

def joinSegments (segs : List (List Char)) : List Char :=
  ['.'].intercalate segs

@[simp] theorem joinSegments_segments (s : List Char) : joinSegments (segments s) = s :=
  List.intercalate_splitOn '.'

theorem segments_joinSegments {segs : List (List Char)} (h : ∀ seg ∈ segs, '.' ∉ seg)
    (hne : segs ≠ []) : segments (joinSegments segs) = segs :=
  List.splitOn_intercalate '.' h hne

theorem segments_ne_nil (s : List Char) : segments s ≠ [] :=
  List.splitOn_ne_nil '.' s

theorem isDigit_of_isNumeral {s : List Char} (h : isNumeral s = true) :
    s.all Char.isDigit = true := by
  match s, h with
  | ['0'], _ => rfl
  | c :: d :: s, h => simp [isNumeral] at h; simpa using h.2
  | [c], h =>
    by_cases hc : c = '0'
    · subst hc; rfl
    · simp [isNumeral, hc] at h; simp [h]

/-- The last element that passes the test, and the elements on both sides of it. -/
def splitLast {α : Type} (p : α → Bool) : List α → Option (List α × α × List α)
  | [] => none
  | x :: xs =>
    match splitLast p xs with
    | some (before, y, after) => some (x :: before, y, after)
    | none => if p x then some ([], x, xs) else none

theorem splitLast_eq_none {α : Type} {p : α → Bool} {xs : List α} :
    splitLast p xs = none ↔ ∀ x ∈ xs, p x = false := by
  induction xs with
  | nil => simp [splitLast]
  | cons x xs ih =>
    cases h : splitLast p xs with
    | some r => simp [splitLast, h, ← ih]
    | none => cases hx : p x <;> simp [splitLast, h, hx, ← ih]

theorem splitLast_eq_some {α : Type} {p : α → Bool} {xs before after : List α} {y : α} :
    splitLast p xs = some (before, y, after) ↔
      xs = before ++ y :: after ∧ p y = true ∧ ∀ z ∈ after, p z = false := by
  induction xs generalizing before with
  | nil => simp [splitLast]
  | cons x xs ih =>
    cases before with
    | nil =>
      rw [← splitLast_eq_none]
      constructor
      · intro h
        simp only [splitLast] at h
        split at h
        · simp at h
        · split at h
          · cases h; exact ⟨rfl, ‹_›, ‹_›⟩
          · contradiction
      · rintro ⟨he, hy, hn⟩
        cases he
        simp [splitLast, hy, hn]
    | cons b before =>
      constructor
      · intro h
        simp only [splitLast] at h
        split at h
        · cases h
          obtain ⟨he, hp⟩ := ih.1 ‹_›
          exact ⟨by rw [he]; rfl, hp⟩
        · split at h <;> simp at h
      · rintro ⟨he, hp⟩
        obtain ⟨rfl, rfl⟩ := List.cons.inj he
        have hs := ih.2 ⟨rfl, hp⟩
        simp only [List.append_eq] at hs
        simp [splitLast, hs]

end Versioning.Text
