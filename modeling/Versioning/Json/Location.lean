import Versioning.Number

/-!
# Locations

The line and the column that a message about a text may end in. Lines count from one, and line zero
stands for no location. Main statement: a location is read back from the end of any text.
-/

namespace Versioning.Json

structure Location where
  line : Number
  column : Number
deriving DecidableEq

namespace Location

/-- Takes a number off the end of a text, and the label before it. -/
def labelled? (label : String) (s : List Char) : Option (List Char × Number) :=
  let digits := (s.reverse.takeWhile Char.isDigit).reverse
  let rest := (s.reverse.dropWhile Char.isDigit).reverse
  if digits ≠ [] ∧ label.toList.isSuffixOf rest then
    (Number.ofDigits? digits).map fun n => (rest.take (rest.length - label.toList.length), n)
  else none

/-- The location at the end of a text, and the text before it. -/
def ofText? (s : List Char) : Option (List Char × Location) :=
  (labelled? " column " s).bind fun (s, column) =>
    (labelled? " at line " s).map fun (s, line) => (s, ⟨line, column⟩)

/-- The text with the location after it. -/
def after (s : List Char) (l : Location) : List Char :=
  s ++ " at line ".toList ++ l.line.text.toList ++ " column ".toList ++ l.column.text.toList

theorem labelled?_append (label : String) (s : List Char) (n : Number)
    (hl : ∀ c ∈ label.toList.getLast?, c.isDigit = false) (hne : label.toList ≠ []) :
    labelled? label (s ++ label.toList ++ n.text.toList) = some (s, n) := by
  have hd : ∀ c ∈ n.text.toList.reverse, c.isDigit = true := by
    intro c hc
    rw [List.mem_reverse, Number.toList_text] at hc
    exact Nat.isDigit_of_mem_toDigits (by decide) (by decide) hc
  have hn : n.text.toList ≠ [] := by simp [Nat.toDigits_ne_nil]
  have hh : ∀ c ∈ (s ++ label.toList).reverse.head?, c.isDigit = false := by
    simpa [List.getLast?_append, Option.or_of_isSome, hne] using hl
  generalize hr : (s ++ label.toList).reverse = r at hh
  have htake : r.takeWhile Char.isDigit = [] := by
    cases r with
    | nil => rfl
    | cons c r => simp [hh c (by simp)]
  have hdrop : r.dropWhile Char.isDigit = r := by
    cases r with
    | nil => rfl
    | cons c r => simp [hh c (by simp)]
  simp only [labelled?]
  rw [List.reverse_append, hr, List.takeWhile_append_of_pos hd, List.dropWhile_append_of_pos hd,
    htake, hdrop]
  have hs : label.toList.isSuffixOf (s ++ label.toList) = true :=
    List.isSuffixOf_iff_suffix.2 (List.suffix_append s label.toList)
  rw [← hr, List.append_nil, List.reverse_reverse, List.reverse_reverse, if_pos ⟨hn, hs⟩,
    Number.ofDigits?_text]
  simp

/-- Writing a location after a text and reading it gives both back. -/
theorem ofText?_after (s : List Char) (l : Location) : ofText? (l.after s) = some (s, l) := by
  have hc := labelled?_append " column " (s ++ " at line ".toList ++ l.line.text.toList)
    l.column (by simp) (by simp)
  have hl := labelled?_append " at line " s l.line (by simp) (by simp)
  rw [ofText?, after, hc, Option.bind_some]
  dsimp only
  rw [hl, Option.map_some]

end Location

/-- The message with the location at its end written plainly: without leading zeros, and not at all
if its line is zero. -/
def withPlainLocation (message : String) : String :=
  match Location.ofText? message.toList with
  | some (before, l) => String.ofList (if l.line = 0 then before else l.after before)
  | none => message

/-- A location that is written plainly stays as it is, but one in line zero is taken off. -/
theorem withPlainLocation_after (s : List Char) (l : Location) :
    withPlainLocation (String.ofList (l.after s)) =
      String.ofList (if l.line = 0 then s else l.after s) := by
  rw [withPlainLocation, String.toList_ofList, Location.ofText?_after]

end Versioning.Json
