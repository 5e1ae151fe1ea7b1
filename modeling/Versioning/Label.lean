import Versioning.Text.Blank

/-!
# Labels

The free texts in a version: build metadata, and the words of a prerelease tag.
-/

namespace Versioning

/-- A text that is not empty and has no blanks at its ends. -/
structure Label where
  text : String
  trimmed : Text.trim text.toList = text.toList
  ne_empty : text ≠ ""
deriving DecidableEq, Hashable

namespace Label

@[ext] theorem ext {a b : Label} (h : a.text = b.text) : a = b := by
  cases a; cases b; cases h; rfl

/-- The text without the blanks at its ends; a blank text is no label. -/
def ofText? (s : String) : Option Label :=
  if h : Text.trim s.toList = [] then none
  else some {
    text := String.ofList (Text.trim s.toList)
    trimmed := by simp
    ne_empty := fun e => h (by simpa using congrArg String.toList e) }

/-- By the code points of the texts. -/
instance : Ord Label := ⟨fun a b => compare a.text b.text⟩

theorem toList_ne_nil (l : Label) : l.text.toList ≠ [] :=
  fun h => l.ne_empty (String.toList_inj.1 (by simpa using h))

@[simp] theorem ofText?_text (l : Label) : ofText? l.text = some l := by
  simp only [ofText?, l.trimmed, l.toList_ne_nil, dite_false]
  congr 1
  exact ext (by simp)

theorem ofText?_eq_none {s : String} : ofText? s = none ↔ Text.trim s.toList = [] := by
  simp [ofText?]

theorem toList_of_ofText? {s : String} {l : Label} (h : ofText? s = some l) :
    l.text.toList = Text.trim s.toList := by
  unfold ofText? at h
  split at h
  · contradiction
  · cases h; simp

instance : Std.TransOrd Label where
  eq_swap {a b} := Std.OrientedOrd.eq_swap (a := a.text) (b := b.text)
  isLE_trans {a b c} := Std.TransOrd.isLE_trans (a := a.text) (b := b.text) (c := c.text)

instance : Std.LawfulEqOrd Label where
  eq_of_compare {a b} h := ext (Std.LawfulEqOrd.eq_of_compare (a := a.text) (b := b.text) h)

end Label

end Versioning
