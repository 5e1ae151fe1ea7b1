import Versioning.Label

/-!
# Build metadata

The part of a version after `+`. It is opaque, and it only breaks ties.
-/

namespace Versioning

structure Build where
  label? : Option Label
deriving DecidableEq, Hashable

namespace Build

def none : Build := ⟨.none⟩

instance : Inhabited Build := ⟨none⟩

/-- A blank text is no metadata. -/
def ofText (s : String) : Build :=
  ⟨Label.ofText? s⟩

def isNone (b : Build) : Bool :=
  b.label?.isNone

def text (b : Build) : String :=
  b.label?.elim "" Label.text

/-- No metadata comes before any metadata, and metadata goes by its text. -/
instance : Ord Build := ⟨fun a b => compare a.label? b.label?⟩

@[simp] theorem text_none : none.text = "" := rfl

@[simp] theorem isNone_none : none.isNone = true := rfl

theorem isNone_iff {b : Build} : b.isNone = true ↔ b = none := by
  rcases b with ⟨_ | l⟩ <;> simp [isNone, none]

@[simp] theorem ofText_text (b : Build) : ofText b.text = b := by
  rcases b with ⟨_ | l⟩
  · rfl
  · simp [text, ofText]

instance : Std.TransOrd Build where
  eq_swap {a b} := Std.OrientedOrd.eq_swap (a := a.label?) (b := b.label?)
  isLE_trans {a b c} := Std.TransOrd.isLE_trans (a := a.label?) (b := b.label?) (c := c.label?)

instance : Std.LawfulEqOrd Build where
  eq_of_compare {a b} h := by
    cases a; cases b
    exact congrArg mk (Std.LawfulEqOrd.eq_of_compare h)

end Build

end Versioning
