/-!
# Excerpts

A part of a text together with what stands around it, and its position in bytes.
-/

namespace Versioning.Text

/-- The length of a text in UTF-8. -/
def byteLength : List Char → Nat
  | [] => 0
  | c :: s => c.utf8Size + byteLength s

@[simp] theorem byteLength_nil : byteLength [] = 0 := rfl

@[simp] theorem byteLength_cons (c : Char) (s : List Char) :
    byteLength (c :: s) = c.utf8Size + byteLength s := rfl

@[simp] theorem byteLength_append (s t : List Char) :
    byteLength (s ++ t) = byteLength s + byteLength t := by
  induction s with
  | nil => simp
  | cons c s ih => simp [ih, Nat.add_assoc]

structure Excerpt where
  before : List Char
  text : List Char
  after : List Char
deriving DecidableEq

namespace Excerpt

def whole (s : List Char) : Excerpt :=
  ⟨[], s, []⟩

/-- The text that the excerpt is taken from. -/
def source (e : Excerpt) : List Char :=
  e.before ++ e.text ++ e.after

def offset (e : Excerpt) : Nat :=
  byteLength e.before

def length (e : Excerpt) : Nat :=
  byteLength e.text

@[simp] theorem source_whole (s : List Char) : (whole s).source = s := by
  simp [whole, source]

theorem offset_add_length_le (e : Excerpt) : e.offset + e.length ≤ byteLength e.source := by
  simp [offset, length, source]

end Excerpt

end Versioning.Text
