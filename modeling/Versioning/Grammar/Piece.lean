import Versioning.Text.Dotted
import Versioning.Text.Excerpt

/-!
# Pieces

Readers take a text and give what they read at its head, together with the text after it. A piece
is a run of characters that was read, and the text after it; that text tells where in the whole
input the piece stands.

Every reader that succeeds takes something off the head (`Follows`), so that repetitions end.
-/

namespace Versioning.Grammar

/-- The text `r` is left of `s` after something was taken off the head. -/
def Follows (r s : List Char) : Prop :=
  ∃ t ≠ [], s = t ++ r

theorem Follows.length_lt {r s : List Char} (h : Follows r s) : r.length < s.length := by
  obtain ⟨t, ht, rfl⟩ := h
  have := List.length_pos_iff.2 ht
  simp; omega

theorem Follows.isSuffix {r s : List Char} (h : Follows r s) : r <:+ s := by
  obtain ⟨t, _, rfl⟩ := h
  exact List.suffix_append t r

theorem Follows.trans_isSuffix {q r s : List Char} (h : q <:+ r) (hr : Follows r s) :
    Follows q s := by
  obtain ⟨u, rfl⟩ := h
  obtain ⟨t, ht, rfl⟩ := hr
  exact ⟨t ++ u, by simp [ht], by simp⟩

theorem Follows.of_isSuffix {q r s : List Char} (h : Follows q r) (hr : r <:+ s) : Follows q s := by
  obtain ⟨t, ht, rfl⟩ := h
  obtain ⟨u, rfl⟩ := hr
  exact ⟨u ++ t, by simp [ht], by simp⟩

theorem Follows.trans {q r s : List Char} (h : Follows q r) (hr : Follows r s) : Follows q s :=
  h.of_isSuffix hr.isSuffix

theorem Follows.cons (c : Char) (s : List Char) : Follows s (c :: s) :=
  ⟨[c], by simp, rfl⟩

structure Piece where
  text : List Char
  after : List Char
deriving DecidableEq

namespace Piece

def cons (c : Char) (p : Piece) : Piece :=
  ⟨c :: p.text, p.after⟩

@[simp] theorem text_cons (c : Char) (p : Piece) : (p.cons c).text = c :: p.text := rfl

@[simp] theorem after_cons (c : Char) (p : Piece) : (p.cons c).after = p.after := rfl

/-- The place of the piece in the input that it was read from. -/
def placeIn (p : Piece) (input : List Char) : Text.Excerpt :=
  ⟨input.take (input.length - (p.text.length + p.after.length)), p.text, p.after⟩

theorem source_placeIn {p : Piece} {input : List Char} (h : p.text ++ p.after <:+ input) :
    (p.placeIn input).source = input := by
  obtain ⟨t, rfl⟩ := h
  have (n : Nat) : t.length + n - n = t.length := by omega
  simp [placeIn, Text.Excerpt.source, this]

end Piece

/-- The longest run of characters of a class, which must not be empty. -/
def run? (p : Char → Bool) (s : List Char) : Option Piece :=
  if s.takeWhile p = [] then none else some ⟨s.takeWhile p, s.dropWhile p⟩

def digits? : List Char → Option Piece :=
  run? Char.isDigit

/-- The segments and dots after a segment character. A dot counts only before another segment. -/
def moreDotted : List Char → Piece
  | '.' :: c :: s =>
    if Text.isSegmentChar c then ((moreDotted s).cons c).cons '.' else ⟨[], '.' :: c :: s⟩
  | c :: s => if Text.isSegmentChar c then (moreDotted s).cons c else ⟨[], c :: s⟩
  | [] => ⟨[], []⟩

/-- The longest dotted text: segments that are not empty, with single dots between them. -/
def dotted? : List Char → Option Piece
  | c :: s => if Text.isSegmentChar c then some ((moreDotted s).cons c) else none
  | [] => none

theorem run?_eq_some {p : Char → Bool} {s : List Char} {q : Piece} :
    run? p s = some q ↔ s.takeWhile p ≠ [] ∧ q = ⟨s.takeWhile p, s.dropWhile p⟩ := by
  unfold run?
  split <;> simp [*, eq_comm (a := q)]

theorem run?_eq_none {p : Char → Bool} {s : List Char} : run? p s = none ↔ s.takeWhile p = [] := by
  simp [run?]

theorem run?_append {p : Char → Bool} {s : List Char} {q : Piece} (h : run? p s = some q) :
    s = q.text ++ q.after := by
  obtain ⟨_, rfl⟩ := run?_eq_some.1 h
  exact List.takeWhile_append_dropWhile.symm

theorem run?_text_ne_nil {p : Char → Bool} {s : List Char} {q : Piece} (h : run? p s = some q) :
    q.text ≠ [] := by
  obtain ⟨hne, rfl⟩ := run?_eq_some.1 h
  exact hne

theorem run?_follows {p : Char → Bool} {s : List Char} {q : Piece} (h : run? p s = some q) :
    Follows q.after s :=
  ⟨q.text, run?_text_ne_nil h, run?_append h⟩

theorem digits?_follows {s : List Char} {q : Piece} (h : digits? s = some q) : Follows q.after s :=
  run?_follows h

@[simp] theorem moreDotted_append (s : List Char) :
    (moreDotted s).text ++ (moreDotted s).after = s := by
  fun_induction moreDotted s <;> simp_all

theorem dotted?_append {s : List Char} {q : Piece} (h : dotted? s = some q) :
    s = q.text ++ q.after := by
  cases s with
  | nil => contradiction
  | cons c s =>
    simp only [dotted?] at h
    split at h
    · cases h; simp
    · contradiction

theorem dotted?_text_ne_nil {s : List Char} {q : Piece} (h : dotted? s = some q) : q.text ≠ [] := by
  cases s with
  | nil => contradiction
  | cons c s =>
    simp only [dotted?] at h
    split at h
    · cases h; simp
    · contradiction

theorem dotted?_follows {s : List Char} {q : Piece} (h : dotted? s = some q) : Follows q.after s :=
  ⟨q.text, dotted?_text_ne_nil h, dotted?_append h⟩

end Versioning.Grammar
