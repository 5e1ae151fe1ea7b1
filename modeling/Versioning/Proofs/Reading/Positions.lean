import Versioning.Proofs.Grammar.Whole
import Versioning.Proofs.Reading.Items
import Versioning.Proofs.Text.Digits

/-!
# Where items stand

The items of a text stand one after the other, and the digits of an item are a part of the text that
it was read from. So the order in which items are converted is the order of their offsets.
-/

namespace Versioning.Grammar

open Text (IsDigits byteLength)

/-! ## Pieces -/

namespace Piece

/-- The piece and the text after it are the end of `s`. -/
def StandsIn (p : Piece) (s : List Char) : Prop :=
  p.text ++ p.after <:+ s

theorem StandsIn.of_isSuffix {p : Piece} {s t : List Char} (h : p.StandsIn t) (ht : t <:+ s) :
    p.StandsIn s :=
  List.IsSuffix.trans h ht

theorem placeIn_append (p : Piece) (before : List Char) :
    p.placeIn (before ++ (p.text ++ p.after)) = ⟨before, p.text, p.after⟩ := by
  have (n : Nat) : before.length + n - n = before.length := by omega
  simp [placeIn, this]

/-- What stands in the rest of a piece starts after it, since a piece is not empty. -/
theorem offset_lt {p q : Piece} {input : List Char} (hp : p.StandsIn input) (hne : p.text ≠ [])
    (hq : q.StandsIn p.after) : (p.placeIn input).offset < (q.placeIn input).offset := by
  obtain ⟨before, rfl⟩ := hp
  obtain ⟨between, hbetween⟩ := hq
  have hinput : before ++ (p.text ++ p.after) =
      (before ++ p.text ++ between) ++ (q.text ++ q.after) := by
    simp [← hbetween]
  have hpos : 0 < byteLength p.text := by
    obtain ⟨c, s, hc⟩ := List.exists_cons_of_ne_nil hne
    rw [hc, Text.byteLength_cons]
    exact Nat.add_pos_left c.utf8Size_pos _
  rw [placeIn_append, hinput, placeIn_append]
  simp only [Text.Excerpt.offset, Text.byteLength_append]
  omega

end Piece

/-! ## Fragments -/

/-- The piece is digits of `s`. -/
def Piece.IsDigitsIn (p : Piece) (s : List Char) : Prop :=
  p.StandsIn s ∧ IsDigits p.text

theorem Piece.IsDigitsIn.of_isSuffix {p : Piece} {s t : List Char} (h : p.IsDigitsIn t)
    (ht : t <:+ s) : p.IsDigitsIn s :=
  ⟨h.1.of_isSuffix ht, h.2⟩

theorem forall_mem_fragment {P : Field × Piece → Prop} {field : Field} {digits? : Option Piece} :
    (∀ q ∈ fragment field digits?, P q) ↔ ∀ p ∈ digits?, P (field, p) := by
  simp [fragment]

section

variable {s r : List Char}

theorem NumberForm.isDigitsIn {p : Piece} (h : NumberForm p s r) : p.IsDigitsIn s := by
  cases h with
  | digits hne h => exact ⟨List.suffix_refl _, hne, h⟩

theorem SlotForm.isDigitsIn {x : Slot} (h : SlotForm x s r) : ∀ p ∈ x.digits?, p.IsDigitsIn s := by
  cases h with
  | number h => simpa [Slot.digits?] using h.isDigitsIn
  | wildcard _ => simp [Slot.digits?]

theorem ReleaseForm.isDigitsIn {σ : Type} {slot : Form σ} {digits? : σ → Option Piece}
    {x : ReleaseText σ} (hsuffix : ∀ {y u v}, slot y u v → v <:+ u)
    (hslot : ∀ {y u v}, slot y u v → ∀ p ∈ digits? y, p.IsDigitsIn u) (h : ReleaseForm slot x s r) :
    ∀ q ∈ x.fragments digits?, q.2.IsDigitsIn s := by
  have hdot {u v : List Char} (h : '.' :: u <:+ v) : u <:+ v := (List.suffix_cons _ _).trans h
  cases h with
  | single hm => simpa using hm.isDigitsIn
  | pair hm hn =>
      have hn := fun p hmem => (hslot hn p hmem).of_isSuffix (hdot hm.whole.isSuffix)
      rw [ReleaseText.fragments_pair, List.forall_mem_cons, forall_mem_fragment]
      exact ⟨hm.isDigitsIn, hn⟩
  | triple hm hn hp =>
      have ht := hdot hm.whole.isSuffix
      have hp := fun p hmem => (hslot hp p hmem).of_isSuffix ((hdot (hsuffix hn)).trans ht)
      have hn := fun p hmem => (hslot hn p hmem).of_isSuffix ht
      rw [ReleaseText.fragments_triple, List.forall_mem_cons, List.forall_mem_append,
        forall_mem_fragment, forall_mem_fragment]
      exact ⟨hm.isDigitsIn, hn, hp⟩

theorem DottedForm.isDigitsIn {dotted : Piece} (h : DottedForm dotted s r) :
    ∀ p ∈ dotted.lastNumeral?, p.IsDigitsIn s := by
  intro p hp
  obtain ⟨⟨before, numeral, after⟩, hsplit, rfl⟩ := Option.map_eq_some_iff.1 hp
  obtain ⟨hsegments, hnumeral, _⟩ := Text.splitLast_eq_some.1 hsplit
  refine ⟨?_, Text.isDigits_of_isNumeral hnumeral⟩
  cases h with
  | @segments w _ _ =>
      obtain ⟨t, ht : _ = w⟩ := Text.isSuffix_of_segments hsegments
      exact ⟨t, by simp [← ht]⟩

theorem ExactForm.isDigitsIn {v : ExactText} (h : ExactForm v s r) :
    ∀ q ∈ v.fragments, q.2.IsDigitsIn s := by
  rw [ExactText.fragments, List.forall_mem_append, forall_mem_fragment]
  cases h with
  | intro hx hp _ =>
      have ht :=
        (hx.whole Piece.followedBy_followedBy NumberForm.followedBy NumberForm.whole).isSuffix
      refine ⟨?_, hx.isDigitsIn (fun h => h.whole.isSuffix) ?_⟩
      · cases hp with
        | absent => simp
        | present hp =>
            exact fun p hmem => (hp.isDigitsIn p hmem).of_isSuffix ((List.suffix_cons _ _).trans ht)
      · rintro y u v hy _ ⟨⟩
        exact hy.isDigitsIn

end

/-! ## Items -/

inductive ItemForm : Form Item
  | exact {v : ExactText} {s r : List Char} (h : ExactForm v s r) :
      ItemForm (.version (.exact v)) s r
  | pattern {w : PatternText} {s r : List Char} (h : PatternForm w s r) :
      ItemForm (.version (.pattern w)) s r
  | tag {dotted : Piece} {s r : List Char} (h : DottedForm dotted s r) : ItemForm (.tag dotted) s r

/-- The piece at the head of the item. -/
def Item.head : Item → Piece
  | version (.exact v) => v.release.major
  | version (.pattern w) => w.major
  | tag dotted => dotted

/-- The position of the item in bytes. -/
def Item.offset (input : List Char) (x : Item) : Nat :=
  (x.head.placeIn input).offset

section

variable {s r : List Char} {x : Item}

theorem ItemForm.isDigitsIn (h : ItemForm x s r) : ∀ q ∈ x.fragments, q.2.IsDigitsIn s := by
  cases h with
  | exact h => exact h.isDigitsIn
  | pattern h => exact h.isDigitsIn (fun h => h.whole.isSuffix) SlotForm.isDigitsIn
  | tag h => exact forall_mem_fragment.2 h.isDigitsIn

theorem ItemForm.isSuffix (h : ItemForm x s r) : r <:+ s := by
  cases h with
  | exact h => exact h.whole.isSuffix
  | pattern h => exact (PatternForm.whole h).isSuffix
  | tag h => exact h.whole.isSuffix

/-- The major comes first, and everything else of the release after it. -/
theorem ReleaseForm.exists_major {σ : Type} {slot : Form σ} {x : ReleaseText σ}
    (hsuffix : ∀ {y u v}, slot y u v → v <:+ u) (h : ReleaseForm slot x s r) :
    ∃ t, NumberForm x.major s t ∧ r <:+ t := by
  cases h with
  | single hm => exact ⟨_, hm, List.suffix_refl _⟩
  | pair hm hn => exact ⟨_, hm, (hsuffix hn).trans (List.suffix_cons _ _)⟩
  | triple hm hn hp =>
      exact ⟨_, hm, (hsuffix hp).trans <| (List.suffix_cons _ _).trans <|
        (hsuffix hn).trans (List.suffix_cons _ _)⟩

/-- An item starts with its head, which is not empty. -/
theorem ItemForm.head (h : ItemForm x s r) :
    x.head.text ≠ [] ∧ s = x.head.text ++ x.head.after ∧ r <:+ x.head.after := by
  have number {p : Piece} {t : List Char} (h : NumberForm p s t) (ht : r <:+ t) :
      p.text ≠ [] ∧ s = p.text ++ p.after ∧ r <:+ p.after := by
    cases h with
    | digits hne _ => exact ⟨hne, rfl, ht⟩
  cases h with
  | exact h =>
      cases h with
      | intro hx hp hb =>
          obtain ⟨t, hm, ht⟩ := hx.exists_major fun h => h.whole.isSuffix
          exact number hm (hb.whole.isSuffix.trans (hp.whole.isSuffix.trans ht))
  | pattern h =>
      obtain ⟨t, hm, ht⟩ := h.exists_major fun h => h.whole.isSuffix
      exact number hm ht
  | tag h =>
      cases h with
      | segments h => exact ⟨h.ne_nil, rfl, List.suffix_refl _⟩

end

/-! ## Sequences -/

/-- The items stand one after the other in `s`, and `r` is after them. -/
inductive Sequence : List Item → List Char → List Char → Prop
  | nil {s r : List Char} (h : r <:+ s) : Sequence [] s r
  | cons {x : Item} {xs : List Item} {s t u r : List Char} (ht : t <:+ s) (hx : ItemForm x t u)
      (hxs : Sequence xs u r) : Sequence (x :: xs) s r

namespace Sequence

variable {xs ys : List Item} {s t r : List Char}

theorem single {x : Item} (ht : t <:+ s) (hx : ItemForm x t r) : Sequence [x] s r :=
  .cons ht hx (.nil (List.suffix_refl r))

theorem of_isSuffix (h : Sequence xs t r) (ht : t <:+ s) : Sequence xs s r := by
  cases h with
  | nil h => exact .nil (h.trans ht)
  | cons ht' hx hxs => exact .cons (ht'.trans ht) hx hxs

theorem append (hx : Sequence xs s t) (hy : Sequence ys t r) : Sequence (xs ++ ys) s r := by
  induction hx with
  | nil h => exact hy.of_isSuffix h
  | cons ht hx _ ih => exact .cons ht hx (ih hy)

theorem exists_form (h : Sequence xs s r) : ∀ x ∈ xs, ∃ t u, t <:+ s ∧ ItemForm x t u := by
  induction h with
  | nil _ => simp
  | cons ht hx hxs ih =>
      refine List.forall_mem_cons.2 ⟨⟨_, _, ht, hx⟩, fun y hy => ?_⟩
      obtain ⟨v, w, hv, hform⟩ := ih y hy
      exact ⟨v, w, hv.trans (hx.isSuffix.trans ht), hform⟩

/-- The digits of the items are digits of the text. -/
theorem isDigitsIn (h : Sequence xs s r) : ∀ x ∈ xs, ∀ q ∈ x.fragments, q.2.IsDigitsIn s := by
  intro x hx q hq
  obtain ⟨t, u, ht, hform⟩ := h.exists_form x hx
  exact (hform.isDigitsIn q hq).of_isSuffix ht

/-- The items stand from left to right. -/
theorem pairwise_offset {input : List Char} (h : Sequence xs s r) (hs : s <:+ input) :
    xs.Pairwise fun x y => x.offset input < y.offset input := by
  induction h with
  | nil _ => exact .nil
  | cons ht hx hxs ih =>
      have ht := ht.trans hs
      refine .cons (fun y hy => ?_) (ih (hx.isSuffix.trans ht))
      obtain ⟨v, w, hv, hform⟩ := hxs.exists_form y hy
      obtain ⟨hne, rfl, hafter⟩ := hx.head
      obtain ⟨_, rfl, _⟩ := hform.head
      exact Piece.offset_lt ht hne (hv.trans hafter)

end Sequence

/-! ## The versions of a range -/

section

variable {s r : List Char}

theorem BoundForm.item {x : VersionText} (h : BoundForm x s r) : ItemForm (.version x) s r := by
  cases h with
  | exact h => exact .exact h
  | pattern h => exact .pattern h

theorem MarkedForm.sequence {form : VersionText → AlternativeText} {a : AlternativeText}
    (hversions : ∀ v, (form v).versions = [v]) (h : MarkedForm form a s r) :
    Sequence (a.versions.map .version) s r := by
  cases h with
  | plain hs hv =>
      rw [hversions]
      exact .single hs.isSuffix hv.item
  | pinned hs hv => exact .single (hs.isSuffix.trans (List.suffix_cons _ _)) hv.item

/-- The versions of an alternative stand in the order in which they are listed. -/
theorem AlternativeForm.sequence {a : AlternativeText} (h : AlternativeForm a s r) :
    Sequence (a.versions.map .version) s r := by
  cases h with
  | spacedHyphen hl ht hu hv =>
      have hbetween := hu.isSuffix.trans ((List.suffix_cons _ _).trans ht.isSuffix)
      exact .cons (List.suffix_refl _) hl.item (.single hbetween hv.item)
  | tightHyphen hl _ ht hu hv =>
      have hbetween := hu.isSuffix.trans ((List.suffix_cons _ _).trans ht.isSuffix)
      exact .cons (List.suffix_refl _) (.pattern hl) (.single hbetween hv.item)
  | caret h | tilde h => exact (h.sequence fun _ => rfl).of_isSuffix (List.suffix_cons _ _)
  | tildeGreater h =>
      exact (h.sequence fun _ => rfl).of_isSuffix
        ((List.suffix_cons _ _).trans (List.suffix_cons _ _))
  | comparison operator hs hv => exact .single (hs.isSuffix.trans (List.suffix_append _ _)) hv.item
  | any h => exact .nil h.isSuffix
  | anyEqual operator _ h => exact .nil (h.isSuffix.trans (List.suffix_append _ _))
  | plain h => exact .single (List.suffix_refl _) h.item

theorem RangeForm.sequence {as : List AlternativeText} (h : RangeForm as s r) :
    Sequence ((as.flatMap AlternativeText.versions).map .version) s r := by
  induction h with
  | single ha => simpa using ha.sequence
  | cons ha ht _ ih =>
      rw [List.flatMap_cons, List.map_append]
      exact ha.sequence.append (ih.of_isSuffix ht.isSuffix)

end

end Versioning.Grammar
