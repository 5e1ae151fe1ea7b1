import Versioning.Proofs.Grammar.Choice

/-!
# Texts that go on

What has a form keeps it when more text comes after it, since a form says nothing about that text.
Only the pieces change, which tell what comes after them. So a range goes on with a separator and
another range.
-/

namespace Versioning.Grammar

/-! ## What is written, with more text after it -/

def Piece.followedBy (p : Piece) (t : List Char) : Piece :=
  ⟨p.text, p.after ++ t⟩

@[simp] theorem Piece.text_followedBy (p : Piece) (t : List Char) :
    (p.followedBy t).text = p.text := rfl

def Slot.followedBy : Slot → List Char → Slot
  | number p, t => number (p.followedBy t)
  | wildcard, _ => wildcard

/-- The slots go on by `slot`. -/
def ReleaseText.followedBy {σ : Type} (slot : σ → List Char → σ) (t : List Char) :
    ReleaseText σ → ReleaseText σ
  | single m => single (m.followedBy t)
  | pair m n => pair (m.followedBy t) (slot n t)
  | triple m n p => triple (m.followedBy t) (slot n t) (slot p t)

def ExactText.followedBy (v : ExactText) (t : List Char) : ExactText :=
  ⟨v.release.followedBy Piece.followedBy t, v.prerelease.map (·.followedBy t),
    v.build.map (·.followedBy t)⟩

def VersionText.followedBy : VersionText → List Char → VersionText
  | exact v, t => exact (v.followedBy t)
  | pattern w, t => pattern (w.followedBy Slot.followedBy t)

def AlternativeText.followedBy : AlternativeText → List Char → AlternativeText
  | hyphen lower upper, t => hyphen (lower.followedBy t) (upper.followedBy t)
  | caret v, t => caret (v.followedBy t)
  | tilde v, t => tilde (v.followedBy t)
  | pinned v, t => pinned (v.followedBy t)
  | comparison o bound, t => comparison o (bound.followedBy t)
  | any, _ => any
  | plain v, t => plain (v.followedBy t)

theorem Piece.followedBy_nil (p : Piece) : p.followedBy [] = p := by
  rw [followedBy, List.append_nil]

theorem Slot.followedBy_nil (x : Slot) : x.followedBy [] = x := by
  cases x with
  | number p => rw [followedBy, p.followedBy_nil]
  | wildcard => rfl

theorem ReleaseText.followedBy_nil {σ : Type} {slot : σ → List Char → σ}
    (hslot : ∀ x, slot x [] = x) (x : ReleaseText σ) : x.followedBy slot [] = x := by
  cases x <;> simp only [followedBy, Piece.followedBy_nil, hslot]

theorem ExactText.followedBy_nil (v : ExactText) : v.followedBy [] = v := by
  rw [followedBy, v.release.followedBy_nil Piece.followedBy_nil]
  simp only [Piece.followedBy_nil, Option.map_id']

theorem VersionText.followedBy_nil (x : VersionText) : x.followedBy [] = x := by
  cases x with
  | exact v => rw [followedBy, v.followedBy_nil]
  | pattern w => rw [followedBy, w.followedBy_nil Slot.followedBy_nil]

theorem AlternativeText.followedBy_nil (a : AlternativeText) : a.followedBy [] = a := by
  cases a <;> simp only [followedBy, VersionText.followedBy_nil]

/-- Whether a pattern is three numbers depends on its slots and not on what comes after them. -/
theorem isNumberTriple_followedBy (w : PatternText) (t : List Char) :
    isNumberTriple (w.followedBy Slot.followedBy t) = isNumberTriple w := by
  rcases w with m | ⟨m, n⟩ | ⟨m, _ | _, _ | _⟩ <;> rfl

theorem VersionText.isNumberTriple_followedBy (x : VersionText) (t : List Char) :
    (x.followedBy t).isNumberTriple = x.isNumberTriple := by
  cases x with
  | exact v => rfl
  | pattern w => exact Grammar.isNumberTriple_followedBy w t

theorem AlternativeText.versions_followedBy (a : AlternativeText) (t : List Char) :
    (a.followedBy t).versions = a.versions.map (·.followedBy t) := by
  cases a <;> rfl

/-- So three numbers stay an exact version. -/
theorem AlternativeText.TriplesExact.followedBy {a : AlternativeText} (h : a.TriplesExact)
    (t : List Char) : (a.followedBy t).TriplesExact := by
  intro x hx
  rw [versions_followedBy] at hx
  obtain ⟨y, hy, rfl⟩ := List.mem_map.1 hx
  rw [VersionText.isNumberTriple_followedBy]
  exact h y hy

/-! ## Forms of versions -/

section

variable {s r : List Char}

/-- The form asks for digits but not for all of them, so what comes after may begin with more. -/
theorem NumberForm.followedBy {p : Piece} (h : NumberForm p s r) (t : List Char) :
    NumberForm (p.followedBy t) (s ++ t) (r ++ t) := by
  cases h with
  | digits hne hd =>
      rw [List.append_assoc]
      exact .digits hne hd

theorem DottedForm.followedBy {p : Piece} (h : DottedForm p s r) (t : List Char) :
    DottedForm (p.followedBy t) (s ++ t) (r ++ t) := by
  cases h with
  | segments h =>
      rw [List.append_assoc]
      exact .segments h

theorem SlotForm.followedBy {x : Slot} (h : SlotForm x s r) (t : List Char) :
    SlotForm (x.followedBy t) (s ++ t) (r ++ t) := by
  cases h with
  | number h => exact .number (h.followedBy t)
  | wildcard hc => exact .wildcard hc

/-- A release goes on if its slots do. -/
theorem ReleaseForm.followedBy {σ : Type} {slot : Form σ} {more : σ → List Char → σ}
    (hslot : ∀ {x s r}, slot x s r → ∀ t, slot (more x t) (s ++ t) (r ++ t)) {x : ReleaseText σ}
    (h : ReleaseForm slot x s r) (t : List Char) :
    ReleaseForm slot (x.followedBy more t) (s ++ t) (r ++ t) := by
  cases h with
  | single hm => exact .single (hm.followedBy t)
  | pair hm hn => exact .pair (hm.followedBy t) (hslot hn t)
  | triple hm hn hp => exact .triple (hm.followedBy t) (hslot hn t) (hslot hp t)

/-- What is left out stays left out, even if the mark comes next. -/
theorem TaggedForm.followedBy {mark : Char} {x : Option Piece} (h : TaggedForm mark x s r)
    (t : List Char) : TaggedForm mark (x.map (·.followedBy t)) (s ++ t) (r ++ t) := by
  cases h with
  | absent => exact .absent
  | present h => exact .present (h.followedBy t)

theorem ExactForm.followedBy {v : ExactText} (h : ExactForm v s r) (t : List Char) :
    ExactForm (v.followedBy t) (s ++ t) (r ++ t) := by
  cases h with
  | intro hx hp hb =>
      exact .intro (hx.followedBy NumberForm.followedBy t) (hp.followedBy t) (hb.followedBy t)

theorem BoundForm.followedBy {x : VersionText} (h : BoundForm x s r) (t : List Char) :
    BoundForm (x.followedBy t) (s ++ t) (r ++ t) := by
  cases h with
  | exact h => exact .exact (h.followedBy t)
  | pattern h => exact .pattern (ReleaseForm.followedBy SlotForm.followedBy h t)

/-! ## Forms of ranges -/

theorem SpacesForm.append (h : SpacesForm s r) (t : List Char) : SpacesForm (s ++ t) (r ++ t) := by
  induction h with
  | nil => exact .nil
  | cons hc _ ih => exact .cons hc ih

theorem SomeSpacesForm.append (h : SomeSpacesForm s r) (t : List Char) :
    SomeSpacesForm (s ++ t) (r ++ t) := by
  cases h with
  | cons hc h => exact .cons hc (h.append t)

theorem SeparatorForm.append (h : SeparatorForm s r) (t : List Char) :
    SeparatorForm (s ++ t) (r ++ t) := by
  cases h with
  | bars hs ht => exact .bars (hs.append t) (ht.append t)
  | spaces h => exact .spaces (h.append t)

theorem WildcardsForm.append (h : WildcardsForm s r) (t : List Char) :
    WildcardsForm (s ++ t) (r ++ t) := by
  induction h with
  | single hc => exact .single hc
  | cons hc _ ih => exact .cons hc ih

/-- A caret or tilde takes what is marked into `form`, which goes on as the version does. -/
theorem MarkedForm.followedBy {form : VersionText → AlternativeText} {a : AlternativeText}
    (hform : ∀ v t, (form v).followedBy t = form (v.followedBy t)) (h : MarkedForm form a s r)
    (t : List Char) : MarkedForm form (a.followedBy t) (s ++ t) (r ++ t) := by
  cases h with
  | plain hs hv =>
      rw [hform]
      exact .plain (hs.append t) (hv.followedBy t)
  | pinned hs hv => exact .pinned (hs.append t) (hv.followedBy t)

/-- Marks, operators and hyphens stand before a version, so only the versions change. -/
theorem AlternativeForm.followedBy {a : AlternativeText} (h : AlternativeForm a s r)
    (t : List Char) : AlternativeForm (a.followedBy t) (s ++ t) (r ++ t) := by
  cases h with
  | spacedHyphen hl ht hu hv =>
      exact .spacedHyphen (hl.followedBy t) (ht.append t) (hu.append t) (hv.followedBy t)
  | tightHyphen hl hn ht hu hv =>
      exact .tightHyphen (ReleaseForm.followedBy SlotForm.followedBy hl t)
        (by rwa [isNumberTriple_followedBy]) (ht.append t) (hu.append t) (hv.followedBy t)
  | caret h => exact .caret (h.followedBy (fun _ _ => rfl) t)
  | tilde h => exact .tilde (h.followedBy (fun _ _ => rfl) t)
  | tildeGreater h => exact .tildeGreater (h.followedBy (fun _ _ => rfl) t)
  | comparison o hs hv =>
      rw [List.append_assoc]
      exact .comparison o (hs.append t) (hv.followedBy t)
  | any h => exact .any (h.append t)
  | anyEqual o ho h =>
      rw [List.append_assoc]
      exact .anyEqual o ho (h.append t)
  | plain h => exact .plain (h.followedBy t)

/-- The form ends where it did, whatever could be read after it. -/
theorem RangeForm.followedBy {as : List AlternativeText} (h : RangeForm as s r) (t : List Char) :
    RangeForm (as.map (·.followedBy t)) (s ++ t) (r ++ t) := by
  induction h with
  | single ha => exact .single (ha.followedBy t)
  | cons ha hsep _ ih => exact .cons (ha.followedBy t) (hsep.append t) ih

/-- A text of the language, a separator and another text of the language. -/
theorem RangeForm.append {as bs : List AlternativeText} {t u : List Char} (ha : RangeForm as s [])
    (ht : SeparatorForm t u) (hb : RangeForm bs u r) :
    RangeForm (as.map (·.followedBy t) ++ bs) (s ++ t) r := by
  generalize hnil : ([] : List Char) = e at ha
  induction ha with
  | single ha =>
      subst hnil
      exact .cons (ha.followedBy t) ht hb
  | cons ha hsep _ ih => exact .cons (ha.followedBy t) (hsep.append t) (ih hnil)

end

end Versioning.Grammar
