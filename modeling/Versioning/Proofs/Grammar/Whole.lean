import Versioning.Proofs.Grammar.Extension

/-!
# Texts cut short

What has a form is a whole text of that form, with more text after it. So the part of a text that
was read is in itself a text of the language.
-/

namespace Versioning.Grammar

/-! ## More text after more text -/

theorem Piece.followedBy_followedBy (p : Piece) (t r : List Char) :
    (p.followedBy t).followedBy r = p.followedBy (t ++ r) := by
  simp [followedBy]

theorem Slot.followedBy_followedBy (x : Slot) (t r : List Char) :
    (x.followedBy t).followedBy r = x.followedBy (t ++ r) := by
  cases x with
  | number p => exact congrArg number (p.followedBy_followedBy t r)
  | wildcard => rfl

theorem ReleaseText.followedBy_followedBy {σ : Type} {more : σ → List Char → σ}
    (hmore : ∀ x t r, more (more x t) r = more x (t ++ r)) (x : ReleaseText σ) (t r : List Char) :
    (x.followedBy more t).followedBy more r = x.followedBy more (t ++ r) := by
  cases x <;> simp only [followedBy, Piece.followedBy_followedBy, hmore]

/-! ## Forms of versions -/

/-- The text `s` is a whole text of the form with `r` after it. -/
def Whole {α : Type} (form : Form α) (more : α → List Char → α) (x : α) (s r : List Char) : Prop :=
  ∃ y u, x = more y r ∧ s = u ++ r ∧ form y u []

theorem Whole.isSuffix {α : Type} {form : Form α} {more : α → List Char → α} {x : α}
    {s r : List Char} (h : Whole form more x s r) : r <:+ s := by
  obtain ⟨_, u, _, rfl, _⟩ := h
  exact List.suffix_append u r

section

variable {s r : List Char}

theorem NumberForm.whole {p : Piece} (h : NumberForm p s r) :
    Whole NumberForm Piece.followedBy p s r := by
  cases h with
  | @digits ds _ hne hd =>
      have hds : NumberForm ⟨ds, []⟩ ds [] := by simpa using NumberForm.digits (r := []) hne hd
      exact ⟨⟨ds, []⟩, ds, rfl, rfl, hds⟩

theorem DottedForm.whole {p : Piece} (h : DottedForm p s r) :
    Whole DottedForm Piece.followedBy p s r := by
  cases h with
  | @segments w _ h =>
      have hw : DottedForm ⟨w, []⟩ w [] := by simpa using DottedForm.segments (r := []) h
      exact ⟨⟨w, []⟩, w, rfl, rfl, hw⟩

theorem SlotForm.whole {x : Slot} (h : SlotForm x s r) : Whole SlotForm Slot.followedBy x s r := by
  cases h with
  | number h =>
      obtain ⟨q, u, rfl, rfl, hq⟩ := h.whole
      exact ⟨.number q, u, rfl, rfl, .number hq⟩
  | @wildcard c _ hc => exact ⟨.wildcard, [c], rfl, rfl, .wildcard hc⟩

/-- The slots are cut from the last to the first, since each keeps what comes after it. -/
theorem ReleaseForm.whole {σ : Type} {slot : Form σ} {more : σ → List Char → σ}
    (hmore : ∀ x t r, more (more x t) r = more x (t ++ r))
    (hfollowed : ∀ {x s r}, slot x s r → ∀ t, slot (more x t) (s ++ t) (r ++ t))
    (hslot : ∀ {x s r}, slot x s r → Whole slot more x s r) {x : ReleaseText σ}
    (h : ReleaseForm slot x s r) :
    Whole (ReleaseForm slot) (fun x t => x.followedBy more t) x s r := by
  cases h with
  | single hm =>
      obtain ⟨m, u, rfl, rfl, hm'⟩ := hm.whole
      exact ⟨.single m, u, rfl, rfl, .single hm'⟩
  | pair hm hn =>
      obtain ⟨n, v, rfl, rfl, hn'⟩ := hslot hn
      obtain ⟨m, u, rfl, rfl, hm'⟩ := hm.whole
      refine ⟨.pair (m.followedBy ('.' :: v)) n, u ++ '.' :: v, ?_, by simp, ?_⟩
      · simp [ReleaseText.followedBy, Piece.followedBy_followedBy]
      · exact .pair (hm'.followedBy ('.' :: v)) hn'
  | triple hm hn hp =>
      obtain ⟨p, w, rfl, rfl, hp'⟩ := hslot hp
      obtain ⟨n, v, rfl, rfl, hn'⟩ := hslot hn
      obtain ⟨m, u, rfl, rfl, hm'⟩ := hm.whole
      refine ⟨.triple (m.followedBy ('.' :: (v ++ '.' :: w))) (more n ('.' :: w)) p,
        u ++ '.' :: (v ++ '.' :: w), ?_, by simp, ?_⟩
      · simp [ReleaseText.followedBy, Piece.followedBy_followedBy, hmore]
      · exact .triple (hm'.followedBy ('.' :: (v ++ '.' :: w))) (hfollowed hn' ('.' :: w)) hp'

theorem PatternForm.whole {w : PatternText} (h : PatternForm w s r) :
    Whole PatternForm (fun w t => w.followedBy Slot.followedBy t) w s r :=
  ReleaseForm.whole Slot.followedBy_followedBy SlotForm.followedBy SlotForm.whole h

theorem TaggedForm.whole {mark : Char} {x : Option Piece} (h : TaggedForm mark x s r) :
    Whole (TaggedForm mark) (fun x t => x.map (·.followedBy t)) x s r := by
  cases h with
  | absent => exact ⟨none, [], rfl, rfl, .absent⟩
  | present h =>
      obtain ⟨p, u, rfl, rfl, hp⟩ := h.whole
      exact ⟨some p, mark :: u, rfl, rfl, .present hp⟩

/-- The build is cut first, then the tag with the build after it, and then the release. -/
theorem ExactForm.whole {v : ExactText} (h : ExactForm v s r) :
    Whole ExactForm ExactText.followedBy v s r := by
  cases h with
  | intro hx hp hb =>
      obtain ⟨build, w, rfl, rfl, hb'⟩ := hb.whole
      obtain ⟨prerelease, v, rfl, rfl, hp'⟩ := hp.whole
      obtain ⟨x, u, rfl, rfl, hx'⟩ :=
        hx.whole Piece.followedBy_followedBy NumberForm.followedBy NumberForm.whole
      refine ⟨⟨x.followedBy Piece.followedBy (v ++ w), prerelease.map (·.followedBy w), build⟩,
        u ++ (v ++ w), ?_, by simp, ?_⟩
      · simp [ExactText.followedBy, Function.comp_def, Piece.followedBy_followedBy,
          ReleaseText.followedBy_followedBy Piece.followedBy_followedBy]
      · exact .intro (hx'.followedBy NumberForm.followedBy (v ++ w)) (hp'.followedBy w) hb'

/-- Cutting a text does not change how many numbers there are, so its kind stays. -/
theorem BoundForm.whole {x : VersionText} (h : BoundForm x s r) :
    Whole BoundForm VersionText.followedBy x s r := by
  cases h with
  | exact h =>
      obtain ⟨⟨x, prerelease, build⟩, u, he, rfl, hv⟩ := h.whole
      cases x with
      | single m | pair m n => cases he
      | triple m n p => exact ⟨.exact _, u, congrArg VersionText.exact he, rfl, .exact hv⟩
  | pattern h =>
      obtain ⟨w, u, rfl, rfl, hw⟩ := PatternForm.whole h
      exact ⟨.pattern w, u, rfl, rfl, .pattern hw⟩

theorem BoundForm.isSuffix {x : VersionText} (h : BoundForm x s r) : r <:+ s :=
  h.whole.isSuffix

/-! ## Forms of ranges -/

theorem SpacesForm.whole (h : SpacesForm s r) : ∃ u, s = u ++ r ∧ SpacesForm u [] := by
  induction h with
  | nil => exact ⟨[], rfl, .nil⟩
  | @cons c _ _ hc _ ih =>
      obtain ⟨u, rfl, hu⟩ := ih
      exact ⟨c :: u, rfl, .cons hc hu⟩

theorem SpacesForm.isSuffix (h : SpacesForm s r) : r <:+ s := by
  obtain ⟨u, rfl, _⟩ := h.whole
  exact List.suffix_append u r

theorem SomeSpacesForm.whole (h : SomeSpacesForm s r) : ∃ u, s = u ++ r ∧ SomeSpacesForm u [] := by
  cases h with
  | @cons c _ _ hc h =>
      obtain ⟨u, rfl, hu⟩ := h.whole
      exact ⟨c :: u, rfl, .cons hc hu⟩

theorem SomeSpacesForm.isSuffix (h : SomeSpacesForm s r) : r <:+ s := by
  obtain ⟨u, rfl, _⟩ := h.whole
  exact List.suffix_append u r

theorem SeparatorForm.whole (h : SeparatorForm s r) : ∃ u, s = u ++ r ∧ SeparatorForm u [] := by
  cases h with
  | bars hs ht =>
      obtain ⟨v, rfl, hv'⟩ := ht.whole
      obtain ⟨u, rfl, hu⟩ := hs.whole
      exact ⟨u ++ '|' :: '|' :: v, by simp, .bars (hu.append ('|' :: '|' :: v)) hv'⟩
  | spaces h =>
      obtain ⟨u, rfl, hu⟩ := h.whole
      exact ⟨u, rfl, .spaces hu⟩

theorem SeparatorForm.isSuffix (h : SeparatorForm s r) : r <:+ s := by
  obtain ⟨u, rfl, _⟩ := h.whole
  exact List.suffix_append u r

theorem WildcardsForm.whole (h : WildcardsForm s r) : ∃ u, s = u ++ r ∧ WildcardsForm u [] := by
  induction h with
  | @single c _ hc => exact ⟨[c], rfl, .single hc⟩
  | @cons c _ _ hc _ ih =>
      obtain ⟨u, rfl, hu⟩ := ih
      exact ⟨c :: '.' :: u, rfl, .cons hc hu⟩

theorem WildcardsForm.isSuffix (h : WildcardsForm s r) : r <:+ s := by
  obtain ⟨u, rfl, _⟩ := h.whole
  exact List.suffix_append u r

theorem MarkedForm.whole {form : VersionText → AlternativeText} {a : AlternativeText}
    (h : MarkedForm form a s r) : ∃ b u, s = u ++ r ∧ MarkedForm form b u [] := by
  cases h with
  | plain hs hv =>
      obtain ⟨v, w, rfl, rfl, hv'⟩ := hv.whole
      obtain ⟨u, rfl, hu⟩ := hs.whole
      exact ⟨form v, u ++ w, by simp, .plain (hu.append w) hv'⟩
  | pinned hs hv =>
      obtain ⟨v, w, rfl, rfl, hv'⟩ := hv.whole
      obtain ⟨u, rfl, hu⟩ := hs.whole
      exact ⟨.pinned v, '=' :: (u ++ w), by simp, .pinned (hu.append w) hv'⟩

/-- An alternative is cut behind its last part, and those before it keep the text up to there. -/
theorem AlternativeForm.whole {a : AlternativeText} (h : AlternativeForm a s r) :
    ∃ b u, s = u ++ r ∧ AlternativeForm b u [] := by
  cases h with
  | spacedHyphen hl ht hu hv =>
      obtain ⟨upper, z, rfl, rfl, hv'⟩ := hv.whole
      obtain ⟨y, rfl, hu'⟩ := hu.whole
      obtain ⟨x, rfl, ht'⟩ := ht.whole
      obtain ⟨lower, w, rfl, rfl, hl'⟩ := hl.whole
      exact ⟨_, w ++ (x ++ '-' :: (y ++ z)), by simp, .spacedHyphen
        (hl'.followedBy (x ++ '-' :: (y ++ z))) (ht'.append ('-' :: (y ++ z))) (hu'.append z) hv'⟩
  | tightHyphen hl hn ht hu hv =>
      obtain ⟨upper, z, rfl, rfl, hv'⟩ := hv.whole
      obtain ⟨y, rfl, hu'⟩ := hu.whole
      obtain ⟨x, rfl, ht'⟩ := ht.whole
      obtain ⟨lower, w, rfl, rfl, hl'⟩ := PatternForm.whole hl
      rw [isNumberTriple_followedBy] at hn
      exact ⟨_, w ++ (x ++ '-' :: (y ++ z)), by simp, .tightHyphen
        (ReleaseForm.followedBy SlotForm.followedBy hl' (x ++ '-' :: (y ++ z)))
        (by rwa [isNumberTriple_followedBy]) (ht'.append ('-' :: (y ++ z))) (hu'.append z) hv'⟩
  | caret h =>
      obtain ⟨b, u, rfl, hb⟩ := h.whole
      exact ⟨b, '^' :: u, rfl, .caret hb⟩
  | tilde h =>
      obtain ⟨b, u, rfl, hb⟩ := h.whole
      exact ⟨b, '~' :: u, rfl, .tilde hb⟩
  | tildeGreater h =>
      obtain ⟨b, u, rfl, hb⟩ := h.whole
      exact ⟨b, '~' :: '>' :: u, rfl, .tildeGreater hb⟩
  | comparison operator hs hv =>
      obtain ⟨bound, w, rfl, rfl, hv'⟩ := hv.whole
      obtain ⟨u, rfl, hu⟩ := hs.whole
      exact ⟨_, operator.symbol.toList ++ (u ++ w), by simp,
        .comparison operator (hu.append w) hv'⟩
  | any h =>
      obtain ⟨u, rfl, hu⟩ := h.whole
      exact ⟨_, u, rfl, .any hu⟩
  | anyEqual operator ho h =>
      obtain ⟨u, rfl, hu⟩ := h.whole
      exact ⟨_, operator.symbol.toList ++ u, by simp, .anyEqual operator ho hu⟩
  | plain h =>
      obtain ⟨v, u, rfl, rfl, hv⟩ := h.whole
      exact ⟨_, u, rfl, .plain hv⟩

theorem AlternativeForm.isSuffix {a : AlternativeText} (h : AlternativeForm a s r) : r <:+ s := by
  obtain ⟨_, u, rfl, _⟩ := h.whole
  exact List.suffix_append u r

/-- What was read of a text is a range in itself. -/
theorem RangeForm.whole {as : List AlternativeText} (h : RangeForm as s r) :
    ∃ bs u, s = u ++ r ∧ RangeForm bs u [] := by
  induction h with
  | single ha =>
      obtain ⟨b, u, rfl, hb⟩ := ha.whole
      exact ⟨[b], u, rfl, .single hb⟩
  | cons ha ht _ ih =>
      obtain ⟨bs, w, rfl, hbs⟩ := ih
      obtain ⟨v, rfl, hv'⟩ := ht.whole
      obtain ⟨b, u, rfl, hb⟩ := ha.whole
      exact ⟨_, u ++ (v ++ w), by simp, .cons (hb.followedBy (v ++ w)) (hv'.append w) hbs⟩

end

end Versioning.Grammar
