import Versioning.Proofs.Grammar.Choice

/-!
# Readers go as far as any form

A reader that commits to the first form that fits, to the longest run and to the first separator
still leaves no more of a text than any form at its head does. What is read before the last part is
followed by a mark that ends it, so only the last part can go further than the form says.
-/

namespace Versioning.Grammar

open Text (isSegmentChar)

/-- The reader succeeds on `s` and leaves no more than `r`. -/
def Reaches {α : Type} (read : List Char → Option (α × List Char)) (s r : List Char) : Prop :=
  ∃ x t, read s = some (x, t) ∧ t <:+ r

/-- The reader of a dotted text alone. -/
def dottedText? (s : List Char) : Option (Piece × List Char) :=
  (dotted? s).map fun p => (p, p.after)

section

variable {s r : List Char}

/-! ## Numbers and dotted texts -/

/-- The reader takes the digits of the rest, too. -/
theorem NumberForm.reaches {p : Piece} (h : NumberForm p s r) : Reaches number? s r := by
  cases h with
  | @digits ds _ hne hd =>
      have hrun : digits? (ds ++ r) =
          some ⟨ds ++ r.takeWhile Char.isDigit, r.dropWhile Char.isDigit⟩ := by
        rw [digits?, run?_eq_some, List.takeWhile_append_of_pos hd, List.dropWhile_append_of_pos hd]
        exact ⟨by simp [hne], rfl⟩
      exact ⟨_, _, by rw [number?, hrun]; rfl, List.dropWhile_suffix _⟩

theorem moreDotted_after_isSuffix (s : List Char) : (moreDotted s).after <:+ s :=
  ⟨_, moreDotted_append s⟩

/-- The rest may lengthen the last segment or add others. -/
theorem DottedForm.reaches {p : Piece} (h : DottedForm p s r) : Reaches dottedText? s r := by
  cases h with
  | segments h =>
      rw [Reaches, dottedText?, dotted?_append_of_isDotted h r]
      exact ⟨_, _, rfl, moreDotted_after_isSuffix r⟩

/-! ## Versions -/

/-- A wildcard is one character, so only a number goes further. -/
theorem SlotForm.reaches {x : Slot} (h : SlotForm x s r) : Reaches slot? s r := by
  cases h with
  | number h =>
      obtain ⟨p, t, hp, hsuffix⟩ := h.reaches
      exact ⟨.number p, t, by rw [slot?, hp], hsuffix⟩
  | @wildcard c _ hc =>
      have hnone := number?_eq_none (.cons (isDigit_eq_false_of_isWildcardChar c hc) r)
      exact ⟨.wildcard, r, by rw [slot?, hnone, wildcard?, if_pos hc]; rfl, List.suffix_refl _⟩

section

variable {σ : Type} {slot? : List Char → Option (σ × List Char)} {slot : Form σ}

/-- After the minor, a release goes on as far as it can. -/
theorem release?_of_minor (hfollows : ∀ {s r x}, slot? s = some (x, r) → Follows r s) {m : Piece}
    {n : σ} {t u : List Char} (hm : number? s = some (m, t)) (hn : dotSlot? slot? t = some (n, u))
    (hu : u <:+ r) : Reaches (release? slot?) s r := by
  cases hp : dotSlot? slot? u with
  | none => exact ⟨.pair m n, u, by simp [release?, hm, hn, hp], hu⟩
  | some p =>
      obtain ⟨p, v⟩ := p
      exact ⟨.triple m n p, v, by simp [release?, hm, hn, hp],
        (dotSlot?_follows hfollows hp).isSuffix.trans hu⟩

/-- After the major it does so as well, whether a minor follows or not. -/
theorem release?_of_major (hfollows : ∀ {s r x}, slot? s = some (x, r) → Follows r s) {m : Piece}
    {t : List Char} (hm : number? s = some (m, t)) (ht : t <:+ r) :
    Reaches (release? slot?) s r := by
  cases hn : dotSlot? slot? t with
  | none => exact ⟨.single m, t, by simp [release?, hm, hn], ht⟩
  | some n =>
      obtain ⟨n, u⟩ := n
      exact release?_of_minor hfollows hm hn ((dotSlot?_follows hfollows hn).isSuffix.trans ht)

/-- What is a release of three numbers is read as three numbers, however far the last one goes. -/
theorem ReleaseForm.reaches (hfollows : ∀ {s r x}, slot? s = some (x, r) → Follows r s)
    (hslot : ∀ {s r x}, slot x s r → EndsNumber r → slot? s = some (x, r))
    (hreaches : ∀ {s r x}, slot x s r → Reaches slot? s r) {x : ReleaseText σ}
    (h : ReleaseForm slot x s r) :
    ∃ y t, release? slot? s = some (y, t) ∧ t <:+ r ∧ (x.isTriple = true → y.isTriple = true) := by
  cases h with
  | single hm =>
      obtain ⟨m, t, hm, ht⟩ := hm.reaches
      obtain ⟨y, u, hy, hu⟩ := release?_of_major hfollows hm ht
      exact ⟨y, u, hy, hu, nofun⟩
  | @pair _ _ _ t _ hm hn =>
      obtain ⟨n, u, hn, hu⟩ := hreaches hn
      obtain ⟨y, v, hy, hv⟩ := release?_of_minor hfollows (number?_complete hm (.dot t))
        (dotSlot?_eq_some.2 ⟨t, rfl, hn⟩) hu
      exact ⟨y, v, hy, hv, nofun⟩
  | @triple m n _ _ t u _ hm hn hp =>
      obtain ⟨p, v, hp, hv⟩ := hreaches hp
      have hread : release? slot? s = some (.triple m n p, v) :=
        release?_eq_triple.2 ⟨_, _, number?_complete hm (.dot t),
          dotSlot?_eq_some.2 ⟨t, rfl, hslot hn (.dot u)⟩, dotSlot?_eq_some.2 ⟨u, rfl, hp⟩⟩
      exact ⟨_, v, hread, hv, fun _ => rfl⟩

end

theorem PatternForm.reaches {w : PatternText} (h : PatternForm w s r) :
    Reaches patternText? s r := by
  obtain ⟨y, t, hy, ht, _⟩ :=
    ReleaseForm.reaches slot?_follows slot?_complete SlotForm.reaches h
  exact ⟨y, t, hy, ht⟩

/-- Where nothing is marked, the rest may still begin with the mark, and then more is taken. -/
theorem TaggedForm.reaches {mark : Char} {x : Option Piece} (h : TaggedForm mark x s r) :
    (tagged mark s).2 <:+ r := by
  cases h with
  | absent => exact tagged_isSuffix mark _
  | present h =>
      cases h with
      | segments h =>
          rw [tagged, if_pos rfl, dotted?_append_of_isDotted h r]
          exact moreDotted_after_isSuffix r

/-- The tag and the build, of which the mark of the second ends the first. -/
theorem TaggedForm.reaches_build {x y : Option Piece} {t : List Char} (hp : TaggedForm '-' x s t)
    (hb : TaggedForm '+' y t r) : (tagged '+' (tagged '-' s).2).2 <:+ r := by
  cases hb with
  | absent => exact (tagged_isSuffix '+' _).trans hp.reaches
  | present h =>
      rw [tagged_complete hp (by simp [isSegmentChar, Char.isAlphanum])]
      exact (TaggedForm.present h).reaches

/-- Only a release without a tag and a build can go on. -/
theorem TaggedForm.endsRelease_or_eq {x y : Option Piece} {t : List Char}
    (hp : TaggedForm '-' x s t) (hb : TaggedForm '+' y t r) : EndsRelease s ∨ s = r := by
  cases hp with
  | present _ => exact .inl (by simp [EndsRelease])
  | absent =>
      cases hb with
      | present _ => exact .inl (by simp [EndsRelease])
      | absent => exact .inr rfl

/-- After the release, the tags that follow belong to the version. -/
theorem exactText?_of_release? {x : ReleaseText Piece} {t : List Char}
    (h : release? number? s = some (x, t)) :
    ∃ w, exactText? s = some (w, (tagged '+' (tagged '-' t).2).2) ∧ w.release = x :=
  ⟨⟨x, _, _⟩, by rw [exactText?, h]; rfl, rfl⟩

/-- A release with something marked after it ends there. Without, it goes on into the rest, where
marks of its own may follow. -/
theorem ExactForm.reaches {v : ExactText} (h : ExactForm v s r) :
    ∃ w t, exactText? s = some (w, t) ∧ t <:+ r ∧
      (v.release.isTriple = true → w.release.isTriple = true) := by
  cases h with
  | @intro x _ _ _ t u _ hx hp hb =>
      rcases hp.endsRelease_or_eq hb with ht | rfl
      · obtain ⟨w, hw, rfl⟩ := exactText?_of_release? (release?_complete hx ht number?_complete)
        exact ⟨w, _, hw, hp.reaches_build hb, id⟩
      · obtain ⟨y, q, hy, hq, htriple⟩ :=
          ReleaseForm.reaches number?_follows number?_complete NumberForm.reaches hx
        obtain ⟨w, hw, rfl⟩ := exactText?_of_release? hy
        exact ⟨w, _, hw, ((tagged_isSuffix '+' _).trans (tagged_isSuffix '-' _)).trans hq, htriple⟩

/-- Three numbers are read as an exact version also where the form takes them for a pattern, and as
such they go at least as far. -/
theorem BoundForm.reaches {x : VersionText} (h : BoundForm x s r) : Reaches boundText? s r := by
  cases h with
  | exact h =>
      obtain ⟨⟨y, prerelease, build⟩, t, hread, ht, htriple⟩ := h.reaches
      cases y with
      | single _ | pair _ _ => exact absurd (htriple rfl) nofun
      | triple m n p => exact ⟨_, t, by rw [boundText?, hread], ht⟩
  | pattern h =>
      obtain ⟨w, t, hw, ht⟩ := PatternForm.reaches h
      rw [Reaches, boundText?]
      split
      · rename_i m n p prerelease build u hexact
        obtain ⟨q, hq, hu⟩ := patternText?_of_triple hexact
        rw [hw] at hq
        cases hq
        exact ⟨_, u, rfl, hu.trans ht⟩
      · exact ⟨_, t, by rw [hw]; rfl, ht⟩

/-! ## Ranges -/

theorem MarkedForm.reaches {form : VersionText → AlternativeText} {a : AlternativeText}
    (h : MarkedForm form a s r) : Reaches (marked? form) s r := by
  cases h with
  | plain hs hv =>
      obtain ⟨x, q, hx, hq⟩ := hv.reaches
      exact ⟨form x, q, marked?_plain hs hv hx, hq⟩
  | pinned hs hv =>
      obtain ⟨x, q, hx, hq⟩ := hv.reaches
      exact ⟨.pinned x, q, marked?_pinned hs hv hx, hq⟩

/-- What has a hyphen after a version goes further than the version. -/
theorem hyphen?_isSuffix {x : VersionText} {a : AlternativeText} {t u : List Char}
    (hx : boundText? s = some (x, t)) (ha : hyphen? s = some (a, u)) : u <:+ t := by
  rcases Option.or_eq_some_iff.1 ha with h | ⟨_, h⟩
  · simp only [spacedInterval?, hx, Option.bind_eq_bind, Option.bind_some] at h
    obtain ⟨v, hv, h⟩ := Option.bind_eq_some_iff.1 h
    obtain ⟨⟨y, q⟩, hy, h⟩ := Option.bind_eq_some_iff.1 h
    cases h
    exact (boundText?_follows hy).isSuffix.trans (spacedHyphen?_follows hv).isSuffix
  · obtain ⟨⟨w, q⟩, hw, h⟩ := Option.bind_eq_some_iff.1 h
    simp only at h
    split at h
    · contradiction
    · rename_i hn
      rw [boundText?_of_patternText? hw (by simpa using hn)] at hx
      cases hx
      obtain ⟨v, hv, h⟩ := Option.bind_eq_some_iff.1 h
      obtain ⟨⟨y, q⟩, hy, h⟩ := Option.bind_eq_some_iff.1 h
      cases h
      exact (boundText?_follows hy).isSuffix.trans (tightHyphen?_follows hv).isSuffix

/-- The head of the text leads to the reader of the kind, except that an interval is tried before
a version. -/
theorem AlternativeForm.reaches {a : AlternativeText} (h : AlternativeForm a s r) :
    Reaches alternative? s r := by
  cases h with
  -- The space ends the lower version, so only the upper one can go further.
  | spacedHyphen hl ht hu hv =>
      obtain ⟨l, hln, hl⟩ := hl.exists_exact
      obtain ⟨x, q, hx, hq⟩ := hv.reaches
      have hinterval := spacedInterval?_complete hl hln ht hu hv hx
      exact ⟨.hyphen l x, q, by simp [alternative?, hyphen?, hinterval], hq⟩
  | tightHyphen hl hn ht hu hv =>
      obtain ⟨x, q, hx, hq⟩ := hv.reaches
      have hinterval := hyphen?_of_tight hl hn ht hu hv hx
      exact ⟨_, q, by rw [alternative?, hinterval]; rfl, hq⟩
  | caret h =>
      rw [Reaches, alternative?_caret]
      exact h.reaches
  | tilde h =>
      rw [Reaches, alternative?_tilde, tilde?_eq_marked? h]
      exact h.reaches
  | tildeGreater h =>
      rw [Reaches, alternative?_tilde]
      exact h.reaches
  | comparison operator hs hv =>
      obtain ⟨x, q, hx, hq⟩ := hv.reaches
      exact ⟨.comparison operator x, q,
        by rw [alternative?_symbol, comparison?_of_boundText? operator hs hv hx]; rfl, hq⟩
  | any h =>
      rw [Reaches, alternative?_wildcard h.head, any?_of_wildcards h.skipEquality h]
      exact ⟨_, _, rfl, skipWildcards_isSuffix r⟩
  | anyEqual operator ho h =>
      rw [Reaches, alternative?_symbol, comparison?_wildcards h,
        any?_of_wildcards (skipEquality_symbol ho _) h]
      exact ⟨_, _, rfl, skipWildcards_isSuffix r⟩
  | plain h =>
      rw [Reaches, alternative?_digit h.head]
      obtain ⟨x, t, hx, ht⟩ := h.reaches
      -- The reader of hyphens comes first, and it starts with the same version.
      cases hhyphen : hyphen? s with
      | none => exact ⟨.plain x, t, by simp [plain?, hx], ht⟩
      | some b =>
          obtain ⟨b, u⟩ := b
          exact ⟨b, u, rfl, (hyphen?_isSuffix hx hhyphen).trans ht⟩

theorem moreAlternatives_isSuffix (s : List Char) : (moreAlternatives s).2 <:+ s := by
  fun_induction moreAlternatives s with
  | case1 s _ => exact List.suffix_refl s
  | case2 s a t h ih => exact ih.trans (nextAlternative?_follows h).isSuffix

/-- Alternatives are read one after the other, and none is given back. -/
theorem RangeForm.reaches {as : List AlternativeText} (h : RangeForm as s r) :
    Reaches range? s r := by
  -- A separator with an alternative after it ends all alternatives but the last.
  induction h with
  | single ha =>
      obtain ⟨b, t, hb, ht⟩ := ha.reaches
      exact ⟨_, _, by rw [range?, hb]; rfl, (moreAlternatives_isSuffix t).trans ht⟩
  | cons ha ht h ih =>
      obtain ⟨bs, q, hbs, hq⟩ := ih
      obtain ⟨b, hexact, hb⟩ := ha.exists_exact
      have hread := alternative?_complete hb hexact (ht.endsAlternative h.head)
      have hmore := moreAlternatives_of_separator? (separator?_complete ht h.head) hbs
      exact ⟨b :: bs, q, by simp [range?, hread, hmore], hq⟩

end

end Versioning.Grammar
