import Versioning.Proofs.Reading.Failure

/-!
# What texts can cause

The constructors that a conversion ends with may refuse their arguments, but the grammar lets only
one such case through: a pattern with an open minor before a number. All other errors are about the
form of the text or the size of a number in it.
-/

namespace Versioning

open Grammar

/-! ## Kinds of errors -/

/-- The parts of a version that hold a number. -/
def Field.ofVersion : List Field :=
  [.major, .minor, .patch, .prerelease]

/-- Errors about the form of a text, and about the numbers of a version. -/
inductive Error.OfText : Error → Prop
  | empty : OfText .empty
  | malformed (expected : Expected) (place : Text.Excerpt) : OfText (.malformed expected place)
  | tooLarge {field : Field} (h : field ∈ Field.ofVersion) (place : Text.Excerpt) :
      OfText (.field field .tooLarge place)

inductive Error.OfPattern : Error → Prop
  | text {e : Error} (h : e.OfText) : OfPattern e
  | concretePatch (major : Number) (minor : Component) (patch : Number) :
      OfPattern (.concretePatch major minor patch)

theorem Error.ofText_of_not_isConversion {e : Error} (h : ¬ e.IsConversion) : e.OfText := by
  cases e with
  | empty => exact .empty
  | malformed expected place => exact .malformed expected place
  | _ => exact absurd trivial h

namespace Grammar

theorem field_mem_fragment {field : Field} {digits? : Option Piece} (h : field ∈ Field.ofVersion) :
    ∀ q ∈ fragment field digits?, q.1 ∈ Field.ofVersion :=
  forall_mem_fragment.2 fun _ _ => h

theorem ReleaseText.field_mem {σ : Type} {digits? : σ → Option Piece} {x : ReleaseText σ} :
    ∀ q ∈ x.fragments digits?, q.1 ∈ Field.ofVersion := by
  rw [fragments, List.forall_mem_append, List.forall_mem_append]
  exact ⟨field_mem_fragment (by decide), field_mem_fragment (by decide),
    field_mem_fragment (by decide)⟩

theorem Item.field_mem {x : Item} : ∀ q ∈ x.fragments, q.1 ∈ Field.ofVersion := by
  cases x with
  | version x =>
      cases x with
      | exact v =>
          exact List.forall_mem_append.2 ⟨field_mem_fragment (by decide), ReleaseText.field_mem⟩
      | pattern w => exact ReleaseText.field_mem
  | tag dotted => exact field_mem_fragment (by decide)

/-- An item fails at a number that is too large, or as a pattern that is refused. -/
theorem Item.failsWith_cases {input : List Char} {x : Item} {e : Error}
    (h : x.FailsWith input e) :
    e.OfText ∨ ∃ w, x = .version (.pattern w) ∧ PatternRefused input w e := by
  rw [failsWith_iff, FailsAs] at h
  cases hfirst : firstTooLarge? x.fragments with
  | some q =>
      rw [hfirst] at h
      rw [h]
      exact .inl (.tooLarge (field_mem q (isTooLarge_of_firstTooLarge? hfirst).1) _)
  | none =>
      rw [hfirst] at h
      exact .inr (refused_iff.1 h)

theorem patternValue_of_refused {input : List Char} {w : PatternText} {e : Error}
    (h : PatternRefused input w e) : patternValue input w = .error e := by
  obtain ⟨a, b, c, ha, hb, hc, he⟩ := h
  rw [patternValue, ha, hb, hc]
  exact he

/-- Only a pattern is refused, and only for a patch that is a number. -/
theorem Item.failsWith_concretePatch {input : List Char} {x : Item} {major patch : Number}
    {minor : Component} : x.FailsWith input (.concretePatch major minor patch) ↔
      ∃ m n p, x = .version (.pattern (.triple m n (.number p))) ∧
        numberAt input .major m = .ok major ∧ Slot.value input .minor (some n) = .ok minor ∧
        numberAt input .patch p = .ok patch := by
  constructor
  · intro h
    rcases failsWith_cases h with hcause | ⟨w, rfl, hrefused⟩
    · contradiction
    · obtain ⟨m, n, p, _, _, _, rfl, hm, hn, hp, he⟩ := patternRefused_iff.1 hrefused
      cases he
      exact ⟨m, n, p, rfl, hm, hn, hp⟩
  · rintro ⟨m, n, p, rfl, hm, hn, hp⟩
    exact bind_ok_eq_error.2 (patternValue_of_refused
      (patternRefused_iff.2 ⟨m, n, p, _, _, _, rfl, hm, hn, hp, rfl⟩))

/-- The kind of the version is the one that its slots and tags ask for. -/
def VersionText.IsDecided : VersionText → Prop
  | exact v => v.isExact = true
  | pattern w => Grammar.isNumberTriple w = false

/-! ## Loose slots -/

/-- The parts of a version as they are written, with slots that may be missing or open. -/
structure Parts where
  major : Piece
  minor : Option Slot
  patch : Option Slot
  prerelease : Option Piece
  build : Option Piece

def VersionText.parts : VersionText → Parts
  | exact v => ⟨v.release.major, v.release.minor?.map .number, v.release.patch?.map .number,
      v.prerelease, v.build⟩
  | pattern w => ⟨w.major, w.minor?, w.patch?, none, none⟩

namespace Parts

def isTriple (x : Parts) : Bool :=
  match x.minor, x.patch with
  | some (.number _), some (.number _) => true
  | _, _ => false

/-- Whether the parts are those of an exact version. -/
def isExact (x : Parts) : Bool :=
  x.isTriple || x.prerelease.isSome || x.build.isSome

/-- The exact version of the parts, in which a slot that is open is lost. -/
def toExact (input : List Char) (x : Parts) : Except Error Exact := do
  let prerelease ← x.prerelease.elim (.ok .none) (Prerelease.ofDotted input)
  let major ← numberAt input .major x.major
  let minor ← Slot.value input .minor x.minor
  let patch ← Slot.value input .patch x.patch
  Exact.ofParts? major minor.number? patch.number? prerelease
    (x.build.elim .none fun dotted => .ofText (String.ofList dotted.text))

def toPattern (input : List Char) (x : Parts) : Except Error Pattern := do
  let major ← numberAt input .major x.major
  let minor ← Slot.value input .minor x.minor
  let patch ← Slot.value input .patch x.patch
  Pattern.ofComponents? major minor patch

def toVersion (input : List Char) (x : Parts) : Except Error Version :=
  if x.isExact then return .exact (← x.toExact input) else return .pattern (← x.toPattern input)

end Parts

/-- The constructor that checks the slots accepts those of a release. -/
theorem ReleaseText.value_eq_parts (input : List Char) (x : ReleaseText Piece)
    (prerelease : Prerelease) (build : Build) : (do
      let major ← numberAt input .major x.major
      let minor ← Slot.value input .minor (x.minor?.map .number)
      let patch ← Slot.value input .patch (x.patch?.map .number)
      Exact.ofParts? major minor.number? patch.number? prerelease build) =
    x.value input >>= fun r => .ok ⟨r, prerelease, build⟩ := by
  cases x <;>
    · simp [value, major, minor?, patch?, Slot.value]
      rfl

/-- What is converted from the loose parts is the version, and no open slot is lost. -/
structure VersionText.Suffices (input : List Char) (x : VersionText) : Prop where
  toVersion_parts : x.parts.toVersion input = x.value input
  minor_ne : x.parts.isExact = true → x.parts.minor ≠ some .wildcard
  patch_ne : x.parts.isExact = true → x.parts.patch ≠ some .wildcard

theorem toExact_parts (input : List Char) (v : ExactText) :
    (VersionText.exact v).parts.toExact input = v.value input := by
  rw [ExactText.value_eq]
  exact congrArg (v.tag input >>= ·)
    (funext fun tag => v.release.value_eq_parts input tag v.metadata)

theorem isExact_parts_of_exact (v : ExactText) :
    (VersionText.exact v).parts.isExact = v.isExact := by
  rcases v with ⟨x, prerelease, build⟩
  cases x <;> rfl

theorem isExact_parts_of_pattern (w : PatternText) :
    (VersionText.pattern w).parts.isExact = isNumberTriple w := by
  rcases w with m | ⟨m, n⟩ | ⟨m, n, p⟩
  · rfl
  · cases n <;> rfl
  · cases n <;> cases p <;> rfl

theorem VersionText.IsDecided.suffices {x : VersionText} (h : x.IsDecided) (input : List Char) :
    x.Suffices input := by
  cases x with
  | exact v =>
      have hexact : (exact v).parts.isExact = true := (isExact_parts_of_exact v).trans h
      refine ⟨?_, fun _ => by simp [parts], fun _ => by simp [parts]⟩
      rw [Parts.toVersion, if_pos hexact, toExact_parts]
      rfl
  | pattern w =>
      have hpattern : (pattern w).parts.isExact = false := (isExact_parts_of_pattern w).trans h
      refine ⟨?_, fun hexact => ?_, fun hexact => ?_⟩
      · rw [Parts.toVersion, hpattern]
        rfl
      · rw [hpattern] at hexact
        contradiction
      · rw [hpattern] at hexact
        contradiction

theorem VersionForm.isDecided {x : VersionText} {s : List Char} (h : VersionForm x s) :
    x.IsDecided := by
  cases h with
  | exact _ hexact => exact hexact
  | pattern _ hpattern => exact hpattern

theorem BoundForm.isDecided {x : VersionText} {s r : List Char} (h : BoundForm x s r)
    (hx : x.isNumberTriple = false) : x.IsDecided := by
  cases h with
  | exact _ => rfl
  | pattern _ => exact hx

end Grammar

theorem Version.Items.isDecided {t : List Char} {xs : List Item} (h : Version.Items t xs) :
    ∀ x, .version x ∈ xs → x.IsDecided := by
  obtain ⟨y, hy, rfl⟩ := h
  intro x hx
  cases List.mem_singleton.1 hx
  exact hy.isDecided

theorem Range.Items.isDecided {t : List Char} {xs : List Item} (h : Range.Items t xs) :
    ∀ x, .version x ∈ xs → x.IsDecided := by
  obtain ⟨as, ⟨hform, hexact⟩, rfl⟩ := h
  intro x hx
  obtain ⟨y, hy, he⟩ := List.mem_map.1 hx
  cases he
  obtain ⟨a, ha, hy⟩ := List.mem_flatMap.1 hy
  obtain ⟨_, _, hbound⟩ := hform.exists_boundForm a ha x hy
  exact hbound.isDecided (hexact a ha x hy)

/-! ## Causes -/

section

variable {α : Type} {parse : String → Except Error α} {items : List Char → List Item → Prop}

theorem ConvertsItems.cause (h : ConvertsItems parse items) {s : String} {e : Error}
    (he : parse s = .error e) : e.OfText ∨ ∃ xs w, items (Text.trim s.toList) xs ∧
      .version (.pattern w) ∈ xs ∧ PatternRefused (Text.trim s.toList) w e := by
  by_cases hconversion : e.IsConversion
  · obtain ⟨xs, x, hxs, hx, hfails⟩ := (h.error_iff hconversion).1 he
    rcases Item.failsWith_cases hfails with htext | ⟨w, rfl, hw⟩
    · exact .inl htext
    · exact .inr ⟨xs, w, hxs, hx.mem, hw⟩
  · exact .inl (Error.ofText_of_not_isConversion hconversion)

theorem ConvertsItems.ofPattern (h : ConvertsItems parse items) {s : String} {e : Error}
    (he : parse s = .error e) : e.OfPattern := by
  rcases h.cause he with htext | ⟨_, _, _, _, hw⟩
  · exact .text htext
  · obtain ⟨_, _, _, a, b, c, _, _, _, _, rfl⟩ := patternRefused_iff.1 hw
    exact .concretePatch a b c

/-- A pattern with a patch that is a number is refused if and only if it is the leftmost version
that fails. Its minor is open and its numbers fit. -/
def RefusesConcretePatch (parse : String → Except Error α)
    (items : List Char → List Item → Prop) : Prop :=
  ∀ s major minor patch, parse s = .error (.concretePatch major minor patch) ↔
    minor = .wildcard ∧ ∃ xs m p, items (Text.trim s.toList) xs ∧
      LeftmostFailing (Text.trim s.toList) xs
        (.version (.pattern (.triple m .wildcard (.number p)))) ∧
      Nat.ofDigitChars 10 m.text 0 = major.toNat ∧ Nat.ofDigitChars 10 p.text 0 = patch.toNat

theorem ConvertsItems.refusesConcretePatch (h : ConvertsItems parse items)
    (hdecided : ∀ t xs, items t xs → ∀ x, .version x ∈ xs → x.IsDecided) :
    RefusesConcretePatch parse items := by
  intro s major minor patch
  rw [h.error_iff (e := .concretePatch major minor patch) trivial]
  simp only [Item.failsWith_concretePatch]
  constructor
  · rintro ⟨xs, _, hxs, hx, m, n, p, rfl, hm, hn, hp⟩
    -- With a number for the minor the three numbers would have been an exact version.
    cases n with
    | number n => exact nomatch hdecided _ xs hxs _ hx.mem
    | wildcard =>
        cases hn
        exact ⟨rfl, xs, m, p, hxs, hx, numberAt_eq_ok.1 hm, numberAt_eq_ok.1 hp⟩
  · rintro ⟨rfl, xs, m, p, hxs, hx, hm, hp⟩
    exact ⟨xs, _, hxs, hx, m, .wildcard, p, rfl, numberAt_eq_ok.2 hm, rfl, numberAt_eq_ok.2 hp⟩

end

theorem Exact.Items.not_mem_pattern {t : List Char} {xs : List Item} (h : Exact.Items t xs)
    (w : PatternText) : .version (.pattern w) ∉ xs := by
  obtain ⟨v, _, rfl⟩ := h
  simp

/-- The text of the operator that is read is the symbol of that operator. -/
theorem exists_ofSymbol?_of_operator? {s r : List Char} {o : Operator}
    (h : operator? s = some (o, r)) :
    ∃ u, s = u ++ r ∧ Operator.ofSymbol? (String.ofList u) = some o :=
  ⟨o.symbol.toList, operator?_sound h, by simp⟩

/-- Texts cause errors about their form, about the numbers of a version and, unless only exact
versions are read, about a pattern with a patch that is a number. This last one is for the leftmost
version that fails, if it is such a pattern with an open minor and numbers that fit. Nothing else is
refused: loose parts convert as what was read does, no open slot is lost in an exact version, and
the text of an operator is its symbol. -/
theorem errors_of_texts :
    (∀ s e, Exact.parse s = .error e → e.OfText) ∧
    (∀ s e, Version.parse s = .error e → e.OfPattern) ∧
    (∀ s e, Pattern.parse s = .error e → e.OfPattern) ∧
    (∀ s e, Range.parse s = .error e → e.OfPattern) ∧
    RefusesConcretePatch Version.parse Version.Items ∧
    RefusesConcretePatch Range.parse Range.Items ∧
    (∀ t v, (VersionText.exact v).parts.toExact t = v.value t) ∧
    (∀ t w, (VersionText.pattern w).parts.toPattern t = patternValue t w) ∧
    (∀ t xs, Version.Items t xs ∨ Range.Items t xs → ∀ x, .version x ∈ xs → x.Suffices t) ∧
    (∀ s o r, operator? s = some (o, r) →
      ∃ u, s = u ++ r ∧ Operator.ofSymbol? (String.ofList u) = some o) := by
  refine ⟨fun s e he => ?_, fun _ _ => Version.convertsItems.ofPattern,
    fun _ _ => Pattern.convertsItems.ofPattern, fun _ _ => Range.convertsItems.ofPattern,
    Version.convertsItems.refusesConcretePatch fun _ _ => Version.Items.isDecided,
    Range.convertsItems.refusesConcretePatch fun _ _ => Range.Items.isDecided,
    toExact_parts, fun _ _ => rfl, fun t xs hxs x hx => ?_,
    fun _ _ _ => exists_ofSymbol?_of_operator?⟩
  · rcases Exact.convertsItems.cause he with htext | ⟨_, w, hxs, hw, _⟩
    · exact htext
    · exact absurd hw (hxs.not_mem_pattern w)
  · have hdecided := hxs.elim Version.Items.isDecided Range.Items.isDecided
    exact (hdecided x hx).suffices t

/-- A pattern at the right end of an interval, and an operator that another one starts with. -/
theorem errors_of_texts_hyphen :
    Range.parse " 1.2.3 - 01.x.7" = .error (.concretePatch 1 .wildcard 7) ∧
      (∃ e, Exact.parse "1.2.3-" = .error e ∧ e.OfText) ∧
      (∃ xs, Range.Items "1.2.3 - 01.x.7".toList xs ∧
        ∀ x, .version x ∈ xs → x.Suffices "1.2.3 - 01.x.7".toList) ∧
      ∃ u, "<=1".toList = u ++ ['1'] ∧ Operator.ofSymbol? (String.ofList u) = some .lessOrEqual := by
  let t := "1.2.3 - 01.x.7".toList
  have hread : ∃ lower m p, alternative? t =
        some (.hyphen lower (.pattern (.triple m .wildcard (.number p))), []) ∧
      lower.isNumberTriple = false ∧ (∃ v, lower.value t = .ok v) ∧
      Nat.ofDigitChars 10 m.text 0 = (1 : Number).toNat ∧
      Nat.ofDigitChars 10 p.text 0 = (7 : Number).toNat :=
    ⟨_, _, _, rfl, rfl, ⟨_, rfl⟩, rfl, rfl⟩
  obtain ⟨lower, m, p, hform, hlower, ⟨v, hv⟩, hm, hp⟩ := hread
  have hreads : ReadsAs t [.hyphen lower (.pattern (.triple m .wildcard (.number p)))] := by
    refine ⟨.single (alternative?_sound hform), ?_⟩
    simpa [AlternativeText.TriplesExact, AlternativeText.versions] using ⟨hlower, rfl⟩
  have hitems : Range.Items t _ := ⟨_, hreads, rfl⟩
  have hfails : (Item.version (.pattern (.triple m .wildcard (.number p)))).FailsWith t
      (.concretePatch 1 .wildcard 7) :=
    Item.failsWith_concretePatch.2
      ⟨_, _, _, rfl, numberAt_eq_ok.2 hm, rfl, numberAt_eq_ok.2 hp⟩
  obtain ⟨hexact, _, _, _, _, hrange, _, _, hsuffices, hoperator⟩ := errors_of_texts
  exact ⟨(hrange _ _ _ _).2 ⟨rfl, _, m, p, hitems,
      .second (Item.converts_version hv) hfails, hm, hp⟩,
    ⟨_, rfl, hexact "1.2.3-" _ rfl⟩, ⟨_, hitems, hsuffices _ _ (.inr hitems)⟩, hoperator _ _ _ rfl⟩

end Versioning
