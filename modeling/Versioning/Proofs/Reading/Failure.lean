import Versioning.Proofs.Reading.Malformed
import Versioning.Proofs.Reading.Positions

/-!
# The item that fails

Items are converted from left to right and the first failure is reported. So a text of the right
form fails as the leftmost of its items that fail to convert, whichever reader it is for.
-/

namespace Versioning

open Grammar

/-! ## The leftmost failure -/

/-- The leftmost of the items that fail to convert. -/
structure LeftmostFailing (input : List Char) (xs : List Item) (x : Item) : Prop where
  mem : x ∈ xs
  fails : ¬ x.Converts input
  leftmost : ∀ y ∈ xs, y.offset input < x.offset input → y.Converts input

/-- The second of two versions fails only after the first gave a value. -/
theorem LeftmostFailing.second {input : List Char} {x y : Item} {e : Error} (hx : x.Converts input)
    (hy : y.FailsWith input e) : LeftmostFailing input [x, y] y := by
  refine ⟨by simp, fun hconverts => hconverts e hy, fun z hz hlt => ?_⟩
  rcases List.mem_cons.1 hz with rfl | hz
  · exact hx
  · rw [List.mem_singleton.1 hz] at hlt
    exact absurd hlt (Nat.lt_irrefl _)

/-- The conversion of the items one by one fails with `e`. -/
def FirstFails (input : List Char) (xs : List Item) (e : Error) : Prop :=
  ∃ before x after, xs = before ++ x :: after ∧ (∀ y ∈ before, y.Converts input) ∧
    x.FailsWith input e

theorem firstFails_single {input : List Char} {x : Item} {e : Error} :
    FirstFails input [x] e ↔ x.FailsWith input e := by
  constructor
  · rintro ⟨before, y, after, h, _, hy⟩
    obtain ⟨rfl, h⟩ | ⟨_, _, h⟩ := List.cons_eq_append_iff.1 h
    · cases h
      exact hy
    · simp at h
  · intro h
    exact ⟨[], x, [], rfl, by simp, h⟩

/-- In a sequence of items, the first one that fails is the leftmost one. -/
theorem firstFails_iff {input : List Char} {xs : List Item} {e : Error}
    (h : xs.Pairwise fun x y => x.offset input < y.offset input) :
    FirstFails input xs e ↔ ∃ x, LeftmostFailing input xs x ∧ x.FailsWith input e := by
  constructor
  · rintro ⟨before, x, after, rfl, hbefore, hx⟩
    obtain ⟨_, hafter, _⟩ := List.pairwise_append.1 h
    refine ⟨x, ⟨by simp, fun hconverts => hconverts e hx, fun y hy hlt => ?_⟩, hx⟩
    rcases List.mem_append.1 hy with hy | hy
    · exact hbefore y hy
    · rcases List.mem_cons.1 hy with rfl | hy
      · exact absurd hlt (Nat.lt_irrefl _)
      · exact absurd hlt (Nat.lt_asymm ((List.pairwise_cons.1 hafter).1 y hy))
  · rintro ⟨x, ⟨hmem, _, hleftmost⟩, hx⟩
    obtain ⟨before, after, rfl⟩ := List.append_of_mem hmem
    obtain ⟨_, _, hbefore⟩ := List.pairwise_append.1 h
    refine ⟨before, x, after, rfl, fun y hy => ?_, hx⟩
    exact hleftmost y (List.mem_append_left _ hy) (hbefore y hy x List.mem_cons_self)

/-! ## The items of a text -/

namespace Grammar

/-- A whole text as a version of either kind, which three numbers or a tag make exact. -/
inductive VersionForm : VersionText → List Char → Prop
  | exact {v : ExactText} {s : List Char} (h : ExactForm v s []) (hexact : v.isExact = true) :
      VersionForm (.exact v) s
  | pattern {w : PatternText} {s : List Char} (h : PatternForm w s [])
      (hpattern : isNumberTriple w = false) : VersionForm (.pattern w) s

theorem versionForm_iff {x : VersionText} {s : List Char} :
    versionText? s = some (x, []) ↔ VersionForm x s := by
  constructor
  · intro h
    cases x with
    | exact v =>
        obtain ⟨hv, hexact⟩ := exactForm_of_versionText? h
        exact .exact hv hexact
    | pattern w =>
        have hw := patternForm_of_versionText? h
        refine .pattern hw ?_
        -- Three numbers have a form as an exact version too, and that one is tried first.
        obtain ⟨y, hy, hform⟩ := (BoundForm.pattern hw).exists_exact
        cases hform with
        | exact hv => simp [versionText?_of_exact hv, ExactText.isExact, ReleaseText.isTriple] at h
        | pattern hw' =>
            have hread := patternText?_complete hw EndsExact.nil.release
            rw [patternText?_complete hw' EndsExact.nil.release] at hread
            cases hread
            exact hy
  · intro h
    cases h with
    | exact h hexact => rw [versionText?_of_exact h, hexact]; rfl
    | pattern h hpattern => exact versionText?_of_pattern h hpattern

end Grammar

def Exact.Items (t : List Char) (xs : List Item) : Prop :=
  ∃ v, ExactForm v t [] ∧ xs = [.version (.exact v)]

def Pattern.Items (t : List Char) (xs : List Item) : Prop :=
  ∃ w, PatternForm w t [] ∧ xs = [.version (.pattern w)]

def Version.Items (t : List Char) (xs : List Item) : Prop :=
  ∃ x, VersionForm x t ∧ xs = [.version x]

def Prerelease.Items (t : List Char) (xs : List Item) : Prop :=
  ∃ dotted, DottedForm dotted t [] ∧ xs = [.tag dotted]

def Range.Items (t : List Char) (xs : List Item) : Prop :=
  ∃ as, ReadsAs t as ∧ xs = (as.flatMap AlternativeText.versions).map .version

/-- A text has one reading as items, which stand from left to right, and a conversion fails as the
first of them that does. -/
structure ConvertsItems {α : Type} (parse : String → Except Error α)
    (items : List Char → List Item → Prop) : Prop where
  unique {t : List Char} {xs ys : List Item} (hx : items t xs) (hy : items t ys) : xs = ys
  sequence {t : List Char} {xs : List Item} (h : items t xs) : Sequence xs t []
  parse_eq_error {s : String} {e : Error} (he : e.IsConversion) : parse s = .error e ↔
    ∃ xs, items (Text.trim s.toList) xs ∧ FirstFails (Text.trim s.toList) xs e

/-- What is read from a text of the form is converted item by item. -/
structure ReadsItems {α β : Type} (read : List Char → Option (α × List Char))
    (form : α → List Char → Prop) (itemsOf : α → List Item)
    (value : List Char → α → Except Error β) : Prop where
  read_nil (x : α) : read [] ≠ some (x, [])
  read_iff {t : List Char} {x : α} : read t = some (x, []) ↔ form x t
  sequence {t : List Char} {x : α} (h : form x t) : Sequence (itemsOf x) t []
  value_eq_error (t : List Char) (x : α) (e : Error) :
    value t x = .error e ↔ FirstFails t (itemsOf x) e

section

variable {α β : Type} {parse : String → Except Error β}
  {read : List Char → Option (α × List Char)} {form : α → List Char → Prop}
  {itemsOf : α → List Item}
  {value : List Char → α → Except Error β}

/-- A parser that reads a text to its end and then converts it fails as its items do. -/
theorem ReadsItems.convertsItems (h : ReadsItems read form itemsOf value) (expected : Expected)
    (hparse : ∀ s, Text.trim s.toList ≠ [] → parse s =
      complete expected read (Text.trim s.toList) >>= value (Text.trim s.toList))
    (hblank : ∀ s, Text.trim s.toList = [] → FailsWith (¬ ·.IsConversion) (parse s)) :
    ConvertsItems parse fun t xs => ∃ x, form x t ∧ xs = itemsOf x := by
  refine ⟨?_, fun ⟨x, hx, hxs⟩ => hxs ▸ h.sequence hx, fun {s e} he => ?_⟩
  · rintro t _ _ ⟨x, hx, rfl⟩ ⟨y, hy, rfl⟩
    have hread := h.read_iff.2 hx
    rw [h.read_iff.2 hy] at hread
    cases hread
    rfl
  by_cases hs : Text.trim s.toList = []
  · refine iff_of_false (fun herror => hblank s hs e herror he) ?_
    rintro ⟨_, ⟨x, hx, _⟩, _⟩
    rw [hs] at hx
    exact h.read_nil x (h.read_iff.2 hx)
  · rw [hparse s hs, bind_eq_error]
    constructor
    · rintro (herror | ⟨x, hx, herror⟩)
      · obtain ⟨_, _, rfl⟩ := exists_malformed_of_complete herror
        exact he.elim
      · exact ⟨_, ⟨x, h.read_iff.1 (complete_eq_ok.1 hx), rfl⟩, (h.value_eq_error _ _ _).1 herror⟩
    · rintro ⟨_, ⟨x, hx, rfl⟩, herror⟩
      exact .inr ⟨x, complete_eq_ok.2 (h.read_iff.2 hx), (h.value_eq_error _ _ _).2 herror⟩

/-- The reader of a text that must not be empty. -/
theorem ReadsItems.convertsItems_nonempty (h : ReadsItems read form itemsOf value)
    (hparse : ∀ s, parse s =
      nonempty s >>= fun input => complete .digit read input >>= value input) :
    ConvertsItems parse fun t xs => ∃ x, form x t ∧ xs = itemsOf x := by
  refine h.convertsItems .digit (fun s hs => ?_) fun s hs e herror => ?_
  · rw [hparse, nonempty_of_trim_ne_nil hs]
    rfl
  · rw [hparse, nonempty, hs] at herror
    cases herror
    exact id

end

theorem exactText?_readsItems : ReadsItems exactText? (fun v t => ExactForm v t [])
    (fun v => [.version (.exact v)]) (fun t v => v.value t) where
  read_nil _ h := nomatch h
  read_iff := ⟨exactText?_sound, fun h => exactText?_complete h .nil⟩
  sequence h := .single (List.suffix_refl _) (.exact h)
  value_eq_error _ _ _ := by
    rw [firstFails_single]
    exact bind_ok_eq_error.symm

theorem patternText?_readsItems : ReadsItems patternText? (fun w t => PatternForm w t [])
    (fun w => [.version (.pattern w)]) patternValue where
  read_nil _ h := nomatch h
  read_iff := ⟨patternText?_sound, fun h => patternText?_complete h EndsExact.nil.release⟩
  sequence h := .single (List.suffix_refl _) (.pattern h)
  value_eq_error _ _ _ := by
    rw [firstFails_single]
    exact bind_ok_eq_error.symm

theorem Grammar.VersionForm.item {x : VersionText} {s : List Char} (h : VersionForm x s) :
    ItemForm (.version x) s [] := by
  cases h with
  | exact h _ => exact .exact h
  | pattern h _ => exact .pattern h

theorem versionText?_readsItems : ReadsItems versionText? VersionForm (fun x => [.version x])
    (fun t x => x.value t) where
  read_nil _ h := nomatch h
  read_iff := versionForm_iff
  sequence h := .single (List.suffix_refl _) h.item
  value_eq_error _ _ _ := by
    rw [firstFails_single]
    exact Iff.rfl

theorem dottedText?_readsItems : ReadsItems dottedText? (fun dotted t => DottedForm dotted t [])
    (fun dotted => [.tag dotted]) Prerelease.ofDotted where
  read_nil _ h := nomatch h
  read_iff := by
    refine ⟨dottedText?_sound, fun h => ?_⟩
    exact dottedText?_eq_some.2 ⟨dotted?_complete h (by simp), h.after_eq⟩
  sequence h := .single (List.suffix_refl _) (.tag h)
  value_eq_error _ _ _ := by
    rw [firstFails_single]
    exact Iff.rfl

/-- The versions of a text are converted one after the other. -/
theorem firstFails_versions {t : List Char} {xs : List VersionText} {e : Error} :
    FirstFails t (xs.map .version) e ↔ xs.mapM (·.value t) = .error e := by
  rw [mapM_eq_error_iff]
  constructor
  · rintro ⟨_, _, _, hsplit, hbefore, hx⟩
    obtain ⟨before, _, rfl, rfl, hrest⟩ := List.map_eq_append_iff.1 hsplit
    obtain ⟨x, after, rfl, rfl, rfl⟩ := List.map_eq_cons_iff.1 hrest
    exact ⟨before, x, after, rfl, fun y hy c => hbefore _ (List.mem_map_of_mem hy) c, hx⟩
  · rintro ⟨before, x, after, rfl, hbefore, hx⟩
    refine ⟨before.map .version, .version x, after.map .version, by simp, fun z hz c => ?_, hx⟩
    obtain ⟨y, hy, rfl⟩ := List.mem_map.1 hz
    exact hbefore y hy c

theorem range?_readsItems : ReadsItems range? (fun as t => ReadsAs t as)
    (fun as => (as.flatMap AlternativeText.versions).map .version)
    (fun t as => as.mapM (·.value t) >>= fun rs => .ok (Range.ofAlternatives rs)) where
  read_nil _ h := nomatch h
  read_iff := by
    refine ⟨fun h => ?_, ReadsAs.range?⟩
    obtain ⟨bs, hbs⟩ := (range?_sound h).exists_readsAs
    obtain ⟨rfl, _⟩ := Prod.mk.inj (Option.some.inj (hbs.range?.symm.trans h))
    exact hbs
  sequence h := h.1.sequence
  value_eq_error _ _ _ := by
    rw [bind_ok_eq_error, AlternativeText.mapM_value_eq_error, firstFails_versions]

theorem Exact.convertsItems : ConvertsItems Exact.parse Exact.Items :=
  exactText?_readsItems.convertsItems_nonempty fun _ => rfl

theorem Pattern.convertsItems : ConvertsItems Pattern.parse Pattern.Items :=
  patternText?_readsItems.convertsItems_nonempty fun _ => rfl

theorem Version.convertsItems : ConvertsItems Version.parse Version.Items :=
  versionText?_readsItems.convertsItems_nonempty fun _ => rfl

theorem Range.convertsItems : ConvertsItems Range.parse Range.Items :=
  range?_readsItems.convertsItems_nonempty fun _ => rfl

theorem Prerelease.convertsItems : ConvertsItems Prerelease.parse Prerelease.Items := by
  refine dottedText?_readsItems.convertsItems .segment (fun s hs => ?_) fun s hs => ?_
  · simp only [Prerelease.parse, if_neg hs]
    rfl
  · rw [Prerelease.parse_of_blank hs]
    exact .ok _

/-- A conversion error is that of the leftmost item that fails. -/
theorem ConvertsItems.error_iff {α : Type} {parse : String → Except Error α}
    {items : List Char → List Item → Prop} (h : ConvertsItems parse items) {s : String} {e : Error}
    (he : e.IsConversion) : parse s = .error e ↔
      ∃ xs x, items (Text.trim s.toList) xs ∧ LeftmostFailing (Text.trim s.toList) xs x ∧
        x.FailsWith (Text.trim s.toList) e := by
  rw [h.parse_eq_error he]
  refine exists_congr fun xs => ?_
  rw [exists_and_left]
  exact and_congr_right fun hxs =>
    firstFails_iff ((h.sequence hxs).pairwise_offset (List.suffix_refl _))

end Versioning
