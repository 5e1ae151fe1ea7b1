import Versioning.Proofs.Grammar.Choice
import Versioning.Proofs.Reading.Conversion
import Versioning.Range.Parse

/-!
# What a range means

A text of the language of ranges is read as the alternatives that the grammar derives, each as the
range that it denotes. Any other text is malformed.
-/

namespace Versioning

open Grammar

namespace Grammar

/-! ## Alternatives -/

/-- The range that an alternative stands for. -/
inductive AlternativeText.Denotes (input : List Char) : AlternativeText → Range → Prop
  | hyphen {lower upper : VersionText} {v w : Version} (hv : lower.value input = .ok v)
      (hw : upper.value input = .ok w) :
      Denotes input (.hyphen lower upper) (.interval (.through v w))
  | caret {x : VersionText} {v : Version} (hv : x.value input = .ok v) :
      Denotes input (.caret x) (.caret v)
  | tilde {x : VersionText} {v : Version} (hv : x.value input = .ok v) :
      Denotes input (.tilde x) (.tilde v)
  | pinned {x : VersionText} {v : Version} (hv : x.value input = .ok v) :
      Denotes input (.pinned x) (.exact v)
  | comparison {x : VersionText} {v : Version} (operator : Operator) (hv : x.value input = .ok v) :
      Denotes input (.comparison operator x) (.comparison operator v)
  | any : Denotes input .any (.comparison .greaterOrEqual (.ofNumbers 0 0 0))
  | plainExact {x : VersionText} {v : Exact} (hv : x.value input = .ok (.exact v)) :
      Denotes input (.plain x) (.exact (.exact v))
  | plainPattern {x : VersionText} {w : Pattern} (hw : x.value input = .ok (.pattern w)) :
      Denotes input (.plain x) (.interval (.through (.pattern w) (.pattern w)))

namespace AlternativeText

variable {input : List Char}

theorem value_eq_ok {a : AlternativeText} {r : Range} :
    a.value input = .ok r ↔ Denotes input a r := by
  constructor
  · intro h
    cases a with
    | hyphen lower upper =>
        obtain ⟨v, hv, h⟩ := bind_eq_ok.1 h
        obtain ⟨w, hw, h⟩ := bind_eq_ok.1 h
        cases h
        exact .hyphen hv hw
    | caret x =>
        obtain ⟨v, hv, h⟩ := bind_eq_ok.1 h
        cases h
        exact .caret hv
    | tilde x =>
        obtain ⟨v, hv, h⟩ := bind_eq_ok.1 h
        cases h
        exact .tilde hv
    | pinned x =>
        obtain ⟨v, hv, h⟩ := bind_eq_ok.1 h
        cases h
        exact .pinned hv
    | comparison operator x =>
        obtain ⟨v, hv, h⟩ := bind_eq_ok.1 h
        cases h
        exact .comparison operator hv
    | any =>
        cases h
        exact .any
    | plain x =>
        obtain ⟨v, hv, h⟩ := bind_eq_ok.1 h
        cases v with
        | exact v =>
            cases h
            exact .plainExact hv
        | pattern w =>
            cases h
            exact .plainPattern hv
  · intro h
    cases h with
    | hyphen hv hw => simp [value, hv, hw, bind, Except.bind, pure, Except.pure]
    | caret hv | tilde hv | pinned hv | comparison _ hv | plainExact hv | plainPattern hv =>
        rw [value, hv]
        rfl
    | any => rfl

theorem value_eq_error {a : AlternativeText} {e : Error} :
    a.value input = .error e ↔ a.versions.mapM (·.value input) = .error e := by
  cases a with
  | hyphen lower upper =>
      simp [value, versions, bind_eq_error, pure, Except.pure]
  | caret x | tilde x | pinned x | comparison _ x =>
      simp [value, versions, bind_eq_error, pure, Except.pure]
  | any => simp [value, versions, pure, Except.pure]
  | plain x =>
      rcases hx : x.value input with cause | v
      · simp [value, versions, hx, bind, Except.bind]
      · cases v <;> simp [value, versions, hx, bind, Except.bind, pure, Except.pure]

/-- The alternatives fail to convert as the versions in them do, the first of these first. -/
theorem mapM_value_eq_error {as : List AlternativeText} {e : Error} :
    as.mapM (·.value input) = .error e ↔
      (as.flatMap versions).mapM (·.value input) = .error e := by
  induction as with
  | nil => simp [pure, Except.pure]
  | cons a as ih =>
      rw [List.mapM_cons, List.flatMap_cons, List.mapM_append]
      rcases hvs : a.versions.mapM (·.value input) with cause | vs
      · simp [value_eq_error.2 hvs, hvs, bind, Except.bind]
      · rcases ha : a.value input with cause | r
        · rw [value_eq_error.1 ha] at hvs
          contradiction
        · simp [bind_eq_error, hvs, ih, pure, Except.pure]

theorem failsWith_mapM_value (as : List AlternativeText) :
    FailsWith Error.IsConversion (as.mapM (·.value input)) := by
  intro e h
  exact FailsWith.mapM (VersionText.failsWith_value input) _ e (mapM_value_eq_error.1 h)

end AlternativeText

/-- The alternatives that the whole text is made of, with three numbers read as an exact version. -/
def ReadsAs (t : List Char) (as : List AlternativeText) : Prop :=
  RangeForm as t [] ∧ ∀ a ∈ as, a.TriplesExact

theorem ReadsAs.range? {t : List Char} {as : List AlternativeText} (h : ReadsAs t as) :
    Grammar.range? t = some (as, []) :=
  range?_complete h.1 h.2

/-- Three numbers may be taken for a pattern or an exact version, of which the second is read. -/
theorem RangeForm.exists_readsAs {t : List Char} {as : List AlternativeText}
    (h : RangeForm as t []) : ∃ bs, ReadsAs t bs := by
  obtain ⟨bs, hexact, hform⟩ := h.exists_exact
  exact ⟨bs, hform, hexact⟩

theorem RangeForm.ne_nil {t r : List Char} {as : List AlternativeText} (h : RangeForm as t r) :
    as ≠ [] := by
  cases h <;> simp

/-- The language is ambiguous, but what is read is not. -/
theorem ReadsAs.unique {t : List Char} {as bs : List AlternativeText} (ha : ReadsAs t as)
    (hb : ReadsAs t bs) : as = bs := by
  have h := ha.range?
  rw [hb.range?] at h
  cases h
  rfl

end Grammar

namespace Range

open Grammar AlternativeText

theorem parse_of_trim_ne_nil {s : String} (h : Text.trim s.toList ≠ []) : Range.parse s = do
    let alternatives ← complete .digit range? (Text.trim s.toList)
    return ofAlternatives (← alternatives.mapM (·.value (Text.trim s.toList))) := by
  rw [Range.parse, nonempty_of_trim_ne_nil h]
  rfl

theorem parse_eq_empty {s : String} :
    Range.parse s = .error .empty ↔ Text.trim s.toList = [] := by
  constructor
  · intro h
    by_contra hne
    rw [parse_of_trim_ne_nil hne] at h
    rcases bind_eq_error.1 h with h | ⟨as, _, h⟩
    · obtain ⟨_, _, he⟩ := exists_malformed_of_complete h
      contradiction
    · rcases bind_eq_error.1 h with h | ⟨_, _, h⟩
      · exact failsWith_mapM_value as _ h
      · contradiction
  · intro h
    rw [Range.parse, nonempty, h]
    rfl

section

variable {s : String} {as : List AlternativeText}

/-- What is read is only converted. -/
theorem parse_of_readsAs (h : ReadsAs (Text.trim s.toList) as) :
    Range.parse s =
      as.mapM (·.value (Text.trim s.toList)) >>= fun rs => .ok (ofAlternatives rs) := by
  have hne : Text.trim s.toList ≠ [] := by
    intro hnil
    have hread := h.range?
    rw [hnil] at hread
    contradiction
  rw [parse_of_trim_ne_nil hne, complete_eq_ok.2 h.range?]
  rfl

theorem parse_eq_ok_of_readsAs (h : ReadsAs (Text.trim s.toList) as) {r : Range} :
    Range.parse s = .ok r ↔ ∃ rs, List.Forall₂ (Denotes (Text.trim s.toList)) as rs ∧
      (rs = [r] ∨ 2 ≤ rs.length ∧ r = .composite rs) := by
  simp only [parse_of_readsAs h, bind_eq_ok, mapM_eq_ok, value_eq_ok, Except.ok.injEq]
  refine exists_congr fun rs => and_congr_right fun hall => ?_
  have hlength : rs.length ≠ 0 := by
    rw [← hall.length_eq]
    simpa using h.1.ne_nil
  match rs with
  | [q] => simp [ofAlternatives]
  | q :: q' :: qs => simp [ofAlternatives, eq_comm]

/-- Only the versions of a range can fail to convert. -/
theorem parse_eq_error_of_readsAs (h : ReadsAs (Text.trim s.toList) as) {e : Error} :
    Range.parse s = .error e ↔
      (as.flatMap versions).mapM (·.value (Text.trim s.toList)) = .error e := by
  simp [parse_of_readsAs h, bind_eq_error, mapM_value_eq_error]

end

/-! ## Texts of alternatives -/

/-- The text, which has no blanks at its ends, is read as the alternatives. -/
structure WrittenAs (rs : List Range) (t : List Char) : Prop where
  trimmed : Text.trim t = t
  reads : ∃ as, ReadsAs t as ∧ List.Forall₂ (AlternativeText.Denotes t) as rs

theorem parse_eq_ok {s : String} {r : Range} : Range.parse s = .ok r ↔
    ∃ rs, WrittenAs rs (Text.trim s.toList) ∧ r = ofAlternatives rs := by
  constructor
  · intro h
    obtain ⟨input, hinput, h⟩ := bind_eq_ok.1 h
    obtain ⟨_, rfl⟩ := nonempty_eq_ok.1 hinput
    obtain ⟨as, has, h⟩ := bind_eq_ok.1 h
    obtain ⟨rs, hrs, h⟩ := bind_eq_ok.1 h
    cases h
    have hread := complete_eq_ok.1 has
    obtain ⟨bs, hbs⟩ := (range?_sound hread).exists_readsAs
    obtain ⟨rfl, _⟩ := Prod.mk.inj (Option.some.inj (hbs.range?.symm.trans hread))
    have hall := mapM_eq_ok.1 hrs
    simp only [AlternativeText.value_eq_ok] at hall
    exact ⟨rs, ⟨Text.trim_trim _, bs, hbs, hall⟩, rfl⟩
  · rintro ⟨rs, ⟨_, as, has, hall⟩, rfl⟩
    rw [parse_of_readsAs has]
    refine bind_eq_ok.2 ⟨rs, mapM_eq_ok.2 ?_, rfl⟩
    simpa only [AlternativeText.value_eq_ok] using hall

namespace WrittenAs

variable {rs : List Range} {t : List Char}

theorem ne_nil (h : WrittenAs rs t) : t ≠ [] := by
  rintro rfl
  obtain ⟨as, has, _⟩ := h.reads
  have hread := has.range?
  contradiction

theorem alternatives_ne_nil (h : WrittenAs rs t) : rs ≠ [] := by
  obtain ⟨as, has, hall⟩ := h.reads
  rintro rfl
  exact has.1.ne_nil (List.forall₂_nil_right_iff.1 hall)

theorem single {a : AlternativeText} {r : Range} (ht : Text.trim t = t)
    (ha : AlternativeForm a t []) (hexact : a.TriplesExact) (hr : a.Denotes t r) :
    WrittenAs [r] t := by
  refine ⟨ht, [a], ⟨.single ha, ?_⟩, .cons hr .nil⟩
  simpa using hexact

theorem parse_eq {s : String} (h : WrittenAs rs s.toList) :
    Range.parse s = .ok (ofAlternatives rs) :=
  parse_eq_ok.2 ⟨rs, by rwa [h.trimmed], rfl⟩

theorem exists_denotes (h : WrittenAs rs t) {r : Range} (hr : r ∈ rs) :
    ∃ a : AlternativeText, (∀ x ∈ a.versions, ∃ s u, BoundForm x s u) ∧ a.Denotes t r := by
  obtain ⟨as, has, hall⟩ := h.reads
  obtain ⟨a, hmem, ha⟩ := exists_mem_of_forall₂ hall r hr
  exact ⟨a, has.1.exists_boundForm a hmem, ha⟩

end WrittenAs

/-! ## The language of ranges -/

/-- The language of ranges, and what is read. A text that is not blank is read without a syntax
error if and only if the grammar derives it. Then its alternatives are the same in all derivations
that take three numbers for an exact version, and the range is made of what they denote, unless a
version in them fails to convert. -/
theorem parse_grammar (s : String) (t : List Char) (ht : Text.trim s.toList = t) :
    (Range.parse s = .error .empty ↔ t = []) ∧
    (t ≠ [] → ((∀ expected place, Range.parse s ≠ .error (.malformed expected place)) ↔
      ∃ as, RangeForm as t [])) ∧
    ((∃ as, RangeForm as t []) → ∃ as, ReadsAs t as ∧ (∀ bs, ReadsAs t bs → bs = as) ∧
      (∀ r, Range.parse s = .ok r ↔ ∃ rs, List.Forall₂ (Denotes t) as rs ∧
        (rs = [r] ∨ 2 ≤ rs.length ∧ r = .composite rs)) ∧
      ∀ e, Range.parse s = .error e ↔ (as.flatMap versions).mapM (·.value t) = .error e) := by
  subst ht
  refine ⟨parse_eq_empty, fun hne => ⟨fun h => ?_, ?_⟩, ?_⟩
  · cases hread : complete .digit range? (Text.trim s.toList) with
    | ok as => exact ⟨as, range?_sound (complete_eq_ok.1 hread)⟩
    | error e =>
        obtain ⟨expected, place, rfl⟩ := exists_malformed_of_complete hread
        refine absurd ?_ (h expected place)
        rw [parse_of_trim_ne_nil hne, hread]
        rfl
  · rintro ⟨_, hform⟩ expected place h
    obtain ⟨as, has⟩ := hform.exists_readsAs
    rw [parse_eq_error_of_readsAs has, ← mapM_value_eq_error] at h
    exact failsWith_mapM_value as _ h
  · rintro ⟨_, hform⟩
    obtain ⟨as, has⟩ := hform.exists_readsAs
    exact ⟨as, has, fun bs hbs => hbs.unique has, fun r => parse_eq_ok_of_readsAs has,
      fun e => parse_eq_error_of_readsAs has⟩

theorem parse_grammar_hyphen_pinned :
    let s := " 1.2.3 - 2.x || ^=1.0.0-rc.1"
    (∀ expected place, Range.parse s ≠ .error (.malformed expected place)) ∧
      ∃ l u v, Range.parse s = .ok (.composite [.interval (.through l u), .exact v]) := by
  intro s
  let t := Text.trim " 1.2.3 - 2.x || ^=1.0.0-rc.1".toList
  have hyphen : ∃ a, alternative? t = some (a, " || ^=1.0.0-rc.1".toList) ∧ a.TriplesExact ∧
      ∃ l u, Denotes t a (.interval (.through l u)) := by
    refine ⟨_, rfl, ?_, ?_⟩
    · simp [TriplesExact, versions, VersionText.isNumberTriple, isNumberTriple]
    · exact ⟨_, _, .hyphen rfl rfl⟩
  have pinned : ∃ a, alternative? "^=1.0.0-rc.1".toList = some (a, []) ∧ a.TriplesExact ∧
      ∃ v, Denotes t a (.exact v) := by
    refine ⟨_, rfl, ?_, ?_⟩
    · simp [TriplesExact, versions, VersionText.isNumberTriple]
    · exact ⟨_, .pinned rfl⟩
  obtain ⟨a, ha, hae, l, u, hq⟩ := hyphen
  obtain ⟨b, hb, hbe, v, hr⟩ := pinned
  have hread : ReadsAs t [a, b] :=
    ⟨.cons (alternative?_sound ha) (separator?_sound rfl) (.single (alternative?_sound hb)),
      by simp [hae, hbe]⟩
  have hgrammar := parse_grammar s t rfl
  refine ⟨(hgrammar.2.1 (by decide)).2 ⟨_, hread.1⟩, l, u, v, ?_⟩
  obtain ⟨as, _, hunique, hok, _⟩ := hgrammar.2.2 ⟨_, hread.1⟩
  rw [hok, ← hunique _ hread]
  exact ⟨_, .cons hq (.cons hr .nil), .inr ⟨by simp, rfl⟩⟩

end Range

end Versioning
