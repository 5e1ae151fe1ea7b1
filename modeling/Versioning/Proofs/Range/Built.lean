import Versioning.Proofs.Reading.Success
import Versioning.Range.Parse

/-!
# Ranges that are built

A range comes from a text or from its constructors, which bring the bounds of an interval into exact
form. Only the JSON form can name an interval with patterns as bounds.
-/

namespace Versioning

namespace Range

/-- What reading and the constructors give; alternatives may themselves be composite. -/
inductive Built : Range → Prop
  | parsed {s : String} {r : Range} (h : Range.parse s = .ok r) : Built r
  | comparison (operator : Operator) (bound : Version) : Built (.comparison operator bound)
  | through (first last : Version) : Built (.interval (.through first last))
  | caret (v : Version) : Built (.caret v)
  | tilde (v : Version) : Built (.tilde v)
  | exact (v : Version) : Built (.exact v)
  | composite {rs : List Range} (h : ∀ r ∈ rs, Built r) : Built (.composite rs)

/-- The intervals among the alternatives have exact bounds. -/
inductive Normal : Range → Prop
  | comparison (operator : Operator) (bound : Version) : Normal (.comparison operator bound)
  | interval (lower upper : Exact) : Normal (.interval ⟨.exact lower, .exact upper⟩)
  | caret (v : Version) : Normal (.caret v)
  | tilde (v : Version) : Normal (.tilde v)
  | exact (v : Version) : Normal (.exact v)
  | composite {rs : List Range} (h : ∀ r ∈ rs, Normal r) : Normal (.composite rs)

end Range

/-! ## Bounds are exact -/

/-- The first version is lowered to its floor and the last one goes to its next version, which are
both exact. -/
theorem Interval.exists_through (first last : Version) :
    ∃ l u : Exact, Interval.through first last = ⟨.exact l, .exact u⟩ := by
  cases first <;> cases last <;> exact ⟨_, _, rfl⟩

namespace Range

theorem exists_caretBounds (v : Version) :
    ∃ l u : Exact, caretBounds v = ⟨.exact l, .exact u⟩ := by
  cases v <;> exact ⟨_, _, rfl⟩

theorem exists_tildeBounds (v : Version) :
    ∃ l u : Exact, tildeBounds v = ⟨.exact l, .exact u⟩ := by
  cases v <;> exact ⟨_, _, rfl⟩

theorem Normal.through (first last : Version) : Normal (.interval (.through first last)) := by
  obtain ⟨l, u, h⟩ := Interval.exists_through first last
  rw [h]
  exact .interval l u

theorem Normal.of_composite {rs : List Range} (h : Normal (.composite rs)) :
    ∀ r ∈ rs, Normal r := by
  cases h with
  | composite h => exact h

theorem Normal.ofAlternatives {rs : List Range} (h : ∀ r ∈ rs, Normal r) :
    Normal (ofAlternatives rs) := by
  unfold Range.ofAlternatives
  split
  · exact h _ List.mem_cons_self
  · exact .composite h

/-! ## Reading gives exact bounds -/

theorem normal_of_value {input : List Char} {a : Grammar.AlternativeText} {r : Range}
    (h : a.value input = .ok r) : Normal r := by
  cases a with
  | hyphen lower upper =>
      obtain ⟨l, _, h⟩ := bind_eq_ok.1 h
      obtain ⟨u, _, h⟩ := bind_eq_ok.1 h
      cases h
      exact .through l u
  | caret v =>
      obtain ⟨w, _, h⟩ := bind_eq_ok.1 h
      cases h
      exact .caret w
  | tilde v =>
      obtain ⟨w, _, h⟩ := bind_eq_ok.1 h
      cases h
      exact .tilde w
  | pinned v =>
      obtain ⟨w, _, h⟩ := bind_eq_ok.1 h
      cases h
      exact .exact w
  | comparison operator bound =>
      obtain ⟨w, _, h⟩ := bind_eq_ok.1 h
      cases h
      exact .comparison operator w
  | any =>
      cases h
      exact .comparison _ _
  | plain v =>
      obtain ⟨w, _, h⟩ := bind_eq_ok.1 h
      cases w with
      | exact e =>
          cases h
          exact .exact _
      | pattern w =>
          cases h
          exact .through _ _

/-- A pattern never bounds an interval that was read. -/
theorem normal_of_parse {s : String} {r : Range} (h : Range.parse s = .ok r) : Normal r := by
  obtain ⟨input, _, h⟩ := bind_eq_ok.1 h
  obtain ⟨alternatives, _, h⟩ := bind_eq_ok.1 h
  obtain ⟨rs, hrs, h⟩ := bind_eq_ok.1 h
  cases h
  apply Normal.ofAlternatives
  intro r hr
  obtain ⟨a, _, ha⟩ := exists_mem_of_mapM hrs r hr
  exact normal_of_value ha

theorem Built.normal {r : Range} (h : Built r) : Normal r := by
  induction h with
  | parsed h => exact normal_of_parse h
  | comparison operator bound => exact .comparison operator bound
  | through first last => exact .through first last
  | caret v => exact .caret v
  | tilde v => exact .tilde v
  | exact v => exact .exact v
  | composite _ ih => exact .composite ih

end Range

end Versioning
