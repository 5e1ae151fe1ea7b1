import Versioning.Proofs.Placement.Composite
import Versioning.Proofs.Range.Bounds
import Versioning.Proofs.Range.Joining
import Versioning.Proofs.RoundTrip.Placement

/-!
# Ranges as texts

The text of a range without intervals is read as its alternatives again, one by one. Only a pinned
pattern comes back as something else, since it is written as the pattern alone, which is read as an
interval; that interval has the bounds that the pattern stands for.
-/

namespace Versioning

open Grammar

/-! ## The text of a bound -/

/-- The text of a bound is a writing of it, in which three numbers are an exact version. -/
theorem Version.IsBound.exists_form {v : Version} (h : v.IsBound) :
    ∃ x, BoundForm x v.text.toList [] ∧ x.isNumberTriple = false ∧
      ∀ input, x.value input = .ok v := by
  cases h with
  | exact h =>
      obtain ⟨x, hform, hvalue⟩ := Exact.Canonical.exists_form h
      obtain ⟨release, prerelease, build⟩ := x
      cases ExactText.denotes_release (hvalue []) with
      | triple =>
          refine ⟨_, .exact hform, rfl, fun input => ?_⟩
          rw [VersionText.value, hvalue]
          rfl
  | pattern w =>
      obtain ⟨y, hform, hvalue⟩ := w.exists_form []
      rw [List.append_nil] at hform
      refine ⟨_, .pattern hform, Grammar.isNumberTriple_of_value (hvalue []), fun input => ?_⟩
      rw [VersionText.value, hvalue]
      rfl

namespace Range

/-! ## The text of an alternative -/

/-- The range that the text of an alternative is read as. -/
def unpinned : Range → Range
  | exact (.pattern w) => interval (.through (.pattern w) (.pattern w))
  | r => r

theorem place_unpinned (r : Range) (v : Version) : r.unpinned.place v = r.place v := by
  unfold unpinned
  split
  · rw [place, place]
    rfl
  · rfl

/-- A mark and a version, as an alternative is written, have no blanks. -/
theorem trim_marked {x : VersionText} {mark s : List Char}
    (hmark : mark.all (!Text.isBlank ·) = true) (h : BoundForm x s []) :
    Text.trim (mark ++ s) = mark ++ s := by
  have hmark : ∀ c ∈ mark, Text.isBlank c = false := by simpa using hmark
  exact Text.trim_eq_self_of_not_isBlank (List.forall_mem_append.2 ⟨hmark, h.not_isBlank⟩)

theorem Form.writtenAs (f : Form) {v : Version} (h : v.IsBound) :
    WrittenAs [(f.around v).unpinned] (f.around v).text.toList := by
  obtain ⟨x, hform, hexact, hvalue⟩ := h.exists_form
  have triples {a : AlternativeText} (ha : a.versions = [x]) : a.TriplesExact := by
    intro y hy
    rw [ha, List.mem_singleton] at hy
    rwa [hy]
  cases f with
  | comparison o =>
      simp only [around, unpinned, text, String.toList_append]
      refine .single (trim_marked ?_ hform) (.comparison o .nil hform) (triples rfl)
        (.comparison o (hvalue _))
      cases o <;> rfl
  | caret =>
      simp only [around, unpinned, text, String.toList_append]
      exact .single (trim_marked rfl hform) (.caret (.plain .nil hform)) (triples rfl)
        (.caret (hvalue _))
  | tilde =>
      simp only [around, unpinned, text, String.toList_append]
      exact .single (trim_marked rfl hform) (.tilde (.plain .nil hform)) (triples rfl)
        (.tilde (hvalue _))
  | exact =>
      have htrim := Text.trim_eq_self_of_not_isBlank hform.not_isBlank
      cases v with
      | exact e => exact .single htrim (.plain hform) (triples rfl) (.plainExact (hvalue _))
      | pattern w => exact .single htrim (.plain hform) (triples rfl) (.plainPattern (hvalue _))

theorem writtenAs_intercalate {rs : List Range} (hne : rs ≠ [])
    (h : ∀ r ∈ rs, WrittenAs [r.unpinned] r.text.toList) :
    WrittenAs (rs.map unpinned) (" || ".intercalate (rs.map text)).toList := by
  have hsep : SeparatorForm " || ".toList [] := separator?_sound (by decide)
  rw [String.toList_intercalate]
  induction rs with
  | nil => contradiction
  | cons r rs ih =>
      obtain ⟨hr, hrs⟩ := List.forall_mem_cons.1 h
      cases rs with
      | nil => simpa using hr
      | cons q rs =>
          have happend := hr.append (ih (by simp) hrs) hsep
          simpa [List.intercalate_cons_cons] using happend

/-! ## The text of a range -/

/-- No interval is in the range. -/
inductive IntervalFree : Range → Prop
  | comparison (operator : Operator) (bound : Version) : IntervalFree (.comparison operator bound)
  | caret (v : Version) : IntervalFree (.caret v)
  | tilde (v : Version) : IntervalFree (.tilde v)
  | exact (v : Version) : IntervalFree (.exact v)
  | composite {rs : List Range} (h : ∀ r ∈ rs, IntervalFree r) : IntervalFree (.composite rs)

theorem IntervalFree.of_mem_alternatives {r q : Range} (h : r.IntervalFree)
    (hq : q ∈ r.alternatives) : q.IntervalFree := by
  cases h with
  | composite h => exact h q hq
  | _ =>
      rw [List.mem_singleton.1 hq]
      constructor

/-- Alternatives without intervals are ranges around a bound. -/
theorem exists_around_of_denotes {input : List Char} {a : AlternativeText} {r : Range}
    (ha : ∀ x ∈ a.versions, ∃ s t, BoundForm x s t) (h : a.Denotes input r)
    (hfree : r.IntervalFree) : ∃ (f : Form) (v : Version), v.IsBound ∧ r = f.around v := by
  cases isBound_of_denotes ha h with
  | comparison o hv => exact ⟨.comparison o, _, hv, rfl⟩
  | interval => cases hfree
  | caret hv => exact ⟨.caret, _, hv, rfl⟩
  | tilde hv => exact ⟨.tilde, _, hv, rfl⟩
  | exact hv => exact ⟨.exact, _, hv, rfl⟩
  | composite => cases h

theorem place_ofAlternatives (rs : List Range) (v : Version) :
    (ofAlternatives rs).place v = .ofAlternatives (rs.map (·.place v)) := by
  unfold ofAlternatives
  split
  · exact (Placement.ofAlternatives_singleton _).symm
  · exact place_composite rs v

theorem place_eq_ofAlternatives (r : Range) (v : Version) :
    r.place v = .ofAlternatives (r.alternatives.map (·.place v)) := by
  cases r with
  | composite rs => exact place_composite rs v
  | _ => exact (Placement.ofAlternatives_singleton _).symm

theorem text_ofAlternatives (rs : List Range) :
    (ofAlternatives rs).text = " || ".intercalate (rs.map text) := by
  unfold ofAlternatives
  split
  · rfl
  · rw [text, texts_eq_map]

/-- A range without intervals that was read is read back from its text with its pinned patterns as
intervals, and it places all versions as before. -/
theorem text_roundTrip {s : String} {r : Range} (h : Range.parse s = .ok r)
    (hfree : r.IntervalFree) :
    Range.parse r.text = .ok (ofAlternatives (r.alternatives.map unpinned)) ∧
      ∀ v, (ofAlternatives (r.alternatives.map unpinned)).place v = r.place v := by
  constructor
  · obtain ⟨rs, hrs, rfl⟩ := parse_eq_ok.1 h
    have halternatives := hrs.alternatives_ofAlternatives
    have hwritten : ∀ r ∈ rs, WrittenAs [r.unpinned] r.text.toList := by
      intro r hr
      obtain ⟨a, hforms, ha⟩ := hrs.exists_denotes hr
      have hr := hfree.of_mem_alternatives (halternatives.symm ▸ hr)
      obtain ⟨f, v, hv, rfl⟩ := exists_around_of_denotes hforms ha hr
      exact f.writtenAs hv
    rw [halternatives, text_ofAlternatives]
    exact (writtenAs_intercalate hrs.alternatives_ne_nil hwritten).parse_eq
  · intro v
    rw [place_ofAlternatives, place_eq_ofAlternatives r, List.map_map]
    exact congrArg _ (List.map_congr_left fun q _ => q.place_unpinned v)

theorem text_roundTrip_tilde_pinned :
    let v : Version := .pattern (.anyMinor 1)
    let w : Pattern := .pair 1 2
    let r : Range := .composite [.tilde v, .exact (.pattern w)]
    let q : Range := .composite [.tilde v, .interval (.through (.pattern w) (.pattern w))]
    (Range.parse "~01.x ||^=1.2" = .ok r ∧ r.IntervalFree) ∧
      Range.parse r.text = .ok q ∧ ∀ u, q.place u = r.place u := by
  intro v w r q
  have htilde : WrittenAs [.tilde v] "~01.x".toList :=
    .single (by decide) (alternative?_sound rfl) (by decide) (.tilde rfl)
  have hpinned : WrittenAs [.exact (.pattern w)] "^=1.2".toList :=
    .single (by decide) (alternative?_sound rfl) (by decide) (.pinned rfl)
  have hsep : SeparatorForm " ||".toList [] := separator?_sound (by decide)
  have hwritten : WrittenAs r.alternatives "~01.x ||^=1.2".toList := htilde.append hpinned hsep
  have hr : Range.parse "~01.x ||^=1.2" = .ok r := hwritten.parse_eq
  have hfree : r.IntervalFree := by
    apply IntervalFree.composite
    simpa using ⟨.tilde v, .exact (.pattern w)⟩
  exact ⟨⟨hr, hfree⟩, text_roundTrip hr hfree⟩

end Range

end Versioning
