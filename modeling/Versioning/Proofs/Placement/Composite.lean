import Versioning.Range.Placement

/-!
# Placement among alternatives

A version is above or below a composite range only if it is so for every alternative, and it takes
at least one alternative to be below. The order of the alternatives does not count, nor how often
one of them occurs, nor whether some are grouped, unless a group is empty.
-/

namespace Versioning

namespace Placement

@[simp] theorem ofAlternatives_singleton (p : Placement) : ofAlternatives [p] = p := by
  cases p <;> rfl

theorem ofAlternatives_eq_greater {ps : List Placement} :
    ofAlternatives ps = greater ↔ ∀ p ∈ ps, p = greater := by
  constructor
  · intro h
    unfold ofAlternatives at h
    split at h
    · contradiction
    · split at h
      · assumption
      · split at h <;> contradiction
  · intro hg
    have hs : satisfied ∉ ps := fun h => absurd (hg _ h) (by decide)
    rw [ofAlternatives, if_neg hs, if_pos hg]

/-- Nothing is below all of none, since that is above it. -/
theorem ofAlternatives_eq_lower {ps : List Placement} :
    ofAlternatives ps = lower ↔ ps ≠ [] ∧ ∀ p ∈ ps, p = lower := by
  constructor
  · intro h
    unfold ofAlternatives at h
    split at h
    · contradiction
    · split at h
      · contradiction
      · rename_i hg
        split at h
        · refine ⟨?_, by assumption⟩
          rintro rfl
          exact hg (by simp)
        · contradiction
  · rintro ⟨hne, hl⟩
    obtain ⟨p, hp⟩ := List.exists_mem_of_ne_nil ps hne
    have hs : satisfied ∉ ps := fun h => absurd (hl _ h) (by decide)
    have hg : ¬ ∀ q ∈ ps, q = greater := by
      intro hg
      have := hg p hp
      rw [hl p hp] at this
      contradiction
    rw [ofAlternatives, if_neg hs, if_neg hg, if_pos hl]

section

variable {ps qs rs : List Placement}

theorem ofAlternatives_ext (hs : satisfied ∈ ps ↔ satisfied ∈ qs)
    (hg : (∀ p ∈ ps, p = greater) ↔ ∀ p ∈ qs, p = greater)
    (hl : (∀ p ∈ ps, p = lower) ↔ ∀ p ∈ qs, p = lower) : ofAlternatives ps = ofAlternatives qs := by
  simp only [ofAlternatives, hs, hg, hl]

theorem ofAlternatives_eq_of_mem_iff (h : ∀ p, p ∈ ps ↔ p ∈ qs) :
    ofAlternatives ps = ofAlternatives qs := by
  apply ofAlternatives_ext <;> simp only [h]

/-- An empty group is above, whatever is beside it, and cannot be left out. -/
theorem ofAlternatives_ungroup (h : qs ≠ []) :
    ofAlternatives (ps ++ ofAlternatives qs :: rs) = ofAlternatives (ps ++ qs ++ rs) := by
  apply ofAlternatives_ext
  · simp only [List.mem_append, List.mem_cons, eq_comm (a := satisfied),
      ofAlternatives_eq_satisfied, or_assoc]
  · simp only [List.forall_mem_append, List.forall_mem_cons, ofAlternatives_eq_greater, and_assoc]
  · simp only [List.forall_mem_append, List.forall_mem_cons, ofAlternatives_eq_lower, ne_eq, h,
      not_false_eq_true, true_and, and_assoc]

end

end Placement

namespace Range

theorem place_composite (rs : List Range) (v : Version) :
    (composite rs).place v = .ofAlternatives (rs.map (·.place v)) := by
  rw [place, placeAll_eq_map]

theorem place_composite_eq_greater {rs : List Range} {v : Version} :
    (composite rs).place v = .greater ↔ ∀ r ∈ rs, r.place v = .greater := by
  rw [place_composite, Placement.ofAlternatives_eq_greater]
  simp

theorem place_composite_eq_lower {rs : List Range} {v : Version} :
    (composite rs).place v = .lower ↔ rs ≠ [] ∧ ∀ r ∈ rs, r.place v = .lower := by
  rw [place_composite, Placement.ofAlternatives_eq_lower]
  simp

/-! ## Rearranging the alternatives -/

/-- Ranges that differ at most in the order of their alternatives, in how often these occur, and in
how they are grouped. -/
inductive Rearranged : Range → Range → Prop
  | refl (r : Range) : Rearranged r r
  | symm {r s : Range} (h : Rearranged r s) : Rearranged s r
  | trans {r s t : Range} (hrs : Rearranged r s) (hst : Rearranged s t) : Rearranged r t
  | reorder {rs ss : List Range} (h : rs.Perm ss) : Rearranged (composite rs) (composite ss)
  | repeated {r : Range} {rs : List Range} (h : r ∈ rs) :
      Rearranged (composite (r :: rs)) (composite rs)
  | ungroup {rs group ss : List Range} (h : group ≠ []) :
      Rearranged (composite (rs ++ composite group :: ss)) (composite (rs ++ group ++ ss))
  /-- At any depth. -/
  | inside {r s : Range} (rs ss : List Range) (h : Rearranged r s) :
      Rearranged (composite (rs ++ r :: ss)) (composite (rs ++ s :: ss))

theorem Rearranged.place_eq {r s : Range} (h : Rearranged r s) (v : Version) :
    r.place v = s.place v := by
  induction h with
  | refl r => rfl
  | symm _ ih => exact ih.symm
  | trans _ _ ihrs ihst => exact ihrs.trans ihst
  | reorder h =>
      rw [place_composite, place_composite]
      exact Placement.ofAlternatives_eq_of_mem_iff fun _ => (h.map _).mem_iff
  | @repeated r rs h =>
      have hmem : r.place v ∈ rs.map (·.place v) := List.mem_map_of_mem h
      rw [place_composite, place_composite, List.map_cons]
      refine Placement.ofAlternatives_eq_of_mem_iff fun p => ?_
      rw [List.mem_cons, or_iff_right_of_imp]
      rintro rfl
      exact hmem
  | ungroup h =>
      simp only [place_composite, List.map_append, List.map_cons]
      exact Placement.ofAlternatives_ungroup (mt List.map_eq_nil_iff.1 h)
  | inside rs ss _ ih => simp only [place_composite, List.map_append, List.map_cons, ih]

/-- A composite range is a set of alternatives: how they are arranged does not change where a
version stands, one that is satisfied is enough, and being above or below it takes them all. -/
theorem place_composite_as_set (v : Version) :
    (∀ r s : Range, Rearranged r s → r.place v = s.place v) ∧
    ∀ rs : List Range,
      ((composite rs).satisfiedBy v = true ↔ ∃ r ∈ rs, r.satisfiedBy v = true) ∧
      ((composite rs).isBelow v = true ↔ ∀ r ∈ rs, r.isBelow v = true) ∧
      ((composite rs).isAbove v = true ↔ rs ≠ [] ∧ ∀ r ∈ rs, r.isAbove v = true) := by
  refine ⟨fun r s h => h.place_eq v, fun rs => ⟨?_, ?_, ?_⟩⟩
  · rw [satisfiedBy_composite, List.any_eq_true]
  · simp only [isBelow, beq_iff_eq]
    exact place_composite_eq_greater
  · simp only [isAbove, beq_iff_eq]
    exact place_composite_eq_lower

theorem place_composite_as_set_nested :
    let low : Range := .comparison .less (.pattern (.single 1))
    let caret : Range := .caret (.exact ⟨.triple 1 2 3, .ofParts none (some 4) none, .none⟩)
    let high : Range := .exact (.pattern (.anyPatch 3 1))
    let grouped : Range := .composite [.composite [high, .composite [low, caret]], caret]
    let flat : Range := .composite [caret, low, high]
    let v : Version := .ofNumbers 2 7 0
    Rearranged grouped flat ∧ grouped.place v = flat.place v ∧ flat.place v = .excluded := by
  intro low caret high grouped flat v
  have h : Rearranged grouped flat := by
    have houter : Rearranged grouped (.composite [high, .composite [low, caret], caret]) :=
      @Rearranged.ungroup [] _ [caret] (List.cons_ne_nil _ _)
    have hinner : Rearranged (.composite [high, .composite [low, caret], caret])
        (.composite [high, low, caret, caret]) :=
      @Rearranged.ungroup [high] _ [caret] (List.cons_ne_nil _ _)
    have hreversed : Rearranged (.composite [high, low, caret, caret])
        (.composite [caret, caret, low, high]) :=
      .reorder (List.reverse_perm [high, low, caret, caret]).symm
    exact houter.trans (hinner.trans (hreversed.trans (.repeated List.mem_cons_self)))
  exact ⟨h, (place_composite_as_set v).1 grouped flat h, by decide⟩

end Range

end Versioning
