import Versioning.Proofs.Placement.EqualBounds
import Versioning.Proofs.Range.Built
import Versioning.Proofs.Range.Joining

/-!
# Ranges that are equal

Ranges are equal if they are built alike of equal versions. Carets, tildes and intervals that are
equal have the same bounds. Comparisons and pinned versions need not have, since a wildcard equals
every number, and so equal ranges may place a version differently.
-/

namespace Versioning

open Grammar (alternative?_sound)

namespace Range

/-- Ranges that are built alike, with no number overlooked in a comparison or a pinned version. -/
inductive Agree : Range → Range → Prop
  | comparison {o : Operator} {v w : Version} (h : o.Agree v w) :
      Agree (.comparison o v) (.comparison o w)
  | interval (i j : Interval) : Agree (.interval i) (.interval j)
  | caret (v w : Version) : Agree (.caret v) (.caret w)
  | tilde (v w : Version) : Agree (.tilde v) (.tilde w)
  | exact {v w : Version} (h : Operator.equal.Agree v w) : Agree (.exact v) (.exact w)
  | composite (pairs : List (Range × Range)) (h : ∀ p ∈ pairs, Agree p.1 p.2) :
      Agree (.composite (pairs.map Prod.fst)) (.composite (pairs.map Prod.snd))

theorem equal_of_mem {pairs : List (Range × Range)}
    (h : equalAll (pairs.map Prod.fst) (pairs.map Prod.snd) = true) :
    ∀ p ∈ pairs, p.1.equal p.2 = true := by
  induction pairs with
  | nil => simp
  | cons p pairs ih =>
      rw [List.map_cons, List.map_cons, equalAll, Bool.and_eq_true] at h
      exact List.forall_mem_cons.2 ⟨h.1, ih h.2⟩

/-- A caret is placed by its bounds alone, which are exact. -/
theorem place_caret_of_beq {v w : Version} (h : (caretBounds v == caretBounds w) = true)
    (u : Version) : (caret v).place u = (caret w).place u := by
  obtain ⟨_, _, hv⟩ := exists_caretBounds v
  obtain ⟨_, _, hw⟩ := exists_caretBounds w
  rw [place, place, Interval.place_eq_of_beq hv hw h]

theorem place_tilde_of_beq {v w : Version} (h : (tildeBounds v == tildeBounds w) = true)
    (u : Version) : (tilde v).place u = (tilde w).place u := by
  obtain ⟨_, _, hv⟩ := exists_tildeBounds v
  obtain ⟨_, _, hw⟩ := exists_tildeBounds w
  rw [place, place, Interval.place_eq_of_beq hv hw h]

/-- Agreement of the bounds of comparisons is enough, at any depth. -/
theorem place_eq_of_agree {r q : Range} (h : Agree r q) (hr : r.All Version.IsBound)
    (hq : q.All Version.IsBound) (hrn : r.Normal) (hqn : q.Normal) (heq : r.equal q = true)
    (u : Exact) : r.place (.exact u) = q.place (.exact u) := by
  induction h with
  | @comparison o v w h =>
      cases hr with
      | comparison _ hv =>
          cases hq with
          | comparison _ hw =>
              have hbeq := (Bool.and_eq_true_iff.1 heq).2
              exact (o.place_eq_iff_agree hv hw hbeq).2 h u
  | interval i j =>
      cases hrn with
      | interval l u =>
          cases hqn with
          | interval l' u' => exact Interval.place_eq_of_beq rfl rfl heq _
  | caret v w => exact place_caret_of_beq (Bool.and_eq_true_iff.1 heq).2 _
  | tilde v w => exact place_tilde_of_beq (Bool.and_eq_true_iff.1 heq).2 _
  | exact h =>
      cases hr with
      | exact hv =>
          cases hq with
          | exact hw => exact (Operator.equal.place_eq_iff_agree hv hw heq).2 h u
  | composite pairs _ ih =>
      rw [place_composite, place_composite, List.map_map, List.map_map]
      refine congrArg _ (List.map_congr_left fun p hp => ?_)
      have hfst := List.mem_map_of_mem (f := Prod.fst) hp
      have hsnd := List.mem_map_of_mem (f := Prod.snd) hp
      exact ih p hp (hr.of_composite _ hfst) (hq.of_composite _ hsnd) (hrn.of_composite _ hfst)
        (hqn.of_composite _ hsnd) (equal_of_mem heq p hp)

/-- And it is needed, composites apart: some version tells apart bounds that do not agree. -/
theorem agree_of_place_eq {r q : Range} (hr : r.All Version.IsBound) (hq : q.All Version.IsBound)
    (heq : r.equal q = true) (hsingle : ∀ rs, r ≠ .composite rs)
    (h : ∀ u : Exact, r.place (.exact u) = q.place (.exact u)) : Agree r q := by
  cases hr with
  | @comparison o v hv =>
      cases hq with
      | @comparison o' w hw =>
          obtain ⟨ho, hbeq⟩ := Bool.and_eq_true_iff.1 heq
          obtain rfl := beq_iff_eq.1 ho
          exact .comparison ((o.place_eq_iff_agree hv hw hbeq).1 h)
      | _ => contradiction
  | interval =>
      cases hq with
      | interval => exact .interval _ _
      | _ => contradiction
  | caret =>
      cases hq with
      | caret => exact .caret _ _
      | _ => contradiction
  | tilde =>
      cases hq with
      | tilde => exact .tilde _ _
      | _ => contradiction
  | exact hv =>
      cases hq with
      | exact hw => exact .exact ((Operator.equal.place_eq_iff_agree hv hw heq).1 h)
      | _ => contradiction
  | composite => exact absurd rfl (hsingle _)

/-- Equal ranges that were read place all exact versions alike if they overlook no number that they
go by. For ranges that are not made of alternatives, they do so only then. -/
theorem place_alike_of_beq {s t : String} {r q : Range} (hr : Range.parse s = .ok r)
    (hq : Range.parse t = .ok q) (heq : (r == q) = true) :
    (Agree r q → ∀ v : Exact, r.place (.exact v) = q.place (.exact v)) ∧
      ((∀ rs, r ≠ .composite rs) → (∀ v : Exact, r.place (.exact v) = q.place (.exact v)) →
        Agree r q) := by
  have hrb := isBound_of_parse hr
  have hqb := isBound_of_parse hq
  constructor
  · intro h v
    exact place_eq_of_agree h hrb hqb (normal_of_parse hr) (normal_of_parse hq) heq v
  · exact agree_of_place_eq hrb hqb heq

theorem place_alike_zero_minor :
    let r : Range := .comparison .greaterOrEqual (.pattern (.anyMinor 1))
    let q : Range := .comparison .greaterOrEqual (.pattern (.pair 1 0))
    (Range.parse ">=1.x" = .ok r ∧ Range.parse ">=1.0" = .ok q ∧ (r == q) = true ∧
      Agree r q ∧ ∀ rs, r ≠ .composite rs) ∧
    (∀ v : Exact, r.place (.exact v) = q.place (.exact v)) ∧ Agree r q := by
  intro r q
  have hr : WrittenAs [r] ">=1.x".toList :=
    .single (by decide) (alternative?_sound rfl) (by decide) (.comparison .greaterOrEqual rfl)
  have hq : WrittenAs [q] ">=1.0".toList :=
    .single (by decide) (alternative?_sound rfl) (by decide) (.comparison .greaterOrEqual rfl)
  have heq : (r == q) = true := rfl
  have hagree : Agree r q := .comparison (by decide)
  have hsingle : ∀ rs, r ≠ .composite rs := by simp [r]
  have halike := place_alike_of_beq hr.parse_eq hq.parse_eq heq
  exact ⟨⟨hr.parse_eq, hq.parse_eq, heq, hagree, hsingle⟩, halike.1 hagree,
    halike.2 hsingle (halike.1 hagree)⟩

theorem beq_not_place_alike : ¬ ∀ (s t : String) (r q : Range), Range.parse s = .ok r →
    Range.parse t = .ok q → (r == q) = true →
    ∀ v : Exact, r.place (.exact v) = q.place (.exact v) := by
  intro h
  have hr : WrittenAs [.exact (.pattern (.pair 1 2))] "^=1.2".toList :=
    .single (by decide) (alternative?_sound rfl) (by decide) (.pinned rfl)
  have hq : WrittenAs [.exact (.pattern (.anyMinor 1))] "^=1.x".toList :=
    .single (by decide) (alternative?_sound rfl) (by decide) (.pinned rfl)
  have hplace := h _ _ _ _ hr.parse_eq hq.parse_eq rfl (.ofRelease (.triple 1 0 0))
  exact absurd hplace (by decide)

end Range

end Versioning
