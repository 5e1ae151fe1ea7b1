import Versioning.Proofs.Range.Reading
import Versioning.Proofs.RoundTrip.Reread

/-!
# The versions in a range that was read

A text of a range gives versions with three numbers, and patterns. The bounds of an interval are
made of these, and they have three numbers as well.
-/

namespace Versioning

open Grammar

namespace Range

/-- The versions in the range are of a kind. -/
inductive All (P : Version → Prop) : Range → Prop
  | comparison (operator : Operator) {v : Version} (h : P v) : All P (.comparison operator v)
  | interval {l u : Version} (hl : P l) (hu : P u) : All P (.interval ⟨l, u⟩)
  | caret {v : Version} (h : P v) : All P (.caret v)
  | tilde {v : Version} (h : P v) : All P (.tilde v)
  | exact {v : Version} (h : P v) : All P (.exact v)
  | composite {rs : List Range} (h : ∀ r ∈ rs, All P r) : All P (.composite rs)

variable {P Q : Version → Prop}

theorem All.mono (hPQ : ∀ v, P v → Q v) {r : Range} (h : All P r) : All Q r := by
  induction h with
  | comparison operator h => exact .comparison operator (hPQ _ h)
  | interval hl hu => exact .interval (hPQ _ hl) (hPQ _ hu)
  | caret h => exact .caret (hPQ _ h)
  | tilde h => exact .tilde (hPQ _ h)
  | exact h => exact .exact (hPQ _ h)
  | composite _ ih => exact .composite ih

theorem All.of_composite {rs : List Range} (h : All P (.composite rs)) : ∀ r ∈ rs, All P r := by
  cases h with
  | composite h => exact h

/-- A single alternative is the range itself. -/
theorem All.ofAlternatives {rs : List Range} (h : ∀ r ∈ rs, All P r) :
    All P (ofAlternatives rs) := by
  unfold Range.ofAlternatives
  split
  · exact h _ List.mem_cons_self
  · exact .composite h

end Range

namespace Version

/-- A canonical version with three numbers, or a pattern. -/
inductive IsBound : Version → Prop
  | exact {m n p : Number} {tag : Prerelease} {build : Build}
      (h : Exact.Canonical ⟨.triple m n p, tag, build⟩) :
      IsBound (.exact ⟨.triple m n p, tag, build⟩)
  | pattern (w : Pattern) : IsBound (.pattern w)

namespace IsBound

variable {v : Version}

theorem ofTriple (m n p : Number) : (ofRelease (.triple m n p)).IsBound :=
  .exact (Exact.canonical_ofRelease _)

theorem stable (h : v.IsBound) : v.Stable := by
  cases h with
  | exact h => exact stable_exact h (Exact.pattern?_eq_none.2 (.inr (.inr rfl)))
  | pattern w => exact stable_pattern w

theorem floor (h : v.IsBound) : v.floor.IsBound := by
  cases h with
  | exact h => exact .exact (Exact.Canonical.floor h)
  | pattern w => exact .ofTriple _ _ _

theorem next (h : v.IsBound) : v.next.IsBound := by
  cases h with
  | @exact m n p tag build h =>
      have hnext := Exact.Canonical.next h
      rw [Version.next]
      cases htag : tag.isNone with
      | true =>
          simp only [Exact.next, Exact.nextPatch, htag] at hnext ⊢
          exact .exact hnext
      | false =>
          simp only [Exact.next, htag] at hnext ⊢
          exact .exact hnext
  | pattern w =>
      simp only [Version.next, Pattern.ceil]
      split <;> exact .ofTriple _ _ _

end IsBound

/-- A bound in a range is exact only with three numbers. -/
theorem isBound_of_value {x : VersionText} {s r input : List Char} (hx : BoundForm x s r)
    {v : Version} (h : x.value input = .ok v) : v.IsBound := by
  cases hx with
  | exact hx =>
      obtain ⟨e, he, h⟩ := bind_eq_ok.1 h
      cases h
      have hcanonical := Exact.canonical_of_value hx he
      have hrelease := ExactText.denotes_release he
      obtain ⟨release, tag, build⟩ := e
      cases hrelease with
      | triple => exact .exact hcanonical
  | pattern hx =>
      obtain ⟨w, _, h⟩ := bind_eq_ok.1 h
      cases h
      exact .pattern w

end Version

namespace Range

theorem isBound_of_denotes {input : List Char} {a : AlternativeText} {r : Range}
    (ha : ∀ x ∈ a.versions, ∃ s t, BoundForm x s t) (h : a.Denotes input r) :
    r.All Version.IsBound := by
  have bound {x : VersionText} {v : Version} (hx : x ∈ a.versions) (hv : x.value input = .ok v) :
      v.IsBound := by
    obtain ⟨s, t, hform⟩ := ha x hx
    exact Version.isBound_of_value hform hv
  cases h with
  | hyphen hv hw =>
      have hfirst := bound List.mem_cons_self hv
      have hlast := bound (List.mem_cons_of_mem _ List.mem_cons_self) hw
      exact .interval hfirst.floor hlast.next
  | caret hv => exact .caret (bound List.mem_cons_self hv)
  | tilde hv => exact .tilde (bound List.mem_cons_self hv)
  | pinned hv | plainExact hv => exact .exact (bound List.mem_cons_self hv)
  | comparison operator hv => exact .comparison operator (bound List.mem_cons_self hv)
  | any => exact .comparison _ (.ofTriple 0 0 0)
  | @plainPattern _ w _ =>
      have hw := Version.IsBound.pattern w
      exact .interval hw.floor hw.next

theorem isBound_of_parse {s : String} {r : Range} (h : Range.parse s = .ok r) :
    r.All Version.IsBound := by
  obtain ⟨rs, hrs, rfl⟩ := parse_eq_ok.1 h
  apply All.ofAlternatives
  intro r hr
  obtain ⟨a, hforms, ha⟩ := hrs.exists_denotes hr
  exact isBound_of_denotes hforms ha

end Range

end Versioning
