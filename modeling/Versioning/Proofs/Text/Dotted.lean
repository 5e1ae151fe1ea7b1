import Versioning.Label
import Versioning.Text.Dotted

/-!
# Dotted texts as lists of segments

    dotted := segment ("." segment)*                            segment := [0-9A-Za-z-]+

A dotted text is the segments that it is split into, joined again, and it has no blanks to trim.
-/

namespace Versioning.Text

/-- Letters, digits and hyphens, at least one of them. -/
def IsSegment (s : List Char) : Prop :=
  s ≠ [] ∧ ∀ c ∈ s, isSegmentChar c = true

inductive IsDotted : List Char → Prop
  | segment {seg : List Char} (h : IsSegment seg) : IsDotted seg
  | cons {seg s : List Char} (h : IsSegment seg) (hs : IsDotted s) : IsDotted (seg ++ '.' :: s)

/-- A dotted text, or nothing. -/
def IsIdentifiers (s : List Char) : Prop :=
  s = [] ∨ IsDotted s

/-! ## Characters -/

/-- No visible character of ASCII is a blank. -/
theorem not_isBlank_of_lt {c : Char} (hl : 0x20 < c.toNat) (hu : c.toNat < 0x7f) :
    isBlank c = false := by
  rw [Bool.eq_false_iff]
  intro h
  simp only [isBlank, Bool.or_eq_true, Bool.and_eq_true, decide_eq_true_eq, beq_iff_eq] at h
  omega

theorem not_isBlank_of_isSegmentChar {c : Char} (h : isSegmentChar c = true) :
    isBlank c = false := by
  have upper (h : c.isUpper = true) : 65 ≤ c.toNat ∧ c.toNat ≤ 90 := of_decide_eq_true h
  have lower (h : c.isLower = true) : 97 ≤ c.toNat ∧ c.toNat ≤ 122 := by
    obtain ⟨hl, hu⟩ := Bool.and_eq_true_iff.1 h
    exact ⟨of_decide_eq_true hl, of_decide_eq_true hu⟩
  have digit (h : c.isDigit = true) : 48 ≤ c.toNat ∧ c.toNat ≤ 57 := by
    obtain ⟨hl, hu⟩ := Bool.and_eq_true_iff.1 h
    exact ⟨of_decide_eq_true hl, of_decide_eq_true hu⟩
  have visible : 0x20 < c.toNat ∧ c.toNat < 0x7f := by
    rcases Bool.or_eq_true_iff.1 h with h | h
    · rcases Bool.or_eq_true_iff.1 h with h | h
      · rcases Bool.or_eq_true_iff.1 h with h | h
        · have := upper h
          omega
        · have := lower h
          omega
      · have := digit h
        omega
    · rw [beq_iff_eq.1 h]
      decide
  exact not_isBlank_of_lt visible.1 visible.2

theorem IsSegment.dot_notMem {seg : List Char} (h : IsSegment seg) : '.' ∉ seg :=
  fun hd => absurd (h.2 '.' hd) (by decide)

theorem IsDotted.ne_nil {s : List Char} (h : IsDotted s) : s ≠ [] := by
  cases h with
  | segment h => exact h.1
  | cons h _ => simp

/-- A property of segment characters and of the dot holds all over a dotted text. -/
theorem IsDotted.forall_mem {P : Char → Prop} (hP : ∀ c, isSegmentChar c = true → P c)
    (hdot : P '.') {s : List Char} (h : IsDotted s) : ∀ c ∈ s, P c := by
  induction h with
  | segment h => exact fun c hc => hP c (h.2 c hc)
  | cons h _ ih =>
      exact List.forall_mem_append.2
        ⟨fun c hc => hP c (h.2 c hc), List.forall_mem_cons.2 ⟨hdot, ih⟩⟩

theorem IsDotted.not_isBlank {s : List Char} (h : IsDotted s) : ∀ c ∈ s, isBlank c = false :=
  h.forall_mem (fun _ => not_isBlank_of_isSegmentChar) (by decide)

theorem trim_eq_self_of_not_isBlank {s : List Char} (h : ∀ c ∈ s, isBlank c = false) :
    trim s = s :=
  trim_eq_self (fun c hc => h c (List.mem_of_head? hc)) fun c hc => h c (List.mem_of_getLast? hc)

/-! ## Segments -/

theorem joinSegments_append {xs ys : List (List Char)} (hx : xs ≠ []) (hy : ys ≠ []) :
    joinSegments (xs ++ ys) = joinSegments xs ++ '.' :: joinSegments ys := by
  induction xs with
  | nil => contradiction
  | cons x xs ih =>
      cases xs with
      | nil => simp [joinSegments, List.intercalate_cons_of_ne_nil hy]
      | cons x' xs =>
          have ih := ih (by simp)
          simp only [joinSegments] at ih ⊢
          simp only [List.cons_append, List.intercalate_cons_cons] at ih ⊢
          rw [ih]
          simp

theorem joinSegments_cons (seg : List Char) (segs : List (List Char)) :
    joinSegments (seg :: segs) = seg ++ segs.flatMap ('.' :: ·) := by
  induction segs generalizing seg with
  | nil => simp [joinSegments]
  | cons x xs ih =>
      rw [← List.singleton_append, joinSegments_append (by simp) (by simp), ih]
      simp [joinSegments]

/-- The text ends in the segments from one on. -/
theorem isSuffix_of_segments {s seg : List Char} {before after : List (List Char)}
    (h : segments s = before ++ seg :: after) : seg ++ after.flatMap ('.' :: ·) <:+ s := by
  rw [← joinSegments_segments s, h, ← joinSegments_cons]
  cases before with
  | nil => exact List.suffix_refl _
  | cons x xs =>
      rw [joinSegments_append (by simp) (by simp)]
      exact (List.suffix_cons _ _).trans (List.suffix_append _ _)

theorem isDotted_joinSegments {segs : List (List Char)} (hne : segs ≠ [])
    (h : ∀ seg ∈ segs, IsSegment seg) : IsDotted (joinSegments segs) := by
  induction segs with
  | nil => contradiction
  | cons seg segs ih =>
      obtain ⟨hseg, hsegs⟩ := List.forall_mem_cons.1 h
      cases segs with
      | nil =>
          rw [joinSegments, List.intercalate_singleton]
          exact .segment hseg
      | cons seg' segs =>
          rw [← List.singleton_append, joinSegments_append (by simp) (by simp)]
          rw [joinSegments, List.intercalate_singleton]
          exact .cons hseg (ih (by simp) hsegs)

theorem IsDotted.exists_segments {s : List Char} (h : IsDotted s) :
    ∃ segs ≠ [], (∀ seg ∈ segs, IsSegment seg) ∧ joinSegments segs = s := by
  induction h with
  | segment h => exact ⟨_, by simp, by simpa using h, List.intercalate_singleton⟩
  | cons h _ ih =>
      obtain ⟨segs, hne, hsegs, rfl⟩ := ih
      refine ⟨_ :: segs, by simp, List.forall_mem_cons.2 ⟨h, hsegs⟩, ?_⟩
      rw [← List.singleton_append, joinSegments_append (by simp) hne, joinSegments,
        List.intercalate_singleton]

/-- Segments hold no dots, so the text falls apart where it was joined. -/
theorem segments_joinSegments_of_isSegment {segs : List (List Char)} (hne : segs ≠ [])
    (h : ∀ seg ∈ segs, IsSegment seg) : segments (joinSegments segs) = segs :=
  segments_joinSegments (fun seg hseg => (h seg hseg).dot_notMem) hne

theorem IsDotted.isSegment_of_mem {s : List Char} (h : IsDotted s) :
    ∀ seg ∈ segments s, IsSegment seg := by
  obtain ⟨segs, hne, hsegs, rfl⟩ := h.exists_segments
  rwa [segments_joinSegments_of_isSegment hne hsegs]

/-- The segments are made of the characters of the text, without the dots. -/
theorem mem_of_mem_segments {s seg : List Char} {c : Char} (hseg : seg ∈ segments s)
    (hc : c ∈ seg) : c ∈ s ∧ c ≠ '.' := by
  induction s generalizing seg with
  | nil => simp_all [segments]
  | cons d s ih =>
      obtain ⟨first, rest, hsplit⟩ := List.exists_cons_of_ne_nil (segments_ne_nil s)
      have ih := fun {seg} (h : seg ∈ first :: rest) => ih (hsplit ▸ h)
      rw [segments, List.splitOn_cons_eq_if_modifyHead, ← segments, hsplit] at hseg
      split at hseg
      · rcases List.mem_cons.1 hseg with rfl | hseg
        · contradiction
        · exact ⟨List.mem_cons_of_mem _ (ih hseg hc).1, (ih hseg hc).2⟩
      · rename_i hd
        rcases List.mem_cons.1 hseg with rfl | hseg
        · rcases List.mem_cons.1 hc with rfl | hc
          · exact ⟨List.mem_cons_self, by simpa using hd⟩
          · have hfirst := ih List.mem_cons_self hc
            exact ⟨List.mem_cons_of_mem _ hfirst.1, hfirst.2⟩
        · have hrest := ih (List.mem_cons_of_mem _ hseg) hc
          exact ⟨List.mem_cons_of_mem _ hrest.1, hrest.2⟩

theorem isDotted_iff {s : List Char} : IsDotted s ↔ ∀ seg ∈ segments s, IsSegment seg := by
  constructor
  · exact IsDotted.isSegment_of_mem
  · intro h
    rw [← joinSegments_segments s]
    exact isDotted_joinSegments (segments_ne_nil s) h

theorem isDotted_iff_forall_mem {s : List Char} : IsDotted s ↔
    (∀ c ∈ s, isSegmentChar c = true ∨ c = '.') ∧ ∀ seg ∈ segments s, seg ≠ [] := by
  constructor
  · intro h
    exact ⟨h.forall_mem (fun _ hc => .inl hc) (.inr rfl), fun seg hseg =>
      (h.isSegment_of_mem seg hseg).1⟩
  · rintro ⟨hchars, hne⟩
    rw [isDotted_iff]
    refine fun seg hseg => ⟨hne seg hseg, fun c hc => ?_⟩
    obtain ⟨hmem, hdot⟩ := mem_of_mem_segments hseg hc
    exact (hchars c hmem).resolve_right hdot

instance (s : List Char) : Decidable (IsSegment s) :=
  decidable_of_iff (s ≠ [] ∧ s.all isSegmentChar = true) (and_congr_right' List.all_eq_true)

instance (s : List Char) : Decidable (IsDotted s) :=
  decidable_of_iff _ isDotted_iff.symm

end Versioning.Text
