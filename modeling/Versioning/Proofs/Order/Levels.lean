/-!
# Comparison by levels

Things of several parts go by the first part in which they differ. The outcome of such a comparison
tells more than a sign: its size is larger the earlier the part that decided. Along an ascending
chain outcomes combine by minimum, so that the whole chain is decided by its earliest part.
-/

namespace Versioning

/-- The comparisons of the parts, the one that counts most first. -/
abbrev Levels (α : Type) := List (α → α → Ordering)

namespace Levels

variable {α : Type}

/-- Negative if `a` is below `b`, and zero if no level tells them apart. -/
def outcome : Levels α → α → α → Int
  | [], _, _ => 0
  | cmp :: rest, a, b =>
    match cmp a b with
    | .lt => -(rest.length + 1)
    | .eq => outcome rest a b
    | .gt => rest.length + 1

/-- No outcome is further below than that of the first level. -/
theorem neg_length_le_outcome (ls : Levels α) (a b : α) : -(ls.length : Int) ≤ outcome ls a b := by
  induction ls with
  | nil => exact Int.le_refl 0
  | cons cmp rest ih =>
      simp only [outcome, List.length_cons]
      split <;> omega

/-- Nothing is decided if no level tells the two apart. -/
theorem outcome_eq_zero {ls : Levels α} {a b : α} :
    outcome ls a b = 0 ↔ ∀ cmp ∈ ls, cmp a b = .eq := by
  induction ls with
  | nil => simp [outcome]
  | cons cmp rest ih =>
      rw [List.forall_mem_cons, ← ih]
      cases h : cmp a b with
      | eq => simp [outcome, h]
      | lt | gt =>
          simp only [outcome, h, reduceCtorEq, false_and, iff_false]
          omega

/-- The first level that tells two ends of a chain apart is the first one that tells neighbours
apart. -/
theorem outcome_chain {ls : Levels α} (hls : ∀ cmp ∈ ls, Std.TransCmp cmp) {a b c : α}
    (hab : outcome ls a b ≤ 0) (hbc : outcome ls b c ≤ 0) :
    outcome ls a c = min (outcome ls a b) (outcome ls b c) := by
  induction ls with
  | nil => rfl
  | cons cmp rest ih =>
      obtain ⟨hcmp, hrest⟩ := List.forall_mem_cons.1 hls
      have lower_ab := neg_length_le_outcome rest a b
      have lower_bc := neg_length_le_outcome rest b c
      cases h₁ : cmp a b with
      | gt => simp only [outcome, h₁] at hab; omega
      | lt =>
          cases h₂ : cmp b c with
          | gt => simp only [outcome, h₂] at hbc; omega
          | lt =>
              have h₃ : cmp a c = .lt := Std.TransCmp.lt_trans h₁ h₂
              simp only [outcome, h₁, h₂, h₃]
              omega
          | eq =>
              have h₃ : cmp a c = .lt := Std.TransCmp.lt_of_lt_of_eq h₁ h₂
              simp only [outcome, h₁, h₂, h₃]
              omega
      | eq =>
          cases h₂ : cmp b c with
          | gt => simp only [outcome, h₂] at hbc; omega
          | lt =>
              have h₃ : cmp a c = .lt := Std.TransCmp.lt_of_eq_of_lt h₁ h₂
              simp only [outcome, h₁, h₂, h₃]
              omega
          | eq =>
              have h₃ : cmp a c = .eq := Std.TransCmp.eq_trans h₁ h₂
              simp only [outcome, h₁, h₂, h₃] at hab hbc ⊢
              exact ih hrest hab hbc

end Levels

end Versioning
