import Versioning.Proofs.Order.Exact

/-!
# Precedence

The order of exact versions without their builds, which is the one that ranges go by. It is total
and transitive, and versions that it does not tell apart have one release and one tag.
-/

namespace Versioning

/-- For a comparison that swapping mirrors, at most means not above. -/
theorem isLE_iff_not_lt {α : Type} {cmp : α → α → Ordering} [Std.OrientedCmp cmp] {a b : α} :
    (cmp a b).isLE = true ↔ cmp b a ≠ .lt := by
  rw [Ordering.isLE_iff_ne_gt, Std.OrientedCmp.gt_iff_lt]

theorem Prerelease.isNone_eq_false_of_lt {p q : Prerelease} (h : compare p q = .lt) :
    p.isNone = false := by
  rw [compare_eq_sign, relate] at h
  rw [isNone]
  cases hp : p.tag? with
  | none => rw [hp] at h; cases hq : q.tag? <;> rw [hq] at h <;> contradiction
  | some t => rfl

theorem Prerelease.isNone_eq_false_of_gt {p q : Prerelease} (h : compare p q = .gt) :
    q.isNone = false :=
  isNone_eq_false_of_lt (Std.OrientedCmp.lt_of_gt h)

theorem Prerelease.compare_eq_gt {p q : Prerelease} (hp : p.isNone = true)
    (hq : q.isNone = false) : compare p q = .gt := by
  obtain ⟨t, ht⟩ := Option.isSome_iff_exists.1 (Option.isNone_eq_false_iff.1 hq)
  rw [compare_eq_sign, relate, Option.isNone_iff_eq_none.1 hp, ht]
  rfl

namespace Exact

variable {a b : Exact}

/-- By the release and then by the prerelease. -/
def precedence (a b : Exact) : Ordering :=
  (compare a.release b.release).then (compare a.prerelease b.prerelease)

instance : Std.TransCmp precedence :=
  inferInstanceAs (Std.TransCmp (compareLex (compareOn release) (compareOn prerelease)))

theorem precedence_swap (a b : Exact) : a.precedence b = (b.precedence a).swap :=
  Std.OrientedCmp.eq_swap

theorem precedence_eq_eq : a.precedence b = .eq ↔
    a.release = b.release ∧ a.prerelease.tag? = b.prerelease.tag? := by
  rw [precedence, Ordering.then_eq_eq, Std.LawfulEqOrd.compare_eq_iff_eq, Prerelease.compare_eq_eq]

/-- Tags do not matter between different releases. -/
theorem precedence_of_release_ne (h : a.release ≠ b.release) :
    a.precedence b = compare a.release b.release := by
  have hne : compare a.release b.release ≠ .eq := mt Std.LawfulEqOrd.eq_of_compare h
  rw [precedence]
  cases hr : compare a.release b.release <;> first | rfl | contradiction

theorem lt_ofRelease {r : Release} (h : compare a.release r = .lt) :
    a.precedence (.ofRelease r) = .lt := by
  rw [precedence]
  change (compare a.release r).then _ = .lt
  rw [h]
  rfl

/-! Without tags, the releases decide. -/

theorem precedence_untagged (ha : a.prerelease.isNone = true) (hb : b.prerelease.isNone = true) :
    a.precedence b = compare a.release b.release := by
  have htag : compare a.prerelease b.prerelease = .eq :=
    Prerelease.compare_eq_eq.2
      ((Option.isNone_iff_eq_none.1 ha).trans (Option.isNone_iff_eq_none.1 hb).symm)
  rw [precedence, htag, Ordering.then_eq]

theorem precedence_ofRelease (ha : a.prerelease.isNone = true) (r : Release) :
    a.precedence (.ofRelease r) = compare a.release r :=
  precedence_untagged ha rfl

theorem precedence_tagged_eq_lt (ha : a.prerelease.isNone = true)
    (hb : b.prerelease.isNone = false) :
    a.precedence b = .lt ↔ compare a.release b.release = .lt := by
  rw [precedence, Prerelease.compare_eq_gt ha hb]
  cases compare a.release b.release <;> decide

/-- A release is above its own tags, so it is at most a tag only if that is of a later release. -/
theorem isLE_precedence_tagged (ha : a.prerelease.isNone = true)
    (hb : b.prerelease.isNone = false) :
    (a.precedence b).isLE = true ↔ compare a.release b.release = .lt := by
  rw [precedence, Prerelease.compare_eq_gt ha hb]
  cases compare a.release b.release <;> decide

/-- The tags of a release are below it. -/
theorem precedence_ofRelease_tagged (ha : a.prerelease.isNone = false) (r : Release) :
    a.precedence (.ofRelease r) = .lt ↔ (compare a.release r).isLE = true := by
  have htag : compare a.prerelease .none = .lt :=
    Std.OrientedCmp.lt_of_gt (Prerelease.compare_eq_gt rfl ha)
  rw [precedence, ofRelease, htag]
  cases compare a.release r <;> decide

end Exact

namespace Version

theorem precedence_relate (a b : Exact) :
    ((exact a).relate (exact b)).precedence = a.precedence b := by
  rw [relate_exact, Relation.precedence_ofParts]
  rfl

theorem below_exact {a b : Exact} : (exact a).below (exact b) = (a.precedence b == .lt) := by
  rw [below, precedence_relate]

/-- The build only decides where precedence does not. -/
theorem isLE_precedence {a b : Exact} (h : (compare (exact a) (exact b)).isLE = true) :
    (a.precedence b).isLE = true := by
  have hs : ((exact a).relate (exact b)).sign.isLE = true := h
  rw [← precedence_relate]
  cases hr : (exact a).relate (exact b) <;> rw [hr] at hs <;> first | rfl | contradiction

end Version

end Versioning
