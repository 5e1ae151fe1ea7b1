import Versioning.Parse
import Versioning.Proofs.Order.Exact

/-!
# Versions with wildcards

A wildcard agrees with whatever is in the slot of the other version. So `0.5.0` equals `0.*.*` and
`0.*.*` equals `0.2.0`, and `0.*` is below `0.5.0`, that is below `0.6-rc.1`, and that is below
`0.*`. Three versions are in order if the first slot that tells them apart is a wildcard in none of
them.
-/

namespace Versioning

/-! ## Chains -/

/-- If `p` and `q` do not descend, `r` is what they come to in an order. -/
def Chains (p q r : Ordering) : Prop :=
  p.isLE = true → q.isLE = true → r = p.then q

namespace Chains

variable {p q r p' q' r' : Ordering}

theorem of_transCmp {α : Type} {cmp : α → α → Ordering} [Std.TransCmp cmp] {a b c : α} :
    Chains (cmp a b) (cmp b c) (cmp a c) := by
  intro hab hbc
  cases h : cmp a b with
  | lt => exact Std.TransCmp.lt_of_lt_of_isLE h hbc
  | eq => exact Std.TransCmp.congr_left h
  | gt => rw [h] at hab; contradiction

/-- The later comparison only has to chain where the earlier one does not decide. -/
theorem lex (h : Chains p q r) (h' : p = .eq → q = .eq → Chains p' q' r') :
    Chains (p.then p') (q.then q') (r.then r') := by
  intro hp hq
  cases p with
  | gt => contradiction
  | lt =>
      cases q with
      | gt => contradiction
      | lt | eq => rw [h rfl rfl]; rfl
  | eq =>
      cases q with
      | gt => contradiction
      | lt =>
          rw [h rfl rfl]
          cases p' <;> first | rfl | contradiction
      | eq =>
          rw [h rfl rfl]
          exact h' rfl rfl hp hq

end Chains

/-! ## Slots -/

namespace Component

variable {a b c : Component}

/-- The slot is a wildcard in some of the three, but not in all. -/
def Mixed (a b c : Component) : Prop :=
  ¬ (a.isWildcard = b.isWildcard ∧ b.isWildcard = c.isWildcard)

instance (a b c : Component) : Decidable (Mixed a b c) :=
  inferInstanceAs (Decidable (¬ _))

theorem ofNumber?_number? (h : c.isWildcard = false) : ofNumber? c.number? = c := by
  cases c <;> first | rfl | contradiction

theorem eq_wildcard (h : c.isWildcard = true) : c = wildcard := by
  cases c <;> first | rfl | contradiction

theorem eq_of_relate (h : a.isWildcard = b.isWildcard) (hr : a.relate b = .eq) : a = b := by
  cases ha : a.isWildcard with
  | true => rw [eq_wildcard ha, eq_wildcard (h.symm.trans ha)]
  | false =>
      rw [← ofNumber?_number? ha, ← ofNumber?_number? (h.symm.trans ha)] at hr ⊢
      rw [relate_ofNumber?] at hr
      rw [Std.LawfulEqOrd.eq_of_compare hr]

theorem chains (h : ¬ Mixed a b c) : Chains (a.relate b) (b.relate c) (a.relate c) := by
  obtain ⟨hab, hbc⟩ := Decidable.not_not.1 h
  cases hb : b.isWildcard with
  | true =>
      rw [eq_wildcard (hab.trans hb), eq_wildcard hb, eq_wildcard (hbc.symm.trans hb)]
      exact fun _ _ => rfl
  | false =>
      rw [← ofNumber?_number? (hab.trans hb), ← ofNumber?_number? hb,
        ← ofNumber?_number? (hbc.symm.trans hb)]
      simp only [relate_ofNumber?]
      exact .of_transCmp

theorem relate_eq_trans (hab : a.relate b = .eq) (hbc : b.relate c = .eq) (hb : b ≠ wildcard) :
    a.relate c = .eq := by
  cases a <;> cases c <;> cases b <;> simp_all [relate]

end Component

/-! ## Versions -/

namespace Version

variable {a b c v w : Version}

theorem compare_eq_then (v w : Version) : compare v w =
    ((relateRelease v w).then (compare v.prerelease w.prerelease)).then
      (compare v.build w.build) :=
  Relation.sign_ofParts ..

theorem beq_iff_relate : (v == w) = true ↔ v.relate w = .equal :=
  beq_iff_eq (a := v.relate w)

theorem beq_symm (h : (v == w) = true) : (w == v) = true := by
  rw [beq_iff_relate] at h ⊢
  rw [← relate_swap, h]
  rfl

theorem beq_iff_compare : (v == w) = true ↔ compare v w = .eq := by
  rw [beq_iff_relate]
  change _ ↔ (v.relate w).sign = .eq
  cases v.relate w <;> decide

theorem beq_iff : (v == w) = true ↔
    v.major = w.major ∧ v.minor.relate w.minor = .eq ∧ v.patch.relate w.patch = .eq ∧
      v.prerelease.tag? = w.prerelease.tag? ∧ v.build = w.build := by
  rw [beq_iff_compare, compare_eq_then, relateRelease]
  simp only [Ordering.then_eq_eq, Prerelease.compare_eq_eq, Std.LawfulEqOrd.compare_eq_iff_eq,
    and_assoc]

/-- The first slot that is not the same in all three versions is a wildcard in some of them. -/
def Mixed (a b c : Version) : Prop :=
  (a.major = b.major ∧ b.major = c.major) ∧
    (Component.Mixed a.minor b.minor c.minor ∨
      (a.minor = b.minor ∧ b.minor = c.minor) ∧ Component.Mixed a.patch b.patch c.patch)

instance (a b c : Version) : Decidable (Mixed a b c) :=
  inferInstanceAs (Decidable (_ ∧ _))

theorem chains_relateRelease (h : ¬ Mixed a b c) :
    Chains (relateRelease a b) (relateRelease b c) (relateRelease a c) := by
  have same_major (hab : compare a.major b.major = .eq) (hbc : compare b.major c.major = .eq) :
      a.major = b.major ∧ b.major = c.major :=
    ⟨Std.LawfulEqOrd.eq_of_compare hab, Std.LawfulEqOrd.eq_of_compare hbc⟩
  refine .lex (.lex .of_transCmp fun hab hbc => ?_) fun hab hbc => ?_
  · exact Component.chains fun hm => h ⟨same_major hab hbc, .inl hm⟩
  · rw [Ordering.then_eq_eq] at hab hbc
    have hmajor := same_major hab.1 hbc.1
    apply Component.chains
    intro hm
    have hminor : ¬ Component.Mixed a.minor b.minor c.minor := fun hn => h ⟨hmajor, .inl hn⟩
    obtain ⟨wild_ab, wild_bc⟩ := Decidable.not_not.1 hminor
    exact h ⟨hmajor, .inr ⟨⟨Component.eq_of_relate wild_ab hab.2,
      Component.eq_of_relate wild_bc hbc.2⟩, hm⟩⟩

theorem chains_compare (h : ¬ Mixed a b c) : Chains (compare a b) (compare b c) (compare a c) := by
  simp only [compare_eq_then]
  exact .lex (.lex (chains_relateRelease h) fun _ _ => .of_transCmp) fun _ _ => .of_transCmp

/-- Only where the one in the middle has wildcards may the outer ones differ. -/
theorem beq_trans_iff (hab : (a == b) = true) (hbc : (b == c) = true) : (a == c) = true ↔
    (b.minor = .wildcard → a.minor.relate c.minor = .eq) ∧
      (b.patch = .wildcard → a.patch.relate c.patch = .eq) := by
  rw [beq_iff] at hab hbc ⊢
  obtain ⟨major_ab, minor_ab, patch_ab, tag_ab, build_ab⟩ := hab
  obtain ⟨major_bc, minor_bc, patch_bc, tag_bc, build_bc⟩ := hbc
  have slot {x y z : Component} (hxy : x.relate y = .eq) (hyz : y.relate z = .eq) :
      x.relate z = .eq ↔ (y = .wildcard → x.relate z = .eq) :=
    ⟨fun h _ => h,
      fun h => (Decidable.em (y = .wildcard)).elim h (Component.relate_eq_trans hxy hyz)⟩
  rw [← slot minor_ab minor_bc, ← slot patch_ab patch_bc]
  exact ⟨fun h => ⟨h.2.1, h.2.2.1⟩, fun h => ⟨major_ab.trans major_bc, h.1, h.2,
    tag_ab.trans tag_bc, build_ab.trans build_bc⟩⟩

end Version

namespace Pattern

/-- The release with `n` in the place of every wildcard. -/
def fillWith (n : Number) : Pattern → Release
  | single m => .single m
  | pair m k => .pair m k
  | anyMinor m => .pair m n
  | anyPatch m k => .triple m k n
  | anyBoth m => .triple m n n

theorem relateRelease_fillWith (w : Pattern) (n : Number) (p : Prerelease) (b : Build) :
    Version.relateRelease (.exact ⟨w.fillWith n, p, b⟩) (.pattern w) = .eq := by
  cases w <;>
    simp only [Version.relateRelease, Version.major, Version.minor, Version.patch, major, minor,
      patch, fillWith, Release.major, Release.minor?, Release.patch?, Component.ofNumber?,
      Component.relate, Std.ReflOrd.compare_self, Ordering.then_eq]

theorem compare_fillWith {w : Pattern} (h : w.minor = .wildcard ∨ w.patch = .wildcard) :
    compare (w.fillWith 1) (w.fillWith 0) = .gt := by
  cases w with
  | single m | pair m k => simp [minor, patch] at h
  | anyMinor m | anyBoth m | anyPatch m k =>
      simp only [fillWith, Release.compare_eq_then, Release.major, Release.minor?, Release.patch?,
        Std.ReflOrd.compare_self]
      rfl

end Pattern

namespace Version

/-- Whether a slot is a wildcard. -/
def HasWildcard (v : Version) : Prop :=
  v.minor = .wildcard ∨ v.patch = .wildcard

instance (v : Version) : Decidable v.HasWildcard :=
  inferInstanceAs (Decidable (_ ∨ _))

theorem not_hasWildcard_exact (v : Exact) : ¬ (exact v).HasWildcard := by
  have slot (o : Option Number) : Component.ofNumber? o ≠ .wildcard := by
    cases o <;> simp [Component.ofNumber?]
  exact not_or.2 ⟨slot _, slot _⟩

theorem not_mixed (ha : ¬ a.HasWildcard) (hb : ¬ b.HasWildcard) (hc : ¬ c.HasWildcard) :
    ¬ Mixed a b c := by
  have tame {x : Component} (hx : ¬ x = .wildcard) : x.isWildcard = false := by
    cases x <;> first | rfl | contradiction
  simp only [HasWildcard, not_or] at ha hb hc
  simp [Mixed, Component.Mixed, tame ha.1, tame ha.2, tame hb.1, tame hb.2, tame hc.1, tame hc.2]

/-- The versions with wildcards are those that equal two exact versions in descending order. -/
theorem hasWildcard_iff_equals (b : Version) : b.HasWildcard ↔
    ∃ x y : Exact, (exact x == b) = true ∧ (b == exact y) = true ∧
      compare (exact x) (exact y) = .gt := by
  simp only [beq_iff_compare]
  constructor
  · intro h
    cases b with
    | exact b => exact absurd h (not_hasWildcard_exact b)
    | pattern w =>
        have fill_eq (n : Number) :
            compare (exact (.ofRelease (w.fillWith n))) (pattern w) = .eq := by
          rw [compare_eq_then, Exact.ofRelease, w.relateRelease_fillWith]
          rfl
        refine ⟨.ofRelease (w.fillWith 1), .ofRelease (w.fillWith 0), fill_eq 1, ?_, ?_⟩
        · rw [compare_swap, fill_eq 0]
          rfl
        · rw [compare_eq_then, relateRelease_exact]
          simp only [Exact.ofRelease, Pattern.compare_fillWith h]
          rfl
  · rintro ⟨x, y, hx, hy, hgt⟩
    apply Decidable.byContradiction
    intro hb
    have heq := chains_compare (not_mixed (not_hasWildcard_exact x) hb (not_hasWildcard_exact y))
    rw [hx, hy, hgt] at heq
    exact absurd (heq rfl rfl) (by decide)

/-- The versions with wildcards are those from which two exact versions lead up to where they
began. -/
theorem hasWildcard_iff_cycle (b : Version) : b.HasWildcard ↔
    ∃ x y : Exact, compare b (exact x) = .lt ∧ compare (exact x) (exact y) = .lt ∧
      compare (exact y) b = .lt := by
  constructor
  · intro h
    cases b with
    | exact b => exact absurd h (not_hasWildcard_exact b)
    | pattern w =>
        -- Up to a build, to the next release, and from its tag back to no tag.
        let built : Exact := ⟨w.fillWith 0, .none, .ofText "0"⟩
        let tagged : Exact := ⟨w.fillWith 1, .tag ⟨none, some 0, none⟩, .none⟩
        refine ⟨built, tagged, ?_, ?_, ?_⟩
        · rw [compare_swap (exact built), compare_eq_then, w.relateRelease_fillWith]
          rfl
        · rw [compare_swap (exact tagged), compare_eq_then, relateRelease_exact]
          simp only [built, tagged, Pattern.compare_fillWith h]
          rfl
        · rw [compare_eq_then, w.relateRelease_fillWith]
          rfl
  · rintro ⟨x, y, hx, hy, hcycle⟩
    apply Decidable.byContradiction
    intro hb
    have hlt := chains_compare (not_mixed hb (not_hasWildcard_exact x) (not_hasWildcard_exact y))
    rw [hx, hy, compare_swap, hcycle] at hlt
    exact absurd (hlt rfl rfl) (by decide)

/-- Three versions compare as in an order unless the first slot that is not the same in all of them
is a wildcard in some, and equality passes over a version unless its wildcards hide a difference.
Among exact versions both laws fail at every version with a wildcard and at no other. -/
theorem order_laws_beside_wildcards (a b c : Version) :
    (¬ Mixed a b c → (compare a b).isLE = true → (compare b c).isLE = true →
      compare a c = (compare a b).then (compare b c)) ∧
    ((a == b) = true → (b == c) = true → ((a == c) = true ↔
      (b.minor = .wildcard → a.minor.relate c.minor = .eq) ∧
        (b.patch = .wildcard → a.patch.relate c.patch = .eq))) ∧
    (b.HasWildcard ↔ ∃ x y : Exact, (exact x == b) = true ∧ (b == exact y) = true ∧
      compare (exact x) (exact y) = .gt) ∧
    (b.HasWildcard ↔ ∃ x y : Exact, compare b (exact x) = .lt ∧
      compare (exact x) (exact y) = .lt ∧ compare (exact y) b = .lt) :=
  ⟨chains_compare, beq_trans_iff, hasWildcard_iff_equals b, hasWildcard_iff_cycle b⟩

theorem order_laws_beside_wildcards_zero_five :
    let line : Version := .pattern (.anyPatch 0 5)
    let next : Version := .ofNumbers 0 6 0
    let all : Version := .pattern (.anyBoth 0)
    (compare (.ofNumbers 0 4 9) next = (compare (.ofNumbers 0 4 9) line).then (compare line next)) ∧
      (Version.ofNumbers 0 5 0 == all) = true ∧ all.HasWildcard := by
  intro line next all
  have hnot : ¬ Mixed (.ofNumbers 0 4 9) line next := by decide
  have hlow : (compare (Version.ofNumbers 0 4 9) line).isLE = true := by decide
  have hhigh : (compare line next).isLE = true := by decide
  have hline : (Version.ofNumbers 0 5 0 == line) = true := by decide
  have hall : (line == all) = true := by decide
  refine ⟨(order_laws_beside_wildcards _ line next).1 hnot hlow hhigh, ?_, ?_⟩
  · exact ((order_laws_beside_wildcards _ line all).2.1 hline hall).2 (by decide)
  · exact (order_laws_beside_wildcards next all next).2.2.1.2
      ⟨.ofRelease (.triple 0 5 0), .ofRelease (.triple 0 2 0), by decide, by decide, by decide⟩

/-- Against the order stand `0.*`, `0.5.0` and `0.6-rc.1`, and against equality `0.5.0`, `0.*.*` and
`0.2.0`. -/
theorem compare_not_preorder :
    (¬ ∀ (s t u : String) (a b c : Version), Version.parse s = .ok a → Version.parse t = .ok b →
      Version.parse u = .ok c → (compare a b).isLE = true → (compare b c).isLE = true →
      (compare a c).isLE = true) ∧
    ¬ ∀ (s t u : String) (a b c : Version), Version.parse s = .ok a → Version.parse t = .ok b →
      Version.parse u = .ok c → (a == b) = true → (b == c) = true → (a == c) = true := by
  have hpattern : Version.parse "0.*" = .ok (.pattern (.anyMinor 0)) := rfl
  have hall : Version.parse "0.*.*" = .ok (.pattern (.anyBoth 0)) := rfl
  have hfive : Version.parse "0.5.0" = .ok (.ofNumbers 0 5 0) := rfl
  have htwo : Version.parse "0.2.0" = .ok (.ofNumbers 0 2 0) := rfl
  have htagged : Version.parse "0.6-rc.1" =
      .ok (.exact ⟨.pair 0 6, .ofParts (Label.ofText? "rc") (some 1) none, .none⟩) := rfl
  constructor
  · intro h
    have hle := h "0.*" "0.5.0" "0.6-rc.1" _ _ _ hpattern hfive htagged (by decide) (by decide)
    exact absurd hle (by decide)
  · intro h
    have heq := h "0.5.0" "0.*.*" "0.2.0" _ _ _ hfive hall htwo (by decide) (by decide)
    exact absurd heq (by decide)

end Version

end Versioning
