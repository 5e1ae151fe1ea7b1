import Versioning.Proofs.Placement.Denotation

/-!
# The nearest successor

The next version is the least one of its kind: no release of three numbers lies between a release
and the next one, no tag with the same words between a tag and the next one, and no release between
those that a pattern matches and the one after them. This holds also where a number has no
successor, since then nothing of that kind is above.
-/

namespace Versioning

theorem Number.isLE_next_of_lt {o k : Option Number} (h : compare o k = .lt) :
    (compare (some (o.elim 0 succ)) k).isLE = true := by
  cases k with
  | none => cases o <;> simp [compare] at h
  | some n =>
      have some_le {m : Number} : (compare (some m) (some n)).isLE = true ↔ m.toNat ≤ n.toNat :=
        Nat.isLE_compare
      rw [some_le]
      cases o with
      | none => exact Nat.zero_le _
      | some m =>
          have hlt : m.toNat < n.toNat := compare_eq_lt.1 h
          rw [Option.elim_some, toNat_succ]
          omega

theorem Release.isLE_nextPatch_of_lt {r s : Release} (hr : r.IsFull) (hs : s.IsFull)
    (h : compare r s = .lt) : (compare r.nextPatch s).isLE = true := by
  obtain ⟨m, n, p, rfl⟩ := hr.exists_triple
  obtain ⟨a, b, c, rfl⟩ := hs.exists_triple
  rw [triple_lt_triple] at h
  rw [isLE_iff_not_lt, nextPatch, ne_eq, triple_lt_triple, Number.toNat_succ]
  omega

theorem Tag.isLE_next_of_lt {s t : Tag} (hbefore : s.before = t.before) (hafter : s.after = t.after)
    (h : (t.relate s).sign = .lt) : (t.next.relate s).sign.isLE = true := by
  have hnumber : compare t.number s.number = .lt := by
    rw [sign_relate, hbefore, hafter, Std.ReflOrd.compare_self, Std.ReflOrd.compare_self] at h
    simpa using h
  rw [sign_relate, next, hbefore, hafter, Std.ReflOrd.compare_self, Std.ReflOrd.compare_self]
  simpa using Number.isLE_next_of_lt hnumber

theorem Pattern.isLE_ceil_of_lt {w : Pattern} {r : Release} (hr : r.IsFull)
    (h : compare w.last r = .lt) : (compare w.ceil r).isLE = true := by
  obtain ⟨m, n, p, rfl⟩ := hr.exists_triple
  have hn : n.toNat ≤ Number.maxValue := n.le_max
  have hp : p.toNat ≤ Number.maxValue := p.le_max
  rw [last, Release.triple_lt_triple] at h
  rw [isLE_iff_not_lt, ceil]
  cases hminor : w.minor.number? with
  | none =>
      simp only [hminor, Option.getD_none, Number.toNat_last] at h
      simp only [ne_eq, Release.triple_lt_triple, Number.toNat_succ, Number.toNat_zero]
      omega
  | some k =>
      simp only [hminor, Option.getD_some, Number.toNat_last] at h
      simp only [ne_eq, Release.triple_lt_triple, Number.toNat_succ, Number.toNat_zero]
      omega

namespace Exact

variable {u v : Exact}

theorem isLE_next_untagged (hu : u.prerelease.isNone = true) (hv : v.prerelease.isNone = true)
    (hufull : u.release.IsFull) (hvfull : v.release.IsFull) (h : u.precedence v = .lt) :
    (u.next.precedence v).isLE = true := by
  rw [precedence_untagged hu hv] at h
  rw [next_untagged hu, precedence_untagged rfl hv]
  exact Release.isLE_nextPatch_of_lt hufull hvfull h

/-- A version without a tag is above all tags of its release, the next one among them. -/
theorem isLE_next_tagged (hu : u.prerelease.isNone = false) (hrelease : v.release = u.release)
    (hbefore : v.prerelease.before = u.prerelease.before)
    (hafter : v.prerelease.after = u.prerelease.after) (h : u.precedence v = .lt) :
    (u.next.precedence v).isLE = true := by
  obtain ⟨t, ht⟩ := Option.isSome_iff_exists.1 (Option.isNone_eq_false_iff.1 hu)
  have hsame : compare u.release v.release = .eq := by
    rw [hrelease]
    exact Std.ReflOrd.compare_self
  rw [precedence, hsame, Ordering.eq_then, Prerelease.compare_eq_sign, Prerelease.relate, ht] at h
  rw [next_tagged hu, precedence, hsame, Ordering.eq_then, Prerelease.compare_eq_sign,
    Prerelease.relate, Prerelease.tag?_next, ht]
  rw [Prerelease.before, Prerelease.before, ht] at hbefore
  rw [Prerelease.after, Prerelease.after, ht] at hafter
  cases hs : v.prerelease.tag? with
  | none => rfl
  | some s =>
      rw [hs] at h hbefore hafter
      exact Tag.isLE_next_of_lt hbefore hafter h

end Exact

/-- Of all that is above a version, builds ignored, the next version is at most what is of the same
kind: a release of three numbers after such a release, the same words around a number after a tag,
and a release above all that it matches after a pattern. -/
theorem Version.next_isLE_of_above :
    (∀ u v : Exact, u.prerelease.isNone = true → v.prerelease.isNone = true → u.release.IsFull →
      v.release.IsFull → ((exact u).relate (exact v)).precedence = .lt →
        ((exact u).next.relate (exact v)).precedence.isLE = true) ∧
    (∀ u v : Exact, u.prerelease.isNone = false → v.release = u.release →
      v.prerelease.before = u.prerelease.before → v.prerelease.after = u.prerelease.after →
      ((exact u).relate (exact v)).precedence = .lt →
        ((exact u).next.relate (exact v)).precedence.isLE = true) ∧
    ∀ (w : Pattern) (v : Exact), v.prerelease.isNone = true → v.release.IsFull →
      (∀ r, w.Matches r → ((ofRelease r).relate (exact v)).precedence = .lt) →
        ((pattern w).next.relate (exact v)).precedence.isLE = true := by
  refine ⟨fun u v hu hv hufull hvfull h => ?_, fun u v hu hrelease hbefore hafter h => ?_,
    fun w v hv hvfull h => ?_⟩
  · rw [precedence_relate] at h
    rw [next, precedence_relate]
    exact Exact.isLE_next_untagged hu hv hufull hvfull h
  · rw [precedence_relate] at h
    rw [next, precedence_relate]
    exact Exact.isLE_next_tagged hu hrelease hbefore hafter h
  · have hlast := h w.last w.matches_last
    rw [ofRelease, precedence_relate, Exact.precedence_untagged rfl hv] at hlast
    rw [next, ofRelease, precedence_relate, Exact.precedence_untagged rfl hv]
    exact Pattern.isLE_ceil_of_lt hvfull hlast

theorem Version.next_isLE_of_above_last :
    let last : Number := 18446744073709551615
    let tag (n : Number) : Prerelease := .ofParts (Label.ofText? "beta") (some n) none
    let u : Exact := ⟨.triple 1 2 last, .none, .ofText "7"⟩
    let v : Exact := .ofRelease (.triple 1 3 0)
    let s : Exact := ⟨.triple 1 2 3, tag 2, .none⟩
    let t : Exact := ⟨.triple 1 2 3, tag 4, .ofText "7"⟩
    let w : Pattern := .anyPatch 1 2
    ((exact u).relate (exact v)).precedence = .lt ∧
      ((exact u).next.relate (exact v)).precedence.isLE = true ∧
      ((exact s).relate (exact t)).precedence = .lt ∧
      ((exact s).next.relate (exact t)).precedence.isLE = true ∧
      (∀ r, w.Matches r → ((ofRelease r).relate (exact v)).precedence = .lt) ∧
      ((pattern w).next.relate (exact v)).precedence.isLE = true := by
  intro last tag u v s t w
  have huv : ((exact u).relate (exact v)).precedence = .lt := by decide
  have hst : ((exact s).relate (exact t)).precedence = .lt := by decide
  have hw : ∀ r, w.Matches r → ((ofRelease r).relate (exact v)).precedence = .lt := by
    intro r hr
    have hle := ((Pattern.matches_iff hr.isFull).1 hr).2
    rw [ofRelease, precedence_relate, Exact.precedence_untagged rfl rfl]
    exact Std.TransCmp.lt_of_isLE_of_lt hle (by decide)
  obtain ⟨release_next, tag_next, pattern_next⟩ := next_isLE_of_above
  exact ⟨huv, release_next u v rfl rfl rfl rfl huv, hst, tag_next s t rfl rfl rfl rfl hst, hw,
    pattern_next w v rfl rfl hw⟩

end Versioning
