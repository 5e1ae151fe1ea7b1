import Versioning.Proofs.Placement.Composite

/-!
# Builds do not count

A build decides between versions that nothing else tells apart, and no placement goes by that: not
by the build of the version that is placed, and not by those of the versions that the range is made
of, which the bounds of carets, tildes and intervals drop.
-/

namespace Versioning

/-! ## Versions -/

/-- The versions are of one kind and differ in their builds at most. -/
inductive Version.SameButBuild : Version → Version → Prop
  | exact {v w : Exact} (hr : v.release = w.release) (ht : v.prerelease.tag? = w.prerelease.tag?) :
      SameButBuild (.exact v) (.exact w)
  | pattern (w : Pattern) : SameButBuild (.pattern w) (.pattern w)

theorem Prerelease.compare_congr {p p' q q' : Prerelease} (hp : p.tag? = p'.tag?)
    (hq : q.tag? = q'.tag?) : compare p q = compare p' q' := by
  change (p.relate q).sign = (p'.relate q').sign
  simp only [relate, hp, hq]

namespace Version.SameButBuild

variable {v v' b b' : Version}

theorem refl (v : Version) : v.SameButBuild v := by
  cases v with
  | exact v => exact .exact rfl rfl
  | pattern w => exact .pattern w

theorem ofRelease {r s : Release} (h : r = s) : (Version.ofRelease r).SameButBuild (.ofRelease s) :=
  .exact h rfl

theorem isPrerelease_eq (h : v.SameButBuild v') : v.isPrerelease = v'.isPrerelease := by
  cases h with
  | exact _ ht => simp only [isPrerelease, prerelease, Prerelease.isNone, ht]
  | pattern w => rfl

theorem relateRelease_eq (hv : v.SameButBuild v') (hb : b.SameButBuild b') :
    relateRelease v b = relateRelease v' b' := by
  cases hv <;> cases hb <;> simp only [relateRelease, major, minor, patch, *]

theorem compare_prerelease_eq (hv : v.SameButBuild v') (hb : b.SameButBuild b') :
    compare v.prerelease b.prerelease = compare v'.prerelease b'.prerelease := by
  apply Prerelease.compare_congr
  · cases hv with
    | exact _ ht => exact ht
    | pattern w => rfl
  · cases hb with
    | exact _ ht => exact ht
    | pattern w => rfl

theorem precedence_relate_eq (hv : v.SameButBuild v') (hb : b.SameButBuild b') :
    (v.relate b).precedence = (v'.relate b').precedence := by
  rw [relate, relate, Relation.precedence_ofParts, Relation.precedence_ofParts,
    relateRelease_eq hv hb, compare_prerelease_eq hv hb]

/-- So neither side of a bound depends on a build. -/
theorem below_eq (hv : v.SameButBuild v') (hb : b.SameButBuild b') : v.below b = v'.below b' := by
  rw [below, below, precedence_relate_eq hv hb]

/-! ## Bounds -/

theorem floor (h : v.SameButBuild v') : v.floor.SameButBuild v'.floor := by
  cases h with
  | exact hr ht => exact .exact (congrArg Release.fill hr) ht
  | pattern w => exact refl _

theorem ceil (h : v.SameButBuild v') : v.ceil.SameButBuild v'.ceil := by
  cases h with
  | exact hr _ => exact ofRelease (congrArg Release.ceil hr)
  | pattern w => exact refl _

theorem nextBreaking (h : v.SameButBuild v') : v.nextBreaking.SameButBuild v'.nextBreaking := by
  cases h with
  | exact hr _ => exact ofRelease (congrArg Release.nextBreaking hr)
  | pattern w => exact refl _

/-- The next version takes no build along. -/
theorem next (h : v.SameButBuild v') : v.next.SameButBuild v'.next := by
  cases h with
  | @exact v w hr ht =>
      have hnone : v.prerelease.isNone = w.prerelease.isNone := congrArg Option.isNone ht
      simp only [Version.next, Exact.next, Exact.nextPatch, hr, hnone]
      split
      · exact ofRelease rfl
      · exact .exact rfl (by simp [ht])
  | pattern w => exact refl _

theorem release_eq (hv : v.SameButBuild v') (hb : b.SameButBuild b') :
    (b.release == v.release) = (b'.release == v'.release) := by
  cases hv <;> cases hb <;> simp only [Version.release, *]

end Version.SameButBuild

/-! ## Comparisons and intervals -/

section

variable {v v' : Version}

theorem Version.placeInside_congr {b b' : Version} (hv : v.SameButBuild v')
    (hb : b.SameButBuild b') : placeInside b v (v.relate b) = placeInside b' v' (v'.relate b') := by
  rw [relate, relate, hv.relateRelease_eq hb, hv.compare_prerelease_eq hb]
  cases relateRelease v' b' with
  | lt | gt => simp only [Relation.ofParts, placeInside, hv.isPrerelease_eq]
  | eq =>
      cases compare v'.prerelease b'.prerelease with
      | lt | gt => simp only [Relation.ofParts, placeInside, hb.isPrerelease_eq]
      -- Only the builds are left to decide, and on both sides the version is inside.
      | eq => cases compare v.build b.build <;> cases compare v'.build b'.build <;> rfl

theorem Operator.placeAgainst_congr (o : Operator) {b b' : Version} (hb : b.SameButBuild b')
    (hv : v.SameButBuild v') : o.placeAgainst b v = o.placeAgainst b' v' := by
  simp only [placeAgainst, Version.placeInside_congr hv hb, hv.precedence_relate_eq hb]

theorem Interval.optsIn_congr {b b' : Version} (hb : b.SameButBuild b') (hv : v.SameButBuild v') :
    optsIn b v = optsIn b' v' := by
  rw [optsIn, optsIn, hb.isPrerelease_eq, hv.release_eq hb]

/-- The ends of an interval may differ in their builds, too. -/
theorem Interval.place_congr {i j : Interval} (hl : i.lower.SameButBuild j.lower)
    (hu : i.upper.SameButBuild j.upper) (hv : v.SameButBuild v') : i.place v = j.place v' := by
  rw [place, place, hv.below_eq hl, hv.below_eq hu, hv.isPrerelease_eq, optsIn_congr hl hv,
    optsIn_congr hu hv]

theorem Operator.place_congr (o : Operator) {b b' : Version} (hb : b.SameButBuild b')
    (hv : v.SameButBuild v') : o.place b v = o.place b' v' := by
  cases hb with
  | exact hr ht => exact o.placeAgainst_congr (.exact hr ht) hv
  | pattern w =>
      cases o with
      | less | lessOrEqual | greater | greaterOrEqual =>
          exact Operator.placeAgainst_congr _ (.refl _) hv
      | equal => exact Interval.place_congr (.refl _) (.refl _) hv

end

/-! ## Ranges -/

namespace Range

/-- Ranges that are built alike, of versions that differ in their builds at most. -/
inductive BuiltAlike : Range → Range → Prop
  | comparison (operator : Operator) {v w : Version} (h : v.SameButBuild w) :
      BuiltAlike (.comparison operator v) (.comparison operator w)
  | interval {i j : Interval} (hl : i.lower.SameButBuild j.lower)
      (hu : i.upper.SameButBuild j.upper) : BuiltAlike (.interval i) (.interval j)
  | through {first last first' last' : Version} (hf : first.SameButBuild first')
      (hl : last.SameButBuild last') :
      BuiltAlike (.interval (.through first last)) (.interval (.through first' last'))
  | caret {v w : Version} (h : v.SameButBuild w) : BuiltAlike (.caret v) (.caret w)
  | tilde {v w : Version} (h : v.SameButBuild w) : BuiltAlike (.tilde v) (.tilde w)
  | exact {v w : Version} (h : v.SameButBuild w) : BuiltAlike (.exact v) (.exact w)
  | composite (pairs : List (Range × Range)) (h : ∀ p ∈ pairs, BuiltAlike p.1 p.2) :
      BuiltAlike (.composite (pairs.map Prod.fst)) (.composite (pairs.map Prod.snd))

mutual

theorem BuiltAlike.refl : (r : Range) → BuiltAlike r r
  | .comparison operator v => .comparison operator (.refl v)
  | .interval i => .interval (.refl i.lower) (.refl i.upper)
  | .caret v => .caret (.refl v)
  | .tilde v => .tilde (.refl v)
  | .exact v => .exact (.refl v)
  | .composite rs => by
      have h := BuiltAlike.composite (rs.map fun r => (r, r)) (by
        intro p hp
        obtain ⟨r, hr, rfl⟩ := List.mem_map.1 hp
        exact refl_of_mem rs r hr)
      simpa [Function.comp_def] using h

theorem BuiltAlike.refl_of_mem : (rs : List Range) → ∀ r ∈ rs, BuiltAlike r r
  | [], _, h => by cases h
  | r :: rs, s, h => by
      rcases List.mem_cons.1 h with h | h
      · exact h ▸ BuiltAlike.refl r
      · exact refl_of_mem rs s h

end

/-- By induction on the range: each alternative places both versions alike. -/
theorem BuiltAlike.place_eq {r s : Range} (h : BuiltAlike r s) {v w : Version}
    (hvw : v.SameButBuild w) : r.place v = s.place w := by
  induction h with
  | comparison operator hb => exact operator.place_congr hb hvw
  | interval hl hu => exact Interval.place_congr hl hu hvw
  | through hf hl => exact Interval.place_congr hf.floor hl.next hvw
  | caret hb => exact Interval.place_congr hb.floor hb.nextBreaking hvw
  | tilde hb => exact Interval.place_congr hb.floor hb.ceil hvw
  | exact hb => exact Operator.equal.place_congr hb hvw
  | composite pairs _ ih =>
      rw [place_composite, place_composite, List.map_map, List.map_map]
      exact congrArg Placement.ofAlternatives (List.map_congr_left ih)

/-- A range places versions alike that differ in their builds at most, and so do ranges that are
built alike of such versions. -/
theorem place_ignores_builds :
    (∀ (r : Range) (v w : Version), v.SameButBuild w → r.place v = r.place w) ∧
    ∀ r s : Range, BuiltAlike r s → ∀ v : Version, r.place v = s.place v :=
  ⟨fun r _ _ hvw => (BuiltAlike.refl r).place_eq hvw, fun _ _ hrs v => hrs.place_eq (.refl v)⟩

theorem place_ignores_builds_nested :
    let tag : Prerelease := .ofParts (Label.ofText? "rc") (some 1) none
    let v (b : Build) : Version := .exact ⟨.triple 1 2 3, tag, b⟩
    let r (b c : Build) : Range := composite [comparison .greater (v b),
      composite [interval (.through (v b) (v c)), caret (v c)]]
    let b := Build.ofText "7"
    ((v b).SameButBuild (v .none) ∧ (r b .none).place (v b) = (r b .none).place (v .none)) ∧
    (BuiltAlike (r b .none) (r .none b) ∧ (r b .none).place (v b) = (r .none b).place (v b)) := by
  intro tag v r b
  have hv (b c : Build) : (v b).SameButBuild (v c) := .exact rfl rfl
  have inner (b c b' c' : Build) : BuiltAlike
      (composite [interval (.through (v b) (v c)), caret (v c)])
      (composite [interval (.through (v b') (v c')), caret (v c')]) := by
    apply BuiltAlike.composite [(interval (.through (v b) (v c)),
      interval (.through (v b') (v c'))), (caret (v c), caret (v c'))]
    simpa using ⟨.through (hv b b') (hv c c'), .caret (hv c c')⟩
  have outer : BuiltAlike (r b .none) (r .none b) := by
    apply BuiltAlike.composite [(comparison .greater (v b), comparison .greater (v .none)),
      (composite [interval (.through (v b) (v .none)), caret (v .none)],
        composite [interval (.through (v .none) (v b)), caret (v b)])]
    simpa using ⟨.comparison .greater (hv b .none), inner b .none .none b⟩
  exact ⟨⟨hv b .none, place_ignores_builds.1 _ _ _ (hv b .none)⟩,
    outer, place_ignores_builds.2 _ _ outer _⟩

end Range

end Versioning
