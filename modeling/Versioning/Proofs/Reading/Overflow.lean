import Versioning.Proofs.Reading.Failure

/-!
# Numbers that are too large

When a number is too large, the error tells where it stands: it is the first such number of the
leftmost item that fails to convert, in the order in which the item is converted, and the place is
its own even if the same digits stand elsewhere too.
-/

namespace Versioning

open Text (IsDigits byteLength)
open Grammar

/-- The place is digits of the text, and their value does not fit. -/
structure IsOverflowIn (place : Text.Excerpt) (t : List Char) : Prop where
  source : place.source = t
  within : place.offset + place.length ≤ byteLength t
  digits : IsDigits place.text
  tooLarge : UInt64.size ≤ Nat.ofDigitChars 10 place.text 0

theorem isOverflowIn_placeIn {p : Piece} {t : List Char} (h : p.IsDigitsIn t) (hp : p.IsTooLarge) :
    IsOverflowIn (p.placeIn t) t := by
  have hsource : (p.placeIn t).source = t := Piece.source_placeIn h.1
  refine ⟨hsource, ?_, h.2, hp⟩
  have hwithin := (p.placeIn t).offset_add_length_le
  rwa [hsource] at hwithin

/-- An item fails with a field exactly at its first number that is too large. -/
theorem Grammar.Item.failsWith_field {input : List Char} {x : Item} {field : Field}
    {fault : NumberFault} {place : Text.Excerpt} : x.FailsWith input (.field field fault place) ↔
      fault = .tooLarge ∧
        ∃ p, firstTooLarge? x.fragments = some (field, p) ∧ place = p.placeIn input := by
  rw [failsWith_iff, FailsAs]
  cases firstTooLarge? x.fragments with
  | some q =>
      obtain ⟨field', q⟩ := q
      constructor
      · intro h
        cases h
        exact ⟨rfl, q, rfl, rfl⟩
      · rintro ⟨rfl, p, hp, rfl⟩
        cases hp
        rfl
  | none =>
      refine iff_of_false (fun h => ?_) (by simp)
      obtain ⟨w, _, hw⟩ := refused_iff.1 h
      obtain ⟨_, _, _, _, _, _, _, _, _, _, he⟩ := patternRefused_iff.1 hw
      contradiction

/-- Errors in a field locate the number: they are at the first number that is too large of the
leftmost item that fails to convert. -/
structure LocatesOverflow {α : Type} (parse : String → Except Error α)
    (items : List Char → List Item → Prop) : Prop where
  unique {t : List Char} {xs ys : List Item} (hx : items t xs) (hy : items t ys) : xs = ys
  place {s : String} {field : Field} {fault : NumberFault} {place : Text.Excerpt}
    (h : parse s = .error (.field field fault place)) : IsOverflowIn place (Text.trim s.toList)
  error_iff (s : String) (field : Field) (fault : NumberFault) (place : Text.Excerpt) :
    parse s = .error (.field field fault place) ↔ fault = .tooLarge ∧
      ∃ xs x p, items (Text.trim s.toList) xs ∧ LeftmostFailing (Text.trim s.toList) xs x ∧
        firstTooLarge? x.fragments = some (field, p) ∧ place = p.placeIn (Text.trim s.toList)

theorem ConvertsItems.locatesOverflow {α : Type} {parse : String → Except Error α}
    {items : List Char → List Item → Prop} (h : ConvertsItems parse items) :
    LocatesOverflow parse items := by
  have herror (s : String) (field : Field) (fault : NumberFault) (place : Text.Excerpt) :
      parse s = .error (.field field fault place) ↔ fault = .tooLarge ∧
        ∃ xs x p, items (Text.trim s.toList) xs ∧ LeftmostFailing (Text.trim s.toList) xs x ∧
          firstTooLarge? x.fragments = some (field, p) ∧ place = p.placeIn (Text.trim s.toList) := by
    rw [h.error_iff (e := .field field fault place) trivial]
    simp only [Item.failsWith_field]
    constructor
    · rintro ⟨xs, x, hxs, hx, hfault, p, hp, hplace⟩
      exact ⟨hfault, xs, x, p, hxs, hx, hp, hplace⟩
    · rintro ⟨hfault, xs, x, p, hxs, hx, hp, hplace⟩
      exact ⟨xs, x, hxs, hx, hfault, p, hp, hplace⟩
  refine ⟨h.unique, fun hfail => ?_, herror⟩
  obtain ⟨_, xs, x, p, hxs, hx, hp, rfl⟩ := (herror _ _ _ _).1 hfail
  obtain ⟨hmem, hlarge⟩ := isTooLarge_of_firstTooLarge? hp
  exact isOverflowIn_placeIn ((h.sequence hxs).isDigitsIn x hx.mem _ hmem) hlarge

/-- A reader fails with a field if and only if a number of the leftmost item that fails is too
large. The place is that of the first such number of the item. -/
theorem fields_locate_overflow : LocatesOverflow Exact.parse Exact.Items ∧
    LocatesOverflow Version.parse Version.Items ∧ LocatesOverflow Pattern.parse Pattern.Items ∧
    LocatesOverflow Prerelease.parse Prerelease.Items ∧ LocatesOverflow Range.parse Range.Items :=
  ⟨Exact.convertsItems.locatesOverflow, Version.convertsItems.locatesOverflow,
    Pattern.convertsItems.locatesOverflow, Prerelease.convertsItems.locatesOverflow,
    Range.convertsItems.locatesOverflow⟩

/-- The number of a tag is tried first, though the same digits stand to its left. -/
theorem fields_locate_overflow_tag :
    let place : Text.Excerpt := ⟨"1.2.x - 2.18446744073709551616.0-rc.".toList,
      "18446744073709551616".toList, ".a".toList⟩
    Range.parse " 1.2.x - 2.18446744073709551616.0-rc.18446744073709551616.a" =
        .error (.field .prerelease .tooLarge place) ∧
      IsOverflowIn place "1.2.x - 2.18446744073709551616.0-rc.18446744073709551616.a".toList := by
  intro place
  let t := "1.2.x - 2.18446744073709551616.0-rc.18446744073709551616.a".toList
  have hread : ∃ lower upper, alternative? t = some (.hyphen lower upper, []) ∧
      lower.isNumberTriple = false ∧ upper.isNumberTriple = false ∧
      (∃ v, lower.value t = .ok v) ∧
      firstTooLarge? (Item.version upper).fragments =
        some (.prerelease, ⟨"18446744073709551616".toList, ".a".toList⟩) :=
    ⟨_, _, rfl, rfl, rfl, ⟨_, rfl⟩, rfl⟩
  obtain ⟨lower, upper, hform, hlower, hupper, ⟨v, hv⟩, hlarge⟩ := hread
  have hreads : ReadsAs t [.hyphen lower upper] :=
    ⟨.single (alternative?_sound hform), by
      simp [AlternativeText.TriplesExact, AlternativeText.versions, hlower, hupper]⟩
  have hfails : (Item.version upper).FailsWith t (.field .prerelease .tooLarge place) :=
    Item.failsWith_field.2 ⟨rfl, _, hlarge, rfl⟩
  have hleftmost : LeftmostFailing t [.version lower, .version upper] (.version upper) :=
    .second (Item.converts_version hv) hfails
  have hrange := fields_locate_overflow.2.2.2.2
  have hparse : Range.parse " 1.2.x - 2.18446744073709551616.0-rc.18446744073709551616.a" =
      .error (.field .prerelease .tooLarge place) :=
    (hrange.error_iff _ _ _ _).2 ⟨rfl, _, _, _, ⟨_, hreads, rfl⟩, hleftmost, hlarge, rfl⟩
  exact ⟨hparse, hrange.place hparse⟩

end Versioning
