import Versioning.Proofs.Range.Bounds
import Versioning.Range.Json

/-!
# Ranges as JSON values

A range is read back from its JSON value with each of its versions read back from its text. The
versions that texts and JSON values give come back as themselves, and so do the bounds that are made
of them, so a range that was read is read back as itself.
-/

namespace Versioning

open Json

namespace Range

/-! ## The versions of a range -/

mutual

/-- The range with what the texts of its versions are read as. -/
def reread : Range → Range
  | comparison operator v => comparison operator v.reread
  | interval i => interval ⟨i.lower.reread, i.upper.reread⟩
  | caret v => caret v.reread
  | tilde v => tilde v.reread
  | exact v => exact v.reread
  | composite rs => composite (rereadAll rs)

def rereadAll : List Range → List Range
  | [] => []
  | r :: rs => r.reread :: rereadAll rs

end

theorem rereadAll_eq_map (rs : List Range) : rereadAll rs = rs.map reread := by
  induction rs with
  | nil => rfl
  | cons r rs ih => simp [rereadAll, ih]

theorem toJsons_eq_map (rs : List Range) : toJsons rs = rs.map toJson := by
  induction rs with
  | nil => rfl
  | cons r rs ih => simp [toJsons, ih]

/-- If every version is read back as itself, so is the range. -/
theorem All.reread_eq {r : Range} (h : r.All Version.Stable) : r.reread = r := by
  induction h with
  | comparison operator h | caret h | tilde h | exact h => simp [reread, h.reread_eq]
  | interval hl hu => simp [reread, hl.reread_eq, hu.reread_eq]
  | @composite rs _ ih => simp [reread, rereadAll_eq_map, List.map_congr_left ih]

end Range

/-! ## Writing and reading again -/

theorem Version.ofJson?_toJson {v : Version} (h : v.Canonical) :
    Version.ofJson? v.toJson = .ok v.reread :=
  mapError_eq_ok.2 h.parse_text

theorem Version.stable_of_ofJson? {j : Json} {v : Version} (h : Version.ofJson? j = .ok v) :
    v.Stable := by
  cases j with
  | string s => exact stable_of_parse (mapError_eq_ok.1 h)
  | _ => contradiction

theorem Operator.ofJson?_toJson (o : Operator) : Operator.ofJson? o.toJson = .ok o := by
  apply choice_string
  cases o <;> rfl

namespace Range

theorem Kind.ofField?_name (k : Kind) : ofField? (.string k.name) = .ok k := by
  apply choice_string
  cases k <;> rfl

theorem Kind.ofHead?_name (k : Kind) : ofHead? (.string k.name) = .ok k := by
  apply identifier_string
  cases k <;> rfl

theorem ofJson?_object {fields : List (String × Json)} {k v : Json}
    (hk : lookup? fields "kind" = some k) (hv : lookup? fields "value" = some v) :
    ofJson? (.object fields) = Kind.ofField? k >>= fun k => ofValue? k v := by
  rw [ofJson?]
  split <;> simp_all

theorem ofJson?_tagged (k : Kind) (value : Json) :
    ofJson? (tagged k value) = ofValue? k value := by
  rw [tagged, ofJson?_object (k := .string k.name) (v := value) rfl rfl, Kind.ofField?_name]
  rfl

/-- An array of a kind and a value is read as the object of the two. -/
theorem ofJson?_array (k : Kind) (value : Json) :
    ofJson? (.array [.string k.name, value]) = ofJson? (tagged k value) := by
  rw [ofJson?_tagged, ofJson?, Kind.ofHead?_name]
  rfl

theorem pairOf_object {α β : Type} {structureName firstName secondName : String}
    {first : Json → Except Fault α} {second : Json → Except Fault β} {i j : Json} {a : α} {b : β}
    (hne : firstName ≠ secondName) (ha : first i = .ok a) (hb : second j = .ok b) :
    pairOf structureName firstName secondName first second
      (.object [(firstName, i), (secondName, j)]) = .ok (a, b) := by
  have hi : lookup? [(firstName, i), (secondName, j)] firstName = some i := by simp [lookup?]
  have hj : lookup? [(firstName, i), (secondName, j)] secondName = some j := by simp [lookup?, hne]
  simp only [pairOf, hi, hj, Option.mapM_some, ha, hb]
  rfl

theorem ofJsons?_eq_mapM (js : List Json) : ofJsons? js = js.mapM ofJson? := by
  induction js with
  | nil => rw [ofJsons?, List.mapM_nil]; rfl
  | cons j js ih => rw [ofJsons?, List.mapM_cons, ih]

theorem ofJsons?_map {rs : List Range} (h : ∀ r ∈ rs, ofJson? r.toJson = .ok r.reread) :
    ofJsons? (rs.map toJson) = .ok (rs.map reread) := by
  rw [ofJsons?_eq_mapM, mapM_eq_ok, List.forall₂_map_left_iff, List.forall₂_map_right_iff,
    List.forall₂_same]
  exact h

/-- Writing a range and reading it reads each of its versions once more. -/
theorem ofJson?_toJson {r : Range} (h : r.All Version.Canonical) :
    ofJson? r.toJson = .ok r.reread := by
  induction h with
  | comparison operator h =>
      rw [toJson, ofJson?_tagged, ofValue?, comparisonOfJson?,
        pairOf_object (by decide) operator.ofJson?_toJson (Version.ofJson?_toJson h)]
      rfl
  | interval hl hu =>
      rw [toJson, ofJson?_tagged, ofValue?, intervalOfJson?,
        pairOf_object (by decide) (Version.ofJson?_toJson hl) (Version.ofJson?_toJson hu)]
      rfl
  | caret h | tilde h | exact h =>
      rw [toJson, ofJson?_tagged, ofValue?, Version.ofJson?_toJson h]
      rfl
  | composite _ ih =>
      rw [toJson, ofJson?_tagged, ofValue?, toJsons_eq_map, ofJsons?_map ih, reread,
        rereadAll_eq_map]
      rfl

/-! ## What is read from JSON -/

theorem exists_of_pairOf {α β : Type} {structureName firstName secondName : String}
    {first : Json → Except Fault α} {second : Json → Except Fault β} {j : Json} {a : α} {b : β}
    (h : pairOf structureName firstName secondName first second j = .ok (a, b)) :
    (∃ i, first i = .ok a) ∧ ∃ i, second i = .ok b := by
  have of_mapM {γ : Type} {read : Json → Except Fault γ} {j? : Option Json} {c : γ}
      (h : j?.mapM read = .ok (some c)) : ∃ i, read i = .ok c := by
    cases j? with
    | none => simp [pure, Except.pure] at h
    | some i =>
        obtain ⟨d, hd, h⟩ := bind_eq_ok.1 h
        cases h
        exact ⟨i, hd⟩
  unfold pairOf at h
  split at h
  · obtain ⟨a?, ha, h⟩ := bind_eq_ok.1 h
    obtain ⟨b?, hb, h⟩ := bind_eq_ok.1 h
    split at h
    · cases h
      exact ⟨of_mapM ha, of_mapM hb⟩
    · contradiction
    · contradiction
  · split at h
    · contradiction
    · obtain ⟨_, _, h⟩ := bind_eq_ok.1 h
      contradiction
    · obtain ⟨_, ha, h⟩ := bind_eq_ok.1 h
      obtain ⟨_, hb, h⟩ := bind_eq_ok.1 h
      cases h
      exact ⟨⟨_, ha⟩, _, hb⟩
    · obtain ⟨_, _, h⟩ := bind_eq_ok.1 h
      obtain ⟨_, _, h⟩ := bind_eq_ok.1 h
      contradiction
  · contradiction

/-- What is accepted has a kind and a value inside it. -/
theorem exists_ofValue?_of_ofJson? {j : Json} {r : Range} (h : ofJson? j = .ok r) :
    ∃ k value, sizeOf value < sizeOf j ∧ ofValue? k value = .ok r := by
  rw [ofJson?.eq_def] at h
  split at h
  · split at h
    · contradiction
    · obtain ⟨_, _, h⟩ := bind_eq_ok.1 h
      contradiction
    · rename_i hvalue
      obtain ⟨k, _, h⟩ := bind_eq_ok.1 h
      exact ⟨k, _, sizeOf_lookup? hvalue, h⟩
  · contradiction
  · obtain ⟨_, _, h⟩ := bind_eq_ok.1 h
    contradiction
  · obtain ⟨k, _, h⟩ := bind_eq_ok.1 h
    exact ⟨k, _, by simp; omega, h⟩
  · obtain ⟨k, _, h⟩ := bind_eq_ok.1 h
    obtain ⟨_, _, h⟩ := bind_eq_ok.1 h
    contradiction
  · contradiction

/-- By induction on the size of the value, since the value of a range lies inside it. -/
theorem stable_of_ofJson? {j : Json} {r : Range} (h : ofJson? j = .ok r) :
    r.All Version.Stable := by
  obtain ⟨k, value, hlt, h⟩ := exists_ofValue?_of_ofJson? h
  rw [ofValue?.eq_def] at h
  split at h
  · obtain ⟨⟨o, v⟩, hpair, h⟩ := bind_eq_ok.1 h
    cases h
    obtain ⟨_, _, hv⟩ := exists_of_pairOf hpair
    exact .comparison o (Version.stable_of_ofJson? hv)
  · obtain ⟨⟨l, u⟩, hpair, h⟩ := bind_eq_ok.1 h
    cases h
    obtain ⟨⟨_, hl⟩, _, hu⟩ := exists_of_pairOf hpair
    exact .interval (Version.stable_of_ofJson? hl) (Version.stable_of_ofJson? hu)
  · obtain ⟨v, hv, h⟩ := bind_eq_ok.1 h
    cases h
    exact .caret (Version.stable_of_ofJson? hv)
  · obtain ⟨v, hv, h⟩ := bind_eq_ok.1 h
    cases h
    exact .tilde (Version.stable_of_ofJson? hv)
  · obtain ⟨v, hv, h⟩ := bind_eq_ok.1 h
    cases h
    exact .exact (Version.stable_of_ofJson? hv)
  · split at h
    · obtain ⟨rs, hrs, h⟩ := bind_eq_ok.1 h
      cases h
      rw [ofJsons?_eq_mapM] at hrs
      apply All.composite
      intro r hr
      obtain ⟨i, hi, hr⟩ := exists_mem_of_mapM hrs r hr
      have hlt := List.sizeOf_lt_of_mem hi
      exact stable_of_ofJson? hr
    · contradiction
termination_by sizeOf j
decreasing_by
  simp at *
  omega

/-! ## The round trip -/

theorem stable_of_parse {s : String} {r : Range} (h : Range.parse s = .ok r) :
    r.All Version.Stable :=
  (isBound_of_parse h).mono fun _ hv => hv.stable

/-- A range that was read, from a text or from any JSON value, is read back from its own JSON value
as itself. -/
theorem json_roundTrip (r : Range) (h : (∃ s, Range.parse s = .ok r) ∨ ∃ j, ofJson? j = .ok r) :
    ofJson? r.toJson = .ok r := by
  have hstable : r.All Version.Stable := by
    rcases h with ⟨s, hs⟩ | ⟨j, hj⟩
    · exact stable_of_parse hs
    · exact stable_of_ofJson? hj
  rw [ofJson?_toJson (hstable.mono fun _ hv => hv.canonical), hstable.reread_eq]

theorem json_roundTrip_nested :
    let lower : Version := .pattern (.anyMinor 1)
    let upper : Version :=
      .exact ⟨.triple 2 0 0, .ofParts (Label.ofText? "rc") (some 1) none, .none⟩
    let r : Range := composite [interval ⟨lower, upper⟩, composite [caret (.pattern (.pair 0 2))]]
    let j : Json := .array [.string "composite", .array [
      tagged .interval (.array [.string "1.x", .string "02.0.0-rc.1"]),
      tagged .composite (.array [.array [.string "caret", .string "0.2"]])]]
    ofJson? j = .ok r ∧ ofJson? r.toJson = .ok r := by
  intro lower upper r j
  have hcaret : Version.ofJson? (.string "0.2") = .ok (.pattern (.pair 0 2)) := rfl
  have hinterval : intervalOfJson? (.array [.string "1.x", .string "02.0.0-rc.1"]) =
      .ok (interval ⟨lower, upper⟩) := rfl
  have hkind : Kind.ofHead? (.string "composite") = .ok .composite := rfl
  have hkind' : Kind.ofHead? (.string "caret") = .ok .caret := rfl
  have hj : ofJson? j = .ok r := by
    simp only [j, ofJson?, ofJsons?, ofValue?, ofJson?_tagged, hkind, hkind', hinterval, hcaret, bind,
      Except.bind]
    rfl
  exact ⟨hj, json_roundTrip r (.inr ⟨j, hj⟩)⟩

end Range

end Versioning
