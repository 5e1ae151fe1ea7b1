import Versioning.Proofs.Reading.Conversion

/-!
# What is converted

A text that was read is a sequence of items, which are versions or a tag, and each item has numbers.
They are converted in an order of their own: the number of a tag before the numbers of its release.
So the first fragment in this order that is too large decides how an item fails, and only where all
fit can a pattern be refused.
-/

namespace Versioning.Grammar

/-! ## Fragments -/

/-- The digits have a value that does not fit into 64 bits. -/
def Piece.IsTooLarge (p : Piece) : Prop :=
  UInt64.size ≤ Nat.ofDigitChars 10 p.text 0

instance : DecidablePred Piece.IsTooLarge :=
  fun _ => inferInstanceAs (Decidable (_ ≤ _))

/-- The last segment that is a numeral, where it stands. -/
def Piece.lastNumeral? (dotted : Piece) : Option Piece :=
  (Text.splitLast Text.isNumeral (Text.segments dotted.text)).map fun (_, numeral, after) =>
    ⟨numeral, after.flatMap ('.' :: ·) ++ dotted.after⟩

def Slot.digits? : Slot → Option Piece
  | number digits => some digits
  | wildcard => none

/-- The digits of a field, if there are any. -/
def fragment (field : Field) (digits? : Option Piece) : List (Field × Piece) :=
  (digits?.map (field, ·)).toList

def ReleaseText.fragments {σ : Type} (digits? : σ → Option Piece) (x : ReleaseText σ) :
    List (Field × Piece) :=
  fragment .major (some x.major) ++
    (fragment .minor (x.minor?.bind digits?) ++ fragment .patch (x.patch?.bind digits?))

section

variable {σ : Type} {digits? : σ → Option Piece}

@[simp] theorem ReleaseText.fragments_single (m : Piece) :
    (single m).fragments digits? = [(.major, m)] := rfl

@[simp] theorem ReleaseText.fragments_pair (m : Piece) (n : σ) :
    (pair m n).fragments digits? = (.major, m) :: fragment .minor (digits? n) := by
  simp [fragments, fragment, major, minor?, patch?]

@[simp] theorem ReleaseText.fragments_triple (m : Piece) (n p : σ) :
    (triple m n p).fragments digits? =
      (.major, m) :: (fragment .minor (digits? n) ++ fragment .patch (digits? p)) := rfl

end

/-- The number of the tag comes first. -/
def ExactText.fragments (v : ExactText) : List (Field × Piece) :=
  fragment .prerelease (v.prerelease.bind Piece.lastNumeral?) ++ v.release.fragments some

/-- What is converted by itself: a version, or a dotted text that is a tag. -/
inductive Item
  | version (x : VersionText)
  | tag (dotted : Piece)

/-- The numbers of an item in the order of their conversion. -/
def Item.fragments : Item → List (Field × Piece)
  | version (.exact v) => v.fragments
  | version (.pattern w) => w.fragments Slot.digits?
  | tag dotted => fragment .prerelease dotted.lastNumeral?

/-! ## Failures of conversions -/

def firstTooLarge? (fragments : List (Field × Piece)) : Option (Field × Piece) :=
  fragments.find? fun q => q.2.IsTooLarge

theorem isTooLarge_of_firstTooLarge? {xs : List (Field × Piece)} {q : Field × Piece}
    (h : firstTooLarge? xs = some q) : q ∈ xs ∧ q.2.IsTooLarge :=
  ⟨List.mem_of_find?_eq_some h, by simpa using List.find?_some h⟩

/-- The conversion of the fragments, and of what they belong to, fails with `e`: at the first
fragment that is too large, or as `refused` says if none is. -/
def FailsAs (input : List Char) (fragments : List (Field × Piece)) (refused : Error → Prop)
    (e : Error) : Prop :=
  match firstTooLarge? fragments with
  | some (field, p) => e = .field field .tooLarge (p.placeIn input)
  | none => refused e

section

variable {α β : Type} {input : List Char} {e : Error}

/-- The error names the field and quotes the digits where they stand. -/
theorem numberAt_eq_error {field : Field} {p : Piece} :
    numberAt input field p = .error e ↔
      p.IsTooLarge ∧ e = .field field .tooLarge (p.placeIn input) := by
  unfold numberAt
  cases h : Number.ofDigits? p.text with
  | some n =>
      refine iff_of_false (by simp) fun he => ?_
      rw [Number.ofDigits?_eq_none.2 he.1] at h
      contradiction
  | none =>
      have hlarge : p.IsTooLarge := Number.ofDigits?_eq_none.1 h
      simp [hlarge, eq_comm]

theorem failsAs_nil {refused : Error → Prop} : FailsAs input [] refused e ↔ refused e :=
  Iff.rfl

/-- What is converted first fails first. -/
theorem bind_eq_error_iff_failsAs {x : Except Error α} {f : α → Except Error β}
    {xs ys : List (Field × Piece)} {refused : Error → Prop}
    (hx : ∀ c, x = .error c ↔ FailsAs input xs (fun _ => False) c)
    (hf : ∀ a, x = .ok a → (f a = .error e ↔ FailsAs input ys refused e)) :
    (x >>= f) = .error e ↔ FailsAs input (xs ++ ys) refused e := by
  have happend : firstTooLarge? (xs ++ ys) = (firstTooLarge? xs).or (firstTooLarge? ys) :=
    List.find?_append
  unfold FailsAs at hx ⊢
  rw [happend]
  cases hfirst : firstTooLarge? xs with
  | some q =>
      -- The second part is not reached.
      simp only [hfirst] at hx
      rw [(hx _).2 rfl]
      simp [bind, Except.bind, eq_comm]
  | none =>
      simp only [hfirst, iff_false] at hx
      cases x with
      | error c => exact absurd rfl (hx c)
      | ok a => exact hf a rfl

theorem numberAt_eq_error_iff_failsAs {field : Field} {p : Piece} :
    numberAt input field p = .error e ↔
      FailsAs input (fragment field (some p)) (fun _ => False) e := by
  rw [numberAt_eq_error, FailsAs, fragment]
  by_cases h : p.IsTooLarge <;> simp [firstTooLarge?, h]

theorem ReleaseText.value_eq_error {x : ReleaseText Piece} :
    x.value input = .error e ↔ FailsAs input (x.fragments some) (fun _ => False) e := by
  cases x with
  | single m => exact bind_ok_eq_error.trans numberAt_eq_error_iff_failsAs
  | pair m n =>
      refine bind_eq_error_iff_failsAs (fun _ => numberAt_eq_error_iff_failsAs) fun _ _ => ?_
      exact bind_ok_eq_error.trans numberAt_eq_error_iff_failsAs
  | triple m n p =>
      refine bind_eq_error_iff_failsAs (fun _ => numberAt_eq_error_iff_failsAs) fun _ _ => ?_
      refine bind_eq_error_iff_failsAs (fun _ => numberAt_eq_error_iff_failsAs) fun _ _ => ?_
      exact bind_ok_eq_error.trans numberAt_eq_error_iff_failsAs

theorem ofDotted_eq_error {dotted : Piece} : Prerelease.ofDotted input dotted = .error e ↔
    FailsAs input (fragment .prerelease dotted.lastNumeral?) (fun _ => False) e := by
  unfold Prerelease.ofDotted Piece.lastNumeral?
  cases Text.splitLast Text.isNumeral (Text.segments dotted.text) with
  | none => simp [failsAs_nil, fragment]
  | some q => exact bind_ok_eq_error.trans numberAt_eq_error_iff_failsAs

/-- The number of the tag is looked at before those of the release. -/
theorem ExactText.value_eq_error {v : ExactText} :
    v.value input = .error e ↔ FailsAs input v.fragments (fun _ => False) e := by
  rw [ExactText.value_eq]
  refine bind_eq_error_iff_failsAs (fun c => ?_) fun _ _ =>
    bind_ok_eq_error.trans ReleaseText.value_eq_error
  rw [ExactText.tag]
  cases v.prerelease with
  | none => simp [failsAs_nil, fragment]
  | some dotted => exact ofDotted_eq_error

theorem Slot.value_eq_error {field : Field} {x? : Option Slot} :
    Slot.value input field x? = .error e ↔
      FailsAs input (fragment field (x?.bind Slot.digits?)) (fun _ => False) e := by
  cases x? with
  | none => simp [Slot.value, failsAs_nil, fragment]
  | some x =>
      cases x with
      | number p => exact bind_ok_eq_error.trans numberAt_eq_error_iff_failsAs
      | wildcard => simp [Slot.value, Slot.digits?, failsAs_nil, fragment]

/-- A slot that is written is not absent. -/
theorem Slot.value_some {field : Field} {x : Slot} {c : Component}
    (h : Slot.value input field (some x) = .ok c) : (∃ n, c = .number n) ∨ c = .wildcard := by
  cases x with
  | number p =>
      obtain ⟨n, _, h⟩ := bind_eq_ok.1 h
      cases h
      exact .inl ⟨n, rfl⟩
  | wildcard =>
      cases h
      exact .inr rfl

/-- The slots of the pattern are converted, and they make no pattern. -/
def PatternRefused (input : List Char) (w : PatternText) (e : Error) : Prop :=
  ∃ major minor patch, numberAt input .major w.major = .ok major ∧
    Slot.value input .minor w.minor? = .ok minor ∧ Slot.value input .patch w.patch? = .ok patch ∧
    Pattern.ofComponents? major minor patch = .error e

/-- A pattern is refused for its slots only after all its numbers fit. -/
theorem patternValue_eq_error {w : PatternText} : patternValue input w = .error e ↔
    FailsAs input (w.fragments Slot.digits?) (PatternRefused input w) e := by
  refine bind_eq_error_iff_failsAs (fun _ => numberAt_eq_error_iff_failsAs) fun a ha => ?_
  refine bind_eq_error_iff_failsAs (fun _ => Slot.value_eq_error) fun b hb => ?_
  rw [← List.append_nil (fragment .patch _)]
  refine bind_eq_error_iff_failsAs (fun _ => Slot.value_eq_error) fun c hc => ?_
  simp [failsAs_nil, PatternRefused, ha, hb, hc]

/-- Slots of a release make a pattern unless the patch is a number: without a minor there is no
patch. -/
theorem patternRefused_iff {w : PatternText} : PatternRefused input w e ↔
    ∃ m n p major minor patch, w = .triple m n (.number p) ∧
      numberAt input .major m = .ok major ∧ Slot.value input .minor (some n) = .ok minor ∧
      numberAt input .patch p = .ok patch ∧ e = .concretePatch major minor patch := by
  constructor
  · rintro ⟨a, b, c, ha, hb, hc, he⟩
    cases w with
    | single m =>
        cases hb
        cases hc
        contradiction
    | pair m n =>
        cases hc
        obtain ⟨_, rfl⟩ | rfl := Slot.value_some hb <;> contradiction
    | triple m n p =>
        cases p with
        | number p =>
            obtain ⟨k, hk, hc⟩ := bind_eq_ok.1 hc
            cases hc
            cases he
            exact ⟨m, n, p, a, b, k, rfl, ha, hb, hk, rfl⟩
        | wildcard =>
            cases hc
            obtain ⟨_, rfl⟩ | rfl := Slot.value_some hb <;> contradiction
  · rintro ⟨m, n, p, a, b, c, rfl, ha, hb, hc, rfl⟩
    exact ⟨a, b, .number c, ha, hb, bind_eq_ok.2 ⟨c, hc, rfl⟩, rfl⟩

end

/-! ## Items -/

namespace Item

def FailsWith (input : List Char) (e : Error) : Item → Prop
  | version x => x.value input = .error e
  | tag dotted => Prerelease.ofDotted input dotted = .error e

def Converts (input : List Char) (x : Item) : Prop :=
  ∀ e, ¬ x.FailsWith input e

def Refused (input : List Char) (e : Error) : Item → Prop
  | version (.pattern w) => PatternRefused input w e
  | _ => False

theorem converts_version {input : List Char} {x : VersionText} {v : Version}
    (h : x.value input = .ok v) : (version x).Converts input := by
  intro e he
  rw [FailsWith, h] at he
  contradiction

theorem refused_iff {input : List Char} {e : Error} {x : Item} :
    x.Refused input e ↔ ∃ w, x = .version (.pattern w) ∧ PatternRefused input w e := by
  constructor
  · intro h
    match x, h with
    | .version (.pattern w), h => exact ⟨w, rfl, h⟩
  · rintro ⟨w, rfl, h⟩
    exact h

/-- An item fails at its first number that is too large, or else it is refused. -/
theorem failsWith_iff {input : List Char} {e : Error} {x : Item} :
    x.FailsWith input e ↔ FailsAs input x.fragments (x.Refused input) e := by
  cases x with
  | version x =>
      cases x with
      | exact v => exact bind_ok_eq_error.trans ExactText.value_eq_error
      | pattern w => exact bind_ok_eq_error.trans patternValue_eq_error
  | tag dotted => exact ofDotted_eq_error

end Item

end Versioning.Grammar
