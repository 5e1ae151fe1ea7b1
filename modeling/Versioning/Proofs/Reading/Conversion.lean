import Versioning.Parse
import Versioning.Proofs.Reading.Success

/-!
# From a text to a value

Which step of a computation failed, and of what kind its failures are. A text is first read to its
end; what has the right form may still have numbers that are too large, or slots that make no
pattern.
-/

namespace Versioning

variable {ε α β : Type}

/-- The first part fails, or it gives a value with which the second one fails. -/
theorem bind_eq_error {x : Except ε α} {f : α → Except ε β} {e : ε} :
    (x >>= f) = .error e ↔ x = .error e ∨ ∃ a, x = .ok a ∧ f a = .error e := by
  cases x <;> simp [bind, Except.bind]

theorem bind_ok_eq_error {x : Except ε α} {g : α → β} {e : ε} :
    (x >>= fun a => .ok (g a)) = .error e ↔ x = .error e := by
  simp [bind_eq_error]

/-- A traversal fails at the first element that fails. -/
theorem mapM_eq_error {f : α → Except ε β} {xs : List α} {e : ε} :
    xs.mapM f = .error e ↔ ∃ before x after, xs = before ++ x :: after ∧
      (∃ ys, List.Forall₂ (fun x y => f x = .ok y) before ys) ∧ f x = .error e := by
  induction xs with
  | nil => simp [pure, Except.pure]
  | cons x xs ih =>
      rw [List.mapM_cons, bind_eq_error]
      constructor
      · rintro (h | ⟨y, hy, h⟩)
        · exact ⟨[], x, xs, rfl, ⟨[], .nil⟩, h⟩
        · rcases bind_eq_error.1 h with h | ⟨_, _, h⟩
          · obtain ⟨before, z, after, rfl, ⟨ys, hys⟩, hz⟩ := ih.1 h
            exact ⟨x :: before, z, after, rfl, ⟨y :: ys, .cons hy hys⟩, hz⟩
          · contradiction
      · rintro ⟨before, z, after, he, ⟨ys, hys⟩, hz⟩
        cases hys with
        | nil =>
            cases he
            exact .inl hz
        | cons hy hys =>
            cases he
            exact .inr ⟨_, hy, bind_eq_error.2 (.inl (ih.2 ⟨_, z, after, rfl, ⟨_, hys⟩, hz⟩))⟩

/-- Of the elements before it, it is enough to know that they do not fail. -/
theorem mapM_eq_error_iff {f : α → Except ε β} {xs : List α} {e : ε} :
    xs.mapM f = .error e ↔ ∃ before x after, xs = before ++ x :: after ∧
      (∀ y ∈ before, ∀ c, f y ≠ .error c) ∧ f x = .error e := by
  rw [mapM_eq_error]
  refine exists_congr fun before => exists_congr fun x => exists_congr fun after =>
    and_congr_right fun _ => and_congr_left fun _ => ?_
  simp only [← mapM_eq_ok]
  cases h : before.mapM f with
  | ok ys =>
      refine iff_of_true ⟨ys, rfl⟩ fun y hy c hc => ?_
      obtain ⟨z, _, hz⟩ := exists_mem_of_forall₂ (mapM_eq_ok.1 h).flip y hy
      rw [hz] at hc
      contradiction
  | error c =>
      obtain ⟨front, y, back, rfl, _, hy⟩ := mapM_eq_error.1 h
      exact iff_of_false (by simp) fun hall => hall y (by simp) c hy

/-- All failures of the computation are of a kind. -/
def FailsWith (P : ε → Prop) (x : Except ε α) : Prop :=
  ∀ e, x = .error e → P e

namespace FailsWith

variable {P : ε → Prop}

theorem ok (a : α) : FailsWith P (.ok a) := by
  intro e h
  contradiction

theorem error {e : ε} (h : P e) : FailsWith P (.error e : Except ε α) := by
  intro _ he
  cases he
  exact h

theorem bind {x : Except ε α} {f : α → Except ε β} (hx : FailsWith P x)
    (hf : ∀ a, FailsWith P (f a)) : FailsWith P (x >>= f) := by
  intro e h
  rcases bind_eq_error.1 h with h | ⟨a, _, h⟩
  · exact hx e h
  · exact hf a e h

theorem mapM {f : α → Except ε β} (hf : ∀ a, FailsWith P (f a)) (xs : List α) :
    FailsWith P (xs.mapM f) := by
  intro e h
  obtain ⟨_, x, _, _, _, hx⟩ := mapM_eq_error.1 h
  exact hf x e hx

end FailsWith

/-! ## Reading a whole text -/

/-- A text is read if nothing of it is left over. -/
theorem complete_eq_ok {α : Type} {expected : Expected} {read : List Char → Option (α × List Char)}
    {input : List Char} {a : α} :
    complete expected read input = .ok a ↔ read input = some (a, []) := by
  unfold complete
  split <;> simp_all

/-- Reading fails in one way only: the text is malformed somewhere. -/
theorem exists_malformed_of_complete {α : Type} {expected : Expected}
    {read : List Char → Option (α × List Char)} {input : List Char} {e : Error}
    (h : complete expected read input = .error e) :
    ∃ expected place, e = .malformed expected place := by
  unfold complete at h
  split at h <;> cases h <;> exact ⟨_, _, rfl⟩

theorem nonempty_of_trim_ne_nil {s : String} (h : Text.trim s.toList ≠ []) :
    nonempty s = .ok (Text.trim s.toList) := by
  unfold nonempty
  split
  · contradiction
  · rfl

/-- Only the blanks at the ends are lost, and something has to be left. -/
theorem nonempty_eq_ok {s : String} {input : List Char} :
    nonempty s = .ok input ↔ input ≠ [] ∧ Text.trim s.toList = input := by
  constructor
  · intro h
    unfold nonempty at h
    split at h
    · contradiction
    · cases h
      exact ⟨‹_›, rfl⟩
  · rintro ⟨hne, rfl⟩
    exact nonempty_of_trim_ne_nil hne

/-! ## Conversions -/

/-- A number is the value of its digits, so leading zeros do not count. -/
theorem numberAt_eq_ok {input : List Char} {field : Field} {digits : Grammar.Piece} {n : Number} :
    numberAt input field digits = .ok n ↔ Nat.ofDigitChars 10 digits.text 0 = n.toNat := by
  rw [← Number.ofDigits?_eq_some, numberAt]
  split <;> simp [*]

/-- A number is refused for its size alone. -/
theorem exists_numberAt_iff {input s after : List Char} {field : Field} :
    (∃ n, numberAt input field ⟨s, after⟩ = .ok n) ↔
      Nat.ofDigitChars 10 s 0 ≤ Number.maxValue := by
  constructor
  · rintro ⟨n, hn⟩
    rw [numberAt_eq_ok.1 hn]
    exact n.le_max
  · intro h
    exact ⟨⟨_, h⟩, numberAt_eq_ok.2 rfl⟩

/-- The text had the form that was read; what stands in it makes no value. -/
def Error.IsConversion : Error → Prop
  | empty | malformed _ _ => False
  | _ => True

theorem failsWith_numberAt (input : List Char) (field : Field) (digits : Grammar.Piece) :
    FailsWith Error.IsConversion (numberAt input field digits) := by
  unfold numberAt
  split
  · exact .ok _
  · exact .error trivial

/-- The number is the only part of a tag that is converted. -/
theorem Prerelease.failsWith_ofDotted (input : List Char) (dotted : Grammar.Piece) :
    FailsWith Error.IsConversion (ofDotted input dotted) := by
  unfold ofDotted
  split
  · exact .ok _
  · exact (failsWith_numberAt _ _ _).bind fun _ => .ok _

/-- Slots that make no pattern were read all the same. -/
theorem Pattern.failsWith_ofComponents? (major : Number) (minor patch : Component) :
    FailsWith Error.IsConversion (ofComponents? major minor patch) := by
  unfold ofComponents?
  split <;> first | exact .ok _ | exact .error trivial

namespace Grammar

/-- The numbers of a release, each of which fits. -/
inductive ReleaseText.Denotes (input : List Char) : ReleaseText Piece → Release → Prop
  | single {m : Piece} {a : Number} (hm : numberAt input .major m = .ok a) :
      Denotes input (.single m) (.single a)
  | pair {m n : Piece} {a b : Number} (hm : numberAt input .major m = .ok a)
      (hn : numberAt input .minor n = .ok b) : Denotes input (.pair m n) (.pair a b)
  | triple {m n p : Piece} {a b c : Number} (hm : numberAt input .major m = .ok a)
      (hn : numberAt input .minor n = .ok b) (hp : numberAt input .patch p = .ok c) :
      Denotes input (.triple m n p) (.triple a b c)

/-- Every number that is written has to fit. -/
theorem ReleaseText.value_eq_ok {input : List Char} {x : ReleaseText Piece} {r : Release} :
    x.value input = .ok r ↔ Denotes input x r := by
  constructor
  · intro h
    cases x with
    | single m =>
        obtain ⟨a, hm, h⟩ := bind_eq_ok.1 h
        cases h
        exact .single hm
    | pair m n =>
        obtain ⟨a, hm, h⟩ := bind_eq_ok.1 h
        obtain ⟨b, hn, h⟩ := bind_eq_ok.1 h
        cases h
        exact .pair hm hn
    | triple m n p =>
        obtain ⟨a, hm, h⟩ := bind_eq_ok.1 h
        obtain ⟨b, hn, h⟩ := bind_eq_ok.1 h
        obtain ⟨c, hp, h⟩ := bind_eq_ok.1 h
        cases h
        exact .triple hm hn hp
  · intro h
    cases h with
    | single hm =>
        rw [value, hm]
        rfl
    | pair hm hn =>
        rw [value, hm, hn]
        rfl
    | triple hm hn hp =>
        rw [value, hm, hn, hp]
        rfl

theorem ReleaseText.failsWith_value (input : List Char) (x : ReleaseText Piece) :
    FailsWith Error.IsConversion (x.value input) := by
  cases x with
  | single m => exact (failsWith_numberAt _ _ _).bind fun _ => .ok _
  | pair m n =>
      exact (failsWith_numberAt _ _ _).bind fun _ => (failsWith_numberAt _ _ _).bind fun _ => .ok _
  | triple m n p =>
      exact (failsWith_numberAt _ _ _).bind fun _ => (failsWith_numberAt _ _ _).bind fun _ =>
        (failsWith_numberAt _ _ _).bind fun _ => .ok _

/-- The tag that is written, if there is one. -/
def ExactText.tag (input : List Char) (v : ExactText) : Except Error Prerelease :=
  v.prerelease.elim (.ok .none) (Prerelease.ofDotted input)

def ExactText.metadata (v : ExactText) : Build :=
  v.build.elim .none fun dotted => .ofText (String.ofList dotted.text)

/-- The tag comes before the numbers, and the build cannot fail. -/
theorem ExactText.value_eq (input : List Char) (v : ExactText) : v.value input = do
    let prerelease ← v.tag input
    let release ← v.release.value input
    return ⟨release, prerelease, v.metadata⟩ := by
  rcases v with ⟨x, _ | p, _ | b⟩ <;> rfl

theorem ExactText.denotes_release {input : List Char} {x : ExactText} {v : Exact}
    (h : x.value input = .ok v) : x.release.Denotes input v.release := by
  rw [value_eq] at h
  obtain ⟨_, _, h⟩ := bind_eq_ok.1 h
  obtain ⟨_, hrelease, h⟩ := bind_eq_ok.1 h
  cases h
  exact ReleaseText.value_eq_ok.1 hrelease

theorem ExactText.failsWith_value (input : List Char) (v : ExactText) :
    FailsWith Error.IsConversion (v.value input) := by
  have htag : FailsWith Error.IsConversion (v.tag input) := by
    rcases v with ⟨_, _ | p, _⟩
    · exact .ok _
    · exact Prerelease.failsWith_ofDotted input p
  rw [ExactText.value_eq]
  exact htag.bind fun _ => (ReleaseText.failsWith_value input v.release).bind fun _ => .ok _

theorem Slot.failsWith_value (input : List Char) (field : Field) (slot? : Option Slot) :
    FailsWith Error.IsConversion (Slot.value input field slot?) := by
  unfold Slot.value
  split
  · exact (failsWith_numberAt _ _ _).bind fun _ => .ok _
  · exact .ok _
  · exact .ok _

theorem failsWith_patternValue (input : List Char) (w : PatternText) :
    FailsWith Error.IsConversion (patternValue input w) :=
  (failsWith_numberAt _ _ _).bind fun _ => (Slot.failsWith_value _ _ _).bind fun _ =>
    (Slot.failsWith_value _ _ _).bind fun _ => Pattern.failsWith_ofComponents? _ _ _

/-- Three numbers are no pattern. -/
theorem isNumberTriple_of_value {y : PatternText} {input : List Char} {w : Pattern}
    (h : patternValue input y = .ok w) : isNumberTriple y = false := by
  unfold isNumberTriple
  split
  · obtain ⟨_, _, h⟩ := bind_eq_ok.1 h
    obtain ⟨_, _, h⟩ := bind_eq_ok.1 h
    obtain ⟨p, hp, h⟩ := bind_eq_ok.1 h
    obtain ⟨_, _, hp⟩ := bind_eq_ok.1 hp
    cases hp
    contradiction
  · rfl

/-- The form of a version is settled once it was read. -/
theorem VersionText.failsWith_value (input : List Char) (v : VersionText) :
    FailsWith Error.IsConversion (v.value input) := by
  cases v with
  | exact v => exact (ExactText.failsWith_value input v).bind fun _ => .ok _
  | pattern w => exact (failsWith_patternValue input w).bind fun _ => .ok _

end Grammar

end Versioning
