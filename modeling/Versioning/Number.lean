/-!
# Numbers of 64 bits

The numbers that versions are made of. Adding never leaves the range: a sum that is too large is
the largest number.
-/

namespace Versioning

/-- A natural number of at most 64 bits. -/
structure Number where
  toNat : Nat
  le_max : toNat ≤ 18446744073709551615
deriving DecidableEq, Hashable

namespace Number

def maxValue : Nat := 18446744073709551615

@[ext] theorem ext {a b : Number} (h : a.toNat = b.toNat) : a = b := by
  cases a; cases b; cases h; rfl

def ofNat? (n : Nat) : Option Number :=
  if h : n ≤ maxValue then some ⟨n, h⟩ else none

/-- The number nearest to `n`. -/
def saturate (n : Nat) : Number :=
  ⟨min n maxValue, Nat.min_le_right n maxValue⟩

instance (n : Nat) : OfNat Number n := ⟨saturate n⟩

instance : Inhabited Number := ⟨0⟩

def add (a b : Number) : Number :=
  saturate (a.toNat + b.toNat)

instance : Add Number := ⟨add⟩

/-- The number after this one; the largest number is its own successor. -/
def succ (n : Number) : Number :=
  n + 1

instance : Ord Number := ⟨fun a b => compare a.toNat b.toNat⟩

/-- The value of a run of decimal digits, unless it is too large. Leading zeros do not count. -/
def ofDigits? (digits : List Char) : Option Number :=
  ofNat? (Nat.ofDigitChars 10 digits 0)

/-- The decimal digits, without leading zeros. -/
def text (n : Number) : String :=
  n.toNat.repr

@[simp] theorem toNat_saturate (n : Nat) : (saturate n).toNat = min n maxValue := rfl

@[simp] theorem toNat_zero : (0 : Number).toNat = 0 := rfl

@[simp] theorem toNat_one : (1 : Number).toNat = 1 := rfl

@[simp] theorem toNat_add (a b : Number) : (a + b).toNat = min (a.toNat + b.toNat) maxValue := rfl

@[simp] theorem toNat_succ (n : Number) : n.succ.toNat = min (n.toNat + 1) maxValue := rfl

theorem compare_eq (a b : Number) : compare a b = compare a.toNat b.toNat := rfl

theorem ofNat?_eq_some {n : Nat} {a : Number} : ofNat? n = some a ↔ n = a.toNat := by
  unfold ofNat?
  constructor
  · intro h
    split at h
    · exact congrArg toNat (Option.some.inj h)
    · contradiction
  · rintro rfl
    simp [maxValue, a.le_max]

theorem ofNat?_eq_none {n : Nat} : ofNat? n = none ↔ maxValue < n := by
  simp [ofNat?]

@[simp] theorem ofNat?_toNat (n : Number) : ofNat? n.toNat = some n :=
  ofNat?_eq_some.2 rfl

theorem ofDigits?_eq_some {ds : List Char} {n : Number} :
    ofDigits? ds = some n ↔ Nat.ofDigitChars 10 ds 0 = n.toNat :=
  ofNat?_eq_some

theorem ofDigits?_eq_none {ds : List Char} :
    ofDigits? ds = none ↔ maxValue < Nat.ofDigitChars 10 ds 0 :=
  ofNat?_eq_none

@[simp] theorem toList_text (n : Number) : n.text.toList = Nat.toDigits 10 n.toNat :=
  Nat.toList_repr

/-- Writing a number and reading it gives it back. -/
@[simp] theorem ofDigits?_text (n : Number) : ofDigits? n.text.toList = some n := by
  simp [ofDigits?]

instance : Std.TransOrd Number where
  eq_swap {a b} := Std.OrientedOrd.eq_swap (a := a.toNat) (b := b.toNat)
  isLE_trans {a b c} := Std.TransOrd.isLE_trans (a := a.toNat) (b := b.toNat) (c := c.toNat)

instance : Std.LawfulEqOrd Number where
  eq_of_compare {a b} h := ext (Std.LawfulEqOrd.eq_of_compare (a := a.toNat) (b := b.toNat) h)

end Number

end Versioning
