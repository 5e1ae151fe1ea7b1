/-!
# Shortest decimals

A finite floating-point number of 64 bits, and its decimal form with the fewest digits that still
read back as the number. Decimals are positional up to 16 digits before the point, and down to
five places after it. Beyond that they have an exponent, with its sign.
-/

namespace Versioning.Json

/-- The number `mantissa * 2 ^ exponent`, or its negation. -/
structure Double where
  negative : Bool
  mantissa : Nat
  exponent : Int
deriving DecidableEq

/-- The number `digits * 10 ^ exponent`. -/
structure Decimal where
  digits : Nat
  exponent : Int
deriving DecidableEq

namespace Double

/-- The number with the given bits: a sign, 11 bits of exponent and 52 of fraction. -/
def ofBits (bits : UInt64) : Double :=
  let n := bits.toNat
  let negative := n.testBit 63
  let fraction := n % (1 <<< 52)
  let e := (n >>> 52) % (1 <<< 11)
  if e = 0 then ⟨negative, fraction, -1074⟩
  else ⟨negative, (1 <<< 52) + fraction, Int.ofNat e - 1075⟩

/-- A point of the grid of `10 ^ k` near the number, if one reads back as the number: the nearer
one, or of two at the same distance the even one. Positions are measured in quarters of the last
place, scaled to whole numbers. -/
def onGrid? (x : Double) (k : Int) : Option Decimal :=
  let unit := Nat.pow 2 (x.exponent - 2).toNat * Nat.pow 10 (-k).toNat
  let grid := Nat.pow 2 (2 - x.exponent).toNat * Nat.pow 10 k.toNat
  let value := 4 * x.mantissa * unit
  let below := (if x.mantissa = 1 <<< 52 ∧ -1074 < x.exponent then 1 else 2) * unit
  let above := 2 * unit
  let closed := x.mantissa % 2 = 0
  let readsBack (d : Nat) : Bool :=
    let position := d * grid
    0 < d && (value < position + below || closed && value == position + below) &&
      (position < value + above || closed && position == value + above)
  let d := value / grid
  let down := value - d * grid
  let up := (d + 1) * grid - value
  match readsBack d, readsBack (d + 1) with
  | true, true => some ⟨if down < up ∨ down = up ∧ d % 2 = 0 then d else d + 1, k⟩
  | true, false => some ⟨d, k⟩
  | false, true => some ⟨d + 1, k⟩
  | false, false => none

/-- The decimal on the coarsest grid that has one. -/
def shortest (x : Double) : Decimal :=
  if x.mantissa = 0 then ⟨0, 0⟩
  else ((List.range 640).findSome? fun i : Nat => x.onGrid? (310 - Int.ofNat i)).getD ⟨0, 0⟩

end Double

def Decimal.text (d : Decimal) : String :=
  let digits := Nat.toDigits 10 d.digits
  let point := d.exponent + digits.length
  let zeros (n : Int) := List.replicate n.toNat '0'
  String.ofList <|
    if 0 ≤ d.exponent ∧ point ≤ 16 then digits ++ zeros d.exponent ++ ['.', '0']
    else if 0 < point ∧ point ≤ 16 then digits.take point.toNat ++ ['.'] ++ digits.drop point.toNat
    else if -5 < point ∧ point ≤ 0 then ['0', '.'] ++ zeros (-point) ++ digits
    else
      let fraction := if digits.length = 1 then [] else '.' :: digits.drop 1
      let sign := if 0 < point then ['+'] else []
      digits.take 1 ++ fraction ++ ['e'] ++ sign ++ (point - 1).repr.toList

def Double.text (x : Double) : String :=
  (if x.negative then "-" else "") ++ x.shortest.text

end Versioning.Json
