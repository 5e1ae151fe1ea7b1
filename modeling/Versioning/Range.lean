import Versioning.Operator
import Versioning.Version.Order

/-!
# Ranges

A range is a set of versions: a comparison, an interval, the compatible versions of a caret, the
patches of a tilde, a single version, or alternatives of these.
-/

namespace Versioning

/-- The versions from `lower` up to, but without, `upper`. -/
structure Interval where
  lower : Version
  upper : Version

namespace Interval

/-- The interval with everything that the two versions and those between them stand for. -/
def through (first last : Version) : Interval :=
  ⟨first.floor, last.next⟩

def text (i : Interval) : String :=
  "[" ++ i.lower.text ++ " .. " ++ i.upper.text ++ ")"

instance : BEq Interval := ⟨fun i j => i.lower == j.lower && i.upper == j.upper⟩

end Interval

inductive Range
  | comparison (operator : Operator) (bound : Version)
  | interval (bounds : Interval)
  | caret (version : Version)
  | tilde (version : Version)
  | exact (version : Version)
  | composite (alternatives : List Range)

namespace Range

instance : Inhabited Range := ⟨composite []⟩

/-- What a caret covers: the versions compatible with `v`. -/
def caretBounds (v : Version) : Interval :=
  ⟨v.floor, v.nextBreaking⟩

/-- What a tilde covers: the rest of the minor line, or of the major line if the minor is open. -/
def tildeBounds (v : Version) : Interval :=
  ⟨v.floor, v.ceil⟩

/-- The range of the given alternatives. A single one stands for itself. -/
def ofAlternatives : List Range → Range
  | [r] => r
  | rs => composite rs

mutual

def text : Range → String
  | comparison operator bound => operator.symbol ++ bound.text
  | interval bounds => bounds.text
  | caret v => "^" ++ v.text
  | tilde v => "~" ++ v.text
  | exact v => v.text
  | composite rs => " || ".intercalate (texts rs)

def texts : List Range → List String
  | [] => []
  | r :: rs => r.text :: texts rs

end

mutual

/-- Ranges of one form, with versions that nothing tells apart. -/
def equal : Range → Range → Bool
  | comparison o v, comparison p w => o == p && v == w
  | interval i, interval j => i == j
  | caret v, caret w => v == w && caretBounds v == caretBounds w
  | tilde v, tilde w => v == w && tildeBounds v == tildeBounds w
  | exact v, exact w => v == w
  | composite rs, composite ss => equalAll rs ss
  | _, _ => false

def equalAll : List Range → List Range → Bool
  | [], [] => true
  | r :: rs, s :: ss => r.equal s && equalAll rs ss
  | _, _ => false

end

instance : BEq Range := ⟨equal⟩

theorem texts_eq_map (rs : List Range) : texts rs = rs.map text := by
  induction rs with
  | nil => rfl
  | cons r rs ih => simp [texts, ih]

end Range

end Versioning
