import Versioning.Json.Fault
import Versioning.Range.Parse
import Versioning.Range.Placement

/-!
# The JSON form

Versions, prereleases and builds are strings, and operators and placements are names. A range is an
object with its `kind` and its `value`: the version of a caret, a tilde or an exact range, the parts
of a comparison or an interval, or the list of alternatives. The bounds of carets and tildes are
found again from their version, and those of an interval are taken as they are.

An object of two fields may also be an array of two items. The kind at the head of such an array is
read by its name alone.
-/

namespace Versioning

open Json

def Version.toJson (v : Version) : Json :=
  .string v.text

def Version.ofJson? : Json → Except Fault Version :=
  parsed Version.parse

def Prerelease.toJson (p : Prerelease) : Json :=
  .string p.text

def Prerelease.ofJson? : Json → Except Fault Prerelease :=
  parsed Prerelease.parse

def Build.toJson (b : Build) : Json :=
  .string b.text

def Build.ofJson? : Json → Except Fault Build :=
  parsed Build.parse

def Operator.toJson (o : Operator) : Json :=
  .string o.symbol

def Operator.ofJson? : Json → Except Fault Operator :=
  choice (Operator.all.map fun o => (o.symbol, o))

def Placement.toJson (p : Placement) : Json :=
  .string p.text

def Placement.ofJson? : Json → Except Fault Placement :=
  choice (Placement.all.map fun p => (p.text, p))

namespace Range

inductive Kind
  | comparison
  | interval
  | caret
  | tilde
  | exact
  | composite
deriving DecidableEq

namespace Kind

def all : List Kind :=
  [comparison, interval, caret, tilde, exact, composite]

def name : Kind → String
  | comparison => "primitive"
  | interval => "bounded"
  | caret => "caret"
  | tilde => "tilde"
  | exact => "exact"
  | composite => "composite"

def named : List (String × Kind) :=
  all.map fun k => (k.name, k)

/-- The kind in the field of an object. -/
def ofField? : Json → Except Fault Kind :=
  choice named

/-- The kind at the head of an array. -/
def ofHead? : Json → Except Fault Kind :=
  identifier named

end Kind

def kind : Range → Kind
  | .comparison _ _ => .comparison
  | .interval _ => .interval
  | .caret _ => .caret
  | .tilde _ => .tilde
  | .exact _ => .exact
  | .composite _ => .composite

def tagged (k : Kind) (value : Json) : Json :=
  .object [("kind", .string k.name), ("value", value)]

mutual

def toJson : Range → Json
  | .comparison o v =>
    tagged .comparison (.object [("operator", o.toJson), ("version", v.toJson)])
  | .interval i => tagged .interval (.object [("lower", i.lower.toJson), ("upper", i.upper.toJson)])
  | .caret v => tagged .caret v.toJson
  | .tilde v => tagged .tilde v.toJson
  | .exact v => tagged .exact v.toJson
  | .composite rs => tagged .composite (.array (toJsons rs))

def toJsons : List Range → List Json
  | [] => []
  | r :: rs => r.toJson :: toJsons rs

end

/-- The two parts of a structure, the first of which is read before the second. A missing part
counts only after the other was read. -/
def pairOf {α β : Type} (structureName firstName secondName : String)
    (first : Json → Except Fault α) (second : Json → Except Fault β) : Json → Except Fault (α × β)
  | .object fields => do
    let a? ← (lookup? fields firstName).mapM first
    let b? ← (lookup? fields secondName).mapM second
    match a?, b? with
    | some a, some b => .ok (a, b)
    | none, _ => .error (.missingField firstName)
    | some _, none => .error (.missingField secondName)
  | .array items => do
    let wrongLength :=
      Fault.unexpectedLength items.length ("struct " ++ structureName ++ " with 2 elements")
    match items with
    | [] => .error wrongLength
    | [a] => do
      let _ ← first a
      .error wrongLength
    | [a, b] => return (← first a, ← second b)
    | a :: b :: _ => do
      let _ ← first a
      let _ ← second b
      .error (.unexpectedLength items.length "fewer elements in array")
  | j => .error (.unexpectedKind j ("struct " ++ structureName))

def comparisonOfJson? (j : Json) : Except Fault Range := do
  let (o, v) ← pairOf "PrimitiveRange" "operator" "version" Operator.ofJson? Version.ofJson? j
  return .comparison o v

def intervalOfJson? (j : Json) : Except Fault Range := do
  let (lower, upper) ← pairOf "BoundedRange" "lower" "upper" Version.ofJson? Version.ofJson? j
  return .interval ⟨lower, upper⟩

mutual

def ofJson? : Json → Except Fault Range
  | .object fields =>
    match lookup? fields "kind", _h : lookup? fields "value" with
    | none, _ => .error (.missingField "kind")
    | some k, none => do
      let _ ← Kind.ofField? k
      .error (.missingField "value")
    | some k, some value => do ofValue? (← Kind.ofField? k) value
  | .array [] => .error (.unexpectedLength 0 "adjacently tagged enum Range")
  | .array [k] => do
    let _ ← Kind.ofHead? k
    .error (.unexpectedLength 1 "adjacently tagged enum Range")
  | .array [k, value] => do ofValue? (← Kind.ofHead? k) value
  | .array (k :: value :: rest) => do
    let _ ← ofValue? (← Kind.ofHead? k) value
    .error (.unexpectedLength (rest.length + 2) "fewer elements in array")
  | j => .error (.unexpectedKind j "adjacently tagged enum Range")
termination_by j => (sizeOf j, 1)
decreasing_by
  all_goals simp_wf
  · have := sizeOf_lookup? _h
    simp at this; omega
  all_goals omega

def ofValue? (k : Kind) (value : Json) : Except Fault Range :=
  match k with
  | .comparison => comparisonOfJson? value
  | .interval => intervalOfJson? value
  | .caret => return .caret (← Version.ofJson? value)
  | .tilde => return .tilde (← Version.ofJson? value)
  | .exact => return .exact (← Version.ofJson? value)
  | .composite =>
    match value with
    | .array items => return .composite (← ofJsons? items)
    | j => .error (.unexpectedKind j "a sequence")
termination_by (sizeOf value, 2)
decreasing_by all_goals simp_wf; omega

def ofJsons? : List Json → Except Fault (List Range)
  | [] => .ok []
  | j :: js => return (← ofJson? j) :: (← ofJsons? js)
termination_by js => (sizeOf js, 0)
decreasing_by all_goals simp_wf; omega

end

end Range

end Versioning
