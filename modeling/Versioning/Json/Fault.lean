import Versioning.Error
import Versioning.Json
import Versioning.Json.Location

/-!
# Faults of JSON values

Why a JSON value does not stand for a value of the library.
-/

namespace Versioning.Json

inductive Fault
  | unexpectedKind (found : Json) (expected : String)
  | unexpectedLength (length : Nat) (expected : String)
  | severalKeys
  | missingField (name : String)
  | unknownVariant (found : String) (known : List String)
  | refused (cause : Error)

def Fault.message : Fault → String
  | unexpectedKind found expected => "invalid type: " ++ found.describe ++ ", expected " ++ expected
  | unexpectedLength length expected =>
    "invalid length " ++ length.repr ++ ", expected " ++ expected
  | severalKeys => "invalid value: map, expected map with a single key"
  | missingField name => "missing field `" ++ name ++ "`"
  | unknownVariant found known =>
    "unknown variant `" ++ found ++ "`, expected one of " ++
      ", ".intercalate (known.map fun name => "`" ++ name ++ "`")
  | refused cause => withPlainLocation cause.message

/-- A string that a parser accepts. -/
def parsed {α : Type} (parse : String → Except Error α) : Json → Except Fault α
  | string s => (parse s).mapError .refused
  | j => .error (.unexpectedKind j "a string")

def named {α : Type} (known : List (String × α)) (name : String) : Except Fault α :=
  match known.find? fun k => k.1 == name with
  | some (_, a) => .ok a
  | none => .error (.unknownVariant name (known.map Prod.fst))

/-- One of the named values, by its name alone. -/
def identifier {α : Type} (known : List (String × α)) : Json → Except Fault α
  | string name => named known name
  | j => .error (.unexpectedKind j "variant identifier")

/-- One of the named values: its name, or an object with the name as its only key and null. -/
def choice {α : Type} (known : List (String × α)) : Json → Except Fault α
  | string name => named known name
  | object [(name, content)] => do
    let a ← named known name
    match content with
    | null => .ok a
    | j => .error (.unexpectedKind j "unit")
  | object _ => .error .severalKeys
  | j => .error (.unexpectedKind j "string or map")

theorem named_eq_ok {α : Type} {known : List (String × α)} {name : String} {a : α}
    (h : known.find? (fun k => k.1 == name) = some (name, a)) : named known name = .ok a := by
  simp [named, h]

theorem choice_string {α : Type} {known : List (String × α)} {name : String} {a : α}
    (h : known.find? (fun k => k.1 == name) = some (name, a)) :
    choice known (string name) = .ok a :=
  named_eq_ok h

theorem identifier_string {α : Type} {known : List (String × α)} {name : String} {a : α}
    (h : known.find? (fun k => k.1 == name) = some (name, a)) :
    identifier known (string name) = .ok a :=
  named_eq_ok h

end Versioning.Json
