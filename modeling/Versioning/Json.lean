import Versioning.Json.Double
import Versioning.Text.Quoted

/-!
# JSON values

Values as a reader of JSON text gives them: integers apart from other numbers, and objects as lists
of named fields.
-/

namespace Versioning

inductive Json
  | null
  | bool (b : Bool)
  | int (n : Int)
  | float (x : Json.Double)
  | string (s : String)
  | array (items : List Json)
  /-- The fields of an object, with different names. -/
  | object (fields : List (String × Json))

namespace Json

instance : Inhabited Json := ⟨null⟩

def describe : Json → String
  | null => "null"
  | bool b => "boolean `" ++ toString b ++ "`"
  | int n => "integer `" ++ n.repr ++ "`"
  | float x => "floating point `" ++ x.text ++ "`"
  | string s => "string " ++ Text.quoted s
  | array _ => "sequence"
  | object _ => "map"

def lookup? (fields : List (String × Json)) (name : String) : Option Json :=
  (fields.find? fun f => f.1 == name).map Prod.snd

theorem mem_of_lookup? {fields : List (String × Json)} {name : String} {j : Json}
    (h : lookup? fields name = some j) : (name, j) ∈ fields := by
  obtain ⟨f, hf, rfl⟩ := Option.map_eq_some_iff.1 h
  have hn : f.1 = name := by simpa using List.find?_some hf
  exact hn ▸ List.mem_of_find?_eq_some hf

theorem sizeOf_lookup? {fields : List (String × Json)} {name : String} {j : Json}
    (h : lookup? fields name = some j) : sizeOf j < sizeOf (object fields) := by
  have := List.sizeOf_lt_of_mem (mem_of_lookup? h)
  simp at this ⊢
  omega

end Json

end Versioning
