import Versioning.Range
import Versioning.Text.Quoted

/-!
# Structures

The structure of values written out: what a value is made of, in the order of its parts. Missing
parts are written `_`, and wildcards `*`.
-/

namespace Versioning

namespace Inspect

def record (name : String) (parts : List (String × String)) : String :=
  name ++ " \x7b " ++
    ", ".intercalate (parts.map fun (part, text) => part ++ ": " ++ text) ++ " \x7d"

def wrapped (name argument : String) : String :=
  name ++ "(" ++ argument ++ ")"

def sequence (items : List String) : String :=
  "[" ++ ", ".intercalate items ++ "]"

def word (l : Option Label) : String :=
  l.elim "_" fun l => Text.quoted l.text

end Inspect

open Inspect

def Component.inspect : Component → String
  | number n => n.text
  | absent => "_"
  | wildcard => "*"

/-- An empty tag shows its parts. -/
def Prerelease.inspect : Prerelease → String
  | .none => "None"
  | .tag t =>
    record "Identifier" [("prefix", word t.before), ("version", t.number.elim "_" Number.text),
      ("suffix", word t.after)]

def Build.inspect (b : Build) : String :=
  b.label?.elim "None" fun l => Text.quoted l.text

def Exact.inspect (v : Exact) : String :=
  record "ExactVersion" [("major", v.release.major.text),
    ("minor", (Component.ofNumber? v.release.minor?).inspect),
    ("patch", (Component.ofNumber? v.release.patch?).inspect),
    ("prerelease", v.prerelease.inspect), ("build", v.build.inspect)]

def Pattern.inspect (w : Pattern) : String :=
  record "WildcardVersion" [("major", w.major.text), ("minor", w.minor.inspect),
    ("patch", w.patch.inspect)]

def Version.inspect : Version → String
  | exact v => wrapped "Exact" v.inspect
  | pattern w => wrapped "Wildcard" w.inspect

def Interval.inspect (i : Interval) : String :=
  record "BoundedRange" [("lower", i.lower.inspect), ("upper", i.upper.inspect)]

namespace Range

mutual

def inspect : Range → String
  | comparison o v =>
    wrapped "Primitive" (record "PrimitiveRange" [("operator", o.name), ("version", v.inspect)])
  | interval i => wrapped "Bounded" i.inspect
  | caret v =>
    wrapped "Caret"
      (record "CaretRange" [("version", v.inspect), ("bounds", (caretBounds v).inspect)])
  | tilde v =>
    wrapped "Tilde"
      (record "TildeRange" [("version", v.inspect), ("bounds", (tildeBounds v).inspect)])
  | exact v => wrapped "Exact" (record "ExactRange" [("version", v.inspect)])
  | composite rs =>
    wrapped "Composite" (record "CompositeRange" [("ranges", sequence (inspectAll rs))])

def inspectAll : List Range → List String
  | [] => []
  | r :: rs => r.inspect :: inspectAll rs

end

end Range

end Versioning
