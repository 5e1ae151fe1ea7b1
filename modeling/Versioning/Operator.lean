/-!
# Comparison operators

The five comparisons that a version can be held to, and their symbols.
-/

namespace Versioning

inductive Operator
  | less
  | lessOrEqual
  | greater
  | greaterOrEqual
  | equal
deriving DecidableEq, Hashable

namespace Operator

def all : List Operator :=
  [less, lessOrEqual, greater, greaterOrEqual, equal]

def symbol : Operator → String
  | less => "<"
  | lessOrEqual => "<="
  | greater => ">"
  | greaterOrEqual => ">="
  | equal => "="

def name : Operator → String
  | less => "Less"
  | lessOrEqual => "LessOrEqual"
  | greater => "Greater"
  | greaterOrEqual => "GreaterOrEqual"
  | equal => "Equal"

def ofSymbol? (s : String) : Option Operator :=
  all.find? fun o => o.symbol == s

@[simp] theorem ofSymbol?_symbol (o : Operator) : ofSymbol? o.symbol = some o := by
  cases o <;> decide

end Operator

end Versioning
