import Versioning.Grammar.Range
import Versioning.Parse
import Versioning.Range

/-!
# Reading ranges

Alternatives are converted in the order in which they stand in the text.
-/

namespace Versioning

namespace Grammar

def AlternativeText.value (input : List Char) : AlternativeText → Except Error Range
  | hyphen lower upper => return .interval (.through (← lower.value input) (← upper.value input))
  | caret v => return .caret (← v.value input)
  | tilde v => return .tilde (← v.value input)
  | pinned v => return .exact (← v.value input)
  | comparison operator bound => return .comparison operator (← bound.value input)
  | any => .ok (.comparison .greaterOrEqual (.ofNumbers 0 0 0))
  | plain v => do
    match ← v.value input with
    | .exact e => return .exact (.exact e)
    | .pattern w => return .interval (.through (.pattern w) (.pattern w))

end Grammar

def Range.parse (s : String) : Except Error Range := do
  let input ← nonempty s
  let alternatives ← complete .digit Grammar.range? input
  return .ofAlternatives (← alternatives.mapM (·.value input))

end Versioning
