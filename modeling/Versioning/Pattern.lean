import Versioning.Release

/-!
# Patterns

A pattern stands for a set of versions: it gives the major and leaves the patch open, and perhaps
the minor. An open slot is left out or filled with a wildcard.
-/

namespace Versioning

inductive Pattern
  /-- As `3`. -/
  | single (major : Number)
  /-- As `3.1`. -/
  | pair (major minor : Number)
  /-- As `3.*`. -/
  | anyMinor (major : Number)
  /-- As `3.1.*`. -/
  | anyPatch (major minor : Number)
  /-- As `3.*.*`. -/
  | anyBoth (major : Number)
deriving DecidableEq, Hashable

namespace Pattern

def major : Pattern → Number
  | single m | pair m _ | anyMinor m | anyPatch m _ | anyBoth m => m

def minor : Pattern → Component
  | single _ => .absent
  | pair _ n | anyPatch _ n => .number n
  | anyMinor _ | anyBoth _ => .wildcard

def patch : Pattern → Component
  | single _ | pair _ _ | anyMinor _ => .absent
  | anyPatch _ _ | anyBoth _ => .wildcard

def text : Pattern → String
  | single m => m.text
  | pair m n => m.text ++ "." ++ n.text
  | anyMinor m => m.text ++ ".*"
  | anyPatch m n => m.text ++ "." ++ n.text ++ ".*"
  | anyBoth m => m.text ++ ".*.*"

/-- The lowest release of the set. -/
def floor (w : Pattern) : Release :=
  .triple w.major (w.minor.number?.getD 0) 0

/-- The lowest release above the set. -/
def ceil (w : Pattern) : Release :=
  match w.minor.number? with
  | some n => .triple w.major n.succ 0
  | none => .triple w.major.succ 0 0

/-- Slots that are left out stay out, and all others become zero. -/
def nextMajor : Pattern → Release
  | single m => .single m.succ
  | pair m _ | anyMinor m => .pair m.succ 0
  | anyPatch m _ | anyBoth m => .triple m.succ 0 0

/-- An open minor becomes 1. -/
def nextMinor : Pattern → Release
  | single m | anyMinor m => .pair m 1
  | pair m n => .pair m n.succ
  | anyPatch m n => .triple m n.succ 0
  | anyBoth m => .triple m 1 0

/-- The first release that is not compatible with any in the set. -/
def nextBreaking (w : Pattern) : Release :=
  if w.major = 0 ∧ w.minor.isNumber then w.nextMinor else w.nextMajor

end Pattern

end Versioning
