import Versioning.Range

/-!
# Where versions stand in a range

A version is below a range, above it, or inside. Inside, a version with a prerelease tag satisfies
the range only if a bound of the range has a tag as well and belongs to the same release; otherwise
it is excluded. Builds never count.
-/

namespace Versioning

inductive Placement
  /-- Below every version in the range. -/
  | lower
  /-- Above every version in the range. -/
  | greater
  /-- Inside, but with a tag that no bound opts into; for a composite also between alternatives. -/
  | excluded
  | satisfied
deriving DecidableEq

namespace Placement

def all : List Placement :=
  [lower, greater, excluded, satisfied]

def text : Placement → String
  | lower => "lower"
  | greater => "greater"
  | excluded => "excluded"
  | satisfied => "satisfied"

def name : Placement → String
  | lower => "Lower"
  | greater => "Greater"
  | excluded => "Excluded"
  | satisfied => "Satisfied"

def ofText? (s : String) : Option Placement :=
  all.find? fun p => p.text == s

/-- The placement among alternatives: one that is satisfied is enough, and a side needs them all.
Above all of none is `greater`. -/
def ofAlternatives (ps : List Placement) : Placement :=
  if satisfied ∈ ps then satisfied
  else if ∀ p ∈ ps, p = greater then greater
  else if ∀ p ∈ ps, p = lower then lower
  else excluded

@[simp] theorem ofText?_text (p : Placement) : ofText? p.text = some p := by
  cases p <;> decide

theorem ofAlternatives_eq_satisfied {ps : List Placement} :
    ofAlternatives ps = satisfied ↔ satisfied ∈ ps := by
  unfold ofAlternatives
  repeat' split
  all_goals simp_all

end Placement

/-- The placement of `v` on the right side of a bound that it stands in relation `r` to. -/
def Version.placeInside (bound v : Version) (r : Version.Relation) : Placement :=
  match r with
  | .lower | .greater => if v.isPrerelease then .excluded else .satisfied
  | .lowerPrerelease | .greaterPrerelease => if bound.isPrerelease then .satisfied else .excluded
  | .lowerBuild | .equal | .greaterBuild => .satisfied

namespace Operator

/-- The placement against the bound itself. -/
def placeAgainst (o : Operator) (bound v : Version) : Placement :=
  let r := v.relate bound
  match o, r.precedence with
  | less, .lt => Version.placeInside bound v r
  | less, _ => .greater
  | lessOrEqual, .gt => .greater
  | lessOrEqual, _ => Version.placeInside bound v r
  | greater, .gt => Version.placeInside bound v r
  | greater, _ => .lower
  | greaterOrEqual, .lt => .lower
  | greaterOrEqual, _ => Version.placeInside bound v r
  | equal, .lt => .lower
  | equal, .gt => .greater
  | equal, .eq => .satisfied

end Operator

namespace Interval

/-- Whether the bound has a tag and belongs to the release of `v`. -/
def optsIn (bound v : Version) : Bool :=
  bound.isPrerelease && bound.release == v.release

def place (i : Interval) (v : Version) : Placement :=
  if v.below i.lower then .lower
  else if !v.below i.upper then .greater
  else if !v.isPrerelease || optsIn i.lower v || optsIn i.upper v then .satisfied
  else .excluded

end Interval

/-- A pattern as a bound stands for the versions from its floor up to its ceiling. -/
def Operator.place (o : Operator) (bound v : Version) : Placement :=
  match bound with
  | .exact _ => o.placeAgainst bound v
  | .pattern w =>
    match o with
    | less => less.placeAgainst (.ofRelease w.floor) v
    | lessOrEqual => less.placeAgainst (.ofRelease w.ceil) v
    | greater => greaterOrEqual.placeAgainst (.ofRelease w.ceil) v
    | greaterOrEqual => greaterOrEqual.placeAgainst (.ofRelease w.floor) v
    | equal => Interval.place ⟨.ofRelease w.floor, .ofRelease w.ceil⟩ v

namespace Range

mutual

def place : Range → Version → Placement
  | comparison o bound, v => o.place bound v
  | interval bounds, v => bounds.place v
  | caret w, v => (caretBounds w).place v
  | tilde w, v => (tildeBounds w).place v
  | exact w, v => Operator.equal.place w v
  | composite rs, v => .ofAlternatives (placeAll rs v)

def placeAll : List Range → Version → List Placement
  | [], _ => []
  | r :: rs, v => r.place v :: placeAll rs v

end

def satisfiedBy (r : Range) (v : Version) : Bool :=
  r.place v == .satisfied

/-- Whether the version is above every version in the range. -/
def isBelow (r : Range) (v : Version) : Bool :=
  r.place v == .greater

/-- Whether the version is below every version in the range. -/
def isAbove (r : Range) (v : Version) : Bool :=
  r.place v == .lower

theorem placeAll_eq_map (rs : List Range) (v : Version) : placeAll rs v = rs.map (·.place v) := by
  induction rs with
  | nil => rfl
  | cons r rs ih => simp [placeAll, ih]

theorem satisfiedBy_composite (rs : List Range) (v : Version) :
    (composite rs).satisfiedBy v = rs.any (·.satisfiedBy v) := by
  rw [Bool.eq_iff_iff]
  simp [satisfiedBy, place, placeAll_eq_map, Placement.ofAlternatives_eq_satisfied]

end Range

end Versioning
