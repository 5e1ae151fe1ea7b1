import Versioning.Exact
import Versioning.Pattern

/-!
# Versions

A version is exact or a pattern. Both are seen through the same slots, and both step to later
versions; what a step gives is exact, unless the step leaves a pattern as it is.
-/

namespace Versioning

inductive Version
  | exact (v : Exact)
  | pattern (w : Pattern)

namespace Version

instance : Inhabited Version := ⟨exact default⟩

def ofRelease (r : Release) : Version :=
  exact (.ofRelease r)

def ofNumbers (major minor patch : Number) : Version :=
  ofRelease (.triple major minor patch)

def major : Version → Number
  | exact v => v.release.major
  | pattern w => w.major

def minor : Version → Component
  | exact v => .ofNumber? v.release.minor?
  | pattern w => w.minor

def patch : Version → Component
  | exact v => .ofNumber? v.release.patch?
  | pattern w => w.patch

def prerelease : Version → Prerelease
  | exact v => v.prerelease
  | pattern _ => .none

def build : Version → Build
  | exact v => v.build
  | pattern _ => .none

def isPattern : Version → Bool
  | exact _ => false
  | pattern _ => true

def isPrerelease (v : Version) : Bool :=
  !v.prerelease.isNone

def text : Version → String
  | exact v => v.text
  | pattern w => w.text

/-- Equal in structure, the spelling of an empty tag apart. -/
def same : Version → Version → Bool
  | exact a, exact b => a == b
  | pattern a, pattern b => a == b
  | _, _ => false

/-! ## Steps -/

def nextMajor : Version → Version
  | exact v => ofRelease v.release.nextMajor
  | pattern w => ofRelease w.nextMajor

def nextMinor : Version → Version
  | exact v => ofRelease v.release.nextMinor
  | pattern w => ofRelease w.nextMinor

def nextPatch : Version → Version
  | exact v => ofRelease v.nextPatch
  | pattern w => pattern w

def nextBreaking : Version → Version
  | exact v => ofRelease v.release.nextBreaking
  | pattern w => ofRelease w.nextBreaking

/-- The lowest version that this one stands for. -/
def floor : Version → Version
  | exact v => exact v.floor
  | pattern w => ofRelease w.floor

/-- The lowest version above the minor line, or above the major line if the minor is open. -/
def ceil : Version → Version
  | exact v => ofRelease v.release.ceil
  | pattern w => ofRelease w.ceil

def release : Version → Version
  | exact v => ofRelease v.release
  | pattern w => pattern w

/-- The smallest version after everything that this one stands for. -/
def next : Version → Version
  | exact v => exact v.next
  | pattern w => ofRelease w.ceil

end Version

end Versioning
