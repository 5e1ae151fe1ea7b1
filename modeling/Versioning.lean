import Versioning.Ascending
import Versioning.Inspect
import Versioning.Reference
import Versioning.Step
import Versioning.Proofs.Order.Exact
import Versioning.Proofs.Order.Precedence
import Versioning.Proofs.Placement.Bound
import Versioning.Proofs.Range.Built
import Versioning.Proofs.Placement.Composite
import Versioning.Proofs.Placement.Pruning
import Versioning.Proofs.Placement.OptIn
import Versioning.Proofs.Placement.Boundary
import Versioning.Proofs.Range.Reading
import Versioning.Proofs.RoundTrip.Tag
import Versioning.Proofs.RoundTrip.Version
import Versioning.Proofs.RoundTrip.Walk
import Versioning.Proofs.RoundTrip.Reread
import Versioning.Proofs.RoundTrip.Json
import Versioning.Proofs.Placement.Comparison
import Versioning.Proofs.RoundTrip.Placement
import Versioning.Proofs.Reading.Spelling
import Versioning.Proofs.Range.Equality
import Versioning.Proofs.RoundTrip.Range
import Versioning.Proofs.Grammar.Extension
import Versioning.Proofs.Reading.Agreement
import Versioning.Proofs.RoundTrip.Strict
import Versioning.Proofs.Placement.Side
import Versioning.Proofs.Order.Wildcards
import Versioning.Proofs.Placement.Denotation
import Versioning.Proofs.Placement.Compatible
import Versioning.Proofs.Navigation.Successor
import Versioning.Proofs.Placement.Inclusive
import Versioning.Proofs.Navigation.Forward
import Versioning.Proofs.Navigation.Nearest
import Versioning.Proofs.RoundTrip.Prerelease
import Versioning.Proofs.Reading.Malformed
import Versioning.Proofs.Reading.Component
import Versioning.Proofs.Reading.Overflow
import Versioning.Proofs.Reading.Causes
