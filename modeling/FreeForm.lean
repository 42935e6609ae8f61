import FreeForm.Main
import FreeForm.Files.Tree
import FreeForm.Pattern
import FreeForm.Proofs.Cutting
import FreeForm.Proofs.Steps
import FreeForm.Proofs.Simulation
import FreeForm.Proofs.Lossless
import FreeForm.Proofs.Composition
import FreeForm.Proofs.Sights
import FreeForm.Proofs.Breaking
import FreeForm.Proofs.Separation
import FreeForm.Proofs.Scanning
import FreeForm.Proofs.Resuming
import FreeForm.Proofs.Origin
import FreeForm.Proofs.Joining
import FreeForm.Proofs.Extent
import FreeForm.Proofs.Offsets
import FreeForm.Proofs.Progress
import FreeForm.Proofs.Limit
import FreeForm.Proofs.Numbering
import FreeForm.Proofs.Marks
import FreeForm.Proofs.Tabs
import FreeForm.Proofs.Expansion
import FreeForm.Proofs.LineEndings
import FreeForm.Proofs.Alignment
import FreeForm.Proofs.Halting
import FreeForm.Proofs.Uncommenting
import FreeForm.Proofs.Comments
import FreeForm.Proofs.Pieces
import FreeForm.Proofs.Semicolons
import FreeForm.Proofs.Records
import FreeForm.Proofs.Declarations
import FreeForm.Proofs.Matching
import FreeForm.Proofs.Coverage
import FreeForm.Proofs.Directives
import FreeForm.Proofs.Reports
import FreeForm.Proofs.Sharing
import FreeForm.Proofs.Exclusion
import FreeForm.Proofs.RoundTrip
import FreeForm.Proofs.Arguments
import FreeForm.Proofs.Rescanning
import FreeForm.Proofs.Sentinels
import FreeForm.Proofs.Lookahead
