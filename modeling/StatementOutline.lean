import StatementOutline.Json.Reader
import StatementOutline.Outline.Dump
import StatementOutline.Settings.Json
import StatementOutline.Settings.Overlay
import StatementOutline.Proofs.Planting
import StatementOutline.Proofs.Preorder
import StatementOutline.Proofs.Layout
import StatementOutline.Proofs.Reach
import StatementOutline.Proofs.Rejection
import StatementOutline.Proofs.Scoping
import StatementOutline.Proofs.Lookup
import StatementOutline.Proofs.Lineage
import StatementOutline.Proofs.Boundaries
import StatementOutline.Proofs.Origins
import StatementOutline.Proofs.Building
import StatementOutline.Proofs.Queries
import StatementOutline.Proofs.Units
import StatementOutline.Proofs.Comments
import StatementOutline.Proofs.Simple
import StatementOutline.Proofs.Attachments
import StatementOutline.Proofs.Shut
import StatementOutline.Proofs.Terminators
import StatementOutline.Proofs.Shards
import StatementOutline.Proofs.Laminar
import StatementOutline.Proofs.Tearing
import StatementOutline.Proofs.Rounding
import StatementOutline.Proofs.Pointing
import StatementOutline.Proofs.Scanning
import StatementOutline.Proofs.Dumps
import StatementOutline.Proofs.Relocation
import StatementOutline.Proofs.Wrappers
import StatementOutline.Proofs.Faults
import StatementOutline.Proofs.Overlays
import StatementOutline.Proofs.Parts
import StatementOutline.Proofs.Forms
