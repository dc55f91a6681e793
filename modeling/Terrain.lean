import Terrain.Main
import Terrain.Pipeline.Promise
import Terrain.Pipeline.Trace
import Terrain.Proofs.Run
import Terrain.Proofs.Rule
import Terrain.Proofs.Compilation
import Terrain.Proofs.Growth
import Terrain.Proofs.Built
import Terrain.Proofs.Order
import Terrain.Proofs.Subst
import Terrain.Proofs.View
import Terrain.Proofs.Agree
import Terrain.Proofs.Form
import Terrain.Proofs.Layout
import Terrain.Proofs.Twins
import Terrain.Proofs.Renaming
import Terrain.Proofs.Decode
import Terrain.Proofs.Kept
import Terrain.Proofs.Memo
import Terrain.Proofs.Operands
import Terrain.Proofs.Alike
import Terrain.Proofs.Lockstep
import Terrain.Proofs.Sharing
import Terrain.Proofs.Depth
import Terrain.Proofs.Reads
import Terrain.Proofs.Links
import Terrain.Proofs.Schedule
import Terrain.Proofs.Invariant
import Terrain.Proofs.Inline
import Terrain.Proofs.Unfold
import Terrain.Proofs.Tables
import Terrain.Proofs.Entries
import Terrain.Proofs.Inlined
import Terrain.Proofs.Scoping
import Terrain.Proofs.WellScoped
import Terrain.Proofs.Packing
import Terrain.Proofs.Calls
import Terrain.Proofs.History
import Terrain.Proofs.Fencing
import Terrain.Proofs.Formats
import Terrain.Proofs.Canonical
import Terrain.Proofs.Artifacts
import Terrain.Proofs.Accepts
import Terrain.Proofs.Shapes
import Terrain.Proofs.Documents
import Terrain.Proofs.Safety
import Terrain.Proofs.Terms
import Terrain.Proofs.Names
import Terrain.Proofs.Types
import Terrain.Proofs.LineTypes
import Terrain.Proofs.WellTyped
import Terrain.Proofs.EntryPoints
import Terrain.Proofs.TypedPrograms
import Terrain.Proofs.Placement
import Terrain.Proofs.Manifests
import Terrain.Proofs.Requests
import Terrain.Proofs.Outputs
import Terrain.Proofs.Remote
import Terrain.Proofs.Ledgers
import Terrain.Proofs.Releases
import Terrain.Proofs.HexText
import Terrain.Proofs.Lookups
import Terrain.Proofs.Stores
import Terrain.Proofs.References
import Terrain.Proofs.Drawn
import Terrain.Proofs.Resolution
import Terrain.Proofs.Relabeled
import Terrain.Proofs.Grids
import Terrain.Proofs.Sessions
import Terrain.Proofs.Closed
import Terrain.Proofs.WholeNumbers
import Terrain.Proofs.Constants
import Terrain.Proofs.Validation
import Terrain.Proofs.Supplies
import Terrain.Proofs.Tallies
import Terrain.Proofs.Indices
