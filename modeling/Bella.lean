import Bella.Main
import Bella.Node.Build
import Bella.Proofs.Atomicity
import Bella.Proofs.Calls
import Bella.Proofs.CommandLine
import Bella.Proofs.Confinement
import Bella.Proofs.Conformance
import Bella.Proofs.Connectives
import Bella.Proofs.Conservativity
import Bella.Proofs.DeclarationLog
import Bella.Proofs.DefectFreedom
import Bella.Proofs.FlatCalls
import Bella.Proofs.Footprint
import Bella.Proofs.Growth
import Bella.Proofs.Identity
import Bella.Proofs.LexicalRegion
import Bella.Proofs.Locality
import Bella.Proofs.Location
import Bella.Proofs.Loops
import Bella.Proofs.Number.Remainder
import Bella.Proofs.Parameters
import Bella.Proofs.Pieces
import Bella.Proofs.Positions
import Bella.Proofs.Reference.Program
import Bella.Proofs.Renaming
import Bella.Proofs.Reordering
import Bella.Proofs.Resolution
import Bella.Proofs.Subscript
import Bella.Proofs.Value.Printing
