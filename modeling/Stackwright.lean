import Stackwright.Main
import Stackwright.Observer.Journal
import Stackwright.Proofs.Boundaries
import Stackwright.Proofs.Separation
import Stackwright.Proofs.Limit
import Stackwright.Proofs.RoundTrip
import Stackwright.Proofs.Outcome
import Stackwright.Proofs.Relocation
import Stackwright.Proofs.Confinement
import Stackwright.Proofs.Reflow
import Stackwright.Proofs.Renaming
import Stackwright.Proofs.Traps
import Stackwright.Proofs.Partition
import Stackwright.Proofs.Pointing
import Stackwright.Proofs.Grammar
import Stackwright.Proofs.Listings
import Stackwright.Proofs.Rejections
import Stackwright.Proofs.References
import Stackwright.Proofs.StraightLine
import Stackwright.Proofs.Consoles
import Stackwright.Proofs.Oversize
import Stackwright.Proofs.ImageLines
import Stackwright.Proofs.ProgramNames
import Stackwright.Proofs.Sessions
import Stackwright.Proofs.Uncovered
import Stackwright.Proofs.Overwriting
import Stackwright.Proofs.Mnemonics
import Stackwright.Proofs.Registration
import Stackwright.Proofs.Division
