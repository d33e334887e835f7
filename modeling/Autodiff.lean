import Autodiff.Document.Options
import Autodiff.Document.Parse
import Autodiff.Graph.Display
import Autodiff.Proofs.CSource.Correctness
import Autodiff.Proofs.Document.RoundTrip
import Autodiff.Proofs.Evaluator.Failures
import Autodiff.Proofs.Evaluator.Rejection
import Autodiff.Proofs.Graph.ForeignHandles
import Autodiff.Proofs.Graph.Involution
import Autodiff.Proofs.Graph.StructuralEquality
import Autodiff.Proofs.Lowering.Dependencies
import Autodiff.Proofs.Lowering.Occupancy
import Autodiff.Proofs.Lowering.Redundancy
import Autodiff.Proofs.Lowering.VisitOrder
import Autodiff.Proofs.Pattern.Canonicity
import Autodiff.Proofs.Symbolic.Hessian
import Autodiff.Proofs.Symbolic.Reassembly
import Autodiff.Proofs.Symbolic.Reemission
import Autodiff.Proofs.Symbolic.Replay
import Autodiff.Tape.Listing
