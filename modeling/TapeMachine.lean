import TapeMachine.CommandLine
import TapeMachine.Evaluation
import TapeMachine.Main
import TapeMachine.Proofs.Matching
import TapeMachine.Proofs.Transition
import TapeMachine.Proofs.Sweeping
import TapeMachine.Proofs.Safety
import TapeMachine.Proofs.Strategies
import TapeMachine.Proofs.Parsing
import TapeMachine.Proofs.Loops
import TapeMachine.Proofs.Diagnosis
import TapeMachine.Proofs.Mirroring
import TapeMachine.Proofs.Isolation
import TapeMachine.Proofs.Concatenation
import TapeMachine.Proofs.Comments
import TapeMachine.Proofs.Endings
import TapeMachine.Proofs.Embedding
import TapeMachine.Proofs.Windows
import TapeMachine.Proofs.Causality
import TapeMachine.Proofs.Rejection
import TapeMachine.Proofs.Handles
import TapeMachine.Proofs.Interruption
import TapeMachine.Proofs.Tool
import TapeMachine.Proofs.Logs
import TapeMachine.Proofs.Places
import TapeMachine.Proofs.Reports
import TapeMachine.Proofs.Repairs
import TapeMachine.Proofs.Copying
import TapeMachine.Proofs.Enumeration
import TapeMachine.Proofs.Wraparound
import TapeMachine.Proofs.Restarts
import TapeMachine.Proofs.Landings
