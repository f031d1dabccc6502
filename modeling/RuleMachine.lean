import RuleMachine.Script.Session
import RuleMachine.Proofs.Scan
import RuleMachine.Proofs.Growth
import RuleMachine.Proofs.Deeds
import RuleMachine.Proofs.Lifecycle
import RuleMachine.Proofs.Sessions
import RuleMachine.Proofs.Entries
import RuleMachine.Proofs.Refusals
import RuleMachine.Proofs.Sources
import RuleMachine.Proofs.Resuming
import RuleMachine.Proofs.Rerun
import RuleMachine.Proofs.Steps
import RuleMachine.Proofs.FirstMachine
import RuleMachine.Proofs.Strictness
import RuleMachine.Proofs.Parties
import RuleMachine.Proofs.References
import RuleMachine.Proofs.Reports
import RuleMachine.Proofs.Snapshots
import RuleMachine.Proofs.DotReader
import RuleMachine.Proofs.Drawings
import RuleMachine.Proofs.Interleaving
import RuleMachine.Proofs.Selection
import RuleMachine.Proofs.RuleForms
import RuleMachine.Proofs.Attribution
