import BehaviourGraph.Main
import BehaviourGraph.Proofs.Boundary
import BehaviourGraph.Proofs.History
import BehaviourGraph.Proofs.Reachable
import BehaviourGraph.Proofs.Relaxation
import BehaviourGraph.Proofs.SingleEntry
import BehaviourGraph.Proofs.Switching
import BehaviourGraph.Proofs.Wiring
import BehaviourGraph.Proofs.Entries
import BehaviourGraph.Proofs.Exclusion
import BehaviourGraph.Proofs.Relaxation.Region
import BehaviourGraph.Proofs.Relaxation.Order
import BehaviourGraph.Proofs.Recovery
import BehaviourGraph.Proofs.Calls
import BehaviourGraph.Proofs.Search
import BehaviourGraph.Proofs.Coverage
import BehaviourGraph.Proofs.Tables
import BehaviourGraph.Proofs.ActiveStarts
import BehaviourGraph.Proofs.Loops
import BehaviourGraph.Proofs.Walk.Lockstep
import BehaviourGraph.Proofs.FailSoft
import BehaviourGraph.Proofs.Connections
import BehaviourGraph.Proofs.Bounds
import BehaviourGraph.Proofs.Walk.Checked
import BehaviourGraph.Proofs.DepthLimit
import BehaviourGraph.Proofs.FloatOrder
import BehaviourGraph.Proofs.Queue
import BehaviourGraph.Proofs.HandOffs
import BehaviourGraph.Proofs.Cooldowns
import BehaviourGraph.Proofs.Nesting
import BehaviourGraph.Proofs.PriorityQueue
import BehaviourGraph.Proofs.Evaluations
import BehaviourGraph.Proofs.Statuses
import BehaviourGraph.Proofs.Confinement
import BehaviourGraph.Proofs.Ungated
import BehaviourGraph.Proofs.ControlReports
import BehaviourGraph.Proofs.Traces
import BehaviourGraph.Proofs.Single.Arithmetic
import BehaviourGraph.Proofs.Sampling
import BehaviourGraph.Proofs.Acceptance
import BehaviourGraph.Proofs.Curves
import BehaviourGraph.Proofs.Patrol.Watch
import BehaviourGraph.Proofs.Codec
import BehaviourGraph.Proofs.Presorting
import BehaviourGraph.Proofs.KeyValues
import BehaviourGraph.Proofs.Choice
import BehaviourGraph.Proofs.Lookups
import BehaviourGraph.Proofs.Seeds
