import DesiredState.Json.Containment
import DesiredState.Json.Printer
import DesiredState.Json.Reader
import DesiredState.Readiness.Script
import DesiredState.Reconcile.Operations
import DesiredState.Store.Http
import DesiredState.Store.Rehearsal
import DesiredState.Tree.Document
import DesiredState.Proofs.Object
import DesiredState.Proofs.Patch.Correct
import DesiredState.Proofs.Patch.Exhaustive
import DesiredState.Proofs.Patch.Interleaved
import DesiredState.Proofs.Reconcile.Belonging
import DesiredState.Proofs.Reconcile.Erasure
import DesiredState.Proofs.Reconcile.Refusal
import DesiredState.Proofs.Reconcile.Update
import DesiredState.Proofs.Reconcile.Effect
import DesiredState.Proofs.Reconcile.Calls
import DesiredState.Proofs.Reconcile.Counting
import DesiredState.Proofs.Json.Merge
import DesiredState.Proofs.Schema.Merged
import DesiredState.Proofs.Kind.Merged
import DesiredState.Proofs.Reconcile.Resubmit
import DesiredState.Proofs.Kind.Denotation
import DesiredState.Proofs.Kind.Outline
import DesiredState.Proofs.Reconcile.Creation
import DesiredState.Proofs.Json.Placed
import DesiredState.Proofs.Patch.Remaining
import DesiredState.Proofs.Reconcile.Adoption
import DesiredState.Proofs.Patch.Minimal
import DesiredState.Proofs.Reconcile.Alike
import DesiredState.Proofs.Reconcile.Commuting
import DesiredState.Proofs.Readiness.Schedule
import DesiredState.Proofs.Readiness.Cancellation
import DesiredState.Proofs.Patch.Completion
import DesiredState.Proofs.Warning.Line
import DesiredState.Proofs.Kind.Regrouped
import DesiredState.Proofs.Patch.Wire
import DesiredState.Proofs.Tree.Document
import DesiredState.Proofs.Tree.Lookup
import DesiredState.Proofs.Kind.Fault
import DesiredState.Proofs.Json.Containment
import DesiredState.Proofs.Kind.Normal
import DesiredState.Proofs.Kind.Projection
