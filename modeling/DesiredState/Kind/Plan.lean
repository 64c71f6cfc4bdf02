import DesiredState.Kind.Basic
import DesiredState.Text.Split

/-!
Plans: which fields of a kind may change in place, and how.
A rule names one field twice, by its path in the configuration tree and by its
pointer in the document. Patches follow the order of the rules.
-/
namespace DesiredState

inductive Policy where
  | mutable
  /-- A change asks for a new object. -/
  | forceNew
deriving DecidableEq, Repr

/-- How the two sides of a field are compared. -/
inductive Comparison where
  | whole
  /-- Key by key, so that keys of others survive. -/
  | perKey
  /-- Key by key, and keys of the server are never removed. -/
  | perKeyUnmanaged
deriving DecidableEq, Repr

structure Rule where
  name : String
  pointer : String
  policy : Policy
  /-- The store fills the field in, so leaving it out keeps the stored value. -/
  computed : Bool
  comparison : Comparison
  /-- A pointer that, when the desired document has it, gives the field to a controller. -/
  owner? : Option String
deriving DecidableEq, Repr

namespace Rule

def mutable (name pointer : String) : Rule := ⟨name, pointer, .mutable, false, .whole, none⟩

def forceNew (name pointer : String) : Rule := ⟨name, pointer, .forceNew, false, .whole, none⟩

def byStore (r : Rule) : Rule := { r with computed := true }

def compared (r : Rule) (comparison : Comparison) : Rule := { r with comparison }

def ownedBy (r : Rule) (pointer : String) : Rule := { r with owner? := some pointer }

def isForceNew (r : Rule) : Bool := r.policy == .forceNew

end Rule

abbrev Plan := List Rule

/-- Keys in the `kubernetes.io` domain or below it belong to the server. -/
def isServerManaged (key : String) : Bool :=
  match Text.splitOnce '/' key with
  | some (domain, _) =>
    domain == "kubernetes.io" || ".kubernetes.io".toList.isSuffixOf domain.toList
  | none => false

namespace Kind

def labelRule : Rule := (Rule.mutable "metadata.0.labels" "/metadata/labels").compared .perKey

def annotationRule : Rule :=
  (Rule.mutable "metadata.0.annotations" "/metadata/annotations").compared .perKeyUnmanaged

/-- The rules for the body of an object. -/
def bodyPlan : Kind → Plan
  | deployment => [
      .forceNew "spec.0.selector" "/spec/selector",
      (Rule.mutable "spec.0.replicas" "/spec/replicas").byStore,
      .mutable "spec.0.min_ready_seconds" "/spec/minReadySeconds",
      (Rule.mutable "spec.0.strategy" "/spec/strategy").byStore,
      (Rule.mutable "spec.0.revision_history_limit" "/spec/revisionHistoryLimit").byStore,
      (Rule.mutable "spec.0.progress_deadline_seconds" "/spec/progressDeadlineSeconds").byStore,
      .mutable "spec.0.paused" "/spec/paused",
      .mutable "spec.0.template.0.metadata" "/spec/template/metadata",
      (Rule.mutable "spec.0.template.0.spec" "/spec/template/spec").byStore]
  | statefulSet => [
      .forceNew "spec.0.selector" "/spec/selector",
      .forceNew "spec.0.service_name" "/spec/serviceName",
      (Rule.forceNew "spec.0.volume_claim_template" "/spec/volumeClaimTemplates").byStore,
      (Rule.forceNew "spec.0.pod_management_policy" "/spec/podManagementPolicy").byStore,
      (Rule.mutable "spec.0.replicas" "/spec/replicas").byStore,
      (Rule.mutable "spec.0.update_strategy" "/spec/updateStrategy").byStore,
      (Rule.mutable "spec.0.revision_history_limit" "/spec/revisionHistoryLimit").byStore,
      .mutable "spec.0.min_ready_seconds" "/spec/minReadySeconds",
      .mutable "spec.0.template.0.metadata" "/spec/template/metadata",
      (Rule.mutable "spec.0.template.0.spec" "/spec/template/spec").byStore]
  | daemonSet => [
      .forceNew "spec.0.selector" "/spec/selector",
      (Rule.mutable "spec.0.update_strategy" "/spec/updateStrategy").byStore,
      .mutable "spec.0.min_ready_seconds" "/spec/minReadySeconds",
      (Rule.mutable "spec.0.revision_history_limit" "/spec/revisionHistoryLimit").byStore,
      .mutable "spec.0.template.0.metadata" "/spec/template/metadata",
      (Rule.mutable "spec.0.template.0.spec" "/spec/template/spec").byStore]
  | cronJob => [
      .mutable "spec.0.schedule" "/spec/schedule",
      .mutable "spec.0.time_zone" "/spec/timeZone",
      (Rule.mutable "spec.0.concurrency_policy" "/spec/concurrencyPolicy").byStore,
      (Rule.mutable "spec.0.suspend" "/spec/suspend").byStore,
      .mutable "spec.0.starting_deadline_seconds" "/spec/startingDeadlineSeconds",
      (Rule.mutable "spec.0.successful_jobs_history_limit"
        "/spec/successfulJobsHistoryLimit").byStore,
      (Rule.mutable "spec.0.failed_jobs_history_limit" "/spec/failedJobsHistoryLimit").byStore,
      (Rule.mutable "spec.0.job_template" "/spec/jobTemplate").byStore]
  | ingress => [
      .mutable "spec.0.ingress_class_name" "/spec/ingressClassName",
      .mutable "spec.0.backend" "/spec/defaultBackend",
      .mutable "spec.0.tls" "/spec/tls",
      .mutable "spec.0.rules" "/spec/rules"]
  | role => [.mutable "rule" "/rules"]
  | clusterRole => [
      (Rule.mutable "rule" "/rules").ownedBy "/aggregationRule",
      .mutable "aggregation_rule" "/aggregationRule"]
  | roleBinding | clusterRoleBinding => [
      .forceNew "role_ref" "/roleRef",
      (Rule.mutable "subject" "/subjects").byStore]

def plan (k : Kind) : Plan := labelRule :: annotationRule :: k.bodyPlan

/-- How an update in place is sent. -/
inductive UpdateMode where
  /-- As a minimal patch. -/
  | patch
  /-- As the whole object, to be merged by the store. -/
  | resubmit
deriving DecidableEq, Repr

def updateMode : Kind → UpdateMode
  | daemonSet | ingress => .resubmit
  | deployment | statefulSet | cronJob | role | clusterRole | roleBinding | clusterRoleBinding =>
    .patch

end Kind

end DesiredState
