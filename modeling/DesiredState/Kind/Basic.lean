import DesiredState.Kind.Access
import DesiredState.Kind.Routing
import DesiredState.Kind.Schedule
import DesiredState.Kind.Workload
import DesiredState.ObjectId

/-!
The kinds of objects that can be reconciled: their names and places in the
store's interface, and the fields of their objects.
-/
namespace DesiredState

inductive Kind where
  | deployment
  | statefulSet
  | daemonSet
  | cronJob
  | ingress
  | role
  | clusterRole
  | roleBinding
  | clusterRoleBinding
deriving DecidableEq, Repr

namespace Kind

def all : List Kind :=
  [deployment, statefulSet, daemonSet, cronJob, ingress, role, clusterRole, roleBinding,
    clusterRoleBinding]

@[reducible] def name : Kind → String
  | deployment => "Deployment"
  | statefulSet => "StatefulSet"
  | daemonSet => "DaemonSet"
  | cronJob => "CronJob"
  | ingress => "Ingress"
  | role => "Role"
  | clusterRole => "ClusterRole"
  | roleBinding => "RoleBinding"
  | clusterRoleBinding => "ClusterRoleBinding"

def ofName? (name : String) : Option Kind := all.find? (·.name = name)

def scope : Kind → Scope
  | clusterRole | clusterRoleBinding => .cluster
  | deployment | statefulSet | daemonSet | cronJob | ingress | role | roleBinding => .namespaced

def group : Kind → String
  | deployment | statefulSet | daemonSet => "apps"
  | cronJob => "batch"
  | ingress => "networking.k8s.io"
  | role | clusterRole | roleBinding | clusterRoleBinding => "rbac.authorization.k8s.io"

def version (_ : Kind) : String := "v1"

@[reducible] def apiVersion : Kind → String
  | deployment | statefulSet | daemonSet => "apps/v1"
  | cronJob => "batch/v1"
  | ingress => "networking.k8s.io/v1"
  | role | clusterRole | roleBinding | clusterRoleBinding => "rbac.authorization.k8s.io/v1"

/-- The name of the collection that holds the objects of a kind. -/
def plural : Kind → String
  | deployment => "deployments"
  | statefulSet => "statefulsets"
  | daemonSet => "daemonsets"
  | cronJob => "cronjobs"
  | ingress => "ingresses"
  | role => "roles"
  | clusterRole => "clusterroles"
  | roleBinding => "rolebindings"
  | clusterRoleBinding => "clusterrolebindings"

open Schema

/-- The fields of an object beside its metadata. -/
@[reducible] def body : Kind → Fields
  | deployment => .ofList [
      expected "spec" "spec" (.block deploymentSpec),
      internal "status" (.block replicaStatus)]
  | statefulSet => .ofList [
      expected "spec" "spec" (.block statefulSetSpec),
      internal "status" (.block replicaStatus)]
  | daemonSet => .ofList [
      expected "spec" "spec" (.block daemonSetSpec),
      internal "status" (.block nodeStatus)]
  | cronJob => .ofList [
      expected "spec" "spec" (.block cronJobSpec),
      internal "status" (.block .nil)]
  | ingress => .ofList [
      expected "spec" "spec" (.block ingressSpec),
      internal "status" (.block .nil)]
  | role => .ofList [
      optional "rule" "rules" (.blocks policyRule)]
  | clusterRole => .ofList [
      optional "rule" "rules" (.blocks policyRule),
      optional "aggregation_rule" "aggregationRule" (.block aggregationRule)]
  | roleBinding | clusterRoleBinding => .ofList [
      required "role_ref" "roleRef" (.block roleRef),
      optional "subject" "subjects" (.blocks subject)]

@[reducible] def metadataField : Field := ⟨"metadata", "metadata", .required⟩

/-- All fields of an object, with its type on the document. -/
@[reducible] def fields (k : Kind) : Fields :=
  .typed k.apiVersion k.name (.cons metadataField (.block metadata) k.body)

end Kind

end DesiredState
