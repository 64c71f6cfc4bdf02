import DesiredState.Kind.Pod

/-!
Workloads that keep pods running: a scaled set, an ordered set, and one pod
per node.
-/
namespace DesiredState.Schema

@[reducible] def surgeUpdate : Fields := .ofList [
  optional "max_surge" "maxSurge" (.leaf .intOrText),
  optional "max_unavailable" "maxUnavailable" (.leaf .intOrText)]

@[reducible] def surgeStrategy : Fields := .ofList [
  optional "rolling_update" "rollingUpdate" (.block surgeUpdate),
  optional "type" "type" (.leaf .text)]

@[reducible] def partitionUpdate : Fields := .ofList [
  optional "partition" "partition" (.leaf .int32),
  optional "max_unavailable" "maxUnavailable" (.leaf .intOrText)]

@[reducible] def partitionStrategy : Fields := .ofList [
  optional "rolling_update" "rollingUpdate" (.block partitionUpdate),
  optional "type" "type" (.leaf .text)]

@[reducible] def deploymentSpec : Fields := .ofList [
  optional "replicas" "replicas" (.leaf .int32),
  required "selector" "selector" (.block labelSelector),
  required "template" "template" (.block podTemplate),
  optional "strategy" "strategy" (.block surgeStrategy),
  optional "min_ready_seconds" "minReadySeconds" (.leaf .int32),
  optional "revision_history_limit" "revisionHistoryLimit" (.leaf .int32),
  optional "progress_deadline_seconds" "progressDeadlineSeconds" (.leaf .int32),
  optional "paused" "paused" (.leaf .flag)]

@[reducible] def statefulSetSpec : Fields := .ofList [
  optional "volume_claim_template" "volumeClaimTemplates" (.blocks claimTemplate),
  optional "replicas" "replicas" (.leaf .int32),
  required "selector" "selector" (.block labelSelector),
  required "service_name" "serviceName" (.leaf .text),
  required "template" "template" (.block podTemplate),
  optional "update_strategy" "updateStrategy" (.block partitionStrategy),
  optional "pod_management_policy" "podManagementPolicy" (.leaf .text),
  optional "revision_history_limit" "revisionHistoryLimit" (.leaf .int32),
  optional "min_ready_seconds" "minReadySeconds" (.leaf .int32)]

@[reducible] def daemonSetSpec : Fields := .ofList [
  required "selector" "selector" (.block labelSelector),
  required "template" "template" (.block podTemplate),
  optional "update_strategy" "updateStrategy" (.block surgeStrategy),
  optional "min_ready_seconds" "minReadySeconds" (.leaf .int32),
  optional "revision_history_limit" "revisionHistoryLimit" (.leaf .int32)]

/-- The counters of a scaled workload. -/
@[reducible] def replicaStatus : Fields := .ofList [
  internal "readyReplicas" (.leaf .int32),
  internal "replicas" (.leaf .int32),
  internal "observedGeneration" (.leaf .int64)]

@[reducible] def nodeStatus : Fields := .ofList [
  internal "observedGeneration" (.leaf .int64)]

end DesiredState.Schema
