import DesiredState.Kind.Metadata

/-!
Pod templates, their containers, and claim templates for volumes.
-/
namespace DesiredState.Schema

@[reducible] def environmentVariable : Fields := .ofList [
  required "name" "name" (.leaf .text),
  optional "value" "value" (.leaf .text)]

@[reducible] def containerPort : Fields := .ofList [
  required "container_port" "containerPort" (.leaf .int32),
  optional "name" "name" (.leaf .text),
  optional "protocol" "protocol" (.leaf .text)]

/-- Quantities such as `500m` are texts. -/
@[reducible] def resources : Fields := .ofList [
  optional "limits" "limits" (.leaf .textMap),
  optional "requests" "requests" (.leaf .textMap)]

@[reducible] def container : Fields := .ofList [
  optional "env" "env" (.blocks environmentVariable),
  optional "port" "ports" (.blocks containerPort),
  optional "resources" "resources" (.block resources),
  required "name" "name" (.leaf .text),
  optional "image" "image" (.leaf .text),
  optional "command" "command" (.leaf .texts),
  optional "args" "args" (.leaf .texts),
  optional "working_dir" "workingDir" (.leaf .text),
  optional "image_pull_policy" "imagePullPolicy" (.leaf .text)]

@[reducible] def podSpec : Fields := .ofList [
  required "containers" "containers" (.blocks container),
  optional "service_account_name" "serviceAccountName" (.leaf .text),
  optional "node_selector" "nodeSelector" (.leaf .textMap),
  optional "restart_policy" "restartPolicy" (.leaf .text),
  optional "termination_grace_period_seconds" "terminationGracePeriodSeconds" (.leaf .int64),
  optional "hostname" "hostname" (.leaf .text),
  optional "subdomain" "subdomain" (.leaf .text),
  optional "active_deadline_seconds" "activeDeadlineSeconds" (.leaf .int64),
  optional "priority_class_name" "priorityClassName" (.leaf .text)]

@[reducible] def podTemplate : Fields := .ofList [
  optional "metadata" "metadata" (.block metadata),
  expected "spec" "spec" (.block podSpec)]

@[reducible] def claimSpec : Fields := .ofList [
  optional "access_modes" "accessModes" (.leaf .textSet),
  optional "storage_class_name" "storageClassName" (.leaf .text),
  optional "volume_mode" "volumeMode" (.leaf .text),
  optional "resources" "resources" (.block resources)]

@[reducible] def claimTemplate : Fields := .typed "v1" "PersistentVolumeClaim" (.ofList [
  optional "spec" "spec" (.block claimSpec),
  defaulted "metadata" "metadata" "" (.block metadata)])

end DesiredState.Schema
