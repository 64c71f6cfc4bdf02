import DesiredState.Kind.Metadata

/-!
Access control: rules, references to roles, and the subjects they are bound to.
-/
namespace DesiredState.Schema

/-- Rules are ordered; the permissions inside a rule are not. -/
@[reducible] def policyRule : Fields := .ofList [
  optional "api_groups" "apiGroups" (.leaf .textSet),
  optional "resources" "resources" (.leaf .textSet),
  optional "resource_names" "resourceNames" (.leaf .textSet),
  optional "non_resource_urls" "nonResourceURLs" (.leaf .textSet),
  required "verbs" "verbs" (.leaf .textSet)]

@[reducible] def aggregationRule : Fields := .ofList [
  optional "cluster_role_selectors" "clusterRoleSelectors" (.blocks labelSelector)]

@[reducible] def roleRef : Fields := .ofList [
  defaulted "api_group" "apiGroup" "rbac.authorization.k8s.io" (.leaf .text),
  required "kind" "kind" (.leaf .text),
  required "name" "name" (.leaf .text)]

@[reducible] def subject : Fields := .ofList [
  required "kind" "kind" (.leaf .text),
  required "name" "name" (.leaf .text),
  optional "namespace" "namespace" (.leaf .text),
  optional "api_group" "apiGroup" (.leaf .text)]

end DesiredState.Schema
