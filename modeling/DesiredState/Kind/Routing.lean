import DesiredState.Kind.Metadata

/-!
Routing of incoming requests by host and path.
-/
namespace DesiredState.Schema

@[reducible] def routePath : Fields := .ofList [
  optional "path" "path" (.leaf .text),
  defaulted "path_type" "pathType" "ImplementationSpecific" (.leaf .text),
  required "backend" "backend" .backend]

@[reducible] def routePaths : Fields := .ofList [
  defaulted "paths" "paths" "" (.blocks routePath)]

@[reducible] def routeRule : Fields := .ofList [
  optional "http" "http" (.block routePaths),
  optional "host" "host" (.leaf .text)]

@[reducible] def certificate : Fields := .ofList [
  optional "hosts" "hosts" (.leaf .texts),
  optional "secret_name" "secretName" (.leaf .text)]

@[reducible] def ingressSpec : Fields := .ofList [
  optional "rules" "rules" (.blocks routeRule),
  optional "tls" "tls" (.blocks certificate),
  optional "ingress_class_name" "ingressClassName" (.leaf .text),
  optional "backend" "defaultBackend" .backend]

end DesiredState.Schema
