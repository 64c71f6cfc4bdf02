import DesiredState.Schema.Shape

/-!
Object metadata and label selectors, which every kind shares.
-/
namespace DesiredState.Schema

@[reducible] def metadata : Fields := .ofList [
  optional "name" "name" (.leaf .text),
  optional "generate_name" "generateName" (.leaf .text),
  optional "namespace" "namespace" (.leaf .text),
  optional "labels" "labels" (.leaf .textMap),
  optional "annotations" "annotations" (.leaf .textMap),
  reported "uid" "uid" .text,
  reported "resource_version" "resourceVersion" .text,
  reported "generation" "generation" .int64,
  reported "self_link" "selfLink" .text]

abbrev Metadata := metadata.Value

namespace Metadata

def name? (m : Metadata) : Option String := m.1

def generateName? (m : Metadata) : Option String := m.2.1

def ns? (m : Metadata) : Option String := m.2.2.1

def withNamespace (m : Metadata) (ns : String) : Metadata := (m.1, m.2.1, some ns, m.2.2.2)

end Metadata

@[reducible] def selectorRequirement : Fields := .ofList [
  required "key" "key" (.leaf .text),
  required "operator" "operator" (.leaf .text),
  optional "values" "values" (.leaf .texts)]

@[reducible] def labelSelector : Fields := .ofList [
  optional "match_expressions" "matchExpressions" (.blocks selectorRequirement),
  optional "match_labels" "matchLabels" (.leaf .textMap)]

end DesiredState.Schema
