import DesiredState.Proofs.Object
import DesiredState.Proofs.Schema.Naming
import DesiredState.Proofs.Schema.Pruned

/-!
The trees that each kind accepts.
The outline of a kind lists every key that its trees may have, with its form. A
tree expands exactly if it conforms to the outline and its metadata give a name
or what to generate one from, and the keys that are not listed make no
difference to what comes out.
-/
namespace DesiredState

namespace Outline

def metadata : Outline := [
  may "name" .string,
  may "generate_name" .string,
  may "namespace" .string,
  may "labels" .stringMap,
  may "annotations" .stringMap]

def labelSelector : Outline :=
  (may "match_expressions" .maps).around [
    must "key" .string,
    must "operator" .string,
    may "values" .strings] ++ [
  may "match_labels" .stringMap]

def resources : Outline := [
  may "limits" .stringMap,
  may "requests" .stringMap]

def container : Outline :=
  (may "env" .maps).around [
    must "name" .string,
    may "value" .string] ++
  (may "port" .maps).around [
    must "container_port" .int32,
    may "name" .string,
    may "protocol" .string] ++
  (may "resources" .block).around resources ++ [
  must "name" .string,
  may "image" .string,
  may "command" .strings,
  may "args" .strings,
  may "working_dir" .string,
  may "image_pull_policy" .string]

def podSpec : Outline :=
  (must "containers" .maps).around container ++ [
  may "service_account_name" .string,
  may "node_selector" .stringMap,
  may "restart_policy" .string,
  may "termination_grace_period_seconds" .int,
  may "hostname" .string,
  may "subdomain" .string,
  may "active_deadline_seconds" .int,
  may "priority_class_name" .string]

def podTemplate : Outline :=
  (may "metadata" .block).around metadata ++
  (must "spec" .block).around podSpec

def claimTemplate : Outline :=
  (may "spec" .block).around ([
    may "access_modes" .stringSet,
    may "storage_class_name" .string,
    may "volume_mode" .string] ++
    (may "resources" .block).around resources) ++
  (may "metadata" .block).around metadata

def surgeStrategy : Outline :=
  (may "rolling_update" .block).around [
    may "max_surge" .string,
    may "max_unavailable" .string] ++ [
  may "type" .string]

def partitionStrategy : Outline :=
  (may "rolling_update" .block).around [
    may "partition" .int32,
    may "max_unavailable" .string] ++ [
  may "type" .string]

def deploymentSpec : Outline := [
  may "replicas" .int32] ++
  (must "selector" .block).around labelSelector ++
  (must "template" .block).around podTemplate ++
  (may "strategy" .block).around surgeStrategy ++ [
  may "min_ready_seconds" .int32,
  may "revision_history_limit" .int32,
  may "progress_deadline_seconds" .int32,
  may "paused" .flag]

def statefulSetSpec : Outline :=
  (may "volume_claim_template" .maps).around claimTemplate ++ [
  may "replicas" .int32] ++
  (must "selector" .block).around labelSelector ++ [
  must "service_name" .string] ++
  (must "template" .block).around podTemplate ++
  (may "update_strategy" .block).around partitionStrategy ++ [
  may "pod_management_policy" .string,
  may "revision_history_limit" .int32,
  may "min_ready_seconds" .int32]

def daemonSetSpec : Outline :=
  (must "selector" .block).around labelSelector ++
  (must "template" .block).around podTemplate ++
  (may "update_strategy" .block).around surgeStrategy ++ [
  may "min_ready_seconds" .int32,
  may "revision_history_limit" .int32]

def jobSpec : Outline := [
  may "active_deadline_seconds" .int,
  may "backoff_limit" .int32,
  may "completions" .int32,
  may "parallelism" .int32,
  may "manual_selector" .flag] ++
  (may "selector" .block).around labelSelector ++
  (must "template" .block).around podTemplate ++ [
  may "ttl_seconds_after_finished" .int32]

def cronJobSpec : Outline := [
  must "schedule" .string,
  may "time_zone" .string,
  may "concurrency_policy" .string,
  may "suspend" .flag,
  may "starting_deadline_seconds" .int,
  may "successful_jobs_history_limit" .int32,
  may "failed_jobs_history_limit" .int32] ++
  (must "job_template" .block).around
    ((may "metadata" .block).around metadata ++
    (must "spec" .block).around jobSpec)

def backend : Outline := [
  must "service_name" .string,
  may "service_port" .string]

def ingressSpec : Outline :=
  (may "rules" .maps).around
    ((may "http" .block).around
      ((may "paths" .maps).around ([
        may "path" .string,
        may "path_type" .string] ++
        (must "backend" .block).around backend)) ++ [
    may "host" .string]) ++
  (may "tls" .maps).around [
    may "hosts" .strings,
    may "secret_name" .string] ++ [
  may "ingress_class_name" .string] ++
  (may "backend" .block).around backend

def policyRules : Outline :=
  (may "rule" .maps).around [
    may "api_groups" .stringSet,
    may "resources" .stringSet,
    may "resource_names" .stringSet,
    may "non_resource_urls" .stringSet,
    must "verbs" .stringSet]

def aggregation : Outline :=
  (may "aggregation_rule" .block).around
    ((may "cluster_role_selectors" .maps).around labelSelector)

def binding : Outline :=
  (must "role_ref" .block).around [
    may "api_group" .string,
    must "kind" .string,
    must "name" .string] ++
  (may "subject" .maps).around [
    must "kind" .string,
    must "name" .string,
    may "namespace" .string,
    may "api_group" .string]

end Outline

open Schema
open Outline (must)

namespace Kind

/-- The keys of an object's tree beside its metadata. -/
def bodyOutline : Kind → Outline
  | deployment => (must "spec" .block).around Outline.deploymentSpec
  | statefulSet => (must "spec" .block).around Outline.statefulSetSpec
  | daemonSet => (must "spec" .block).around Outline.daemonSetSpec
  | cronJob => (must "spec" .block).around Outline.cronJobSpec
  | ingress => (must "spec" .block).around Outline.ingressSpec
  | role => Outline.policyRules
  | clusterRole => Outline.policyRules ++ Outline.aggregation
  | roleBinding | clusterRoleBinding => Outline.binding

def outline (k : Kind) : Outline :=
  (must "metadata" .block).around Outline.metadata ++ k.bodyOutline

theorem outline_fields (k : Kind) : k.fields.outline = k.outline := by
  cases k <;> decide +kernel

/-- A tree that a kind accepts. -/
structure Conforms (k : Kind) (t : Tree) : Prop where
  root : t.form = .map
  rows : k.outline.Holds t
  named : ∃ entries ∈ t.mapsAt ["metadata"],
    Entries.contains entries "name" ∨ Entries.contains entries "generate_name"

end Kind

namespace Object

variable {k : Kind}

/-- A text that may be missing is there if its key is. -/
theorem isSome_of_found {path : Path} {key : String} {entries : List (String × Tree)}
    {x : Option String} (h : (Shape.leaf .text).found path key entries = .ok x) :
    x.isSome = Entries.contains entries key := by
  rw [Shape.found] at h
  rw [Entries.contains]
  cases hget : Entries.get? entries key with
  | none =>
    rw [hget] at h
    cases h
    rfl
  | some t =>
    rw [hget] at h
    obtain ⟨s, -, rfl⟩ := Outcome.map_eq_ok.1 h
    rfl

/-- Metadata that were read give a name, or what to generate one from, if their map does. -/
theorem metadata_of_expand {rest : Fields} {entries : List (String × Tree)}
    {w : (Fields.cons Kind.metadataField (.block Schema.metadata) rest).Value}
    (h : (Fields.cons Kind.metadataField (.block Schema.metadata) rest).expand [] entries = .ok w) :
    ∃ given, Entries.get? entries "metadata" = some (.block given) ∧
      (Metadata.name? w.1).isSome = Entries.contains given "name" ∧
      (Metadata.generateName? w.1).isSome = Entries.contains given "generate_name" := by
  obtain ⟨hfirst, -⟩ := (Fields.expand_cons_iff _ _ _ _ _ _).1 h
  obtain ⟨v, hv, hsent⟩ := Presence.found_of_settle (p := .required) rfl hfirst
  obtain ⟨given, hgiven, hexpand⟩ := Fields.block_of_found hv
  cases hsent
  obtain ⟨hname, hrest⟩ := (Fields.expand_cons_iff _ _ _ _ _ _).1 hexpand
  obtain ⟨hgenerate, -⟩ := (Fields.expand_cons_iff _ _ _ _ _ _).1 hrest
  exact ⟨given, hgiven, isSome_of_found hname, isSome_of_found hgenerate⟩

theorem named_iff_given {entries : List (String × Tree)} {o : Object k}
    (h : k.fields.expand [] entries = .ok o) :
    o.Named ↔ ∃ m ∈ (Tree.map entries).mapsAt ["metadata"],
      Entries.contains m "name" ∨ Entries.contains m "generate_name" := by
  obtain ⟨given, hgiven, hname, hgenerate⟩ := metadata_of_expand h
  have hmaps : (Tree.map entries).mapsAt ["metadata"] = [given] := by
    rw [Tree.mapsAt, hgiven]
    rfl
  have hname : o.metadata.name?.isSome = Entries.contains given "name" := hname
  have hgenerate : o.metadata.generateName?.isSome = Entries.contains given "generate_name" :=
    hgenerate
  rw [hmaps, Named, hname, hgenerate]
  simp

/-- The metadata and the body are read apart, each as the outline of the kind lists it. -/
theorem expandEntries_congr {entries others : List (String × Tree)}
    (h : ∀ fields : Fields, fields.Outlined k.outline → fields.Lawful →
      fields.expand [] entries = fields.expand [] others) :
    expandEntries k entries = expandEntries k others := by
  have houtlined : k.fields.Outlined k.outline :=
    k.outline_fields ▸ k.fields.outlined_outline k.lawful_fields
  obtain ⟨hmetadata, hbody⟩ := houtlined
  obtain ⟨-, hlawful, hlawfulBody⟩ := k.lawful_fields.2.2
  have hfirst := h (.cons Kind.metadataField (.block Schema.metadata) .nil) ⟨hmetadata, trivial⟩
    ⟨⟨List.not_mem_nil, List.not_mem_nil, trivial⟩, hlawful, trivial⟩
  rw [expandEntries, expandEntries, hfirst, h k.body hbody hlawfulBody]

theorem expandEntries_pruned (entries : List (String × Tree)) :
    expandEntries k (Tree.prunedEntries entries k.outline) = expandEntries k entries :=
  expandEntries_congr fun fields ho hs => fields.expand_pruned ho hs [] entries

theorem expand_pruned (k : Kind) (t : Tree) : expand k (t.pruned k.outline) = expand k t := by
  unfold expand
  cases t with
  | map entries => rw [Tree.pruned, expand?, expand?, expandEntries_pruned]
  | _ => rfl

/-- A tree expands exactly if its kind accepts it. What it expands to, or the fault that is
reported, does not hang on keys that the outline of the kind does not list, as those are that the
store sets in the metadata. -/
theorem expand_iff_conforms (k : Kind) (t : Tree) :
    ((∃ o, expand k t = .ok o) ↔ k.Conforms t) ∧
    expand k (t.pruned k.outline) = expand k t ∧
    ∀ r ∈ k.outline, r.key ∉ ["uid", "resource_version", "generation", "self_link"] := by
  refine ⟨⟨?_, ?_⟩, expand_pruned k t, ?_⟩
  · rintro ⟨o, ho⟩
    obtain ⟨entries, rfl, hfields, hnamed⟩ := expand_iff.1 ho
    have hrows := (k.fields.exists_expand_iff [] entries).1 ⟨o, hfields⟩
    exact ⟨rfl, k.outline_fields ▸ hrows, (named_iff_given hfields).1 hnamed⟩
  · rintro ⟨hroot, hrows, hnamed⟩
    cases t with
    | map entries =>
      rw [← k.outline_fields] at hrows
      obtain ⟨o, hfields⟩ := (k.fields.exists_expand_iff [] entries).2 hrows
      exact ⟨o, expand_iff.2 ⟨entries, rfl, hfields, (named_iff_given hfields).2 hnamed⟩⟩
    | _ => cases hroot
  · have hkeys : k.outline.all
        (fun r => r.key ∉ ["uid", "resource_version", "generation", "self_link"]) = true := by
      cases k <;> decide +kernel
    intro r hr
    exact of_decide_eq_true (List.all_eq_true.1 hkeys r hr)

end Object

end DesiredState
