import DesiredState.Proofs.Kind.Live
import DesiredState.Proofs.Schema.Excerpt

/-!
What each kind takes over from a document.
The excerpt of a kind lists the members of its documents that a tree can set.
An object that is flattened and expanded again has the excerpt of the document
it was read from: what the store sets and what no list names is dropped.
-/
namespace DesiredState

namespace Excerpt

/-- A member that may be missing. -/
def may (key : String) (e : Excerpt) : String × Option Json × Excerpt := (key, none, e)

/-- A member that is always written. -/
def always (key : String) (blank : Json) (e : Excerpt) : String × Option Json × Excerpt :=
  (key, some blank, e)

def metadata : List (String × Option Json × Excerpt) := [
  may "name" whole,
  may "generateName" whole,
  may "namespace" whole,
  may "labels" whole,
  may "annotations" whole]

def labelSelector : List (String × Option Json × Excerpt) := [
  may "matchExpressions" (objects [
    always "key" (.str "") whole,
    always "operator" (.str "") whole,
    may "values" whole]),
  may "matchLabels" whole]

def resources : List (String × Option Json × Excerpt) := [
  may "limits" whole,
  may "requests" whole]

def container : List (String × Option Json × Excerpt) := [
  may "env" (objects [
    always "name" (.str "") whole,
    may "value" whole]),
  may "ports" (objects [
    always "containerPort" (.int 0) whole,
    may "name" whole,
    may "protocol" whole]),
  may "resources" (object resources),
  always "name" (.str "") whole,
  may "image" whole,
  may "command" whole,
  may "args" whole,
  may "workingDir" whole,
  may "imagePullPolicy" whole]

def podSpec : List (String × Option Json × Excerpt) := [
  always "containers" (.arr []) (objects container),
  may "serviceAccountName" whole,
  may "nodeSelector" whole,
  may "restartPolicy" whole,
  may "terminationGracePeriodSeconds" whole,
  may "hostname" whole,
  may "subdomain" whole,
  may "activeDeadlineSeconds" whole,
  may "priorityClassName" whole]

def podTemplate : List (String × Option Json × Excerpt) := [
  may "metadata" (object metadata),
  may "spec" (object podSpec)]

def claimTemplate : List (String × Option Json × Excerpt) := [
  always "apiVersion" (.str "v1") whole,
  always "kind" (.str "PersistentVolumeClaim") whole,
  may "spec" (object [
    may "accessModes" texts,
    may "storageClassName" whole,
    may "volumeMode" whole,
    may "resources" (object resources)]),
  always "metadata" (.obj []) (object metadata)]

def surgeStrategy : List (String × Option Json × Excerpt) := [
  may "rollingUpdate" (object [
    may "maxSurge" bound,
    may "maxUnavailable" bound]),
  may "type" whole]

def partitionStrategy : List (String × Option Json × Excerpt) := [
  may "rollingUpdate" (object [
    may "partition" whole,
    may "maxUnavailable" bound]),
  may "type" whole]

def deploymentSpec : List (String × Option Json × Excerpt) := [
  may "replicas" whole,
  always "selector" (.obj []) (object labelSelector),
  always "template" (.obj []) (object podTemplate),
  may "strategy" (object surgeStrategy),
  may "minReadySeconds" whole,
  may "revisionHistoryLimit" whole,
  may "progressDeadlineSeconds" whole,
  may "paused" whole]

def statefulSetSpec : List (String × Option Json × Excerpt) := [
  may "volumeClaimTemplates" (objects claimTemplate),
  may "replicas" whole,
  always "selector" (.obj []) (object labelSelector),
  always "serviceName" (.str "") whole,
  always "template" (.obj []) (object podTemplate),
  may "updateStrategy" (object partitionStrategy),
  may "podManagementPolicy" whole,
  may "revisionHistoryLimit" whole,
  may "minReadySeconds" whole]

def daemonSetSpec : List (String × Option Json × Excerpt) := [
  always "selector" (.obj []) (object labelSelector),
  always "template" (.obj []) (object podTemplate),
  may "updateStrategy" (object surgeStrategy),
  may "minReadySeconds" whole,
  may "revisionHistoryLimit" whole]

def jobSpec : List (String × Option Json × Excerpt) := [
  may "activeDeadlineSeconds" whole,
  may "backoffLimit" whole,
  may "completions" whole,
  may "parallelism" whole,
  may "manualSelector" whole,
  may "selector" (object labelSelector),
  always "template" (.obj []) (object podTemplate),
  may "ttlSecondsAfterFinished" whole]

def cronJobSpec : List (String × Option Json × Excerpt) := [
  always "schedule" (.str "") whole,
  may "timeZone" whole,
  may "concurrencyPolicy" whole,
  may "suspend" whole,
  may "startingDeadlineSeconds" whole,
  may "successfulJobsHistoryLimit" whole,
  may "failedJobsHistoryLimit" whole,
  always "jobTemplate" (.obj []) (object [
    may "metadata" (object metadata),
    may "spec" (object jobSpec)])]

def backend : List (String × Option Json × Excerpt) := [
  may "service" (object [
    always "name" (.str "") whole,
    may "port" port])]

def ingressSpec : List (String × Option Json × Excerpt) := [
  may "rules" (objects [
    may "http" (object [
      always "paths" (.arr []) (objects [
        may "path" whole,
        always "pathType" (.str "") whole,
        always "backend" (.obj []) (object backend)])]),
    may "host" whole]),
  may "tls" (objects [
    may "hosts" whole,
    may "secretName" whole]),
  may "ingressClassName" whole,
  may "defaultBackend" (object backend)]

def policyRules : Excerpt := objects [
  may "apiGroups" texts,
  may "resources" texts,
  may "resourceNames" texts,
  may "nonResourceURLs" texts,
  always "verbs" (.arr []) texts]

def aggregation : Excerpt := object [
  may "clusterRoleSelectors" (objects labelSelector)]

def roleRef : List (String × Option Json × Excerpt) := [
  always "apiGroup" (.str "") whole,
  always "kind" (.str "") whole,
  always "name" (.str "") whole]

def subjects : Excerpt := objects [
  always "kind" (.str "") whole,
  always "name" (.str "") whole,
  may "namespace" whole,
  may "apiGroup" whole]

/-- The members of an object, with the type that it has in every document. -/
def typed (apiVersion kind : String) (body : List (String × Option Json × Excerpt)) : Excerpt :=
  object (always "apiVersion" (.str apiVersion) whole :: always "kind" (.str kind) whole ::
    always "metadata" (.obj []) (object metadata) :: body)

/-- A reference without its texts. -/
def blankRef : Json := .obj [("apiGroup", .str ""), ("kind", .str ""), ("name", .str "")]

end Excerpt

open Schema Excerpt

/-- What an expanded object of a kind takes over from a document. -/
def Kind.excerpt : Kind → Excerpt
  | deployment => typed "apps/v1" "Deployment" [may "spec" (object deploymentSpec)]
  | statefulSet => typed "apps/v1" "StatefulSet" [may "spec" (object statefulSetSpec)]
  | daemonSet => typed "apps/v1" "DaemonSet" [may "spec" (object daemonSetSpec)]
  | cronJob => typed "batch/v1" "CronJob" [may "spec" (object cronJobSpec)]
  | ingress => typed "networking.k8s.io/v1" "Ingress" [may "spec" (object ingressSpec)]
  | role => typed "rbac.authorization.k8s.io/v1" "Role" [may "rules" policyRules]
  | clusterRole => typed "rbac.authorization.k8s.io/v1" "ClusterRole" [
      may "rules" policyRules,
      may "aggregationRule" aggregation]
  | roleBinding => typed "rbac.authorization.k8s.io/v1" "RoleBinding" [
      always "roleRef" blankRef (object roleRef),
      may "subjects" subjects]
  | clusterRoleBinding => typed "rbac.authorization.k8s.io/v1" "ClusterRoleBinding" [
      always "roleRef" blankRef (object roleRef),
      may "subjects" subjects]

theorem Kind.excerpt_fields (k : Kind) : Excerpt.object k.fields.excerpt = k.excerpt := by
  cases k <;> rfl

namespace Object

variable {k : Kind}

theorem apply_excerpt {v : Json} (hv : v.WellFormed) {o : Object k} (h : decode? k v = some o) :
    k.excerpt.apply v = some o.configured.encode := by
  obtain ⟨members, hmembers, ho⟩ := Option.bind_eq_some_iff.1 h
  obtain rfl := Json.members?_eq_some.1 hmembers
  rw [← k.excerpt_fields, Excerpt.apply_object, k.fields.members_excerpt hv ho]
  rfl

/-- Every object is read from its document, and maybe from others. The excerpt of such a document
has a name and what its kind demands exactly if the object can be expanded again after it was
flattened, and then it is the document of what comes out. The numerals that an excerpt counts are
those that denote an integer of 32 bits. An object that was expanded before comes out as it was. -/
theorem expand_flatten (k : Kind) (o : Object k) :
    (o.encode.WellFormed ∧ decode? k o.encode = some o) ∧
    (∀ v, v.WellFormed → decode? k v = some o →
      ∃ members, k.excerpt.apply v = some (.obj members) ∧
        ((∃ p, expand k o.flatten = .ok p) ↔
          ((Json.resolve? ["metadata", "name"] (.obj members)).isSome ∨
            (Json.resolve? ["metadata", "generateName"] (.obj members)).isSome) ∧
          ∀ path ∈ k.demands, Json.Holds path members) ∧
        ∀ p, expand k o.flatten = .ok p → p.encode = .obj members) ∧
    (∀ s i, Text.int32? s = some i ↔ Text.Denotes s i.toInt) ∧
    ∀ t p, t.WellFormed → expand k t = .ok p → expand k p.flatten = .ok p := by
  refine ⟨⟨k.fields.wellFormed_encode o, o.decode?_encode⟩, fun v hv hread => ?_,
    fun s i => Text.int32?_eq_some, fun t p ht hp => expand_flatten_of_expand ht hp⟩
  · refine ⟨k.fields.encode o.configured, apply_excerpt hv hread, ?_, fun p hp => ?_⟩
    · have hname : o.configured.Named ↔ o.Named := named_configured o
      have hcomplete : o.configured.Complete ↔ o.Complete := k.fields.complete_configured o
      rw [named_iff] at hname
      rw [complete_iff] at hcomplete
      refine Iff.trans ?_ (and_congr hname hcomplete).symm
      constructor
      · rintro ⟨p, hp⟩
        exact ((expand_flatten_iff o p).1 hp).1
      · rintro ⟨hname, hcomplete⟩
        exact ⟨o.configured, expand_flatten_configured hname hcomplete⟩
    · obtain ⟨-, rfl⟩ := (expand_flatten_iff o p).1 hp
      rfl

/-- An ingress that the store knows. One port has a number beside its name, one has a numeral for
a name, and one has neither. -/
def liveIngress : Json :=
  let backend (port : List (String × Json)) : Json :=
    .obj [("service", .obj [("name", .str "web"), ("port", .obj port)])]
  .obj [
    ("kind", .str "Ingress"),
    ("metadata", .obj [("name", .str "front"), ("uid", .str "7")]),
    ("spec", .obj [
      ("defaultBackend", backend [("name", .str "http"), ("number", .int 80)]),
      ("rules", .arr [
        .obj [("http", .obj [("paths", .arr [
          .obj [("backend", backend [("name", .str "+8080")]), ("path", .str "/")],
          .obj [("backend", backend []), ("pathType", .str "Exact")]])])]])]),
    ("zone", .str "west")]

/-- The members that an expanded ingress takes over from it. -/
def takenOver : List (String × Json) := [
  ("apiVersion", .str "networking.k8s.io/v1"),
  ("kind", .str "Ingress"),
  ("metadata", .obj [("name", .str "front")]),
  ("spec", .obj [
    ("defaultBackend", .obj [("service", .obj [
      ("name", .str "web"), ("port", .obj [("number", .int 80)])])]),
    ("rules", .arr [
      .obj [("http", .obj [("paths", .arr [
        .obj [
          ("backend", .obj [("service", .obj [
            ("name", .str "web"), ("port", .obj [("number", .int 8080)])])]),
          ("path", .str "/"),
          ("pathType", .str "")],
        .obj [
          ("backend", .obj [("service", .obj [("name", .str "web")])]),
          ("pathType", .str "Exact")]])])]])])]

theorem expand_flatten_liveIngress :
    liveIngress.WellFormed ∧ ∃ o p, decode? .ingress liveIngress = some o ∧
      expand .ingress o.flatten = .ok p ∧ p.encode = .obj takenOver := by
  have hv : liveIngress.WellFormed := by decide +kernel
  obtain ⟨o, ho⟩ : ∃ o, decode? .ingress liveIngress = some o := ⟨_, rfl⟩
  have hexcerpt : (Kind.excerpt .ingress).apply liveIngress = some (.obj takenOver) := by rfl
  obtain ⟨members, hmembers, hiff, hencode⟩ := (expand_flatten .ingress o).2.1 _ hv ho
  obtain rfl : members = takenOver := by
    rw [hexcerpt] at hmembers
    exact (Json.obj.inj (Option.some.inj hmembers)).symm
  have hdemands : ∀ path ∈ Kind.demands .ingress, Json.Holds path takenOver := by
    simp [Kind.demands, Json.Holds, Json.objects, Json.members?, takenOver, Entries.get?]
  obtain ⟨p, hp⟩ := hiff.2 ⟨Or.inl rfl, hdemands⟩
  exact ⟨hv, o, p, ho, hp, hencode p hp⟩

end Object

end DesiredState
