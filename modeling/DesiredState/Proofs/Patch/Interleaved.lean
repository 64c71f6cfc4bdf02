import DesiredState.Proofs.Kind.SharedMap

/-!
Writes of others between a read and the patch that follows from it.
A patch is computed from the document that was read and applied to the one that
is there by then. Others may have added labels and annotations in between. The
patch succeeds all the same, and what it does not set survives it, unless there
was no map to read and the desired one is added whole.
-/
namespace DesiredState

open Json (entries? resolve? Revised Revisions)

namespace Json

/-- Later entries have all that earlier ones had. -/
structure Grown (earlier later : Option Json) : Prop where
  present : earlier.isSome → later.isSome
  kept : ∃ es ls, entries? earlier = some es ∧ entries? later = some ls ∧
    ∀ key x, Entries.get? es key = some x → Entries.get? ls key = some x

theorem Grown.covers {earlier later : Option Json} (h : Grown earlier later) {r : Rule}
    (hkeyed : r.comparison ≠ .whole) : r.Covers earlier later := by
  refine ⟨h.present, fun hwhole => absurd hwhole hkeyed, ?_⟩
  rintro _ ps rfl
  obtain ⟨es, ls, hes, hls, hkept⟩ := h.kept
  cases hes
  have hlater : later ≠ none := by
    intro hnone
    have hpresent := h.present rfl
    simp [hnone] at hpresent
  rcases entries?_eq_some.1 hls with ⟨hnone, -⟩ | hobj
  · exact absurd hnone hlater
  · refine ⟨ls, hobj, fun key hkey => ?_⟩
    obtain ⟨x, hx⟩ := Entries.contains_iff.1 hkey
    exact Entries.contains_iff.2 ⟨x, hkept key x hx⟩

/-- The entries of an object are found one token below it. -/
theorem resolve?_of_entries? {path : List String} {v : Json} {es : List (String × Json)}
    (h : entries? (resolve? path v) = some es) (key : String) :
    resolve? (path ++ [key]) v = Entries.get? es key := by
  rw [resolve?_append]
  rcases entries?_eq_some.1 h with ⟨hnone, rfl⟩ | hobj
  · rw [hnone]
    rfl
  · rw [hobj, Option.bind_some, resolve?_singleton]

end Json

namespace Rule

open Json (Grown)

/-- Going key by key, a rule leaves the keys alone that it neither sets nor drops, and no key that
is desired is missing afterwards. -/
theorem get?_keyOutcome (r : Rule) {p d x : Option Json} {ds : List (String × Json)}
    (hgrown : Grown p x) (hds : entries? d = some ds) (hsorted : Entries.Sorted ds)
    (hbykey : p.isSome ∨ ds = []) :
    ∃ ps xs ws, entries? p = some ps ∧ entries? x = some xs ∧
      entries? (r.keyOutcome p d x) = some ws ∧
      (∀ key, Entries.get? ds key = none →
        (Entries.contains ps key && r.drops ds key) = false →
        Entries.get? ws key = Entries.get? xs key) ∧
      ∀ key, (Entries.get? ds key).isSome → (Entries.get? ws key).isSome := by
  obtain ⟨ps, xs, hps, hxs, hkept⟩ := hgrown.kept
  have hgiven := Json.getD_members?_of_entries? hds
  refine ⟨ps, xs, ?_⟩
  rcases Json.entries?_eq_some.1 hps with ⟨rfl, rfl⟩ | rfl
  · -- There was no map, so nothing is desired and nothing changes.
    obtain rfl : ds = [] := hbykey.resolve_left (by simp)
    have houtcome : r.keyOutcome none d x = x := by
      rcases Json.entries?_eq_some.1 hds with ⟨rfl, -⟩ | rfl <;> rfl
    exact ⟨xs, rfl, hxs, by rw [houtcome, hxs], fun _ _ _ => rfl, fun _ hkey => by cases hkey⟩
  · obtain rfl : x = some (.obj xs) := by
      rcases Json.entries?_eq_some.1 hxs with ⟨rfl, -⟩ | hobj
      · exact absurd (hgrown.present rfl) (by simp)
      · exact hobj
    have hws : entries? (r.keyOutcome (some (.obj ps)) d (some (.obj xs))) =
        some (r.swept ds ps (written ps ds xs)) := by
      rw [← hgiven]
      rfl
    refine ⟨_, rfl, hxs, hws, ?_, ?_⟩
    · intro key hdesired hkeeps
      rw [get?_swept, hkeeps, get?_written hsorted, hdesired]
      rfl
    · intro key hdesired
      obtain ⟨e, he⟩ := Option.isSome_iff_exists.1 hdesired
      have hkeeps : r.drops ds key = false := by simp [drops, Entries.contains, he]
      rw [get?_swept, hkeeps, Bool.and_false, get?_written hsorted, he]
      by_cases hsame : (Entries.get? ps key == some e) = true
      · obtain ⟨x, hx⟩ : ∃ x, Entries.get? ps key = some x := by
          cases hx : Entries.get? ps key with
          | none => simp [hx] at hsame
          | some x => exact ⟨x, rfl⟩
        simp [hsame, hkept key x hx]
      · simp [hsame]

end Rule

namespace Patch

open Json (Grown)

/-- The second document is the first one with what others have added to its shared maps. -/
def Interleaved (p v : Json) : Prop :=
  ∃ inner inner', p.member? "metadata" = some (.obj inner) ∧
    v = p.setMember "metadata" (.obj inner') ∧
    (∀ key, (∀ m : SharedMap, key ≠ m.key) → Entries.get? inner' key = Entries.get? inner key) ∧
    ∀ m : SharedMap, Grown (Entries.get? inner m.key) (Entries.get? inner' m.key)

/-- A shared map is patched key by key: it was there to be read, or nothing is desired in it. -/
def GoesByKey (m : SharedMap) (p d : Json) : Prop :=
  (resolve? m.path p).isSome ∨ ∀ key, resolve? (m.path ++ [key]) d = none

/-- What others have in a shared map of `v` is still there in `w`: keys that are new since `p` and
not desired keep their values, and no annotation that the server manages is missing. -/
structure Survives (m : SharedMap) (p d v w : Json) : Prop where
  added : ∀ key, resolve? (m.path ++ [key]) p = none → resolve? (m.path ++ [key]) d = none →
    resolve? (m.path ++ [key]) w = resolve? (m.path ++ [key]) v
  managed : m = .annotations → ∀ key, isServerManaged key →
    (resolve? (m.path ++ [key]) v).isSome → (resolve? (m.path ++ [key]) w).isSome

variable {k : Kind} {p d v w : Json}

theorem Interleaved.grown (h : Interleaved p v) (m : SharedMap) :
    Grown (resolve? m.path p) (resolve? m.path v) := by
  obtain ⟨inner, inner', hinner, rfl, -, hgrown⟩ := h
  obtain ⟨members, hmembers, hget⟩ := Option.bind_eq_some_iff.1 hinner
  obtain rfl := Json.members?_eq_some.1 hmembers
  have hp : resolve? m.path (.obj members) = Entries.get? inner m.key := by
    rw [SharedMap.path, Json.resolve?_cons, hget, Option.bind_some, Json.resolve?_singleton]
  have hv : resolve? m.path ((Json.obj members).setMember "metadata" (.obj inner')) =
      Entries.get? inner' m.key := by
    rw [SharedMap.path, Json.setMember, Json.resolve?_cons, Entries.get?_insert, if_pos rfl,
      Option.bind_some, Json.resolve?_singleton]
  rw [hp, hv]
  exact hgrown m

/-- A plan that fits what was read fits what others made of it, and finds the body unchanged. -/
theorem Interleaved.fits (h : Interleaved p v) (hfits : k.plan.Fits p) :
    k.plan.Fits v ∧ ∀ r ∈ k.bodyPlan, v.pointer? r.pointer = p.pointer? r.pointer := by
  obtain ⟨inner, inner', hinner, rfl, -⟩ := h
  obtain ⟨members, hmembers, hget⟩ := Option.bind_eq_some_iff.1 hinner
  obtain rfl := Json.members?_eq_some.1 hmembers
  have hrevised : Revised ["metadata"] (some (.obj inner')) (.obj members)
      ((Json.obj members).setMember "metadata" (.obj inner')) := Revised.of_insert _ _ _
  refine ⟨⟨?_, hfits.apart⟩, ?_⟩
  · intro r hr
    rcases Kind.mem_plan_iff.1 hr with ⟨m, rfl⟩ | hbody
    · exact ⟨["metadata"], m.key, inner', m.tokens?_rule, hrevised.slot⟩
    · obtain ⟨parents, key, parent, htokens, hparent⟩ := hfits.located r hr
      obtain ⟨parent', hparent'⟩ :=
        hrevised.parent (k.apart_metadata_bodyPlan hbody htokens) hparent
      exact ⟨parents, key, parent', htokens, hparent'⟩
  · intro r hr
    obtain ⟨parents, key, -, htokens, -⟩ := hfits.located r (Kind.mem_plan_iff.2 (Or.inr hr))
    rw [Json.pointer?_eq htokens, Json.pointer?_eq htokens]
    exact hrevised.frame _ (k.apart_metadata_bodyPlan hr htokens)

theorem Interleaved.covers (h : Interleaved p v) (hfits : k.plan.Fits p) {r : Rule}
    (hr : r ∈ k.plan) : r.Covers (p.pointer? r.pointer) (v.pointer? r.pointer) := by
  rcases Kind.mem_plan_iff.1 hr with ⟨m, rfl⟩ | hbody
  · rw [Json.pointer?_eq m.tokens?_rule, Json.pointer?_eq m.tokens?_rule]
    exact (h.grown m).covers m.comparison_rule_ne_whole
  · rw [(h.fits hfits).2 r hbody]
    exact r.covers_self _

/-- The outcome of the rule for a shared map keeps what others have in it. -/
theorem survives_of_outcome {m : SharedMap} {ds : List (String × Json)}
    (hgrown : Grown (resolve? m.path p) (resolve? m.path v))
    (hds : entries? (resolve? m.path d) = some ds) (hsorted : Entries.Sorted ds)
    (hbykey : GoesByKey m p d)
    (hw : resolve? m.path w =
      m.rule.keyOutcome (resolve? m.path p) (resolve? m.path d) (resolve? m.path v)) :
    Survives m p d v w := by
  have hd : ∀ key, resolve? (m.path ++ [key]) d = Entries.get? ds key :=
    Json.resolve?_of_entries? hds
  have hknown : (resolve? m.path p).isSome ∨ ds = [] := by
    refine hbykey.imp id fun hnone => ?_
    cases ds with
    | nil => rfl
    | cons e rest =>
      have hfirst := hd e.1
      rw [hnone, Entries.get?_of_mem hsorted List.mem_cons_self] at hfirst
      cases hfirst
  obtain ⟨ps, xs, ws, hps, hxs, hws, hkept, hset⟩ :=
    m.rule.get?_keyOutcome hgrown hds hsorted hknown
  rw [← hw] at hws
  constructor
  · intro key hp hnew
    rw [Json.resolve?_of_entries? hps] at hp
    rw [hd] at hnew
    rw [Json.resolve?_of_entries? hws, Json.resolve?_of_entries? hxs]
    exact hkept key hnew (by simp [Entries.contains, hp])
  · rintro rfl key hmanaged hthere
    rw [Json.resolve?_of_entries? hxs] at hthere
    rw [Json.resolve?_of_entries? hws]
    cases hdesired : Entries.get? ds key with
    | some e => exact hset key (by simp [hdesired])
    | none =>
      have hkeeps : SharedMap.annotations.rule.drops ds key = false := by
        simp [Rule.drops, SharedMap.rule, Kind.annotationRule, Rule.compared, hmanaged]
      rw [hkept key hdesired (by rw [hkeeps, Bool.and_false])]
      exact hthere

/-- A map that was not there to be read is added whole if anything is desired in it. -/
theorem keyOutcome_of_not_goesByKey {m : SharedMap} {ds : List (String × Json)} {x : Option Json}
    (hds : entries? (resolve? m.path d) = some ds) (h : ¬ GoesByKey m p d) :
    m.rule.keyOutcome (resolve? m.path p) (resolve? m.path d) x = resolve? m.path d := by
  obtain ⟨hp, hd⟩ := not_or.1 h
  rw [Option.not_isSome_iff_eq_none.1 hp]
  rcases Json.entries?_eq_some.1 hds with ⟨hnone, rfl⟩ | hobj
  · exact absurd (Json.resolve?_of_entries? hds) hd
  · cases ds with
    | nil => exact absurd (Json.resolve?_of_entries? hds) hd
    | cons e rest =>
      rw [hobj]
      rfl

/-- The patch between two configurations succeeds on a live document that others have written to
since. Where it goes key by key, what they wrote survives; otherwise the map is the desired one. -/
theorem applyAll_betweenTrees_of_interleaved {prior desired : Tree} (hprior : prior.WellFormed)
    (hdesired : desired.WellFormed) (hp : document k prior = .ok p)
    (hd : document k desired = .ok d) (hv : Interleaved p v) :
    ∃ patch steps w, betweenTrees k prior desired = .ok patch ∧ toSteps patch = .ok steps ∧
      applyAll steps v = some w ∧
      ∀ m : SharedMap, (GoesByKey m p d → Survives m p d v w) ∧
        (¬ GoesByKey m p d → resolve? m.path w = resolve? m.path d) := by
  obtain ⟨hwellFormed, hfits⟩ := fits_document hprior hp
  obtain ⟨hfitsLive, -⟩ := hv.fits hfits
  obtain ⟨w, hleads, hrevisions⟩ := leads_between hwellFormed d hfitsLive
    (fun r hr => hv.covers hfits hr)
  obtain ⟨steps, hsteps, happly⟩ := hleads.toSteps
  have hpatch : betweenTrees k prior desired = .ok (between p d k.plan) := by
    simp [betweenTrees, hp, hd]
  refine ⟨_, steps, w, hpatch, hsteps, happly, fun m => ?_⟩
  obtain ⟨ds, hds, hsorted⟩ := entries?_document hdesired hd m
  have hw : resolve? m.path w =
      m.rule.keyOutcome (resolve? m.path p) (resolve? m.path d) (resolve? m.path v) := by
    have houtcome := pointer?_of_revisions hfitsLive hrevisions (m.rule_mem_plan k)
      (m.isActive_rule d)
    simp only [Json.pointer?_eq m.tokens?_rule, Rule.outcome,
      if_neg m.comparison_rule_ne_whole] at houtcome
    exact houtcome
  constructor
  · intro hbykey
    exact survives_of_outcome (hv.grown m) hds hsorted hbykey hw
  · intro hwhole
    rw [hw, keyOutcome_of_not_goesByKey hds hwhole]

/-- A role with annotations, if any. -/
def annotatedTree (annotations? : Option (List (String × String))) : Tree :=
  .map [("metadata", .block (Entries.insert? "annotations"
    (annotations?.map (fun texts => .map (Entries.map .str texts))) [("name", .str "reader")]))]

def annotatedDocument (annotations? : Option (List (String × String))) : Json :=
  .obj [("apiVersion", .str "rbac.authorization.k8s.io/v1"), ("kind", .str "Role"),
    ("metadata", .obj (Entries.insert? "annotations"
      (annotations?.map (fun texts => .obj (Entries.map .str texts))) [("name", .str "reader")]))]

theorem interleaved_annotated {a : Option (List (String × String))} {b : List (String × String)}
    (h : ∀ key s, Entries.get? (a.getD []) key = some s → Entries.get? b key = some s) :
    Interleaved (annotatedDocument a) (annotatedDocument (some b)) := by
  refine ⟨_, Entries.insert? "annotations" (some (.obj (Entries.map .str b)))
    [("name", .str "reader")], rfl, rfl, ?_, ?_⟩
  · intro key hkey
    have hne : "annotations" ≠ key := Ne.symm (hkey .annotations)
    rw [Entries.get?_insert?, Entries.get?_insert?, if_neg hne, if_neg hne]
  · rintro (_ | _)
    · rw [Entries.get?_insert?, Entries.get?_insert?, if_neg (by decide), if_neg (by decide)]
      exact ⟨id, [], [], rfl, rfl, fun _ _ hx => hx⟩
    · have hhere : "annotations" = SharedMap.annotations.key := rfl
      rw [Entries.get?_insert?, Entries.get?_insert?, if_pos hhere, if_pos hhere]
      refine ⟨fun _ => rfl, Entries.map .str (a.getD []), Entries.map .str b, ?_, rfl, ?_⟩
      · cases a <;> rfl
      · intro key x hx
        rw [Entries.get?_map] at hx ⊢
        obtain ⟨s, hs, rfl⟩ := Option.map_eq_some_iff.1 hx
        rw [h key s hs]
        rfl

/-- An annotation of the server is kept where there were annotations to read. -/
theorem applyAll_betweenTrees_annotated :
    (annotatedTree (some [("team", "a")])).WellFormed ∧
    (annotatedTree (some [("team", "b")])).WellFormed ∧
    Interleaved (annotatedDocument (some [("team", "a")]))
      (annotatedDocument (some [("kubernetes.io/checked", "true"), ("team", "a")])) ∧
    ∃ patch steps w,
      betweenTrees .role (annotatedTree (some [("team", "a")]))
        (annotatedTree (some [("team", "b")])) = .ok patch ∧
      toSteps patch = .ok steps ∧
      applyAll steps (annotatedDocument
        (some [("kubernetes.io/checked", "true"), ("team", "a")])) = some w ∧
      resolve? ["metadata", "annotations", "kubernetes.io/checked"] w = some (.str "true") := by
  have hprior : (annotatedTree (some [("team", "a")])).WellFormed := by decide +kernel
  have hdesired : (annotatedTree (some [("team", "b")])).WellFormed := by decide +kernel
  have hlive : Interleaved (annotatedDocument (some [("team", "a")]))
      (annotatedDocument (some [("kubernetes.io/checked", "true"), ("team", "a")])) := by
    refine interleaved_annotated fun key s hs => ?_
    obtain ⟨rfl, rfl⟩ : "team" = key ∧ "a" = s := by simpa [Entries.get?_cons] using hs
    rfl
  obtain ⟨patch, steps, w, hpatch, hsteps, happly, hmaps⟩ :=
    applyAll_betweenTrees_of_interleaved (k := .role) hprior hdesired rfl rfl hlive
  refine ⟨hprior, hdesired, hlive, patch, steps, w, hpatch, hsteps, happly, ?_⟩
  exact ((hmaps .annotations).1 (Or.inl rfl)).added "kubernetes.io/checked" rfl rfl

/-- An annotation of the server is lost where there were none to read and some are desired. -/
theorem annotation_lost_to_whole_map :
    isServerManaged "kubernetes.io/checked" = true ∧
    (annotatedTree none).WellFormed ∧ (annotatedTree (some [("team", "a")])).WellFormed ∧
    ∃ p d v patch steps w,
      document .role (annotatedTree none) = .ok p ∧
      document .role (annotatedTree (some [("team", "a")])) = .ok d ∧ Interleaved p v ∧
      betweenTrees .role (annotatedTree none) (annotatedTree (some [("team", "a")])) =
        .ok patch ∧
      toSteps patch = .ok steps ∧ applyAll steps v = some w ∧
      resolve? ["metadata", "annotations", "kubernetes.io/checked"] p = none ∧
      resolve? ["metadata", "annotations", "kubernetes.io/checked"] d = none ∧
      resolve? ["metadata", "annotations", "kubernetes.io/checked"] v = some (.str "true") ∧
      resolve? ["metadata", "annotations", "kubernetes.io/checked"] w = none := by
  have hlive : Interleaved (annotatedDocument none)
      (annotatedDocument (some [("kubernetes.io/checked", "true")])) :=
    interleaved_annotated fun key s hs => by cases hs
  refine ⟨by decide +kernel, by decide +kernel, by decide +kernel, annotatedDocument none,
    annotatedDocument (some [("team", "a")]),
    annotatedDocument (some [("kubernetes.io/checked", "true")]), _, _,
    annotatedDocument (some [("team", "a")]), rfl, rfl, hlive, rfl, rfl, ?_, rfl, rfl, rfl, rfl⟩
  rfl

end Patch

end DesiredState
