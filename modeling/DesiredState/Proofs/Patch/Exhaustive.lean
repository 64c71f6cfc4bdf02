import DesiredState.Proofs.Kind.Address
import DesiredState.Proofs.Kind.SharedMap
import DesiredState.Proofs.Schema.Coverage
import DesiredState.Proofs.Schema.Naming

/-!
Plans lose no change.
The rules of a plan name every field that an object can be configured to have,
by the same field in a tree and in a document. So where no field asks for a new
object and the patch is empty, the desired document is contained in the
observed one, but for its identity, for empty maps and for what a controller
owns.
-/
namespace DesiredState

open Json (resolve?)

namespace Kind

/-- The rules of a plan and the identity reach every field. -/
theorem coveredBy_plan (k : Kind) :
    k.fields.coveredBy
      (identityPaths ++ k.plan.map (fun r => (Pointer.tokens? r.pointer).getD [])) = true := by
  cases k <;> decide +kernel

/-- Both names of a rule are those of one field. -/
theorem keyPath?_of_mem_plan (k : Kind) {r : Rule} (hr : r ∈ k.plan) :
    ∃ tokens, Pointer.tokens? r.pointer = some tokens ∧
      k.fields.keyPath? tokens = some (Text.split '.' r.name) ∧ r.name ≠ "" := by
  have hall : k.plan.all (fun r => !r.name.isEmpty &&
      (Pointer.tokens? r.pointer).any (fun tokens =>
        k.fields.keyPath? tokens = some (Text.split '.' r.name))) = true := by
    cases k <;> decide +kernel
  have hnames := List.all_eq_true.1 hall r hr
  rw [Bool.and_eq_true, Option.any_eq_true] at hnames
  obtain ⟨hname, tokens, htokens, hkeys⟩ := hnames
  exact ⟨tokens, htokens, by simpa using hkeys, by simpa using hname⟩

/-- Only the rules of a cluster-wide role can have an owner. -/
theorem owner_of_mem_bodyPlan (k : Kind) {r : Rule} (hr : r ∈ k.bodyPlan) :
    r.owner? = none ∨
      k = .clusterRole ∧ r.owner? = some "/aggregationRule" ∧ r.pointer = "/rules" := by
  have hall : k.bodyPlan.all (fun r => r.owner? = none ∨
      k = .clusterRole ∧ r.owner? = some "/aggregationRule" ∧ r.pointer = "/rules") = true := by
    cases k <;> decide +kernel
  exact of_decide_eq_true (List.all_eq_true.1 hall r hr)

end Kind

namespace Patch

section Empty

variable {r : Rule} {p d : Json}

/-- A desired value that does not differ is contained in the previous one. -/
theorem containedIn_of_not_differs (hd : d.WellFormed) (h : differs r d p = false) :
    d.containedIn p = true := by
  unfold differs at h
  cases hcomputed : r.computed with
  | true => simpa [hcomputed] using h
  | false =>
    have hsame : (d == p) = true := by simpa [hcomputed, bne] using h
    exact Json.containedIn_of_same d hd p hsame

theorem itemsContainedIn_of_elementOperations {i : Nat} {ps ds : List Json}
    (hds : Json.AllWellFormed ds) (hlength : ps.length = ds.length)
    (h : elementOperations r i ps ds = []) : Json.itemsContainedIn ds ps = true := by
  induction ps generalizing i ds with
  | nil =>
    cases ds with
    | nil => rfl
    | cons d ds => simp at hlength
  | cons p ps ih =>
    cases ds with
    | nil => simp at hlength
    | cons d ds =>
      have hrest : ps.length = ds.length := by simpa using hlength
      rw [elementOperations] at h
      cases hdiffers : differs r d p with
      | true => simp [hdiffers] at h
      | false =>
        have hothers : elementOperations r (i + 1) ps ds = [] := by simpa [hdiffers] using h
        rw [Json.itemsContainedIn, containedIn_of_not_differs hds.1 hdiffers,
          ih hds.2 hrest hothers]
        rfl

theorem containedIn_of_replacements (hd : d.WellFormed) (h : replacements r p d = []) :
    d.containedIn p = true := by
  cases p with
  | arr ps =>
    cases d with
    | arr ds =>
      simp only [replacements] at h
      by_cases hlength : ps.length = ds.length
      · rw [if_pos hlength] at h
        rw [Json.containedIn]
        exact itemsContainedIn_of_elementOperations hd hlength h
      · simp [hlength] at h
    | _ => cases h
  | _ => cases h

/-- Nothing desired is missing where a field as a whole needs no operation. -/
theorem containedIn_of_wholeOperations {p : Option Json} (hd : d.WellFormed)
    (h : wholeOperations r p (some d) = []) :
    ∃ y, p = some y ∧ d.containedIn y = true := by
  cases p with
  | none => cases h
  | some y =>
    refine ⟨y, rfl, ?_⟩
    simp only [wholeOperations] at h
    cases hdiffers : differs r d y with
    | false => exact containedIn_of_not_differs hd hdiffers
    | true =>
      rw [hdiffers, if_pos rfl] at h
      exact containedIn_of_replacements hd h

/-- Nothing desired is missing where the keys of a map need no operation. -/
theorem containedIn_of_keyOperations {p : Option Json} {ds : List (String × Json)}
    (hds : (Json.obj ds).WellFormed) (hne : ds ≠ [])
    (h : keyOperations r p (some (.obj ds)) = []) :
    ∃ y, p = some y ∧ (Json.obj ds).containedIn y = true := by
  unfold keyOperations at h
  cases hp : p.bind Json.members? with
  | none =>
    rw [hp] at h
    cases ds with
    | nil => exact absurd rfl hne
    | cons e rest => cases h
  | some ps =>
    obtain ⟨y, rfl, hy⟩ := Option.bind_eq_some_iff.1 hp
    obtain rfl := Json.members?_eq_some.1 hy
    refine ⟨.obj ps, rfl, ?_⟩
    rw [hp] at h
    have hchanged : changedKeys r ps ds = [] := (List.append_eq_nil_iff.1 h).1
    rw [Json.containedIn, Json.membersContainedIn_iff]
    intro e he
    have hsame : (Entries.get? ps e.1 == some e.2) = true := by
      simpa using List.filterMap_eq_nil_iff.1 hchanged e he
    cases hget : Entries.get? ps e.1 with
    | none => simp [hget] at hsame
    | some v =>
      have hwf : e.2.WellFormed := Json.membersWellFormed_iff.1 hds.2 e he
      have hve : v.same e.2 = true := by
        rw [hget] at hsame
        exact hsame
      exact ⟨v, rfl, Json.containedIn_of_same e.2 hwf v (Json.same_symm hve)⟩

/-- Nothing desired is missing where a field asks for no new object. -/
theorem containedIn_of_not_needsReplacement {previous desired : Json}
    (hdesired : desired.pointer? r.pointer = some d) (hd : d.WellFormed)
    (h : needsReplacement r previous desired = false) :
    ∃ y, previous.pointer? r.pointer = some y ∧ d.containedIn y = true := by
  unfold needsReplacement at h
  rw [hdesired] at h
  cases hp : previous.pointer? r.pointer with
  | none => simp [hp] at h
  | some y =>
    rw [hp] at h
    exact ⟨y, rfl, containedIn_of_not_differs hd h⟩

end Empty

variable {k : Kind} {s : Resource} {d o : Json}

theorem betweenTrees_eq_ok {prior desired : Tree} (ho : document k prior = .ok o)
    (hd : document k desired = .ok d) :
    betweenTrees k prior desired = .ok (between o d k.plan) := by
  simp [betweenTrees, ho, hd]

/-- An empty patch has no operations for any rule. -/
theorem ruleOperations_of_between {plan : Plan} (h : between o d plan = []) {r : Rule}
    (hr : r ∈ plan) : ruleOperations r o d = [] :=
  List.flatMap_eq_nil_iff.1 h r hr

/-- A changed field that asks for a new object would be listed. -/
theorem needsReplacement_of_replacedFields (hd : document k s.desired = .ok d)
    (ho : document k s.observed = .ok o) (h : replacedFields k s = .ok []) {r : Rule}
    (hr : r ∈ k.plan) (hforce : r.isForceNew) (hchange : s.hasChange r.name) :
    needsReplacement r o d = false := by
  have hcandidate : r ∈ k.plan.filter (fun rule => rule.isForceNew && s.hasChange rule.name) :=
    List.mem_filter.2 ⟨hr, by rw [hforce, hchange]; rfl⟩
  have hsome : (k.plan.filter
      (fun rule => rule.isForceNew && s.hasChange rule.name)).isEmpty = false := by
    rw [List.isEmpty_eq_false_iff]
    exact List.ne_nil_of_mem hcandidate
  simp only [replacedFields, hsome, ho, hd, Outcome.ok_bind, Bool.false_eq_true, if_false,
    Outcome.pure_eq_ok, Except.ok.injEq, List.map_eq_nil_iff, List.filter_eq_nil_iff] at h
  simpa using h r hcandidate

/-- A field that is the same in both trees is the same in their documents. -/
theorem pointer?_of_not_hasChange (hd : document k s.desired = .ok d)
    (ho : document k s.observed = .ok o) {r : Rule} (hr : r ∈ k.plan)
    (h : s.hasChange r.name = false) : d.pointer? r.pointer = o.pointer? r.pointer := by
  obtain ⟨v, hv, rfl⟩ := document_eq_ok.1 hd
  obtain ⟨w, hw, rfl⟩ := document_eq_ok.1 ho
  obtain ⟨entries, hentries, hexpand, -⟩ := Object.expand_iff.1 hv
  obtain ⟨entries', hentries', hexpand', -⟩ := Object.expand_iff.1 hw
  obtain ⟨tokens, htokens, hkeys, hname⟩ := k.keyPath?_of_mem_plan hr
  have hsame : s.desired.lookup? r.name = s.observed.lookup? r.name :=
    Decidable.not_not.1 (of_decide_eq_false h)
  rw [hentries, hentries', Tree.lookup?_eq_walk? hname, Tree.lookup?_eq_walk? hname] at hsame
  rw [Json.pointer?_eq htokens, Json.pointer?_eq htokens]
  exact k.fields.resolve?_encode_congr k.lawful_fields hkeys hexpand hexpand' hsame

/-- The members of a desired document that no update brings about: its identity, maps without
entries, and the rules that aggregation owns. -/
def unplannedPaths (k : Kind) (d : Json) : List (List String) :=
  identityPaths ++
    ([SharedMap.labels, .annotations].filter
      (fun m => (resolve? m.path d).any (· == .obj []))).map SharedMap.path ++
    if k = .clusterRole ∧ (d.pointer? "/aggregationRule").isSome then [["rules"]] else []

/-- A desired document as far as updates bring it about. -/
def planned (k : Kind) (d : Json) : Json := d.withoutAll (unplannedPaths k d)

theorem mem_unplannedPaths {path : List String} (h : path ∈ unplannedPaths k d) :
    (∃ key, path = ["metadata", key]) ∨
      path = ["rules"] ∧ k = .clusterRole ∧ (d.pointer? "/aggregationRule").isSome := by
  rcases List.mem_append.1 h with h | h
  · rcases List.mem_append.1 h with h | h
    · simp only [identityPaths, List.mem_cons, List.not_mem_nil, or_false] at h
      rcases h with rfl | rfl | rfl <;> exact Or.inl ⟨_, rfl⟩
    · obtain ⟨m, -, rfl⟩ := List.mem_map.1 h
      exact Or.inl ⟨m.key, rfl⟩
  · by_cases hrules : k = .clusterRole ∧ (d.pointer? "/aggregationRule").isSome
    · rw [if_pos hrules] at h
      exact Or.inr ⟨List.mem_singleton.1 h, hrules⟩
    · rw [if_neg hrules] at h
      cases h

theorem path_mem_unplannedPaths {m : SharedMap} (h : resolve? m.path d = some (.obj [])) :
    m.path ∈ unplannedPaths k d := by
  have hmember : m ∈ [SharedMap.labels, .annotations] := by cases m <;> simp
  have hempty : (resolve? m.path d).any (· == .obj []) = true := by
    rw [h]
    rfl
  refine List.mem_append_left _ (List.mem_append_right _ ?_)
  exact List.mem_map_of_mem (List.mem_filter.2 ⟨hmember, hempty⟩)

/-- A field with an owner in the desired document is not planned. -/
theorem mem_unplannedPaths_of_isOwned {r : Rule} (hr : r ∈ k.plan) (h : isOwned r d) :
    Pointer.tokens? r.pointer = some ["rules"] ∧ ["rules"] ∈ unplannedPaths k d := by
  have howner : r.owner? = none ∨
      k = .clusterRole ∧ r.owner? = some "/aggregationRule" ∧ r.pointer = "/rules" := by
    rcases Kind.mem_plan_iff.1 hr with ⟨m, rfl⟩ | hbody
    · cases m <;> exact Or.inl rfl
    · exact k.owner_of_mem_bodyPlan hbody
  unfold isOwned at h
  rcases howner with hnone | ⟨hkind, howner, hpointer⟩
  · simp [hnone] at h
  · rw [howner] at h
    have hrules : Pointer.tokens? "/rules" = some ["rules"] := by decide +kernel
    refine ⟨hpointer ▸ hrules, List.mem_append_right _ ?_⟩
    rw [if_pos ⟨hkind, h⟩]
    exact List.mem_cons_self

/-- The document of a tree is an object, and so are its metadata. -/
theorem byMembers_document {t : Tree} (hd : document k t = .ok d) {path : List String}
    (h : path ∈ unplannedPaths k d) :
    path ≠ [] ∧ Json.ByMembers path d := by
  obtain ⟨v, -, rfl⟩ := document_eq_ok.1 hd
  rcases mem_unplannedPaths h with ⟨key, rfl⟩ | ⟨rfl, -⟩
  · refine ⟨by simp, k.fields.encode v, rfl, fun c hc => ?_⟩
    rw [v.get?_metadata] at hc
    cases hc
    exact ⟨_, rfl, fun _ _ => trivial⟩
  · exact ⟨by simp, k.fields.encode v, rfl, fun _ _ => trivial⟩

/-- Where nothing asks for a new object and the patch is empty, what is desired of a planned field
is contained in what was observed of it. -/
theorem containedIn_of_unchanged (hdesired : s.desired.WellFormed)
    (hd : document k s.desired = .ok d) (ho : document k s.observed = .ok o)
    (hreplaced : replacedFields k s = .ok []) (hpatch : between o d k.plan = []) {r : Rule}
    (hr : r ∈ k.plan) {tokens : List String} (htokens : Pointer.tokens? r.pointer = some tokens)
    (hplanned : tokens ∉ unplannedPaths k d) {x : Json} (hx : d.pointer? r.pointer = some x) :
    ∃ y, o.pointer? r.pointer = some y ∧ x.containedIn y = true := by
  obtain ⟨hwf, -⟩ := fits_document hdesired hd
  have hxwf : x.WellFormed := hwf.pointer? hx
  cases hforce : r.isForceNew with
  | true =>
    cases hchange : s.hasChange r.name with
    | true =>
      have hkept := needsReplacement_of_replacedFields hd ho hreplaced hr hforce hchange
      exact containedIn_of_not_needsReplacement hx hxwf hkept
    | false =>
      have hsame := pointer?_of_not_hasChange hd ho hr hchange
      exact ⟨x, hsame ▸ hx, Json.containedIn_refl x hxwf⟩
  | false =>
    have howned : isOwned r d = false := by
      cases howned : isOwned r d with
      | false => rfl
      | true =>
        obtain ⟨hrules, hmem⟩ := mem_unplannedPaths_of_isOwned hr howned
        rw [htokens] at hrules
        cases hrules
        exact absurd hmem hplanned
    have hnone := ruleOperations_of_between hpatch hr
    have hskip : (r.isForceNew || isOwned r d) = false := by simp [hforce, howned]
    simp only [ruleOperations, hskip, hx, Bool.false_eq_true, if_false] at hnone
    rcases Kind.mem_plan_iff.1 hr with ⟨m, rfl⟩ | hbody
    · rw [if_neg m.comparison_rule_ne_whole] at hnone
      have hpath : resolve? m.path d = some x := by
        rw [← Json.pointer?_eq m.tokens?_rule]
        exact hx
      obtain ⟨ds, hds, -⟩ := entries?_document hdesired hd m
      obtain rfl : x = .obj ds := by
        rw [hpath] at hds
        rcases Json.entries?_eq_some.1 hds with ⟨hno, -⟩ | hobj
        · cases hno
        · exact Option.some.inj hobj
      have hne : ds ≠ [] := by
        rintro rfl
        rw [m.tokens?_rule] at htokens
        cases htokens
        exact hplanned (path_mem_unplannedPaths hpath)
      exact containedIn_of_keyOperations hxwf hne hnone
    · rw [if_pos (k.comparison_of_mem_bodyPlan hbody)] at hnone
      exact containedIn_of_wholeOperations hxwf hnone

/-- A field of the body that has no owner is planned. -/
theorem apart_unplannedPaths {r : Rule} (hr : r ∈ k.bodyPlan) (howned : isOwned r d = false)
    {tokens : List String} (htokens : Pointer.tokens? r.pointer = some tokens) :
    ∀ path ∈ unplannedPaths k d, Apart path tokens := by
  intro path hpath
  rcases mem_unplannedPaths hpath with ⟨key, rfl⟩ | ⟨rfl, rfl, haggregated⟩
  · have hmetadata := k.apart_metadata_bodyPlan hr htokens
    exact hmetadata.of_prefix (List.prefix_append ["metadata"] [key])
  · rcases List.mem_cons.1 hr with rfl | hr
    · have hrules : isOwned ((Rule.mutable "rule" "/rules").ownedBy "/aggregationRule") d = true :=
        haggregated
      rw [hrules] at howned
      cases howned
    · obtain rfl := List.mem_singleton.1 hr
      obtain rfl : tokens = ["aggregationRule"] := by
        have haggregation : Pointer.tokens? "/aggregationRule" = some ["aggregationRule"] := by
          decide +kernel
        exact (Option.some.inj (haggregation.symm.trans htokens)).symm
      unfold Apart
      decide

/-- What is planned at the path of a rule is contained in what was observed there, and nothing is
planned at the identity. -/
theorem containedIn_of_planned (hdesired : s.desired.WellFormed)
    (hd : document k s.desired = .ok d) (ho : document k s.observed = .ok o)
    (hreplaced : replacedFields k s = .ok []) (hpatch : between o d k.plan = [])
    {path : List String}
    (hpath : path ∈ identityPaths ++ k.plan.map (fun r => (Pointer.tokens? r.pointer).getD []))
    {z : Json} (hz : resolve? path (planned k d) = some z) :
    ∃ y, resolve? path o = some y ∧ z.containedIn y = true := by
  obtain ⟨hdwf, -⟩ := fits_document hdesired hd
  obtain ⟨-, hinside⟩ := Json.containedIn_withoutAll hdwf (unplannedPaths k d)
  have hplanned : path ∉ unplannedPaths k d := by
    intro hmem
    have hgone : resolve? path (planned k d) = none :=
      Json.resolve?_withoutAll hdwf (fun _ h => byMembers_document hd h) hmem
    rw [hgone] at hz
    cases hz
  rcases List.mem_append.1 hpath with hidentity | hrule
  · exact absurd (List.mem_append_left _ (List.mem_append_left _ hidentity)) hplanned
  · obtain ⟨r, hr, rfl⟩ := List.mem_map.1 hrule
    obtain ⟨tokens, htokens, -⟩ := k.keyPath?_of_mem_plan hr
    rw [htokens, Option.getD_some] at hz hplanned ⊢
    obtain ⟨x, hx, hzx⟩ := Json.containedIn_resolve? hinside hz
    rw [← Json.pointer?_eq htokens] at hx ⊢
    obtain ⟨y, hy, hxy⟩ :=
      containedIn_of_unchanged hdesired hd ho hreplaced hpatch hr htokens hplanned hx
    exact ⟨y, hy, Json.containedIn_trans z hzx hxy⟩

/-- A planned document is contained in an observed one as soon as this is so at the paths of the
plan. -/
theorem planned_containedIn_of_paths (hdesired : s.desired.WellFormed)
    (hobserved : s.observed.WellFormed) (hd : document k s.desired = .ok d)
    (ho : document k s.observed = .ok o)
    (hpaths : ∀ path ∈ identityPaths ++
      k.plan.map (fun r => (Pointer.tokens? r.pointer).getD []), ∀ z,
      resolve? path (planned k d) = some z →
      ∃ y, resolve? path o = some y ∧ z.containedIn y = true) :
    (planned k d).containedIn o = true := by
  obtain ⟨hdwf, -⟩ := fits_document hdesired hd
  obtain ⟨hwf, hinside⟩ := Json.containedIn_withoutAll hdwf (unplannedPaths k d)
  obtain ⟨v, hv, rfl⟩ := document_eq_ok.1 hd
  obtain ⟨w, hw, rfl⟩ := document_eq_ok.1 ho
  obtain ⟨-, -, hvconfigured, -⟩ := Object.settled_of_expand hdesired hv
  obtain ⟨-, hwcomplete, -, -⟩ := Object.settled_of_expand hobserved hw
  unfold planned at hpaths ⊢
  obtain ⟨ds, hds⟩ := Json.eq_obj_of_containedIn_obj hinside
  rw [hds] at hwf hinside hpaths ⊢
  have hmembers : ∀ e ∈ ds, ∃ u, Entries.get? (k.fields.encode v) e.1 = some u ∧
      e.2.containedIn u = true := Json.membersContainedIn_iff.1 hinside
  refine Json.membersContainedIn_iff.2 fun e he => ?_
  obtain ⟨u, hu, heu⟩ := hmembers e he
  have hgiven : Entries.get? ds e.1 = some e.2 := Entries.get?_of_mem hwf.1 he
  refine k.fields.containedIn_of_coveredBy k.lawful_fields k.coveredBy_plan hvconfigured
    hwcomplete hu (Json.membersWellFormed_iff.1 hwf.2 e he) heu fun path hpath z hz => ?_
  refine hpaths (e.1 :: path) hpath z ?_
  rw [Json.resolve?_cons, hgiven]
  exact hz

/-- An empty patch leaves no field that is to be removed. -/
theorem pointer?_eq_none_of_unchanged (hpatch : between o d k.plan = []) {r : Rule}
    (hr : r ∈ k.plan) (hmutable : r.policy = .mutable) (hcomputed : r.computed = false)
    (howned : isOwned r d = false) (hwhole : r.comparison = .whole)
    (habsent : d.pointer? r.pointer = none) : o.pointer? r.pointer = none := by
  have hoperations := ruleOperations_of_between hpatch hr
  have hskip : (r.isForceNew || isOwned r d) = false := by
    simp [Rule.isForceNew, hmutable, howned]
  simp only [ruleOperations, hskip, habsent, Bool.false_eq_true, if_false, if_pos hwhole]
    at hoperations
  cases hthere : o.pointer? r.pointer with
  | none => rfl
  | some y => simp [hthere, wholeOperations, hcomputed] at hoperations

/-- Where no field asks for a new object and the patch is empty, all that is planned of the desired
document is contained in the observed one, and no planned field that would be removed is left. -/
theorem planned_containedIn_of_no_change (hdesired : s.desired.WellFormed)
    (hobserved : s.observed.WellFormed) (hd : document k s.desired = .ok d)
    (ho : document k s.observed = .ok o) (hreplaced : replacedFields k s = .ok [])
    (hpatch : betweenTrees k s.observed s.desired = .ok []) :
    (planned k d).containedIn o = true ∧
    ∀ r ∈ k.plan, r.policy = .mutable → r.computed = false → isOwned r d = false →
      r.comparison = .whole → (planned k d).pointer? r.pointer = none →
      o.pointer? r.pointer = none := by
  have hnone : between o d k.plan = [] := by
    rw [betweenTrees_eq_ok ho hd] at hpatch
    exact Except.ok.inj hpatch
  constructor
  · exact planned_containedIn_of_paths hdesired hobserved hd ho fun path hpath z hz =>
      containedIn_of_planned hdesired hd ho hreplaced hnone hpath hz
  · intro r hr hmutable hcomputed howned hwhole habsent
    have hbody : r ∈ k.bodyPlan := by
      rcases Kind.mem_plan_iff.1 hr with ⟨m, rfl⟩ | hbody
      · exact absurd hwhole m.comparison_rule_ne_whole
      · exact hbody
    obtain ⟨tokens, htokens, -⟩ := k.keyPath?_of_mem_plan hr
    have hgiven : d.pointer? r.pointer = none := by
      rw [Json.pointer?_eq htokens, planned,
        Json.resolve?_withoutAll_of_apart (apart_unplannedPaths hbody howned htokens)] at habsent
      rw [Json.pointer?_eq htokens]
      exact habsent
    exact pointer?_eq_none_of_unchanged hnone hr hmutable hcomputed howned hwhole hgiven

/-- A role whose rules are aggregated; a map of labels without any is no label to bring about. -/
def aggregatedEntries (labels? : Option Tree) : List (String × Tree) :=
  [("aggregation_rule", .block [("cluster_role_selectors",
      .list [.map [("match_labels", .map [("group", .str "monitoring")])]])]),
    ("metadata", .block (Entries.insert? "labels" labels? [("name", .str "monitoring")]))]

def aggregatedResource : Resource where
  id? := some "monitoring"
  desired := .map (aggregatedEntries (some (.map [])))
  seen := aggregatedEntries none ++ [("rule", .list [.map [("verbs", .set ["get"])]])]
  sorted := by decide +kernel

theorem planned_containedIn_aggregatedResource :
    aggregatedResource.desired.WellFormed ∧ aggregatedResource.observed.WellFormed ∧
    replacedFields .clusterRole aggregatedResource = .ok [] ∧
    betweenTrees .clusterRole aggregatedResource.observed aggregatedResource.desired = .ok [] ∧
    ∃ d o, document .clusterRole aggregatedResource.desired = .ok d ∧
      document .clusterRole aggregatedResource.observed = .ok o ∧
      d.containedIn o = false ∧ (planned .clusterRole d).containedIn o = true := by
  have hdesired : aggregatedResource.desired.WellFormed := by decide +kernel
  have hobserved : aggregatedResource.observed.WellFormed := by decide +kernel
  obtain ⟨d, hd⟩ : ∃ d, document .clusterRole aggregatedResource.desired = .ok d := ⟨_, rfl⟩
  obtain ⟨o, ho⟩ : ∃ o, document .clusterRole aggregatedResource.observed = .ok o := ⟨_, rfl⟩
  have hcontained := planned_containedIn_of_no_change hdesired hobserved hd ho rfl rfl
  refine ⟨hdesired, hobserved, rfl, rfl, d, o, hd, ho, ?_, hcontained.1⟩
  cases hd
  cases ho
  decide +kernel

end Patch

end DesiredState
