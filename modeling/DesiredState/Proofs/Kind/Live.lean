import DesiredState.Proofs.Patch.Correct
import DesiredState.Proofs.Patch.Reflected

/-!
Live documents.
A live document reads as an object of its kind, with a name and nothing missing.
Revising it at the place of a field leaves it live and revises what is
configured of its object at the same place. So the patch that is computed from
the object can be applied to the document, and what it reads as then needs no
further patch.
-/
namespace DesiredState

open Schema
open Json (Revised Revisions resolve?)

namespace Object

variable {k : Kind} {o : Object k} {v w : Json}

theorem resolve?_metadata (o : Object k) (key : String) :
    resolve? ["metadata", key] o.encode = Entries.get? (Schema.metadata.encode o.metadata) key := by
  change resolve? ["metadata", key] (.obj (k.fields.encode o)) = _
  rw [Json.resolve?_cons, o.get?_metadata, Option.bind_some, Json.resolve?_singleton]

theorem get?_name (m : Metadata) :
    Entries.get? (Schema.metadata.encode m) "name" = m.name?.map Json.str :=
  Fields.get?_encode_cons (by decide) _ _

theorem get?_generateName (m : Metadata) :
    Entries.get? (Schema.metadata.encode m) "generateName" = m.generateName?.map Json.str := by
  refine (Fields.get?_encode_rest _ _ (by decide)).trans ?_
  exact Fields.get?_encode_cons (by decide) _ _

theorem resolve?_name (o : Object k) :
    resolve? ["metadata", "name"] o.encode = o.metadata.name?.map Json.str := by
  rw [resolve?_metadata, get?_name]

/-- Whether there is a name can be seen in the document. -/
theorem named_iff (o : Object k) :
    o.Named ↔ (resolve? ["metadata", "name"] o.encode).isSome ∨
      (resolve? ["metadata", "generateName"] o.encode).isSome := by
  rw [o.resolve?_name, o.resolve?_metadata, get?_generateName, Option.isSome_map,
    Option.isSome_map]
  rfl

/-- What is configured of a complete object is complete and all configured. -/
theorem settled_configured (hname : o.Named) (hcomplete : o.Complete) :
    o.configured.Complete ∧ o.configured.configured = o.configured := by
  have hexpand := expand_flatten_configured hname hcomplete
  obtain ⟨-, hcomplete, hconfigured, -⟩ := settled_of_expand o.wellFormed_flatten hexpand
  exact ⟨hcomplete, hconfigured⟩

theorem decode?_encode (o : Object k) : decode? k o.encode = some o :=
  k.fields.decode_encode k.lawful_fields o

/-- A document that reads as an object with a name and nothing missing. -/
structure Reads (v : Json) (o : Object k) : Prop where
  decoded : decode? k v = some o
  named : o.Named
  complete : o.Complete

theorem follows_of_decode (hdecode : decode? k v = some o) (hcomplete : o.Complete)
    {path : List String} {place : Place} (hplace : k.fields.place? path = some place)
    {parent : List (String × Json)} (hparent : resolve? path.dropLast v = some (.obj parent)) :
    ∃ members, v = .obj members ∧ k.fields.Follows path place members o := by
  obtain ⟨members, hmembers, hfields⟩ := Option.bind_eq_some_iff.1 hdecode
  obtain rfl := Json.members?_eq_some.1 hmembers
  exact ⟨members, rfl, k.fields.follows_of_place? k.lawful_fields hplace hfields hcomplete hparent⟩

/-- A document and what is configured of its object are revised together. -/
theorem revised_of_reflects (hdecode : decode? k v = some o) (hcomplete : o.Complete)
    {path : List String} {place : Place} (hplace : k.fields.place? path = some place)
    {parent : List (String × Json)} (hparent : resolve? path.dropLast v = some (.obj parent))
    {x y : Option Json} (hreflects : place.Reflects x y) (h : Revised path x v w) :
    ∃ o' : Object k, decode? k w = some o' ∧ o'.Complete ∧
      Revised path y o.configured.encode o'.configured.encode := by
  obtain ⟨members, rfl, hfollows⟩ := follows_of_decode hdecode hcomplete hplace hparent
  have hpath : [] ≠ path := by
    rintro rfl
    rw [Fields.place?_nil] at hplace
    cases hplace
  obtain ⟨members', hw⟩ := h.above [] members List.nil_prefix hpath rfl
  obtain rfl : w = .obj members' := Option.some.inj hw
  exact hfollows.revised x y members' hreflects h

end Object

/-- Two revisions of one field, the first one of a document and the second one of what is read off
it. -/
def Kind.Agree (k : Kind) (a b : List String × Option Json) : Prop :=
  a.1 = b.1 ∧ ∃ place, k.fields.place? a.1 = some place ∧ place.Reflects a.2 b.2

namespace Object

variable {k : Kind} {o : Object k} {v w : Json}

theorem revisions_of_agree {as bs : List (List String × Option Json)}
    (hagree : List.Forall₂ k.Agree as bs) (hapart : as.Pairwise (fun a b => Apart a.1 b.1))
    (hparents : ∀ a ∈ as, ∃ parent, resolve? a.1.dropLast v = some (.obj parent))
    (hdecode : decode? k v = some o) (hcomplete : o.Complete) (h : Revisions as v w) :
    ∃ o' : Object k, decode? k w = some o' ∧ o'.Complete ∧
      Revisions bs o.configured.encode o'.configured.encode := by
  induction hagree generalizing v o with
  | nil =>
    obtain rfl : w = v := h
    exact ⟨o, hdecode, hcomplete, rfl⟩
  | @cons a b as bs hab hrest ih =>
    obtain ⟨u, hfirst, hothers⟩ := h
    obtain ⟨hhead, htail⟩ := List.pairwise_cons.1 hapart
    obtain ⟨hpath, place, hplace, hreflects⟩ := hab
    obtain ⟨parent, hparent⟩ := hparents a List.mem_cons_self
    obtain ⟨o₁, hdecode₁, hcomplete₁, hrevised⟩ :=
      revised_of_reflects hdecode hcomplete hplace hparent hreflects hfirst
    have hparents₁ : ∀ c ∈ as, ∃ parent, resolve? c.1.dropLast u = some (.obj parent) := by
      intro c hc
      obtain ⟨parent, hparent⟩ := hparents c (List.mem_cons_of_mem _ hc)
      have hapart := hhead c hc
      rcases List.eq_nil_or_concat' c.1 with hnil | ⟨parents, key, hconcat⟩
      · rw [hnil] at hapart
        exact absurd List.nil_prefix hapart.2
      · rw [hconcat] at hapart hparent ⊢
        rw [List.dropLast_concat] at hparent ⊢
        exact hfirst.parent hapart hparent
    obtain ⟨o', hdecode', hcomplete', hrevisions⟩ :=
      ih htail hparents₁ hdecode₁ hcomplete₁ hothers
    exact ⟨o', hdecode', hcomplete', _, hpath ▸ hrevised, hrevisions⟩

end Object

namespace Kind

open Object (Reads)

variable {k : Kind} {o : Object k} {v w : Json}

theorem wellFormed_encode (o : Object k) : o.encode.WellFormed := k.fields.wellFormed_encode o

/-- What a rule sees in a document and in what is configured of its object. -/
theorem reflects_pointer (hdecode : Object.decode? k v = some o) (hcomplete : o.Complete)
    (hfits : k.plan.Fits v) {r : Rule} (hr : r ∈ k.plan) {tokens : List String} {place : Place}
    (htokens : Pointer.tokens? r.pointer = some tokens)
    (hplace : k.fields.place? tokens = some place) :
    place.Reflects (v.pointer? r.pointer) (o.configured.encode.pointer? r.pointer) := by
  obtain ⟨parents, key, members, hlocated, hparent⟩ := hfits.located r hr
  obtain rfl : tokens = parents ++ [key] := Option.some.inj (htokens.symm.trans hlocated)
  have hparent : resolve? (parents ++ [key]).dropLast v = some (.obj members) := by
    rwa [List.dropLast_concat]
  obtain ⟨members, rfl, hfollows⟩ :=
    Object.follows_of_decode hdecode hcomplete hplace hparent
  rw [Json.pointer?_eq htokens, Json.pointer?_eq htokens]
  exact hfollows.reflects

theorem present_pointer (hcomplete : o.Complete) (hcontained : o.encode.containedIn v = true)
    {r : Rule} {tokens : List String} {place : Place}
    (htokens : Pointer.tokens? r.pointer = some tokens)
    (hplace : k.fields.place? tokens = some place)
    (hreflects : place.Reflects (v.pointer? r.pointer) (o.configured.encode.pointer? r.pointer)) :
    Rule.Present (o.configured.encode.pointer? r.pointer) (v.pointer? r.pointer) := by
  refine Rule.present_of_reflects hreflects fun hfilled => ?_
  obtain ⟨-, held, -, hvalue⟩ := k.fields.resolve?_encode k.lawful_fields hplace o hcomplete
  obtain ⟨z, hz⟩ := Presence.sent_filled hfilled held
  rw [hz] at hvalue
  obtain ⟨u, hu, hinside⟩ := Json.containedIn_resolve? hcontained hvalue
  rw [Json.pointer?_eq htokens]
  exact ⟨u, hu, Json.isNull_of_containedIn hinside (place.shape.isNull_encode z)⟩

/-- A field that is compared by keys holds an object. -/
theorem entries?_pointer (hcomplete : o.Complete) {r : Rule} (hr : r ∈ k.plan)
    (hkeyed : r.comparison ≠ .whole) :
    ∃ members, Json.entries? (o.encode.pointer? r.pointer) = some members ∧
      Entries.Sorted members := by
  obtain ⟨parents, key, place, htokens, hplace, hsuits⟩ := k.place_of_mem_plan hr
  obtain ⟨-, held, -, hvalue⟩ := k.fields.resolve?_encode k.lawful_fields hplace o hcomplete
  obtain ⟨presence, shape⟩ := place
  obtain rfl : shape = .leaf .textMap := (Rule.suits_iff.1 hsuits).2.2 hkeyed
  rw [Json.pointer?_eq htokens]
  have hvalue' : Json.resolve? (parents ++ [key]) o.encode = _ := hvalue
  rw [hvalue']
  cases hsent : presence.sent held with
  | none => exact ⟨[], rfl, Entries.sorted_nil⟩
  | some m =>
    have hsorted := (Leaf.wellFormed_encode .textMap m).1
    exact ⟨_, rfl, hsorted⟩

/-- The places of what a name is made of. -/
def namePlaces : List (List String) := [["metadata", "name"], ["metadata", "generateName"]]

/-- The places that a store writes by itself. -/
def storePlaces : List (List String) := [["metadata", "resourceVersion"], ["status"]]

theorem apart_plan_places (k : Kind) : ∀ r ∈ k.plan, ∀ place ∈ namePlaces ++ storePlaces,
    Apart ((Pointer.tokens? r.pointer).getD []) place := by
  unfold Apart
  cases k <;> decide +kernel

theorem apart_storePlaces : ∀ a ∈ storePlaces, ∀ b ∈ namePlaces, Apart a b := by
  unfold Apart
  decide

end Kind

namespace Object

variable {k : Kind} {o d : Object k} {v w : Json}

/-- Revisions away from the names leave a name in place. -/
theorem named_of_frame {o' : Object k} (hname : o.Named)
    (hframe : ∀ place ∈ Kind.namePlaces,
      resolve? place o'.configured.encode = resolve? place o.configured.encode) : o'.Named := by
  rw [← named_configured, named_iff] at hname ⊢
  rwa [hframe ["metadata", "name"] (by decide), hframe ["metadata", "generateName"] (by decide)]

theorem Reads.fits (h : Reads v o) (hcontained : o.encode.containedIn v = true) :
    k.plan.Fits v :=
  (k.fits_encode o h.complete).of_containedIn hcontained

/-- What a rule sees in a live document covers what it sees in its object. -/
theorem Reads.covers (h : Reads v o) (hv : v.WellFormed)
    (hcontained : o.encode.containedIn v = true) {r : Rule} (hr : r ∈ k.plan) :
    r.Covers (o.configured.encode.pointer? r.pointer) (v.pointer? r.pointer) := by
  obtain ⟨parents, key, place, htokens, hplace, hsuits⟩ := k.place_of_mem_plan hr
  have hx := Kind.reflects_pointer h.decoded h.complete (h.fits hcontained) hr htokens hplace
  have hpresent := Kind.present_pointer h.complete hcontained htokens hplace hx
  exact Rule.covers_of_reflects hsuits hx (fun u hu => hv.pointer? hu) hpresent

/-- A patch revises a live document and what is configured of its object alike. -/
theorem Reads.agree (h : Reads v o) (hv : v.WellFormed)
    (hcontained : o.encode.containedIn v = true) (hcomplete : d.Complete)
    (hconfigured : d.configured = d) :
    List.Forall₂ k.Agree (k.plan.revisions o.configured.encode d.encode v)
      (k.plan.revisions o.configured.encode d.encode o.configured.encode) := by
  unfold Plan.revisions
  rw [List.forall₂_map_left_iff, List.forall₂_map_right_iff, List.forall₂_same]
  intro r hr
  have hr := List.mem_of_mem_filter hr
  have hd := Kind.wellFormed_encode d
  obtain ⟨parents, key, place, htokens, hplace, hsuits⟩ := k.place_of_mem_plan hr
  have hx := Kind.reflects_pointer h.decoded h.complete (h.fits hcontained) hr htokens hplace
  have hpresent := Kind.present_pointer h.complete hcontained htokens hplace hx
  have hdesired := Kind.reflects_pointer d.decode?_encode hcomplete
    (k.fits_encode d hcomplete) hr htokens hplace
  rw [hconfigured] at hdesired
  rw [htokens, Option.getD_some]
  exact ⟨rfl, place, hplace, Rule.reflects_outcome hsuits hx hdesired
    (fun u hu => hv.pointer? hu) (fun u hu => hd.pointer? hu) hpresent⟩

/-- Once the outcomes of all active rules are in place, no rule has anything to do. -/
theorem between_of_revisions (hcomplete : o.Complete) (hdcomplete : d.Complete)
    (h : Revisions (k.plan.revisions o.encode d.encode o.encode) o.encode w) :
    Patch.between w d.encode k.plan = [] := by
  have ho := Kind.wellFormed_encode o
  have hd := Kind.wellFormed_encode d
  refine List.flatMap_eq_nil_iff.2 fun r hr => ?_
  cases hactive : r.isActive d.encode with
  | false => exact Patch.ruleOperations_of_not_isActive hactive _
  | true =>
    refine Patch.ruleOperations_of_meets (p := o.encode.pointer? r.pointer) ?_ ?_
    · rw [Patch.pointer?_of_revisions (k.fits_encode o hcomplete) h hr hactive]
      exact Rule.meets_outcome (fun u hu => ho.pointer? hu) (fun u hu => hd.pointer? hu)
    · intro hkeyed
      obtain ⟨ps, hps, -⟩ := Kind.entries?_pointer hcomplete hr hkeyed
      obtain ⟨ds, hds, hsorted⟩ := Kind.entries?_pointer hdcomplete hr hkeyed
      exact ⟨ps, ds, hps, hds, hsorted⟩

/-- A patch that is computed from what is configured of an object can be applied to its live
document, which then needs no further one. -/
theorem Reads.patched (h : Reads v o) (hv : v.WellFormed)
    (hcontained : o.encode.containedIn v = true) (hcomplete : d.Complete)
    (hconfigured : d.configured = d) :
    ∃ (w : Json) (o' : Object k),
      Patch.Leads (Patch.between o.configured.encode d.encode k.plan) v w ∧ Reads w o' ∧
      Patch.between o'.configured.encode d.encode k.plan = [] := by
  obtain ⟨hsettled, -⟩ := settled_configured h.named h.complete
  have hfits := h.fits hcontained
  obtain ⟨w, hleads, hrevisions⟩ := Patch.leads_between (Kind.wellFormed_encode o.configured)
    d.encode hfits (fun r hr => h.covers hv hcontained hr)
  obtain ⟨o', hdecode, hcomplete', hrevised⟩ := revisions_of_agree
    (h.agree hv hcontained hcomplete hconfigured) (Patch.pairwise_revisions hfits _ _ _)
    (fun a ha => hfits.parent_of_mem_revisions ha) h.decoded h.complete hrevisions
  refine ⟨w, o', hleads, ⟨hdecode, ?_, hcomplete'⟩,
    between_of_revisions hsettled hcomplete hrevised⟩
  refine named_of_frame h.named fun place hplace => hrevised.frame fun a ha => ?_
  obtain ⟨r, hr, rfl⟩ := List.mem_map.1 ha
  exact k.apart_plan_places r (List.mem_of_mem_filter hr) place (List.mem_append_left _ hplace)

/-- A live document whose object takes the same patches as the given one. -/
def ReadsLike (o : Object k) (w : Json) : Prop :=
  ∃ o' : Object k, Reads w o' ∧ ∀ desired,
    Patch.between o'.configured.encode desired k.plan =
      Patch.between o.configured.encode desired k.plan

/-- What a store writes by itself leaves a document live and changes no patch. -/
theorem Reads.noted (h : Reads v o) {path : List String} (hpath : path ∈ Kind.storePlaces)
    {place : Place} (hplace : k.fields.place? path = some place)
    (hkept : place.presence.isKept = false) {parent : List (String × Json)}
    (hparent : resolve? path.dropLast v = some (.obj parent)) {x : Option Json}
    {found : Option place.shape.Value}
    (hread : (x.getD .null).readUnlessNull place.shape.decode = some found)
    (hrevised : Revised path x v w) : o.ReadsLike w := by
  obtain ⟨presence, shape⟩ := place
  have hreflects : Place.Reflects ⟨presence, shape⟩ x none := by
    cases presence with
    | reported | internal => exact ⟨found, hread, trivial, rfl⟩
    | _ => cases hkept
  obtain ⟨o', hdecode, hcomplete, hsame⟩ :=
    revised_of_reflects h.decoded h.complete hplace hparent hreflects hrevised
  refine ⟨o', ⟨hdecode, ?_, hcomplete⟩, fun desired => Patch.between_congr fun r hr => ?_⟩
  · refine named_of_frame h.named fun name hname => hsame.frame name ?_
    exact Kind.apart_storePlaces path hpath name hname
  · obtain ⟨parents, key, members, htokens, -⟩ :=
      (k.fits_encode o h.complete).located r hr
    have hapart := k.apart_plan_places r hr path (List.mem_append_right _ hpath)
    rw [htokens, Option.getD_some] at hapart
    rw [Json.pointer?_eq htokens, Json.pointer?_eq htokens]
    exact hsame.frame _ hapart.symm

/-- The metadata of a live object are in its document. -/
theorem Reads.metadata (h : Reads v o) :
    ∃ members inner, v = .obj members ∧ Entries.get? members "metadata" = some (.obj inner) := by
  obtain ⟨members, hmembers, hfields⟩ := Option.bind_eq_some_iff.1 h.decoded
  obtain rfl := Json.members?_eq_some.1 hmembers
  obtain ⟨-, hfields⟩ := Fields.decode_typed_iff.1 hfields
  obtain ⟨found, vs, hfound, -, rfl⟩ := Fields.decode_cons_iff.1 hfields
  cases found with
  | none => rcases h.named with hname | hname <;> cases hname
  | some m =>
    obtain ⟨c, hc, -, hread⟩ := eq_some_of_readUnlessNull hfound
    obtain ⟨inner, hinner, -⟩ := Option.bind_eq_some_iff.1 hread
    obtain rfl := Json.members?_eq_some.1 hinner
    exact ⟨members, inner, rfl, hc⟩

end Object

end DesiredState
