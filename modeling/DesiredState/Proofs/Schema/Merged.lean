import DesiredState.Proofs.Json.Merge
import DesiredState.Proofs.Schema.Coverage
import DesiredState.Proofs.Schema.Demand

/-!
Values of merged documents.
Merging the document of one value into a document that reads as another gives a
document that reads as the two values merged, field by field: texts under keys
are put together, a block keeps what the second value leaves out, and everything
else is taken from the second value where it has it. So a complete second value
completes the first one, apart from optional fields that it leaves out.
-/
namespace DesiredState

namespace Schema

open Json (resolve?)

/-- The texts of both, and those of the second under the keys of both. -/
def TextMap.merged (x y : TextMap) : TextMap :=
  ⟨y.entries.foldl (fun d e => Entries.insert e.1 e.2 d) x.entries,
    Entries.sorted_foldl_insert y.entries x.sorted⟩

def Leaf.merged : (l : Leaf) → l.Value → l.Value → l.Value
  | .textMap, x, y => TextMap.merged x y
  | .text, _, y => y
  | .int32, _, y => y
  | .int64, _, y => y
  | .flag, _, y => y
  | .texts, _, y => y
  | .textSet, _, y => y
  | .intOrText, _, y => y

def ServicePort.merged (x y : ServicePort) : ServicePort :=
  ⟨y.number?.or x.number?, y.name?.or x.name?⟩

def Service.merged (x y : Service) : Service :=
  ⟨y.name, x.port?.merge ServicePort.merged y.port?⟩

def Backend.merged (x y : Backend) : Backend := ⟨x.service?.merge Service.merged y.service?⟩

def Presence.merged {α : Type} (p : Presence) (f : α → α → α) (x y : p.Held α) : p.Held α :=
  match p with
  | .required | .defaulted _ => f x y
  | .optional | .expected | .reported | .internal => Option.merge f x y

mutual

def Shape.merged : (s : Shape) → s.Value → s.Value → s.Value
  | .leaf l, x, y => l.merged x y
  | .block fields, x, y => fields.merged x y
  | .blocks _, _, items => items
  | .backend, x, y => Backend.merged x y

def Fields.merged : (fields : Fields) → fields.Value → fields.Value → fields.Value
  | .nil, _, _ => ()
  | .typed _ _ rest, v, w => rest.merged v w
  | .cons field shape rest, (v, vs), (w, ws) =>
    (field.presence.merged shape.merged v w, rest.merged vs ws)

end

theorem TextMap.ext_get? {x y : TextMap}
    (h : ∀ key, Entries.get? x.entries key = Entries.get? y.entries key) : x = y := by
  obtain ⟨xs, hxs⟩ := x
  obtain ⟨ys, hys⟩ := y
  obtain rfl : xs = ys := Entries.ext_of_sorted hxs hys h
  rfl

theorem TextMap.get?_merged (x y : TextMap) (key : String) :
    Entries.get? (x.merged y).entries key =
      (Entries.get? y.entries key).or (Entries.get? x.entries key) :=
  Entries.get?_foldl_insert y.entries x.entries y.sorted key

mutual

/-- Nothing is kept of a value that nothing was said about. -/
theorem Shape.merged_blank : (s : Shape) → (y : s.Value) → s.merged s.blank y = y
  | .leaf l, y => by
    cases l with
    | textMap => exact Leaf.textMap_ofList y
    | _ => rfl
  | .block fields, y => fields.merged_blank y
  | .blocks _, _ => rfl
  | .backend, ⟨service?⟩ => by cases service? <;> rfl

theorem Fields.merged_blank : (fields : Fields) → (w : fields.Value) →
    fields.merged fields.blank w = w
  | .nil, _ => rfl
  | .typed _ _ rest, w => rest.merged_blank w
  | .cons ⟨key, member, presence⟩ shape rest, (w, ws) => by
    refine Prod.ext ?_ (rest.merged_blank ws)
    cases presence with
    | required | defaulted => exact shape.merged_blank w
    | _ => cases w <;> rfl

end

/-- Texts under keys are merged as they are. -/
theorem mergeMembers_texts (texts changes : List (String × String)) :
    Json.mergeMembers (Entries.map .str texts) (Entries.map .str changes) =
      Entries.map .str (changes.foldl (fun d e => Entries.insert e.1 e.2 d) texts) := by
  induction changes generalizing texts with
  | nil => rfl
  | cons e rest ih =>
    rw [List.foldl_cons, ← ih, Entries.map_insert]
    simp [Entries.map, Json.mergeMembers, Json.isNull]

theorem Leaf.decode_merge (l : Leaf) {v : Json} (hv : v.WellFormed) {x : l.Value}
    (hx : l.decode v = some x) (y : l.Value) :
    l.decode (v.merge (l.encode y)) = some (l.merged x y) := by
  have hwhole : (l.encode y).members? = none →
      l.decode (v.merge (l.encode y)) = some y := by
    intro h
    rw [Json.merge_of_members?_eq_none h]
    exact l.decode_encode_leaf y
  cases l with
  | textMap =>
    obtain ⟨texts, htexts, rfl⟩ := Option.map_eq_some_iff.1 hx
    obtain ⟨members, hmembers, htexts⟩ := Option.bind_eq_some_iff.1 htexts
    obtain rfl := Json.members?_eq_some.1 hmembers
    obtain rfl := Leaf.eq_texts_of_decodeEntries htexts
    have hsorted : Entries.Sorted texts := Entries.sorted_of_sorted_map hv.1
    have hmerge : (Json.obj (Entries.map .str texts)).merge (Leaf.encode .textMap y) =
        Leaf.encode .textMap (TextMap.merged ⟨texts, hsorted⟩ y) := by
      simp only [Leaf.encode, Json.merge, mergeMembers_texts, TextMap.merged]
    have hofList : TextMap.ofList texts = ⟨texts, hsorted⟩ := Leaf.textMap_ofList ⟨texts, hsorted⟩
    rw [hmerge, hofList]
    exact Leaf.decode_encode_leaf .textMap _
  | intOrText =>
    cases y with
    | int _ => exact hwhole rfl
    | text _ => exact hwhole rfl
  | _ => exact hwhole rfl

/-- A member that may be absent on either side reads as what is there of both values. -/
theorem readUnlessNull_mergeMember {α : Type} {read : Json → Option α} {write : α → Json}
    {merged : α → α → α} (hnull : ∀ y, (write y).isNull = false)
    (hread : ∀ y, read (write y) = some y) {given : Option Json}
    (hmerge : ∀ v x y, given = some v → read v = some x →
      read (v.merge (write y)) = some (merged x y))
    {found : Option α} (hfound : (given.getD .null).readUnlessNull read = some found)
    (y : Option α) :
    ((Json.mergeMember given (y.map write)).getD .null).readUnlessNull read =
      some (found.merge merged y) := by
  cases y with
  | none =>
    cases found <;> exact hfound
  | some y =>
    have hwritten : ((given.getD .null).merge (write y)).isNull = false :=
      Json.isNull_merge (hnull y) _
    simp only [Option.map_some, Json.mergeMember, hnull, Bool.false_eq_true, if_false,
      Option.getD_some]
    cases found with
    | none =>
      have hgiven : given.getD .null = .null := by
        unfold Json.readUnlessNull at hfound
        split at hfound
        · rename_i hnull
          cases hv : given.getD .null <;> simp_all [Json.isNull]
        · simp at hfound
      rw [hgiven, Json.merge_null]
      exact readUnlessNull_some (hnull y) (hread y)
    | some x =>
      obtain ⟨v, rfl, -, hx⟩ := eq_some_of_readUnlessNull hfound
      exact readUnlessNull_some hwritten (hmerge v x y rfl hx)

theorem merge_eq_or {α : Type} (x y : Option α) : x.merge (fun _ y => y) y = y.or x := by
  cases x <;> cases y <;> rfl

/-- A member that is not an object is taken from the second value. -/
theorem readUnlessNull_mergeMember_scalar {α : Type} {read : Json → Option α} {write : α → Json}
    (hscalar : ∀ y, (write y).isNull = false ∧ (write y).members? = none)
    (hread : ∀ y, read (write y) = some y) {given : Option Json} {found : Option α}
    (hfound : (given.getD .null).readUnlessNull read = some found) (y : Option α) :
    ((Json.mergeMember given (y.map write)).getD .null).readUnlessNull read =
      some (y.or found) := by
  rw [← merge_eq_or]
  refine readUnlessNull_mergeMember (fun y => (hscalar y).1) hread (fun v x y _ _ => ?_) hfound y
  rw [Json.merge_of_members?_eq_none (hscalar y).2]
  exact hread y

theorem ServicePort.decode_merge {v : Json} {x : ServicePort} (hx : decode v = some x)
    (y : ServicePort) : decode (v.merge y.encode) = some (x.merged y) := by
  obtain ⟨members, rfl, hnumber, hname⟩ := decode_iff.1 hx
  obtain ⟨changes, hchanges, hnewNumber, hnewName⟩ := y.exists_members
  have hsorted : Entries.Sorted changes := (hchanges ▸ y.wellFormed_encode).1
  rw [hchanges, Json.merge]
  refine decode_iff.2 ⟨_, rfl, ?_, ?_⟩
  · rw [Json.get?_mergeMembers hsorted, hnewNumber]
    exact readUnlessNull_mergeMember_scalar (fun i => ⟨rfl, rfl⟩) Leaf.asInt32?_int hnumber _
  · rw [Json.get?_mergeMembers hsorted, hnewName]
    exact readUnlessNull_mergeMember_scalar (fun s => ⟨rfl, rfl⟩) Leaf.asString?_str hname _

theorem Service.decode_merge {v : Json} {x : Service} (hx : decode v = some x) (y : Service) :
    decode (v.merge y.encode) = some (x.merged y) := by
  obtain ⟨members, name?, rfl, hname, -, hport⟩ := decode_iff.1 hx
  obtain ⟨changes, hchanges, hnewName, hnewPort⟩ := y.exists_members
  have hsorted : Entries.Sorted changes := (hchanges ▸ y.wellFormed_encode).1
  rw [hchanges, Json.merge]
  refine decode_iff.2 ⟨_, some y.name, rfl, ?_, rfl, ?_⟩
  · rw [Json.get?_mergeMembers hsorted, hnewName]
    exact readUnlessNull_mergeMember_scalar (fun s => ⟨rfl, rfl⟩) Leaf.asString?_str hname
      (some y.name)
  · rw [Json.get?_mergeMembers hsorted, hnewPort]
    exact readUnlessNull_mergeMember (fun p => rfl) ServicePort.decode_encode
      (fun v x y _ hx => ServicePort.decode_merge hx y) hport _

theorem Backend.decode_merge {v : Json} {x : Backend} (hx : decode v = some x) (y : Backend) :
    decode (v.merge y.encode) = some (x.merged y) := by
  obtain ⟨members, rfl, hservice⟩ := decode_iff.1 hx
  obtain ⟨changes, hchanges, hnewService⟩ := y.exists_members
  have hsorted : Entries.Sorted changes := (hchanges ▸ y.wellFormed_encode).1
  rw [hchanges, Json.merge]
  refine decode_iff.2 ⟨_, rfl, ?_⟩
  rw [Json.get?_mergeMembers hsorted, hnewService]
  exact readUnlessNull_mergeMember (fun s => rfl) Service.decode_encode
    (fun v x y _ hx => Service.decode_merge hx y) hservice _

theorem Presence.received_merge {p : Presence} {s : Shape} (found : Option s.Value)
    (y : p.Held s.Value) :
    p.received (found.merge s.merged (p.sent y)) s.blank =
      p.merged s.merged (p.received found s.blank) y := by
  cases p with
  | required | defaulted =>
    cases found with
    | none => exact (s.merged_blank y).symm
    | some x => rfl
  | _ => rfl

theorem namesType_merge {members changes : List (String × Json)} (h : Entries.Sorted changes)
    {key name : String} (hmembers : namesType members key name)
    (hchanges : namesType changes key name) :
    namesType (Json.mergeMembers members changes) key name := by
  unfold namesType at hmembers hchanges ⊢
  rw [Json.get?_mergeMembers h]
  cases hget : Entries.get? changes key with
  | none => exact hmembers
  | some change =>
    rw [hget] at hchanges
    cases change with
    | str s => simpa [Json.mergeMember, Json.isNull] using hchanges
    | _ => simp [Json.asString?] at hchanges

mutual

/-- Merging the document of a value into one that was read. -/
theorem Shape.decode_merge : (s : Shape) → s.Lawful → {v : Json} → v.WellFormed →
    {x : s.Value} → s.decode v = some x → (y : s.Value) →
    s.decode (v.merge (s.encode y)) = some (s.merged x y)
  | .leaf l, _, _, hv, _, hx, y => l.decode_merge hv hx y
  | .block fields, hs, _, hv, _, hx, y => by
    obtain ⟨members, hmembers, hx⟩ := Option.bind_eq_some_iff.1 hx
    obtain rfl := Json.members?_eq_some.1 hmembers
    rw [Shape.encode, Json.merge]
    exact fields.decode_merge hs hv.2 hx y
  | .blocks fields, hs, v, _, _, _, items => by
    have hwhole : v.merge ((Shape.blocks fields).encode items) =
        (Shape.blocks fields).encode items := Json.merge_of_members?_eq_none rfl v
    rw [hwhole]
    exact (Shape.blocks fields).decode_encode hs items
  | .backend, _, _, _, _, hx, y => Backend.decode_merge hx y

theorem Fields.decode_merge : (fields : Fields) → fields.Lawful →
    {members : List (String × Json)} → Json.MembersWellFormed members → {v : fields.Value} →
    fields.decode members = some v → (w : fields.Value) →
    fields.decode (Json.mergeMembers members (fields.encode w)) = some (fields.merged v w)
  | .nil, _, _, _, _, _, _ => rfl
  | .typed apiVersion kind rest, hs, members, hmembers, v, hv, w => by
    obtain ⟨hnames, hv⟩ := Fields.decode_typed_iff.1 hv
    have hsorted := ((Fields.typed apiVersion kind rest).wellFormed_encode w).1
    have hwritten := (Fields.decode_typed_iff.1
      ((Fields.typed apiVersion kind rest).decode_encode hs w)).1
    rw [Bool.and_eq_true] at hnames hwritten
    refine Fields.decode_typed_iff.2 ⟨?_, ?_⟩
    · rw [namesType_merge hsorted hnames.1 hwritten.1, namesType_merge hsorted hnames.2 hwritten.2]
      rfl
    · have hsame : rest.decode (Json.mergeMembers members
          ((Fields.typed apiVersion kind rest).encode w)) =
          rest.decode (Json.mergeMembers members (rest.encode w)) := by
        refine rest.decode_congr fun key hkey => ?_
        rw [Json.get?_mergeMembers hsorted, Json.get?_mergeMembers (rest.wellFormed_encode w).1,
          Fields.get?_encode_typed_of_mem hs hkey]
      rw [hsame]
      exact rest.decode_merge hs.2.2 hmembers hv w
  | .cons field shape rest, hs, members, hmembers, v, hv, (w, ws) => by
    obtain ⟨⟨-, hmember, -⟩, hshape, hrest⟩ := hs
    obtain ⟨found, vs, hfound, hvs, rfl⟩ := Fields.decode_cons_iff.1 hv
    have hsorted := ((Fields.cons field shape rest).wellFormed_encode (w, ws)).1
    have hsame : rest.decode (Json.mergeMembers members
        ((Fields.cons field shape rest).encode (w, ws))) =
        rest.decode (Json.mergeMembers members (rest.encode ws)) := by
      refine rest.decode_congr fun key hkey => ?_
      rw [Json.get?_mergeMembers hsorted, Json.get?_mergeMembers (rest.wellFormed_encode ws).1,
        Fields.get?_encode_rest w ws (fun heq => hmember (heq ▸ hkey))]
    refine Fields.decode_cons_iff.2
      ⟨found.merge shape.merged (field.presence.sent w), rest.merged vs ws, ?_, ?_, ?_⟩
    · rw [Json.get?_mergeMembers hsorted, Fields.get?_encode_cons hmember]
      refine readUnlessNull_mergeMember shape.isNull_encode (shape.decode_encode hshape)
        (fun x a b hx ha => ?_) hfound _
      have hwell : x.WellFormed := Json.membersWellFormed_iff.1 hmembers _ (Entries.mem_of_get? hx)
      exact shape.decode_merge hshape hwell ha b
    · rw [hsame]
      exact rest.decode_merge hrest hmembers hvs ws
    · rw [Presence.received_merge]
      rfl

end

theorem Presence.complete_of_not_isKept {p : Presence} (h : p.isKept = false) {α : Type}
    {P : α → Prop} {v : p.Held α} : p.Complete P v := by
  cases p with
  | reported | internal => trivial
  | _ => cases h

/-- Only an optional field can be left out. -/
theorem Presence.eq_optional_of_sent {p : Presence} (h : p.isKept) {α : Type} {P : α → Prop}
    {v : p.Held α} (hv : p.Complete P v) (hnone : p.sent v = none) : p = .optional := by
  cases p with
  | optional => rfl
  | expected =>
    obtain ⟨x, rfl, -⟩ := hv
    cases hnone
  | required | defaulted => cases hnone
  | reported | internal => cases h

theorem Presence.complete_merged {p : Presence} {α : Type} {P : α → Prop} {f : α → α → α}
    {x y : p.Held α} (hy : p.Complete P y)
    (hboth : ∀ a b, p.sent x = some a → p.sent y = some b → P b → P (f a b))
    (hleft : ∀ a, p.sent x = some a → p.sent y = none → P a) :
    p.Complete P (p.merged f x y) := by
  cases p with
  | required | defaulted => exact hboth x y rfl rfl hy
  | optional =>
    intro z hz
    cases x with
    | none => exact hy z (by cases y <;> exact hz)
    | some x =>
      cases y with
      | none =>
        obtain rfl : x = z := Option.some.inj hz
        exact hleft x rfl rfl
      | some y =>
        obtain rfl : f x y = z := Option.some.inj hz
        exact hboth x y rfl rfl (hy y rfl)
  | expected =>
    obtain ⟨y, rfl, hy⟩ := hy
    cases x with
    | none => exact ⟨y, rfl, hy⟩
    | some x => exact ⟨f x y, rfl, hboth x y rfl rfl hy⟩
  | reported | internal => trivial

mutual

/-- Whether a complete value makes up for whatever is missing where it is merged. It may leave out a
field that demands something, but only if one of the paths names that field. -/
def Shape.suppliedBy (paths : List (List String)) : Shape → Bool
  | .block fields => fields.suppliedBy paths
  | .leaf _ | .blocks _ | .backend => true

def Fields.suppliedBy (paths : List (List String)) : Fields → Bool
  | .nil => true
  | .typed _ _ rest => rest.suppliedBy paths
  | .cons field shape rest =>
    (!field.presence.isKept ||
      shape.suppliedBy (below field.member paths) &&
        (field.presence != .optional || shape.demands.isEmpty || paths.contains [field.member])) &&
    rest.suppliedBy paths

end

theorem Fields.resolve?_written_of_not_mem (fields : Fields) {key : String}
    (h : key ∉ fields.members) (path : List String) (v : fields.Value) :
    resolve? (key :: path) (.obj (fields.written v)) = none := by
  have hnone : Entries.get? (fields.written v) key = none := fields.get?_encode_of_not_mem _ h
  rw [Json.resolve?_cons, hnone]
  rfl

theorem Shape.complete_of_demands_nil {s : Shape} (hs : s.Lawful) (h : s.demands = [])
    (v : s.Value) : s.Complete v := by
  refine (s.complete_iff hs v).2 fun path hpath => ?_
  rw [h] at hpath
  cases hpath

mutual

/-- Nothing is missing after a complete value was merged that has a value at each of the paths, if
there was one before. -/
theorem Shape.complete_merged : (s : Shape) → s.Lawful → {paths : List (List String)} →
    s.suppliedBy paths = true → {x y : s.Value} → s.Complete y →
    (∀ path ∈ paths, resolve? path (s.encode (s.configured y)) = none →
      resolve? path (s.encode (s.configured x)) = none) →
    s.Complete (s.merged x y)
  | .leaf _, _, _, _, _, _, _, _ => trivial
  | .block fields, hs, _, hsupplied, _, _, hy, hpaths =>
    fields.complete_merged hs hsupplied hy hpaths
  | .blocks _, _, _, _, _, _, hy, _ => hy
  | .backend, _, _, _, ⟨service?⟩, ⟨other?⟩, hy, _ => by
    cases other? with
    | none => cases hy
    | some _ => cases service? <;> rfl

theorem Fields.complete_merged : (fields : Fields) → fields.Lawful →
    {paths : List (List String)} → fields.suppliedBy paths = true → {v w : fields.Value} →
    fields.Complete w →
    (∀ path ∈ paths, resolve? path (.obj (fields.written w)) = none →
      resolve? path (.obj (fields.written v)) = none) →
    fields.Complete (fields.merged v w)
  | .nil, _, _, _, _, _, _, _ => trivial
  | .typed apiVersion kind rest, hs, paths, hsupplied, v, w, hw, hpaths => by
    refine rest.complete_merged hs.2.2 hsupplied hw fun path hpath hnone => ?_
    cases path with
    | nil => cases hnone
    | cons key path =>
      by_cases hkey : key ∈ rest.members
      · have hleft := hpaths _ hpath
        simp only [Json.resolve?_cons, get?_written_typed hs hkey] at hleft hnone ⊢
        exact hleft hnone
      · exact rest.resolve?_written_of_not_mem hkey path v
  | .cons field shape rest, hs, paths, hsupplied, (v, vs), (w, ws), hw, hpaths => by
    obtain ⟨⟨-, hmember, -⟩, hshape, hrest⟩ := hs
    obtain ⟨hfirst, hothers⟩ := Bool.and_eq_true_iff.1 hsupplied
    refine ⟨?_, rest.complete_merged hrest hothers hw.2 fun path hpath hnone => ?_⟩
    · cases hkept : field.presence.isKept with
      | false => exact Presence.complete_of_not_isKept hkept
      | true =>
        have hwritten : ∀ u us, Entries.get? ((Fields.cons field shape rest).written (u, us))
            field.member = (field.presence.sent u).map fun x => shape.encode (shape.configured x) :=
          fun u us => (get?_written_cons hmember u us).trans (Place.written_kept hkept u)
        rw [hkept, Bool.not_true, Bool.false_or, Bool.and_eq_true] at hfirst
        refine Presence.complete_merged hw.1 (fun a b ha hb hbcomplete => ?_) fun a ha hb => ?_
        · refine shape.complete_merged hshape hfirst.1 hbcomplete fun path hpath => ?_
          have hleft := hpaths _ (mem_below.1 hpath)
          rw [Json.resolve?_cons, Json.resolve?_cons, hwritten, hwritten, ha, hb] at hleft
          exact hleft
        · have hoptional := Presence.eq_optional_of_sent hkept hw.1 hb
          have hnamed : shape.demands = [] ∨ [field.member] ∈ paths := by
            simpa [hoptional] using hfirst.2
          rcases hnamed with hfree | hnamed
          · exact Shape.complete_of_demands_nil hshape hfree a
          · -- The field was there, so it cannot be left out.
            have hleft := hpaths _ hnamed
            rw [Json.resolve?_singleton, Json.resolve?_singleton, hwritten, hwritten, ha, hb]
              at hleft
            cases hleft rfl
    · cases path with
      | nil => cases hnone
      | cons key path =>
        by_cases hkey : field.member = key
        · exact rest.resolve?_written_of_not_mem (hkey ▸ hmember) path vs
        · have hleft := hpaths _ hpath
          simp only [Json.resolve?_cons, get?_written_rest _ _ hkey] at hleft hnone ⊢
          exact hleft hnone

end

end Schema

end DesiredState
