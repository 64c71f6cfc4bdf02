import DesiredState.Proofs.Json.WellFormed
import DesiredState.Proofs.Schema.Lawful
import DesiredState.Proofs.Schema.Leaf
import DesiredState.Schema.Decode
import DesiredState.Schema.Encode

/-!
Documents of typed values read back.
A document holds everything of its value, since no value is written as null and
members do not clash. Reading looks at the members of the schema only.
-/
namespace DesiredState.Schema

namespace Leaf

theorem isNull_encode (l : Leaf) (v : l.Value) : (l.encode v).isNull = false := by
  cases l with
  | intOrText => cases v <;> rfl
  | _ => rfl

end Leaf

theorem readUnlessNull_some {α : Type} {v : Json} {read : Json → Option α} {x : α}
    (hnull : v.isNull = false) (hread : read v = some x) :
    v.readUnlessNull read = some (some x) := by
  simp [Json.readUnlessNull, hnull, hread]

/-- Only what is there and not null is read. -/
theorem eq_some_of_readUnlessNull {α : Type} {found : Option Json} {read : Json → Option α} {x : α}
    (h : (found.getD .null).readUnlessNull read = some (some x)) :
    ∃ v, found = some v ∧ v.isNull = false ∧ read v = some x := by
  cases found with
  | none => cases h
  | some v =>
    simp only [Option.getD_some, Json.readUnlessNull] at h
    cases hnull : v.isNull with
    | true => simp [hnull] at h
    | false => exact ⟨v, rfl, hnull, by simpa [hnull] using h⟩

theorem readMember_eq {α : Type} (members : List (String × Json)) (key : String)
    (read : Json → Option α) :
    Json.readMember (.obj members) key read =
      ((Entries.get? members key).getD .null).readUnlessNull read := rfl

/-- A member that was written unless it is absent. -/
theorem readUnlessNull_written {α : Type} {read : Json → Option α} {write : α → Json}
    (hnull : ∀ x, (write x).isNull = false) (hread : ∀ x, read (write x) = some x)
    (found : Option α) : ((found.map write).getD .null).readUnlessNull read = some found := by
  cases found with
  | none => rfl
  | some x => exact readUnlessNull_some (hnull x) (hread x)

/-- The members of a written port. -/
theorem ServicePort.exists_members (p : ServicePort) :
    ∃ members, p.encode = .obj members ∧
      Entries.get? members "number" = p.number?.map (fun i => Json.int i.toInt) ∧
      Entries.get? members "name" = p.name?.map .str := by
  refine ⟨_, rfl, ?_, ?_⟩
  · simp [Entries.get?_insert?]
  · simp [Entries.get?_insert?]

theorem ServicePort.decode_iff {v : Json} {p : ServicePort} :
    decode v = some p ↔ ∃ members, v = .obj members ∧
      ((Entries.get? members "number").getD .null).readUnlessNull Json.asInt32? =
        some p.number? ∧
      ((Entries.get? members "name").getD .null).readUnlessNull Json.asString? =
        some p.name? := by
  constructor
  · intro h
    obtain ⟨members, hmembers, h⟩ := Option.bind_eq_some_iff.1 h
    obtain rfl := Json.members?_eq_some.1 hmembers
    obtain ⟨number?, hnumber, h⟩ := Option.bind_eq_some_iff.1 h
    obtain ⟨name?, hname, h⟩ := Option.bind_eq_some_iff.1 h
    cases h
    exact ⟨members, rfl, hnumber, hname⟩
  · rintro ⟨members, rfl, hnumber, hname⟩
    simp [decode, readMember_eq, hnumber, hname, Json.members?]

theorem ServicePort.decode_encode (p : ServicePort) : decode p.encode = some p := by
  obtain ⟨members, hmembers, hnumber, hname⟩ := p.exists_members
  refine decode_iff.2 ⟨members, hmembers, ?_, ?_⟩
  · rw [hnumber]
    exact readUnlessNull_written (fun i => rfl) Leaf.asInt32?_int p.number?
  · rw [hname]
    exact readUnlessNull_written (fun s => rfl) Leaf.asString?_str p.name?

theorem Service.exists_members (s : Service) :
    ∃ members, s.encode = .obj members ∧
      Entries.get? members "name" = some (.str s.name) ∧
      Entries.get? members "port" = s.port?.map ServicePort.encode := by
  refine ⟨_, rfl, ?_, ?_⟩
  · simp [Entries.get?_insert]
  · simp [Entries.get?_insert, Entries.get?_insert?]

theorem Service.decode_iff {v : Json} {s : Service} :
    decode v = some s ↔ ∃ members name?, v = .obj members ∧
      ((Entries.get? members "name").getD .null).readUnlessNull Json.asString? = some name? ∧
      s.name = name?.getD "" ∧
      ((Entries.get? members "port").getD .null).readUnlessNull ServicePort.decode =
        some s.port? := by
  constructor
  · intro h
    obtain ⟨members, hmembers, h⟩ := Option.bind_eq_some_iff.1 h
    obtain rfl := Json.members?_eq_some.1 hmembers
    obtain ⟨name?, hname, h⟩ := Option.bind_eq_some_iff.1 h
    obtain ⟨port?, hport, h⟩ := Option.bind_eq_some_iff.1 h
    cases h
    exact ⟨members, name?, rfl, hname, rfl, hport⟩
  · rintro ⟨members, name?, rfl, hname, heq, hport⟩
    simp [decode, readMember_eq, hname, hport, Json.members?, ← heq]

theorem Service.decode_encode (s : Service) : decode s.encode = some s := by
  obtain ⟨members, hmembers, hname, hport⟩ := s.exists_members
  refine decode_iff.2 ⟨members, some s.name, hmembers, ?_, rfl, ?_⟩
  · rw [hname]
    rfl
  · rw [hport]
    exact readUnlessNull_written (fun p => rfl) ServicePort.decode_encode s.port?

theorem Backend.exists_members (b : Backend) :
    ∃ members, b.encode = .obj members ∧
      Entries.get? members "service" = b.service?.map Service.encode := by
  refine ⟨_, rfl, ?_⟩
  simp [Entries.get?_insert?]

theorem Backend.decode_iff {v : Json} {b : Backend} :
    decode v = some b ↔ ∃ members, v = .obj members ∧
      ((Entries.get? members "service").getD .null).readUnlessNull Service.decode =
        some b.service? := by
  constructor
  · intro h
    obtain ⟨members, hmembers, h⟩ := Option.bind_eq_some_iff.1 h
    obtain rfl := Json.members?_eq_some.1 hmembers
    obtain ⟨service?, hservice, h⟩ := Option.bind_eq_some_iff.1 h
    cases h
    exact ⟨members, rfl, hservice⟩
  · rintro ⟨members, rfl, hservice⟩
    simp [decode, readMember_eq, hservice, Json.members?]

theorem Backend.decode_encode (b : Backend) : decode b.encode = some b := by
  obtain ⟨members, hmembers, hservice⟩ := b.exists_members
  refine decode_iff.2 ⟨members, hmembers, ?_⟩
  rw [hservice]
  exact readUnlessNull_written (fun s => rfl) Service.decode_encode b.service?

theorem Shape.isNull_encode (s : Shape) (v : s.Value) : (s.encode v).isNull = false := by
  match s with
  | .leaf l => exact l.isNull_encode v
  | .block _ | .blocks _ | .backend => rfl

namespace Fields

theorem get?_encode_of_not_mem (fields : Fields) (v : fields.Value) {key : String}
    (h : key ∉ fields.members) : Entries.get? (fields.encode v) key = none := by
  match fields, v with
  | .nil, _ => rfl
  | .typed apiVersion kind rest, v =>
    simp only [members, List.mem_cons, not_or] at h
    simp only [encode_typed, Entries.get?_insert, if_neg (Ne.symm h.1), if_neg (Ne.symm h.2.1)]
    exact rest.get?_encode_of_not_mem v h.2.2
  | .cons field shape rest, (v, vs) =>
    simp only [members, List.mem_cons, not_or] at h
    simp only [encode_cons, Entries.get?_insert?, if_neg (Ne.symm h.1)]
    exact rest.get?_encode_of_not_mem vs h.2

theorem get?_encode_typed (apiVersion kind : String) (rest : Fields) (v : rest.Value) {key : String}
    (hversion : "apiVersion" ≠ key) (hkind : "kind" ≠ key) :
    Entries.get? ((Fields.typed apiVersion kind rest).encode v) key =
      Entries.get? (rest.encode v) key := by
  simp only [encode_typed, Entries.get?_insert, if_neg hversion, if_neg hkind]

/-- The type of an object is no field of it. -/
theorem get?_encode_typed_of_mem {apiVersion kind : String} {rest : Fields}
    (hs : (Fields.typed apiVersion kind rest).Lawful) {key : String} (hkey : key ∈ rest.members)
    (v : rest.Value) : Entries.get? ((Fields.typed apiVersion kind rest).encode v) key =
      Entries.get? (rest.encode v) key :=
  get?_encode_typed apiVersion kind rest v (fun heq => hs.1 (heq ▸ hkey))
    (fun heq => hs.2.1 (heq ▸ hkey))

theorem get?_encode_cons {field : Field} {shape : Shape} {rest : Fields}
    (h : field.member ∉ rest.members) (v : field.presence.Held shape.Value) (vs : rest.Value) :
    Entries.get? ((Fields.cons field shape rest).encode (v, vs)) field.member =
      (field.presence.sent v).map shape.encode := by
  simp only [encode_cons, Entries.get?_insert?, if_pos]
  rw [rest.get?_encode_of_not_mem vs h, Option.or_none]

theorem get?_encode_rest {field : Field} {shape : Shape} {rest : Fields}
    (v : field.presence.Held shape.Value) (vs : rest.Value) {key : String}
    (hkey : field.member ≠ key) :
    Entries.get? ((Fields.cons field shape rest).encode (v, vs)) key =
      Entries.get? (rest.encode vs) key := by
  simp only [encode_cons, Entries.get?_insert?, if_neg hkey]

theorem get?_typed_congr {apiVersion kind : String} {rest : Fields} {v w : rest.Value}
    {key : String} (h : Entries.get? (rest.encode v) key = Entries.get? (rest.encode w) key) :
    Entries.get? ((Fields.typed apiVersion kind rest).encode v) key =
      Entries.get? ((Fields.typed apiVersion kind rest).encode w) key := by
  simp only [encode_typed, Entries.get?_insert, h]

theorem get?_cons_congr {field : Field} {shape : Shape} {rest : Fields}
    {v : field.presence.Held shape.Value} {vs ws : rest.Value} {key : String}
    (h : Entries.get? (rest.encode vs) key = Entries.get? (rest.encode ws) key) :
    Entries.get? ((Fields.cons field shape rest).encode (v, vs)) key =
      Entries.get? ((Fields.cons field shape rest).encode (v, ws)) key := by
  simp only [encode_cons, Entries.get?_insert?, h]

/-- Only the members of the schema are read. -/
theorem decode_congr (fields : Fields) {a b : List (String × Json)}
    (h : ∀ key ∈ fields.members, Entries.get? a key = Entries.get? b key) :
    fields.decode a = fields.decode b := by
  match fields with
  | .nil => rfl
  | .typed apiVersion kind rest =>
    simp only [members, List.forall_mem_cons] at h
    have hversion : namesType a "apiVersion" apiVersion = namesType b "apiVersion" apiVersion := by
      rw [namesType, namesType, h.1]
    have hkind : namesType a "kind" kind = namesType b "kind" kind := by
      rw [namesType, namesType, h.2.1]
    rw [decode_typed, decode_typed, hversion, hkind, rest.decode_congr h.2.2]
  | .cons field shape rest =>
    simp only [members, List.forall_mem_cons] at h
    simp only [decode_cons, readMember_eq, h.1, rest.decode_congr h.2]

end Fields

theorem Presence.received_sent {α : Type} (p : Presence) (v : p.Held α) (blank : α) :
    p.received (p.sent v) blank = v := by
  cases p <;> rfl

mutual

/-- A document is read back as the value it was written for. -/
theorem Shape.decode_encode : (s : Shape) → s.Lawful → (v : s.Value) →
    s.decode (s.encode v) = some v
  | .leaf l, _, v => l.decode_encode_leaf v
  | .block fields, hs, v => fields.decode_encode hs v
  | .blocks fields, hs, items => by
    change (items.map (fun v => Json.obj (fields.encode v))).mapM
      (fun x => x.members?.bind fields.decode) = some items
    have hone : ∀ v, (Json.obj (fields.encode v)).members?.bind fields.decode = some v :=
      fun v => fields.decode_encode hs v
    induction items with
    | nil => rfl
    | cons v rest ih => simp [hone, ih]
  | .backend, _, b => b.decode_encode

theorem Fields.decode_encode : (fields : Fields) → fields.Lawful → (v : fields.Value) →
    fields.decode (fields.encode v) = some v
  | .nil, _, _ => rfl
  | .typed apiVersion kind rest, hs, v => by
    have hsame : rest.decode ((Fields.typed apiVersion kind rest).encode v) =
        rest.decode (rest.encode v) :=
      rest.decode_congr fun key hkey => Fields.get?_encode_typed_of_mem hs hkey v
    have hnames : namesType ((Fields.typed apiVersion kind rest).encode v) "apiVersion" apiVersion ∧
        namesType ((Fields.typed apiVersion kind rest).encode v) "kind" kind := by
      simp [namesType, Fields.encode_typed, Entries.get?_insert, Json.asString?]
    rw [Fields.decode_typed, hnames.1, hnames.2, hsame, rest.decode_encode hs.2.2 v]
    rfl
  | .cons field shape rest, hs, (v, vs) => by
    obtain ⟨⟨-, hmember, -⟩, hshape, hrest⟩ := hs
    have hsame : rest.decode ((Fields.cons field shape rest).encode (v, vs)) =
        rest.decode (rest.encode vs) := by
      refine rest.decode_congr fun key hkey => ?_
      exact Fields.get?_encode_rest v vs (fun heq => hmember (heq ▸ hkey))
    have hfound := readUnlessNull_written shape.isNull_encode (shape.decode_encode hshape)
      (field.presence.sent v)
    simp only [Fields.decode_cons, readMember_eq, Fields.get?_encode_cons hmember, hfound, hsame,
      rest.decode_encode hrest vs]
    simp [Presence.received_sent]

end

theorem Leaf.wellFormed_encode (l : Leaf) (v : l.Value) : (l.encode v).WellFormed := by
  cases l with
  | text | flag => trivial
  | int32 => exact Json.wellFormed_int32 v
  | int64 => exact Json.wellFormed_int64 v
  | texts | textSet =>
    refine Json.allWellFormed_iff.2 fun x hx => ?_
    obtain ⟨s, -, rfl⟩ := List.mem_map.1 hx
    trivial
  | textMap =>
    refine ⟨Entries.sorted_map _ v.sorted, Json.membersWellFormed_iff.2 fun e he => ?_⟩
    obtain ⟨f, -, rfl⟩ := List.mem_map.1 he
    trivial
  | intOrText =>
    cases v with
    | int i => exact Json.wellFormed_int32 i
    | text s => trivial

theorem ServicePort.wellFormed_encode (p : ServicePort) : p.encode.WellFormed := by
  refine Json.wellFormed_insert? (Json.wellFormed_insert? Json.wellFormed_empty _ ?_) _ ?_
  · intro v hv
    obtain ⟨s, -, rfl⟩ := Option.map_eq_some_iff.1 hv
    trivial
  · intro v hv
    obtain ⟨i, -, rfl⟩ := Option.map_eq_some_iff.1 hv
    exact Json.wellFormed_int32 i

theorem Service.wellFormed_encode (s : Service) : s.encode.WellFormed := by
  refine Json.wellFormed_insert (Json.wellFormed_insert? Json.wellFormed_empty _ ?_) _ trivial
  intro v hv
  obtain ⟨p, -, rfl⟩ := Option.map_eq_some_iff.1 hv
  exact p.wellFormed_encode

theorem Backend.wellFormed_encode (b : Backend) : b.encode.WellFormed := by
  refine Json.wellFormed_insert? Json.wellFormed_empty _ ?_
  intro v hv
  obtain ⟨s, -, rfl⟩ := Option.map_eq_some_iff.1 hv
  exact s.wellFormed_encode

mutual

theorem Shape.wellFormed_encode : (s : Shape) → (v : s.Value) → (s.encode v).WellFormed
  | .leaf l, v => l.wellFormed_encode v
  | .block fields, v => fields.wellFormed_encode v
  | .blocks fields, items => by
    refine Json.allWellFormed_iff.2 fun x hx => ?_
    obtain ⟨v, -, rfl⟩ := List.mem_map.1 hx
    exact fields.wellFormed_encode v
  | .backend, b => b.wellFormed_encode

theorem Fields.wellFormed_encode : (fields : Fields) → (v : fields.Value) →
    (Json.obj (fields.encode v)).WellFormed
  | .nil, _ => Json.wellFormed_empty
  | .typed apiVersion kind rest, v =>
    Json.wellFormed_insert (Json.wellFormed_insert (rest.wellFormed_encode v) _
      (Json.wellFormed_str kind)) _ (Json.wellFormed_str apiVersion)
  | .cons field shape rest, (v, vs) => by
    refine Json.wellFormed_insert? (rest.wellFormed_encode vs) _ fun x hx => ?_
    obtain ⟨y, -, rfl⟩ := Option.map_eq_some_iff.1 hx
    exact shape.wellFormed_encode y

end

namespace Fields

/-- Setting the member of a field in the document is setting the field. -/
theorem insert_encode_cons {field : Field} {shape : Shape} {rest : Fields}
    {w : field.presence.Held shape.Value} {value : Json}
    (hw : (field.presence.sent w).map shape.encode = some value)
    (v : field.presence.Held shape.Value) (vs : rest.Value) :
    Entries.insert field.member value ((Fields.cons field shape rest).encode (v, vs)) =
      (Fields.cons field shape rest).encode (w, vs) := by
  simp only [encode_cons, hw]
  exact Entries.insert_insert? _ _ _ (rest.wellFormed_encode vs).1

theorem insert_encode_rest {field : Field} {shape : Shape} {rest : Fields}
    (v : field.presence.Held shape.Value) {vs ws : rest.Value} {key : String} {value : Json}
    (hkey : field.member ≠ key)
    (h : Entries.insert key value (rest.encode vs) = rest.encode ws) :
    Entries.insert key value ((Fields.cons field shape rest).encode (v, vs)) =
      (Fields.cons field shape rest).encode (v, ws) := by
  simp only [encode_cons]
  rw [Entries.insert_insert?_comm hkey _ _ (rest.wellFormed_encode vs).1, h]

theorem insert_encode_typed {apiVersion kind : String} {rest : Fields} {v w : rest.Value}
    {key : String} {value : Json} (hversion : "apiVersion" ≠ key) (hkind : "kind" ≠ key)
    (h : Entries.insert key value (rest.encode v) = rest.encode w) :
    Entries.insert key value ((Fields.typed apiVersion kind rest).encode v) =
      (Fields.typed apiVersion kind rest).encode w := by
  have hsorted := (rest.wellFormed_encode v).1
  have houter := Entries.insert_insert?_comm hversion value (some (.str apiVersion))
    (Entries.sorted_insert "kind" (.str kind) hsorted)
  have hinner := Entries.insert_insert?_comm hkind value (some (.str kind)) hsorted
  simp only [Entries.insert?] at houter hinner
  simp only [encode_typed, houter, hinner, h]

end Fields

end DesiredState.Schema
