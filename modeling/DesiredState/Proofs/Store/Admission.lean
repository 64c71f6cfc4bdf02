import DesiredState.Proofs.Kind.Live
import DesiredState.Proofs.Store.Cluster

/-!
New objects in a cluster.
A cluster gives a new object a name, the namespace that it is sent to, an
identity and a first version. What it stores is the document of an object with
these fields set, and the tree of that object has them beside all that was
given.
-/
namespace DesiredState

open Schema

namespace Schema

/-- A value as a presence holds it. -/
def Presence.fill {α : Type} (p : Presence) (x : α) : p.Held α :=
  match p with
  | .required | .defaulted _ => x
  | .optional | .expected | .reported | .internal => some x

theorem Presence.sent_fill {α : Type} (p : Presence) (x : α) : p.sent (p.fill x) = some x := by
  cases p <;> rfl

theorem Presence.shown_fill {α : Type} {p : Presence} (h : p ≠ .internal) (x : α) :
    p.shown (p.fill x) = some x := by
  cases p <;> first | rfl | exact absurd rfl h

/-- A field that a text can be set in, in a document and in a tree alike. -/
structure TextField (fields : Fields) where
  key : String
  member : String
  set : fields.Value → String → fields.Value
  encode_set : ∀ v text,
    fields.encode (set v text) = Entries.insert member (.str text) (fields.encode v)
  flatten_set : ∀ v text,
    fields.flatten (set v text) = Entries.insert key (.str text) (fields.flatten v)

namespace TextField

variable {field : Field} {shape : Shape} {rest : Fields}

def first (h : field.presence ≠ .internal) : TextField (.cons field (.leaf .text) rest) where
  key := field.key
  member := field.member
  set v text := (field.presence.fill text, v.2)
  encode_set v text := by
    refine (Fields.insert_encode_cons ?_ v.1 v.2).symm
    rw [field.presence.sent_fill]
    rfl
  flatten_set v text := by
    refine (Fields.insert_flatten_cons ?_ v.1 v.2).symm
    rw [Presence.shown_fill h]
    rfl

/-- The field behind another one with other names. -/
def later (t : TextField rest) (h : field.key ≠ t.key ∧ field.member ≠ t.member) :
    TextField (.cons field shape rest) where
  key := t.key
  member := t.member
  set v text := (v.1, t.set v.2 text)
  encode_set v text := (Fields.insert_encode_rest v.1 h.2 (t.encode_set v.2 text).symm).symm
  flatten_set v text := (Fields.insert_flatten_rest v.1 h.1 (t.flatten_set v.2 text).symm).symm

end TextField

namespace Metadata

def nameField : TextField metadata := .first (by decide)

def nsField : TextField metadata := .later (.later (.first (by decide)) (by decide)) (by decide)

def uidField : TextField metadata :=
  .later (.later (.later (.later (.later (.first (by decide)) (by decide)) (by decide))
    (by decide)) (by decide)) (by decide)

def versionField : TextField metadata :=
  .later (.later (.later (.later (.later (.later (.first (by decide)) (by decide)) (by decide))
    (by decide)) (by decide)) (by decide)) (by decide)

/-- The metadata as a cluster stores them for an identity. -/
def storedAs (m : Metadata) (id : ObjectId) : Metadata :=
  let named := nameField.set m id.name
  let placed := match id.ns? with
    | some ns => nsField.set named ns
    | none => named
  versionField.set (uidField.set placed ("uid-" ++ id.name)) "1"

end Metadata

namespace Fields

/-- The members of the fields that a tree shows. -/
def shownMembers : Fields → List String
  | .nil => []
  | .typed _ _ rest => rest.shownMembers
  | .cons field _ rest =>
    if field.presence = .internal then rest.shownMembers else field.member :: rest.shownMembers

/-- Documents that agree on the members that a tree shows are shown alike. -/
theorem flatten_congr (fields : Fields) {a b : List (String × Json)} {v w : fields.Value}
    (hv : fields.decode a = some v) (hw : fields.decode b = some w)
    (h : ∀ key ∈ fields.shownMembers, Entries.get? b key = Entries.get? a key) :
    fields.flatten w = fields.flatten v := by
  match fields, v, w with
  | .nil, _, _ => rfl
  | .typed _ _ rest, v, w =>
    exact rest.flatten_congr (decode_typed_iff.1 hv).2 (decode_typed_iff.1 hw).2 h
  | .cons field shape rest, v, w =>
    obtain ⟨found, vs, hfound, hvs, rfl⟩ := decode_cons_iff.1 hv
    obtain ⟨found', ws, hfound', hws, rfl⟩ := decode_cons_iff.1 hw
    simp only [shownMembers] at h
    simp only [flatten]
    split at h
    · rename_i hinternal
      obtain ⟨key, member, presence⟩ := field
      obtain rfl : presence = .internal := hinternal
      rw [rest.flatten_congr hvs hws h]
      rfl
    · obtain ⟨hfirst, hrest⟩ := List.forall_mem_cons.1 h
      rw [hfirst, hfound] at hfound'
      rw [rest.flatten_congr hvs hws hrest, Option.some.inj hfound']

end Fields

end Schema

namespace ObjectId

/-- The tree of metadata with what a cluster notes of a new object with the identity. -/
def stamp (id : ObjectId) (given : List (String × Tree)) : List (String × Tree) :=
  let named := Entries.insert "name" (.str id.name) given
  let placed := Entries.insert? "namespace" (id.ns?.map .str) named
  Entries.insert "resource_version" (.str "1")
    (Entries.insert "uid" (.str ("uid-" ++ id.name)) placed)

end ObjectId

theorem Schema.Metadata.flatten_storedAs (m : Metadata) (id : ObjectId) :
    metadata.flatten (storedAs m id) = id.stamp (metadata.flatten m) := by
  obtain ⟨ns?, name⟩ := id
  rw [storedAs, versionField.flatten_set, uidField.flatten_set]
  cases ns? with
  | none =>
    rw [nameField.flatten_set]
    rfl
  | some ns =>
    rw [nsField.flatten_set, nameField.flatten_set]
    rfl

namespace Object

variable {k : Kind}

/-- The name that a cluster gives to a new object. -/
def storedName (o : Object k) : String :=
  o.metadata.name?.getD (o.metadata.generateName?.getD "" ++ "x7k2q")

/-- The identity of an object that goes to the given namespace unless it names one. -/
def storedId (o : Object k) (ns : String) : ObjectId where
  ns? := match k.scope with
    | .namespaced => some (o.metadata.ns?.getD ns)
    | .cluster => none
  name := o.storedName

/-- The object as a cluster stores it for an identity. -/
def storedAs (o : Object k) (id : ObjectId) : Object k := (Metadata.storedAs o.1 id, o.2)

/-- The tree of a stored object has nothing new but in its metadata. -/
theorem entries_storedAs (o : Object k) (id : ObjectId) :
    (o.storedAs id).entries =
      Entries.insert "metadata" (.block (id.stamp (Schema.metadata.flatten o.metadata)))
        o.entries := by
  refine (Fields.insert_flatten_cons ?_ o.1 o.2).symm
  rw [← Metadata.flatten_storedAs]
  rfl

theorem storedId_eq (o : Object k) (ns : String) :
    o.storedId ns = ⟨(o.placed ns).ns?, (o.placed ns).storedName⟩ := by
  unfold placed Object.ns? storedId
  cases k.scope <;> rfl

/-- The name and the namespace are set over what the object was sent with. -/
theorem storedAs_placed (o : Object k) (ns : String) :
    (o.placed ns).storedAs (o.storedId ns) = o.storedAs (o.storedId ns) := by
  unfold placed storedId
  cases k.scope <;> rfl

/-- A stored object is known by the identity that it is stored for. -/
theorem id_storedAs (o : Object k) (ns : String) :
    (o.storedAs (o.storedId ns)).id = .ok (o.storedId ns) := by
  unfold Object.id storedId
  cases k.scope <;> rfl

/-- A stored object lacks nothing that the object had. -/
theorem complete_storedAs {o : Object k} (h : o.Complete) (id : ObjectId) :
    (o.storedAs id).Complete := by
  obtain ⟨⟨-, hgenerate, -, hlabels, hannotations, -, -, hrest⟩, hbody⟩ := h
  obtain ⟨ns?, name⟩ := id
  cases ns? <;>
    exact ⟨⟨fun _ _ => trivial, hgenerate, fun _ _ => trivial, hlabels, hannotations, trivial,
      trivial, hrest⟩, hbody⟩

theorem named_storedAs (o : Object k) (id : ObjectId) : (o.storedAs id).Named := by
  obtain ⟨ns?, name⟩ := id
  cases ns? <;> exact Or.inl rfl

end Object

namespace Cluster

variable {k : Kind}

theorem setMetadata_encode (o : Object k) (t : TextField Schema.metadata) {key : String}
    (hkey : t.member = key) (text : String) :
    setMetadata key (.str text) o.encode = Object.encode (k := k) (t.set o.1 text, o.2) := by
  subst hkey
  rw [Object.encode, setMetadata_obj o.get?_metadata, Object.metadata, ← t.encode_set]
  refine congrArg Json.obj (Fields.insert_encode_typed (by decide) (by decide) ?_)
  refine Fields.insert_encode_cons ?_ o.1 o.2
  rfl

theorem nameOf_encode (o : Object k) : nameOf o.encode = o.storedName := by
  have hmetadata : ∀ key, metadata? o.encode key =
      Entries.get? (Schema.metadata.encode o.metadata) key := by
    intro key
    have hmember : o.encode.member? "metadata" = _ := o.get?_metadata
    rw [metadata?, hmember]
    rfl
  rw [nameOf, hmetadata, hmetadata, Object.get?_name, Object.get?_generateName, Object.storedName]
  cases o.metadata.name? with
  | some name => rfl
  | none => cases o.metadata.generateName? <;> rfl

/-- What is stored of a new object is the document of an object as well. -/
theorem admitted_encode (o : Object k) (ns? : Option String) :
    admitted ns? o.encode = (o.storedAs ⟨ns?, o.storedName⟩).encode := by
  have hname : Metadata.nameField.member = "name" := rfl
  have hns : Metadata.nsField.member = "namespace" := rfl
  have huid : Metadata.uidField.member = "uid" := rfl
  have hversion : Metadata.versionField.member = "resourceVersion" := rfl
  unfold admitted
  dsimp only
  rw [nameOf_encode, setMetadata_encode o _ hname]
  cases ns? with
  | none =>
    rw [setMetadata_encode _ _ huid, setMetadata_encode _ _ hversion]
    rfl
  | some ns =>
    dsimp only
    rw [setMetadata_encode _ _ hns, setMetadata_encode _ _ huid, setMetadata_encode _ _ hversion]
    rfl

/-- An object that is taken in is stored for its identity, and this is what the cluster replies. -/
theorem answer_create {c c' : Cluster} {o : Object k} {ns : String} {v : Json}
    (h : store.answer (.create k (o.placed ns).ns? (o.placed ns).encode) c = (.ok v, c')) :
    v = (o.storedAs (o.storedId ns)).encode ∧ c' = c.put (.ofId k (o.storedId ns)) v := by
  have hkey : Key.ofId k (o.storedId ns) =
      ⟨k, (o.placed ns).ns?, (o.placed ns).storedName⟩ := by rw [o.storedId_eq]; rfl
  simp only [store, answer, nameOf_encode, ← hkey] at h
  split at h
  · cases h
  · rw [admitted_encode, ← o.storedId_eq, o.storedAs_placed] at h
    cases h
    exact ⟨rfl, rfl⟩

/-- No tree shows the status that scaled workloads are read with. -/
theorem status_not_mem_shownMembers (k : Kind) : "status" ∉ k.fields.shownMembers := by
  cases k <;> decide +kernel

/-- The tree of an object that is shown is that of the stored one. -/
theorem entries_of_shown {c : Cluster} {v : Json} {o o' : Object k}
    (hv : Object.decode? k v = some o) (h : Object.decode? k (c.shown k v).1 = some o') :
    o'.entries = o.entries := by
  obtain ⟨members, hmembers, hstored⟩ := Option.bind_eq_some_iff.1 hv
  obtain rfl := Json.members?_eq_some.1 hmembers
  have hnoted : ∀ ready, Object.decode? k (withStatus ready (.obj members)) = some o' →
      o'.entries = o.entries := by
    intro ready hdecode
    refine k.fields.flatten_congr hstored hdecode fun key hkey => ?_
    have hne : "status" ≠ key := fun heq => status_not_mem_shownMembers k (heq ▸ hkey)
    exact (Entries.get?_insert _ _ _ _).trans (if_neg hne)
  unfold shown at h
  split at h
  · split at h
    · exact hnoted _ h
    · exact hnoted _ h
  · rw [hv] at h
    cases h
    rfl

end Cluster

end DesiredState
