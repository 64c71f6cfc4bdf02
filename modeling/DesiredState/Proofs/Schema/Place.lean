import DesiredState.Proofs.Json.Revised
import DesiredState.Proofs.Schema.Document
import DesiredState.Proofs.Schema.Projection

/-!
Places of fields in a document.
A path of members leads to a field through blocks that are always there. What
an expanded object has at such a place is determined by what the document has
there, and revising the document at the place revises the object there and
nowhere else, as long as the new value can be read.
-/
namespace DesiredState.Schema

open Json (Revised resolve?)

/-- A field without its names. -/
structure Place where
  presence : Presence
  shape : Shape

/-- Whether the value of a field is there in every complete object. -/
def Presence.isSolid : Presence → Bool
  | .required | .expected => true
  | .optional | .defaulted _ | .reported | .internal => false

/-- Whether a blank value stands for a missing one. -/
def Presence.isFilled : Presence → Bool
  | .required | .defaulted _ => true
  | .optional | .expected | .reported | .internal => false

mutual

def Shape.place? : Shape → List String → Option Place
  | .block fields, path => fields.place? path
  | .leaf _, _ | .blocks _, _ | .backend, _ => none

/-- The field at a path of members. -/
def Fields.place? : Fields → List String → Option Place
  | .nil, _ => none
  | .typed _ _ rest, path => rest.place? path
  | .cons .., [] => none
  | .cons field shape rest, key :: path =>
    if field.member = key then
      match path with
      | [] => some ⟨field.presence, shape⟩
      | token :: path => if field.presence.isSolid then shape.place? (token :: path) else none
    else rest.place? (key :: path)

end

namespace Place

/-- What is held for a member that was or was not found. -/
def held (p : Place) (found : Option p.shape.Value) : p.presence.Held p.shape.Value :=
  p.presence.received found p.shape.blank

/-- What an expanded object has of it in its document. -/
def written (p : Place) (v : p.presence.Held p.shape.Value) : Option Json :=
  (p.presence.sent (p.presence.configured p.shape.configured v)).map p.shape.encode

/-- The member `x` can be read and is complete, and an expanded object has `y` in its place. -/
def Reflects (p : Place) (x y : Option Json) : Prop :=
  ∃ found, (x.getD .null).readUnlessNull p.shape.decode = some found ∧
    p.presence.Complete p.shape.Complete (p.held found) ∧ y = p.written (p.held found)

end Place

namespace Fields

theorem place?_nil (fields : Fields) : fields.place? [] = none := by
  match fields with
  | .nil | .cons .. => rfl
  | .typed _ _ rest => exact rest.place?_nil

/-- How a path reaches a field: it names one of the fields, or one inside a block of theirs that is
always there. -/
inductive Reaches : Fields → List String → Place → Prop
  | typed {apiVersion kind : String} {rest : Fields} {key : String} {path : List String}
      {place : Place} (hrest : rest.Reaches (key :: path) place) :
      (Fields.typed apiVersion kind rest).Reaches (key :: path) place
  | here {field : Field} {shape : Shape} {rest : Fields} :
      (Fields.cons field shape rest).Reaches [field.member] ⟨field.presence, shape⟩
  | inside {field : Field} {inner rest : Fields} {token : String} {path : List String}
      {place : Place} (hsolid : field.presence.isSolid)
      (hinner : inner.Reaches (token :: path) place) :
      (Fields.cons field (.block inner) rest).Reaches (field.member :: token :: path) place
  | later {field : Field} {shape : Shape} {rest : Fields} {key : String} {path : List String}
      {place : Place} (hkey : field.member ≠ key) (hrest : rest.Reaches (key :: path) place) :
      (Fields.cons field shape rest).Reaches (key :: path) place

theorem reaches_of_place? (fields : Fields) {path : List String} {place : Place}
    (h : fields.place? path = some place) : fields.Reaches path place := by
  match fields, path with
  | .nil, _ => cases h
  | .typed _ _ rest, [] =>
    rw [place?_nil] at h
    cases h
  | .typed _ _ rest, key :: path => exact .typed (rest.reaches_of_place? h)
  | .cons .., [] => cases h
  | .cons field shape rest, key :: path =>
    simp only [place?] at h
    by_cases hkey : field.member = key
    · subst hkey
      rw [if_pos rfl] at h
      cases path with
      | nil =>
        cases h
        exact .here
      | cons token path =>
        cases shape with
        | block inner =>
          dsimp only at h
          split at h
          · rename_i hsolid
            exact .inside hsolid (inner.reaches_of_place? h)
          · cases h
        | _ => simp [Shape.place?] at h
    · rw [if_neg hkey] at h
      exact .later hkey (rest.reaches_of_place? h)

theorem Reaches.mem_members {fields : Fields} {key : String} {path : List String} {place : Place}
    (h : fields.Reaches (key :: path) place) : key ∈ fields.members := by
  generalize hwhole : key :: path = whole at h
  induction h with
  | typed _ ih => simp [members, ih hwhole]
  | here | inside => simp [members, (List.cons.inj hwhole).1]
  | later _ _ ih => simp [members, ih hwhole]

theorem decode_typed_iff {apiVersion kind : String} {rest : Fields}
    {members : List (String × Json)} {v : rest.Value} :
    (Fields.typed apiVersion kind rest).decode members = some v ↔
      (namesType members "apiVersion" apiVersion && namesType members "kind" kind) = true ∧
        rest.decode members = some v := by
  simp [decode_typed]

theorem decode_cons_iff {field : Field} {shape : Shape} {rest : Fields}
    {members : List (String × Json)} {v : (Fields.cons field shape rest).Value} :
    (Fields.cons field shape rest).decode members = some v ↔
      ∃ found vs, ((Entries.get? members field.member).getD .null).readUnlessNull shape.decode =
          some found ∧ rest.decode members = some vs ∧
        v = (field.presence.received found shape.blank, vs) := by
  simp only [decode_cons, readMember_eq]
  constructor
  · intro h
    obtain ⟨found, hfound, h⟩ := Option.bind_eq_some_iff.1 h
    obtain ⟨vs, hvs, heq⟩ := Option.bind_eq_some_iff.1 h
    cases heq
    exact ⟨found, vs, hfound, hvs, rfl⟩
  · rintro ⟨found, vs, hfound, hvs, rfl⟩
    simp [hfound, hvs]

end Fields

/-- A block that a path leads into is there as an object. -/
theorem readBlock_of_resolve? {fields : Fields} {c : Json} {path : List String}
    {parent : List (String × Json)} (hparent : resolve? path c = some (.obj parent))
    {found : Option fields.Value}
    (hfound : c.readUnlessNull (Shape.block fields).decode = some found) :
    ∃ members v, c = .obj members ∧ fields.decode members = some v ∧ found = some v := by
  cases c with
  | null => cases path <;> simp [resolve?, Json.step?] at hparent
  | obj members =>
    simp only [Json.readUnlessNull, Json.isNull, Bool.false_eq_true, if_false] at hfound
    obtain ⟨v, hv, rfl⟩ := Option.map_eq_some_iff.1 hfound
    exact ⟨members, v, rfl, hv, rfl⟩
  | _ => simp [Json.readUnlessNull, Json.isNull, Shape.decode, Json.members?] at hfound

theorem Presence.received_solid {p : Presence} (h : p.isSolid) {s : Shape} (v : s.Value) :
    (p.Complete s.Complete (p.received (some v) s.blank) ↔ s.Complete v) ∧
      p.sent (p.configured s.configured (p.received (some v) s.blank)) =
        some (s.configured v) := by
  cases p with
  | required => exact ⟨Iff.rfl, rfl⟩
  | expected =>
    refine ⟨⟨?_, fun hv => ⟨v, rfl, hv⟩⟩, rfl⟩
    rintro ⟨_, heq, hv⟩
    cases heq
    exact hv
  | _ => simp [isSolid] at h

theorem Presence.sent_solid {p : Presence} (h : p.isSolid) {α : Type} {P : α → Prop}
    {v : p.Held α} (hcomplete : p.Complete P v) : ∃ x, p.sent v = some x ∧ P x := by
  cases p with
  | required => exact ⟨v, rfl, hcomplete⟩
  | expected => exact hcomplete
  | _ => simp [isSolid] at h

theorem Presence.sent_filled {p : Presence} (h : p.isFilled) {α : Type} (v : p.Held α) :
    ∃ x, p.sent v = some x := by
  cases p with
  | required | defaulted => exact ⟨v, rfl⟩
  | _ => simp [isFilled] at h

/-- Whatever is there and not left to the store is written. -/
theorem Place.written_kept {p : Presence} (h : p.isKept) {s : Shape} (v : p.Held s.Value) :
    Place.written ⟨p, s⟩ v = (p.sent v).map (fun x => s.encode (s.configured x)) := by
  cases p with
  | required | defaulted => rfl
  | optional | expected => cases v <;> rfl
  | reported | internal => cases h

theorem Place.written_of_not_isKept {p : Presence} (h : p.isKept = false) {s : Shape}
    (v : p.Held s.Value) : Place.written ⟨p, s⟩ v = none := by
  cases p with
  | reported | internal => rfl
  | _ => cases h

/-- The document of a value that was read, as far as an expanded object has it. -/
def Fields.written (fields : Fields) (v : fields.Value) : List (String × Json) :=
  fields.encode (fields.configured v)

/-- A complete value and what is written for it follow the members at a path. -/
structure Fields.Follows (fields : Fields) (path : List String) (place : Place)
    (members : List (String × Json)) (v : fields.Value) : Prop where
  reflects : place.Reflects (resolve? path (.obj members)) (resolve? path (.obj (fields.written v)))
  revised : ∀ x y members', place.Reflects x y → Revised path x (.obj members) (.obj members') →
    ∃ v', fields.decode members' = some v' ∧ fields.Complete v' ∧
      Revised path y (.obj (fields.written v)) (.obj (fields.written v'))

theorem get?_written_typed {apiVersion kind : String} {rest : Fields}
    (hs : (Fields.typed apiVersion kind rest).Lawful) {key : String} (hkey : key ∈ rest.members)
    (v : rest.Value) : Entries.get? ((Fields.typed apiVersion kind rest).written v) key =
      Entries.get? (rest.written v) key :=
  Fields.get?_encode_typed_of_mem hs hkey _

section Cons

variable {field : Field} {shape : Shape} {rest : Fields} {members : List (String × Json)}
  {key : String} {path : List String} {place : Place}

theorem get?_written_cons (h : field.member ∉ rest.members)
    (v : field.presence.Held shape.Value) (vs : rest.Value) :
    Entries.get? ((Fields.cons field shape rest).written (v, vs)) field.member =
      Place.written ⟨field.presence, shape⟩ v :=
  Fields.get?_encode_cons h _ _

theorem get?_written_rest (v : field.presence.Held shape.Value) (vs : rest.Value)
    (hkey : field.member ≠ key) :
    Entries.get? ((Fields.cons field shape rest).written (v, vs)) key =
      Entries.get? (rest.written vs) key :=
  Fields.get?_encode_rest _ _ hkey

/-- The field that the path names itself. -/
theorem follows_here (h : field.member ∉ rest.members) {found : Option shape.Value}
    {vs : rest.Value}
    (hfound : ((Entries.get? members field.member).getD .null).readUnlessNull shape.decode =
      some found)
    (hvs : rest.decode members = some vs)
    (hcomplete : (Fields.cons field shape rest).Complete
      (field.presence.received found shape.blank, vs)) :
    (Fields.cons field shape rest).Follows [field.member] ⟨field.presence, shape⟩ members
      (field.presence.received found shape.blank, vs) := by
  constructor
  · rw [Json.resolve?_singleton, Json.resolve?_singleton, get?_written_cons h]
    exact ⟨found, hfound, hcomplete.1, rfl⟩
  · rintro x y members' ⟨found', hfound', hcomplete', rfl⟩ hrevised
    have hslot : Entries.get? members' field.member = x := by
      rw [← Json.resolve?_singleton]
      exact hrevised.slot
    have hothers : rest.decode members' = some vs := by
      rw [← hvs]
      refine rest.decode_congr fun other hother => ?_
      exact hrevised.get?_of_ne (fun heq => h (heq ▸ hother))
    refine ⟨(field.presence.received found' shape.blank, vs), ?_, ⟨hcomplete', hcomplete.2⟩, ?_⟩
    · rw [Fields.decode_cons_iff, hslot]
      exact ⟨found', vs, hfound', hothers, rfl⟩
    · have hwritten := get?_written_cons h (field.presence.received found' shape.blank) vs
      rw [Place.held, ← hwritten]
      refine Revised.of_member fun other hother => ?_
      rw [get?_written_rest _ _ (Ne.symm hother), get?_written_rest _ _ (Ne.symm hother)]

/-- A field inside the block that the path leads into first. -/
theorem follows_below {inner : Fields} {token : String} (h : field.member ∉ rest.members)
    (hsolid : field.presence.isSolid)
    {cs : List (String × Json)} {v : inner.Value} {vs : rest.Value}
    (hcs : Entries.get? members field.member = some (.obj cs))
    (hvs : rest.decode members = some vs) (hcomplete : rest.Complete vs)
    (hinner : inner.Follows (token :: path) place cs v) :
    (Fields.cons field (.block inner) rest).Follows (field.member :: token :: path) place members
      (field.presence.received (some v) (Shape.block inner).blank, vs) := by
  have hwritten : ∀ v vs, Entries.get? ((Fields.cons field (.block inner) rest).written
      (field.presence.received (some v) (Shape.block inner).blank, vs)) field.member =
        some (.obj (inner.written v)) := by
    intro v vs
    rw [get?_written_cons h, Place.written,
      (Presence.received_solid hsolid (s := .block inner) v).2]
    rfl
  constructor
  · rw [Json.resolve?_cons, Json.resolve?_cons, hcs, hwritten]
    exact hinner.reflects
  · intro x y members' hreflects hrevised
    obtain ⟨cs', hcs', hbelow⟩ := hrevised.below hcs
    obtain ⟨v', hv', hcomplete', hinside⟩ := hinner.revised x y cs' hreflects hbelow
    have hothers : rest.decode members' = some vs := by
      rw [← hvs]
      refine rest.decode_congr fun other hother => ?_
      exact hrevised.get?_of_ne (fun heq => h (heq ▸ hother))
    refine ⟨(field.presence.received (some v') (Shape.block inner).blank, vs), ?_, ⟨?_, hcomplete⟩,
      ?_⟩
    · rw [Fields.decode_cons_iff, hcs']
      exact ⟨some v', vs, by simp [Json.readUnlessNull, Json.isNull, Shape.decode, Json.members?,
        hv'], hothers, rfl⟩
    · exact (Presence.received_solid hsolid (s := .block inner) v').1.2 hcomplete'
    · have hslot : resolve? [field.member] (.obj ((Fields.cons field (.block inner) rest).written
          (field.presence.received (some v) (Shape.block inner).blank, vs))) =
          some (.obj (inner.written v)) := by
        rw [Json.resolve?_singleton, hwritten]
      have houter : Revised [field.member] (some (.obj (inner.written v')))
          (.obj ((Fields.cons field (.block inner) rest).written
            (field.presence.received (some v) (Shape.block inner).blank, vs)))
          (.obj ((Fields.cons field (.block inner) rest).written
            (field.presence.received (some v') (Shape.block inner).blank, vs))) := by
        rw [← hwritten v' vs]
        refine Revised.of_member fun other hother => ?_
        rw [get?_written_rest _ _ (Ne.symm hother), get?_written_rest _ _ (Ne.symm hother)]
      exact houter.within hslot hinside

/-- A field after the first one. -/
theorem follows_rest (h : field.member ∉ rest.members) (hkey : field.member ≠ key)
    {v : field.presence.Held shape.Value} {vs : rest.Value} {found : Option shape.Value}
    (hfound : ((Entries.get? members field.member).getD .null).readUnlessNull shape.decode =
      some found)
    (hv : v = field.presence.received found shape.blank)
    (hcomplete : field.presence.Complete shape.Complete v)
    (hrest : rest.Follows (key :: path) place members vs) :
    (Fields.cons field shape rest).Follows (key :: path) place members (v, vs) := by
  constructor
  · have hreflects := hrest.reflects
    rwa [Json.resolve?_cons, Json.resolve?_cons, get?_written_rest _ _ hkey]
  · intro x y members' hreflects hrevised
    obtain ⟨vs', hvs', hcomplete', hothers⟩ := hrest.revised x y members' hreflects hrevised
    refine ⟨(v, vs'), ?_, ⟨hcomplete, hcomplete'⟩, ?_⟩
    · rw [Fields.decode_cons_iff, hrevised.get?_of_ne hkey]
      exact ⟨found, vs', hfound, hvs', by rw [hv]⟩
    · refine hothers.of_get? (get?_written_rest _ _ hkey) (get?_written_rest _ _ hkey) ?_
      intro other hother
      by_cases hsame : field.member = other
      · subst hsame
        rw [get?_written_cons h, get?_written_cons h]
      · rw [get?_written_rest _ _ hsame, get?_written_rest _ _ hsame]
        exact hothers.get?_of_ne hother

end Cons

/-- The type of an object is on its document besides. -/
theorem follows_typed {apiVersion kind : String} {rest : Fields}
    (hversion : "apiVersion" ∉ rest.members) (hkind : "kind" ∉ rest.members)
    {members : List (String × Json)}
    (hnames : namesType members "apiVersion" apiVersion && namesType members "kind" kind)
    {key : String} {path : List String} {place : Place} (hkey : key ∈ rest.members)
    {v : rest.Value} (hrest : rest.Follows (key :: path) place members v) :
    (Fields.typed apiVersion kind rest).Follows (key :: path) place members v := by
  have hne : "apiVersion" ≠ key := fun heq => hversion (heq ▸ hkey)
  have hne' : "kind" ≠ key := fun heq => hkind (heq ▸ hkey)
  have hwritten : ∀ v other, "apiVersion" ≠ other → "kind" ≠ other →
      Entries.get? ((Fields.typed apiVersion kind rest).written v) other =
        Entries.get? (rest.written v) other :=
    fun v other h h' => Fields.get?_encode_typed apiVersion kind rest _ h h'
  constructor
  · have hreflects := hrest.reflects
    rwa [Json.resolve?_cons, Json.resolve?_cons, hwritten v key hne hne']
  · intro x y members' hreflects hrevised
    obtain ⟨v', hv', hcomplete', hothers⟩ := hrest.revised x y members' hreflects hrevised
    refine ⟨v', ?_, hcomplete', ?_⟩
    · have hsame : (namesType members' "apiVersion" apiVersion && namesType members' "kind" kind) =
          (namesType members "apiVersion" apiVersion && namesType members "kind" kind) := by
        rw [namesType, namesType, hrevised.get?_of_ne hne, hrevised.get?_of_ne hne']
        rfl
      rw [Fields.decode_typed, hsame, hnames, if_pos rfl, hv']
    · refine hothers.of_get? (hwritten v key hne hne') (hwritten v' key hne hne') ?_
      intro other hother
      by_cases hsame : other ∈ rest.members
      · rw [hwritten v' other (fun heq => hversion (heq ▸ hsame)) (fun heq => hkind (heq ▸ hsame)),
          hwritten v other (fun heq => hversion (heq ▸ hsame)) (fun heq => hkind (heq ▸ hsame))]
        exact hothers.get?_of_ne hother
      · have hout : ∀ v, Entries.get? (rest.written v) other = none :=
          fun v => rest.get?_encode_of_not_mem _ hsame
        simp only [Fields.written, Fields.configured, Fields.encode_typed, Entries.get?_insert]
        have hleft := hout v'
        have hright := hout v
        unfold Fields.written at hleft hright
        rw [hleft, hright]

/-- At the place of a field whose parent is an object, what an expanded object has follows the
document. -/
theorem Fields.follows_of_place? (fields : Fields) (hs : fields.Lawful) {path : List String}
    {place : Place} (hplace : fields.place? path = some place) {members : List (String × Json)}
    {v : fields.Value} (hv : fields.decode members = some v) (hcomplete : fields.Complete v)
    {parent : List (String × Json)}
    (hparent : resolve? path.dropLast (.obj members) = some (.obj parent)) :
    fields.Follows path place members v := by
  replace hplace := fields.reaches_of_place? hplace
  induction hplace generalizing members with
  | typed hrest ih =>
    obtain ⟨hnames, hv⟩ := decode_typed_iff.1 hv
    exact follows_typed hs.1 hs.2.1 hnames hrest.mem_members (ih hs.2.2 hv hcomplete hparent)
  | here =>
    obtain ⟨⟨-, hmember, -⟩, -, -⟩ := hs
    obtain ⟨found, vs, hfound, hvs, rfl⟩ := decode_cons_iff.1 hv
    exact follows_here hmember hfound hvs hcomplete
  | @inside field inner rest token path place hsolid _ ih =>
    obtain ⟨⟨-, hmember, -⟩, hshape, -⟩ := hs
    obtain ⟨found, vs, hfound, hvs, rfl⟩ := decode_cons_iff.1 hv
    obtain ⟨c, hc, hbelow⟩ := Option.bind_eq_some_iff.1 hparent
    have hc : Entries.get? members field.member = some c := hc
    rw [hc, Option.getD_some] at hfound
    obtain ⟨cs, w, rfl, hw, rfl⟩ := readBlock_of_resolve? hbelow hfound
    have hcompleteInner := (Presence.received_solid hsolid (s := .block inner) w).1.1 hcomplete.1
    exact follows_below hmember hsolid hc hvs hcomplete.2 (ih hshape hw hcompleteInner hbelow)
  | later hkey _ ih =>
    obtain ⟨⟨-, hmember, -⟩, -, hrest⟩ := hs
    obtain ⟨found, vs, hfound, hvs, rfl⟩ := decode_cons_iff.1 hv
    exact follows_rest hmember hkey hfound rfl hcomplete.1 (ih hrest hvs hcomplete.2 hparent)

/-- Fields inside a lawful schema are lawful. -/
theorem Fields.lawful_of_place? (fields : Fields) (hs : fields.Lawful) {path : List String}
    {place : Place} (hplace : fields.place? path = some place) : place.shape.Lawful := by
  replace hplace := fields.reaches_of_place? hplace
  induction hplace with
  | typed _ ih => exact ih hs.2.2
  | here => exact hs.2.1
  | inside _ _ ih => exact ih hs.2.1
  | later _ _ ih => exact ih hs.2.2

/-- Objects with the same member have objects around the same places in it. -/
theorem parent_of_get? {members members' : List (String × Json)} {key : String}
    (hget : Entries.get? members key = Entries.get? members' key) {path : List String}
    (h : ∃ parent, resolve? (key :: path).dropLast (.obj members') = some (.obj parent)) :
    ∃ parent, resolve? (key :: path).dropLast (.obj members) = some (.obj parent) := by
  cases path with
  | nil => exact ⟨members, rfl⟩
  | cons token path =>
    rw [List.dropLast_cons_cons, Json.resolve?_cons] at h ⊢
    rwa [hget]

/-- What the document of a complete value has at the place of a field: an object around it, and
the value if there is one. -/
theorem Fields.resolve?_encode (fields : Fields) (hs : fields.Lawful) {path : List String}
    {place : Place} (hplace : fields.place? path = some place) (v : fields.Value)
    (hcomplete : fields.Complete v) :
    ∃ parent held, resolve? path.dropLast (.obj (fields.encode v)) = some (.obj parent) ∧
      resolve? path (.obj (fields.encode v)) =
        (place.presence.sent held).map place.shape.encode := by
  replace hplace := fields.reaches_of_place? hplace
  induction hplace with
  | @typed _ _ rest key path _ hrest ih =>
    obtain ⟨parent, held, hparent, hvalue⟩ := ih hs.2.2 v hcomplete
    have hsame := get?_encode_typed_of_mem hs hrest.mem_members v
    obtain ⟨outer, houter⟩ := parent_of_get? hsame ⟨parent, hparent⟩
    refine ⟨outer, held, houter, ?_⟩
    rw [Json.resolve?_cons, hsame]
    exact hvalue
  | here =>
    refine ⟨_, v.1, rfl, ?_⟩
    rw [Json.resolve?_singleton]
    exact get?_encode_cons hs.1.2.1 v.1 v.2
  | inside hsolid _ ih =>
    obtain ⟨x, hx, hinner⟩ := Presence.sent_solid hsolid hcomplete.1
    obtain ⟨parent, held, hparent, hvalue⟩ := ih hs.2.1 x hinner
    have hthere := get?_encode_cons hs.1.2.1 v.1 v.2
    rw [hx] at hthere
    refine ⟨parent, held, ?_, ?_⟩
    · rw [List.dropLast_cons_cons, Json.resolve?_cons, hthere]
      exact hparent
    · rw [Json.resolve?_cons, hthere]
      exact hvalue
  | later hkey _ ih =>
    obtain ⟨parent, held, hparent, hvalue⟩ := ih hs.2.2 v.2 hcomplete.2
    have hsame := get?_encode_rest v.1 v.2 hkey
    obtain ⟨outer, houter⟩ := parent_of_get? hsame ⟨parent, hparent⟩
    refine ⟨outer, held, houter, ?_⟩
    rw [Json.resolve?_cons, hsame]
    exact hvalue

end DesiredState.Schema
