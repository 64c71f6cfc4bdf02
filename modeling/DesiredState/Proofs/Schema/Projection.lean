import DesiredState.Proofs.Schema.Lawful
import DesiredState.Proofs.Schema.Leaf
import DesiredState.Schema.Expand
import DesiredState.Schema.Flatten

/-!
What a tree keeps of a typed value.
A flattened value can be expanded again exactly if it is `Complete`: each
expected member is there, and each backend has its service. The result is the
value as far as it is `configured`: what the store reports is dropped, sets are
sorted, and numerals stand for numbers. Both are defined on typed values alone,
by recursion on the schema.
-/
namespace DesiredState.Schema

/-- Nothing is missing that an expanded value must have. -/
def Presence.Complete {α : Type} (p : Presence) (P : α → Prop) (v : p.Held α) : Prop :=
  match p with
  | .required | .defaulted _ => P v
  | .optional => ∀ x, v = some x → P x
  | .expected => ∃ x, v = some x ∧ P x
  | .reported | .internal => True

/-- Whether an expanded object keeps the value of a field. -/
def Presence.isKept : Presence → Bool
  | .optional | .required | .expected | .defaulted _ => true
  | .reported | .internal => false

/-- What an expanded value keeps; nothing of what the store sets. -/
def Presence.configured {α : Type} (p : Presence) (f : α → α) (v : p.Held α) : p.Held α :=
  match p with
  | .required | .defaulted _ => f v
  | .optional | .expected => Option.map f v
  | .reported | .internal => none

/-- A number wins over a name, a numeral is a number, and an empty port is none. -/
def ServicePort.configured? (p : ServicePort) : Option ServicePort :=
  match p.number?, p.name? with
  | some i, _ => some ⟨some i, none⟩
  | none, some name => some (ofText name)
  | none, none => none

def Service.configured (s : Service) : Service :=
  ⟨s.name, s.port?.bind ServicePort.configured?⟩

def Backend.configured (b : Backend) : Backend := ⟨b.service?.map Service.configured⟩

mutual

def Shape.Complete : (s : Shape) → s.Value → Prop
  | .leaf _, _ => True
  | .block fields, v => fields.Complete v
  | .blocks fields, items => ∀ v ∈ items, fields.Complete v
  | .backend, b => b.service?.isSome

def Fields.Complete : (fields : Fields) → fields.Value → Prop
  | .nil, _ => True
  | .typed _ _ rest, v => rest.Complete v
  | .cons field shape rest, (v, vs) =>
    field.presence.Complete shape.Complete v ∧ rest.Complete vs

end

mutual

def Shape.configured : (s : Shape) → s.Value → s.Value
  | .leaf l, v => l.configured v
  | .block fields, v => fields.configured v
  | .blocks fields, items => items.map fields.configured
  | .backend, b => b.configured

def Fields.configured : (fields : Fields) → fields.Value → fields.Value
  | .nil, _ => ()
  | .typed _ _ rest, v => rest.configured v
  | .cons field shape rest, (v, vs) =>
    (field.presence.configured shape.configured v, rest.configured vs)

end

namespace ServicePort

theorem toText?_ofText (s : String) :
    (ofText s).toText? = some (Leaf.plainNumeral s) := by
  unfold ofText toText? Leaf.plainNumeral
  cases Text.int32? s with
  | some i => rfl
  | none => rfl

theorem configured?_eq (p : ServicePort) : p.configured? = p.toText?.map ofText := by
  obtain ⟨number?, name?⟩ := p
  cases number? with
  | some i => simp [configured?, toText?, ofText, Text.int32?_intText]
  | none => cases name? <;> rfl

theorem configured?_ofText (s : String) : (ofText s).configured? = some (ofText s) := by
  unfold ofText
  cases h : Text.int32? s with
  | some i => rfl
  | none => simp [configured?, ofText, h]

end ServicePort

namespace Backend

theorem configured_expanded (name : String) (port : Option String) :
    configured ⟨some ⟨name, port.map ServicePort.ofText⟩⟩ =
      ⟨some ⟨name, port.map ServicePort.ofText⟩⟩ := by
  cases port with
  | none => rfl
  | some s => simp [configured, Service.configured, ServicePort.configured?_ofText]

/-- The texts that a flattened backend consists of. -/
theorem get?_flatten (b : Backend) (key : String) :
    Entries.get? b.flatten key =
      if "service_name" = key then b.service?.map (fun s => Tree.str s.name)
      else if "service_port" = key then
        (b.service?.bind (fun s => s.port?.bind ServicePort.toText?)).map .str
      else none := by
  simp only [flatten, Entries.get?_insert?]
  by_cases hname : "service_name" = key
  · subst hname
    simp
  · simp [hname]

/-- The rest of a backend after its port. -/
theorem expandName_eq_ok {path : Path} {entries : List (String × Tree)}
    {port : Option ServicePort} {b : Backend} :
    (match Entries.get? entries "service_name" with
      | some t => do
        let name ← Leaf.text.expand (path ++ ["service_name"]) t
        return ⟨some ⟨name, port⟩⟩
      | none => Except.error ⟨path ++ ["service_name"], .missing⟩) = Except.ok b ↔
      ∃ name, Entries.get? entries "service_name" = some (.str name) ∧
        b = ⟨some ⟨name, port⟩⟩ := by
  cases Entries.get? entries "service_name" with
  | none => simp
  | some t =>
    simp only [Outcome.bind_eq_ok]
    constructor
    · rintro ⟨name, hname, heq⟩
      cases heq
      exact ⟨name, congrArg some (Leaf.expand_text_eq_ok.1 hname), rfl⟩
    · rintro ⟨name, hname, rfl⟩
      cases hname
      exact ⟨name, rfl, rfl⟩

theorem expand_eq_ok {path : Path} {entries : List (String × Tree)} {b : Backend} :
    expand path entries = .ok b ↔
      ∃ name port, Entries.get? entries "service_name" = some (.str name) ∧
        Entries.get? entries "service_port" = Option.map Tree.str port ∧
        b = ⟨some ⟨name, port.map ServicePort.ofText⟩⟩ := by
  constructor
  · intro h
    simp only [expand] at h
    cases hp : Entries.get? entries "service_port" with
    | none =>
      rw [hp] at h
      obtain ⟨name, hname, rfl⟩ := expandName_eq_ok.1 h
      exact ⟨name, none, hname, rfl, rfl⟩
    | some t =>
      rw [hp] at h
      obtain ⟨port, hport, h⟩ := Outcome.bind_eq_ok.1 h
      obtain ⟨s, hs, rfl⟩ := Outcome.map_eq_ok.1 hport
      obtain rfl := Leaf.expand_text_eq_ok.1 hs
      obtain ⟨name, hname, rfl⟩ := expandName_eq_ok.1 h
      exact ⟨name, some s, hname, rfl, rfl⟩
  · rintro ⟨name, port, hname, hport, rfl⟩
    unfold expand
    rw [hname, hport]
    cases port <;> rfl

/-- A flattened backend can be expanded again if it names a service. -/
theorem expand_flatten_iff (path : Path) (b w : Backend) :
    expand path b.flatten = .ok w ↔ b.service?.isSome ∧ w = b.configured := by
  obtain ⟨service?⟩ := b
  rw [expand_eq_ok, get?_flatten, get?_flatten]
  cases service? with
  | none => simp
  | some s =>
    obtain ⟨name, port?⟩ := s
    have hport : port?.bind ServicePort.configured? =
        (port?.bind ServicePort.toText?).map ServicePort.ofText := by
      cases port? with
      | none => rfl
      | some p => exact p.configured?_eq
    simp only [configured, Service.configured, Option.map_some, hport]
    constructor
    · rintro ⟨n, text, hn, htext, rfl⟩
      simp only [↓reduceIte, Option.some.injEq, Tree.str.injEq] at hn
      have htext : port?.bind ServicePort.toText? = text :=
        Option.map_injective (fun _ _ => Tree.str.inj) (by simpa using htext)
      simp [hn, htext]
    · rintro ⟨-, rfl⟩
      exact ⟨name, _, rfl, rfl, rfl⟩

/-- An expanded backend is complete and keeps all it has. -/
theorem configured_of_expand {path : Path} {entries : List (String × Tree)} {b : Backend}
    (h : expand path entries = .ok b) : b.service?.isSome ∧ b.configured = b := by
  obtain ⟨name, port, -, -, rfl⟩ := expand_eq_ok.1 h
  exact ⟨rfl, configured_expanded name port⟩

end Backend

/-- A block or list of blocks whose maps are known. -/
theorem readItems_maps (path : Path) (i : Nat) (items : List (List (String × Tree))) :
    ∃ located, readItems path i (items.map .map) = .ok located ∧
      located.map Prod.snd = items := by
  induction items generalizing i with
  | nil => exact ⟨[], rfl, rfl⟩
  | cons entries rest ih =>
    obtain ⟨located, hread, hsnd⟩ := ih (i + 1)
    refine ⟨(path ++ [i.repr], entries) :: located, ?_, by simp [hsnd]⟩
    simp [readItems, hread]

theorem expandEach_iff {α β : Type} {one : Path → List (String × Tree) → Checked α}
    {f : β → List (String × Tree)} {P : β → Prop} {g : β → α}
    (hone : ∀ path v w, one path (f v) = .ok w ↔ P v ∧ w = g v)
    (items : List β) (located : List (Path × List (String × Tree)))
    (h : located.map Prod.snd = items.map f) (ws : List α) :
    expandEach one located = .ok ws ↔ (∀ v ∈ items, P v) ∧ ws = items.map g := by
  induction items generalizing located ws with
  | nil =>
    obtain rfl : located = [] := by simpa using h
    simp [expandEach, eq_comm]
  | cons v rest ih =>
    cases located with
    | nil => simp at h
    | cons first others =>
      obtain ⟨path, entries⟩ := first
      simp only [List.map_cons, List.cons.injEq] at h
      obtain ⟨rfl, hothers⟩ := h
      simp only [expandEach, Outcome.bind_eq_ok, hone, ih others hothers, Outcome.pure_eq_ok,
        Except.ok.injEq, List.forall_mem_cons, List.map_cons]
      constructor
      · rintro ⟨w, ⟨hv, rfl⟩, ws, ⟨hrest, rfl⟩, rfl⟩
        exact ⟨⟨hv, hrest⟩, rfl⟩
      · rintro ⟨⟨hv, hrest⟩, rfl⟩
        exact ⟨g v, ⟨hv, rfl⟩, _, ⟨hrest, rfl⟩, rfl⟩

namespace Fields

theorem get?_flatten_of_not_mem (fields : Fields) (v : fields.Value) {key : String}
    (h : key ∉ fields.keys) : Entries.get? (fields.flatten v) key = none := by
  match fields, v with
  | .nil, _ => rfl
  | .typed _ _ rest, v => exact rest.get?_flatten_of_not_mem v h
  | .cons field shape rest, (v, vs) =>
    simp only [keys, List.mem_cons, not_or] at h
    simp only [flatten_cons, Entries.get?_insert?, if_neg (Ne.symm h.1)]
    exact rest.get?_flatten_of_not_mem vs h.2

theorem get?_flatten_cons {field : Field} {shape : Shape} {rest : Fields}
    (h : field.key ∉ rest.keys) (v : field.presence.Held shape.Value) (vs : rest.Value) :
    Entries.get? ((Fields.cons field shape rest).flatten (v, vs)) field.key =
      (field.presence.shown v).map shape.flatten := by
  simp only [flatten_cons, Entries.get?_insert?, if_pos]
  rw [rest.get?_flatten_of_not_mem vs h, Option.or_none]

theorem get?_flatten_rest {field : Field} {shape : Shape} {rest : Fields}
    (h : field.key ∉ rest.keys) (v : field.presence.Held shape.Value) (vs : rest.Value)
    {key : String} (hkey : key ∈ rest.keys) :
    Entries.get? ((Fields.cons field shape rest).flatten (v, vs)) key =
      Entries.get? (rest.flatten vs) key := by
  have hne : field.key ≠ key := fun heq => h (heq ▸ hkey)
  simp only [flatten_cons, Entries.get?_insert?, if_neg hne]

theorem sorted_flatten : (fields : Fields) → (v : fields.Value) →
    Entries.Sorted (fields.flatten v)
  | .nil, _ => Entries.sorted_nil
  | .typed _ _ rest, v => rest.sorted_flatten v
  | .cons _ _ rest, (_, vs) => Entries.sorted_insert? _ _ (rest.sorted_flatten vs)

/-- Setting the key of a field in the tree is setting the field. -/
theorem insert_flatten_cons {field : Field} {shape : Shape} {rest : Fields}
    {w : field.presence.Held shape.Value} {value : Tree}
    (hw : (field.presence.shown w).map shape.flatten = some value)
    (v : field.presence.Held shape.Value) (vs : rest.Value) :
    Entries.insert field.key value ((Fields.cons field shape rest).flatten (v, vs)) =
      (Fields.cons field shape rest).flatten (w, vs) := by
  simp only [flatten_cons, hw]
  exact Entries.insert_insert? _ _ _ (rest.sorted_flatten vs)

theorem insert_flatten_rest {field : Field} {shape : Shape} {rest : Fields}
    (v : field.presence.Held shape.Value) {vs ws : rest.Value} {key : String} {value : Tree}
    (hkey : field.key ≠ key)
    (h : Entries.insert key value (rest.flatten vs) = rest.flatten ws) :
    Entries.insert key value ((Fields.cons field shape rest).flatten (v, vs)) =
      (Fields.cons field shape rest).flatten (v, ws) := by
  simp only [flatten_cons]
  rw [Entries.insert_insert?_comm hkey _ _ (rest.sorted_flatten vs), h]

end Fields

/-- The value at a key, if it has one. -/
def Shape.found (s : Shape) (path : Path) (key : String) (entries : List (String × Tree)) :
    Checked (Option s.Value) :=
  (Entries.get? entries key).elim (.ok none) (s.expand (path ++ [key]))

/-- A block can be expanded if its first field and the others can. -/
theorem Fields.expand_cons_iff (field : Field) (shape : Shape) (rest : Fields) (path : Path)
    (entries : List (String × Tree)) (w : (Fields.cons field shape rest).Value) :
    (Fields.cons field shape rest).expand path entries = .ok w ↔
      field.presence.settle (shape.found path field.key entries) shape.fallback
        ⟨path ++ [field.key], if shape.isBlock then .missingBlock else .missing⟩ = .ok w.1 ∧
      rest.expand path entries = .ok w.2 := by
  rw [Fields.expand, Shape.found]
  cases Entries.get? entries field.key with
  | none => exact Outcome.pair_eq_ok
  | some t => exact Outcome.pair_eq_ok

/-- What a presence makes of a value that it showed. -/
theorem Presence.settle_iff {α : Type} {p : Presence} {P : α → Prop} {f : α → α} {v : p.Held α}
    {found : Checked (Option α)} {fallback : String → α} {missing : Tree.Violation}
    (hsome : ∀ x, p.shown v = some x → ∀ y, found = .ok y ↔ P x ∧ y = some (f x))
    (hnone : p.shown v = none → found = .ok none) (w : p.Held α) :
    p.settle found fallback missing = .ok w ↔ p.Complete P v ∧ w = p.configured f v := by
  match p, v with
  | .required, v =>
    simp only [settle, Outcome.bind_eq_ok_of_iff (hsome v rfl), Complete, configured]
    simp [eq_comm]
  | .defaulted text, v =>
    simp only [settle, Outcome.bind_eq_ok_of_iff (hsome v rfl), Complete, configured]
    simp [eq_comm]
  | .optional, none =>
    simp only [settle, hnone rfl, Complete, configured, Option.map_none]
    simp [eq_comm]
  | .optional, some x =>
    simp only [settle, hsome x rfl, Complete, configured, Option.map_some]
    simp
  | .expected, none =>
    simp [settle, hnone rfl, Complete]
  | .expected, some x =>
    simp only [settle, Outcome.bind_eq_ok_of_iff (hsome x rfl), Complete, configured,
      Option.map_some]
    simp [eq_comm]
  | .reported, v => simp [settle, Complete, configured, eq_comm]
  | .internal, v => simp [settle, Complete, configured, eq_comm]

mutual

/-- A flattened value can be expanded exactly if it is complete. -/
theorem Shape.expand_flatten_iff : (s : Shape) → s.Lawful → (path : Path) → (v : s.Value) →
    (w : Option s.Value) →
    (s.expand path (s.flatten v) = .ok w ↔ s.Complete v ∧ w = some (s.configured v))
  | .leaf l, _, path, v, w => by
    simp [Shape.expand, Shape.flatten, Leaf.expand_flatten_leaf, Shape.Complete,
      Shape.configured, eq_comm]
  | .block fields, hs, path, v, w => by
    have hfields := fields.expand_flatten_iff hs (path ++ ["0"]) v (fields.flatten v)
      (fun _ _ => rfl)
    have hread : readBlock path (.block (fields.flatten v)) =
        .ok (some (path ++ ["0"], fields.flatten v)) := rfl
    rw [Shape.expand, Shape.flatten, hread, Outcome.ok_bind]
    exact Outcome.return_eq_ok_of_iff hfields
  | .blocks fields, hs, path, items, w => by
    obtain ⟨located, hread, hlocated⟩ := readItems_maps path 0 (items.map fields.flatten)
    have hone : ∀ path v w, fields.expand path (fields.flatten v) = .ok w ↔
        fields.Complete v ∧ w = fields.configured v :=
      fun path v w => fields.expand_flatten_iff hs path v _ (fun _ _ => rfl) w
    have heach := expandEach_iff hone items located hlocated
    rw [List.map_map] at hread
    simp only [Shape.expand, Shape.flatten, readBlocks]
    rw [show (fun v => Tree.map (fields.flatten v)) = Tree.map ∘ fields.flatten from rfl, hread,
      Outcome.ok_bind]
    exact Outcome.return_eq_ok_of_iff heach
  | .backend, _, path, b, w => by
    have hread : readBlock path (.block b.flatten) = .ok (some (path ++ ["0"], b.flatten)) := rfl
    have hbackend := b.expand_flatten_iff (path ++ ["0"])
    rw [Shape.expand, Shape.flatten, hread, Outcome.ok_bind]
    exact Outcome.return_eq_ok_of_iff hbackend

/-- The entries need only agree with the flattened value on the keys of the schema. -/
theorem Fields.expand_flatten_iff : (fields : Fields) → fields.Lawful → (path : Path) →
    (v : fields.Value) → (entries : List (String × Tree)) →
    (∀ key ∈ fields.keys, Entries.get? entries key = Entries.get? (fields.flatten v) key) →
    (w : fields.Value) →
    (fields.expand path entries = .ok w ↔ fields.Complete v ∧ w = fields.configured v)
  | .nil, _, _, v, _, _, w => by
    simp [Fields.expand, Fields.Complete, Fields.configured]
  | .typed _ _ rest, hs, path, v, entries, hentries, w =>
    rest.expand_flatten_iff hs.2.2 path v entries hentries w
  | .cons field shape rest, hs, path, (v, vs), entries, hentries, w => by
    obtain ⟨⟨hkey, -, -⟩, hshape, hrest⟩ := hs
    have hfound : Entries.get? entries field.key =
        (field.presence.shown v).map shape.flatten := by
      rw [hentries field.key List.mem_cons_self, Fields.get?_flatten_cons hkey]
    have hothers := rest.expand_flatten_iff hrest path vs entries (fun key hmem => by
      rw [hentries key (List.mem_cons_of_mem _ hmem), Fields.get?_flatten_rest hkey v vs hmem]) w.2
    rw [Fields.expand_cons_iff field shape rest path entries w, hothers,
      Presence.settle_iff (P := shape.Complete) (f := shape.configured) (v := v)]
    · simp only [Fields.Complete, Fields.configured, Prod.ext_iff]
      tauto
    · intro x hx y
      simp only [Shape.found, hfound, hx, Option.map_some, Option.elim_some]
      exact shape.expand_flatten_iff hshape _ x y
    · intro hx
      simp only [Shape.found, hfound, hx, Option.map_none, Option.elim_none]

end

end DesiredState.Schema
