import DesiredState.Proofs.Schema.Canonical
import DesiredState.Proofs.Schema.Place

/-!
Outlines of trees.
An outline lists the keys of a schema by their paths, each with the form that
its value must have and whether it must be there. A block of fields can be
expanded exactly if every row of its outline holds in every map it is about,
and the result is that of the tree without the keys that no row names.
-/
namespace DesiredState

/-- The maps at a path of keys, each the key of a list whose maps come next. -/
def Tree.mapsAt : List String → Tree → List (List (String × Tree))
  | [], .map entries => [entries]
  | key :: rest, .map entries =>
    (((Entries.get? entries key).bind Tree.items?).getD []).flatMap (mapsAt rest)
  | _, _ => []

/-- What the value of a key is. -/
inductive Outline.Form where
  | string
  | int
  /-- An integer of 32 signed bits. -/
  | int32
  | flag
  /-- Strings in their order. -/
  | strings
  /-- Strings as a set, or as a list. -/
  | stringSet
  | stringMap
  /-- At most one map in a list; an empty list counts as absent. -/
  | block
  | maps
deriving DecidableEq, Repr

/-- A key of all maps at a path of parents. -/
structure Outline.Row where
  parents : List String
  key : String
  form : Outline.Form
  required : Bool
deriving DecidableEq, Repr

abbrev Outline := List Outline.Row

namespace Outline

def Form.takes : Form → Tree → Bool
  | string, .str _ | int, .int _ | flag, .bool _ | stringSet, .set _ => true
  | int32, .int i => -2147483648 ≤ i.toInt ∧ i.toInt ≤ 2147483647
  | strings, .list items | stringSet, .list items => items.all (·.form = .string)
  | stringMap, .map entries => entries.all (·.2.form = .string)
  | block, .list [.map _] => true
  | maps, .list items => items.all (·.form = .map)
  | _, _ => false

theorem takes_block_iff {t : Tree} : Form.block.takes t = true ↔ ∃ entries, t = .block entries := by
  constructor
  · intro h
    cases t with
    | list items =>
      match items, h with
      | [.map entries], _ => exact ⟨entries, rfl⟩
    | _ => cases h
  · rintro ⟨entries, rfl⟩
    rfl

theorem takes_maps_iff {t : Tree} :
    Form.maps.takes t = true ↔ ∃ items, t = .list items ∧ items.all (·.form = .map) = true := by
  cases t <;> simp [Form.takes]

/-- What a map has at the key of a row. -/
def Row.given? (r : Row) (entries : List (String × Tree)) : Option Tree :=
  (Entries.get? entries r.key).filter (fun t => !(r.form = .block && t = .list []))

theorem Row.given?_of_ne {r : Row} (h : r.form ≠ .block) (entries : List (String × Tree)) :
    r.given? entries = Entries.get? entries r.key := by
  cases hget : Entries.get? entries r.key <;> simp [Row.given?, hget, h, Option.filter]

/-- What is there has its form, and nothing that is required is missing. -/
def Row.holds (r : Row) (entries : List (String × Tree)) : Bool :=
  match r.given? entries with
  | some t => r.form.takes t
  | none => !r.required

/-- Every row holds in every map that it is about. -/
def Holds (o : Outline) (t : Tree) : Prop :=
  ∀ r ∈ o, ∀ entries ∈ t.mapsAt r.parents, r.holds entries = true

def must (key : String) (form : Form) : Row := ⟨[], key, form, true⟩

def may (key : String) (form : Form) : Row := ⟨[], key, form, false⟩

/-- The rows of an outline in the maps at a key. -/
def under (key : String) (o : Outline) : Outline :=
  o.map (fun r => { r with parents := key :: r.parents })

/-- A row with the rows of the maps that its value consists of. -/
def Row.around (r : Row) (inside : Outline) : Outline := r :: under r.key inside

theorem holds_append {a b : Outline} {t : Tree} :
    Holds (a ++ b) t ↔ Holds a t ∧ Holds b t := List.forall_mem_append

theorem holds_under {key : String} {o : Outline} {entries : List (String × Tree)} :
    Holds (under key o) (.map entries) ↔
      ∀ item ∈ ((Entries.get? entries key).bind Tree.items?).getD [], Holds o item := by
  unfold Holds under
  simp only [List.forall_mem_map, Tree.mapsAt, List.mem_flatMap]
  constructor
  · intro h item hitem r hr m hm
    exact h r hr m ⟨item, hitem, hm⟩
  · rintro h r hr m ⟨item, hitem, hm⟩
    exact h item hitem r hr m hm

theorem holds_cons {r : Row} {o : Outline} {entries : List (String × Tree)}
    (h : r.parents = []) :
    Holds (r :: o) (.map entries) ↔ r.holds entries = true ∧ Holds o (.map entries) := by
  unfold Holds
  rw [List.forall_mem_cons, h]
  simp [Tree.mapsAt]

end Outline

namespace Schema

open Outline (must may)

def Leaf.outlineForm : Leaf → Outline.Form
  | .text | .intOrText => .string
  | .int32 => .int32
  | .int64 => .int
  | .flag => .flag
  | .texts => .strings
  | .textSet => .stringSet
  | .textMap => .stringMap

def Shape.outlineForm : Shape → Outline.Form
  | .leaf l => l.outlineForm
  | .block _ | .backend => .block
  | .blocks _ => .maps

mutual

/-- The outline of the maps that a subtree consists of. -/
def Shape.outline : Shape → Outline
  | .leaf _ => []
  | .block fields | .blocks fields => fields.outline
  | .backend => [must "service_name" .string, may "service_port" .string]

def Fields.outline : Fields → Outline
  | .nil => []
  | .typed _ _ rest => rest.outline
  | .cons field shape rest =>
    if field.presence.isKept then
      Outline.Row.around ⟨[], field.key, shape.outlineForm, field.presence.isSolid⟩ shape.outline ++
        rest.outline
    else rest.outline

end

namespace Leaf

theorem exists_expandTexts_iff {path : Path} {i : Nat} {items : List Tree} :
    (∃ texts, expandTexts path i items = .ok texts) ↔
      items.all (·.form = .string) = true := by
  induction items generalizing i with
  | nil => simp [expandTexts]
  | cons t rest ih =>
    cases t with
    | str s =>
      rw [expandTexts, Outcome.exists_return_iff, ih]
      simp [Tree.form]
    | _ => simp [expandTexts, mismatch, Tree.form]

theorem exists_expandEntries_iff {path : Path} {entries : List (String × Tree)} :
    (∃ texts, expandEntries path entries = .ok texts) ↔
      entries.all (·.2.form = .string) = true := by
  induction entries with
  | nil => simp [expandEntries]
  | cons e rest ih =>
    obtain ⟨key, t⟩ := e
    cases t with
    | str s =>
      rw [expandEntries, Outcome.exists_return_iff, ih]
      simp [Tree.form]
    | _ => simp [expandEntries, mismatch, Tree.form]

theorem exists_expandInt32_iff {path : Path} {i : Int64} :
    (∃ j, expandInt32 path i = .ok j) ↔ -2147483648 ≤ i.toInt ∧ i.toInt ≤ 2147483647 := by
  have hleast : Int32.minValue.toInt = -2147483648 := by decide
  have hgreatest : Int32.maxValue.toInt = 2147483647 := by decide
  unfold expandInt32
  rw [hleast, hgreatest]
  split
  · rename_i h
    simp only [Except.ok.injEq, exists_eq', true_iff]
    omega
  · rename_i h
    simp only [reduceCtorEq, exists_false, false_iff]
    omega

/-- A leaf can be read exactly if it has its form. -/
theorem exists_expand_iff (l : Leaf) (path : Path) (t : Tree) :
    (∃ v, l.expand path t = .ok v) ↔ l.outlineForm.takes t = true := by
  cases l with
  | int32 =>
    cases t with
    | int i =>
      rw [expand, exists_expandInt32_iff]
      simp [outlineForm, Outline.Form.takes]
    | _ => simp [expand, mismatch, outlineForm, Outline.Form.takes]
  | texts =>
    cases t with
    | list items => exact exists_expandTexts_iff
    | _ => simp [expand, mismatch, outlineForm, Outline.Form.takes]
  | textSet =>
    cases t with
    | list items => exact Outcome.exists_map_iff.trans exists_expandTexts_iff
    | _ => simp [expand, mismatch, outlineForm, Outline.Form.takes]
  | textMap =>
    cases t with
    | map entries => exact Outcome.exists_map_iff.trans exists_expandEntries_iff
    | _ => simp [expand, mismatch, outlineForm, Outline.Form.takes]
  | _ => cases t <;> simp [expand, mismatch, outlineForm, Outline.Form.takes]

end Leaf

theorem readItems_iff {path : Path} {i : Nat} {items : List Tree} :
    (∃ located, readItems path i items = .ok located) ↔ items.all (·.form = .map) = true := by
  induction items generalizing i with
  | nil => simp [readItems]
  | cons t rest ih =>
    cases t with
    | map entries =>
      rw [readItems, Outcome.exists_return_iff, ih]
      simp [Tree.form]
    | _ => simp [readItems, Leaf.mismatch, Tree.form]

theorem exists_expandEach_iff {α : Type} {one : Path → List (String × Tree) → Checked α}
    {located : List (Path × List (String × Tree))} :
    (∃ vs, expandEach one located = .ok vs) ↔ ∀ e ∈ located, ∃ v, one e.1 e.2 = .ok v := by
  induction located with
  | nil => simp [expandEach]
  | cons e rest ih =>
    rw [List.forall_mem_cons, ← ih, expandEach, Outcome.exists_bind_iff]
    constructor
    · rintro ⟨v, hv, hrest⟩
      exact ⟨⟨v, hv⟩, Outcome.exists_return_iff.1 hrest⟩
    · rintro ⟨⟨v, hv⟩, hrest⟩
      exact ⟨v, hv, Outcome.exists_return_iff.2 hrest⟩

/-- What a presence asks of a value that may be found. -/
theorem Presence.exists_settle_iff {α : Type} {p : Presence} {found : Checked (Option α)}
    {fallback : String → α} {missing : Tree.Violation} :
    (∃ w, p.settle found fallback missing = .ok w) ↔
      (p.isKept → ∃ x, found = .ok x ∧ (p.isSolid → x.isSome)) := by
  cases found with
  | error e => cases p <;> simp [settle, isKept]
  | ok x => cases p <;> cases x <;> simp [settle, isKept, isSolid]

/-- Reads what is in a block. -/
def expandBlock {α : Type} (read : Path → List (String × Tree) → Checked α) (path : Path)
    (t : Tree) : Checked (Option α) :=
  readBlock path t >>= fun
    | some (path, entries) => (read path entries).map some
    | none => .ok none

theorem expandBlock_eq_ok {α : Type} {read : Path → List (String × Tree) → Checked α} {path : Path}
    {t : Tree} {found : Option α} :
    expandBlock read path t = .ok found ↔ (t = .list [] ∧ found = none) ∨
      ∃ entries v, t = .block entries ∧ read (path ++ ["0"]) entries = .ok v ∧
        found = some v := by
  unfold expandBlock
  rw [Outcome.bind_eq_ok]
  constructor
  · rintro ⟨block?, hread, h⟩
    rcases readBlock_eq_ok.1 hread with ⟨rfl, rfl⟩ | ⟨entries, rfl, rfl⟩
    · cases h
      exact Or.inl ⟨rfl, rfl⟩
    · obtain ⟨v, hv, rfl⟩ := Outcome.map_eq_ok.1 h
      exact Or.inr ⟨entries, v, rfl, hv, rfl⟩
  · rintro (⟨rfl, rfl⟩ | ⟨entries, v, rfl, hv, rfl⟩)
    · exact ⟨none, rfl, rfl⟩
    · exact ⟨some (path ++ ["0"], entries), rfl, Outcome.map_eq_ok.2 ⟨v, hv, rfl⟩⟩

theorem Shape.expand_block (fields : Fields) (path : Path) (t : Tree) :
    (Shape.block fields).expand path t = expandBlock fields.expand path t := by
  rw [Shape.expand, expandBlock]
  rfl

theorem Shape.expand_backend (path : Path) (t : Tree) :
    Shape.backend.expand path t = expandBlock Backend.expand path t := by
  rw [Shape.expand, expandBlock]
  rfl

/-- Only an empty block is read as nothing. -/
theorem Shape.expand_eq_none_iff {s : Shape} {path : Path} {t : Tree} :
    s.expand path t = .ok none ↔ s.outlineForm = .block ∧ t = .list [] := by
  cases s with
  | leaf l =>
    have hform : l.outlineForm ≠ .block := by cases l <;> simp [Leaf.outlineForm]
    simp [Shape.expand, Outcome.map_eq_ok, Shape.outlineForm, hform]
  | block fields => simp [Shape.expand_block, expandBlock_eq_ok, Shape.outlineForm]
  | blocks fields => simp [Shape.expand, Outcome.bind_eq_ok, Shape.outlineForm]
  | backend => simp [Shape.expand_backend, expandBlock_eq_ok, Shape.outlineForm]

/-- What a subtree must be to be expanded. -/
def Shape.Accepts (s : Shape) (t : Tree) : Prop :=
  (s.outlineForm = .block ∧ t = .list [] ∨ s.outlineForm.takes t = true) ∧
    ∀ item ∈ t.items?.getD [], s.outline.Holds item

/-- A block can be read exactly if it is empty or its only map can. -/
theorem exists_expandBlock_iff {s : Shape} (hs : s.outlineForm = .block) {α : Type}
    {read : Path → List (String × Tree) → Checked α}
    (hread : ∀ path entries, (∃ v, read path entries = .ok v) ↔ s.outline.Holds (.map entries))
    {path : Path} {t : Tree} :
    (∃ found, expandBlock read path t = .ok found) ↔ s.Accepts t := by
  simp only [expandBlock_eq_ok]
  constructor
  · rintro ⟨found, ⟨rfl, -⟩ | ⟨entries, v, rfl, hv, -⟩⟩
    · exact ⟨Or.inl ⟨hs, rfl⟩, by simp [Tree.items?]⟩
    · have hholds := (hread _ entries).1 ⟨v, hv⟩
      refine ⟨Or.inr (hs ▸ Outline.takes_block_iff.2 ⟨entries, rfl⟩), ?_⟩
      simpa [Tree.block, Tree.items?] using hholds
  · rintro ⟨⟨-, rfl⟩ | htakes, hinside⟩
    · exact ⟨none, Or.inl ⟨rfl, rfl⟩⟩
    · obtain ⟨entries, rfl⟩ : ∃ entries, t = .block entries := by
        rw [hs] at htakes
        exact Outline.takes_block_iff.1 htakes
      obtain ⟨v, hv⟩ := (hread (path ++ ["0"]) entries).2 (hinside _ List.mem_cons_self)
      exact ⟨some v, Or.inr ⟨entries, v, rfl, hv, rfl⟩⟩

theorem Backend.exists_expand_iff {path : Path} {entries : List (String × Tree)} :
    (∃ b, expand path entries = .ok b) ↔ Shape.backend.outline.Holds (.map entries) := by
  have hstring : ∀ t : Tree, Outline.Form.string.takes t = true ↔ ∃ s, t = .str s := by
    intro t
    cases t <;> simp [Outline.Form.takes]
  have hnone : ∀ m, Outline.Holds [] m := fun m r hr => by cases hr
  rw [Shape.outline, Outline.holds_cons rfl, Outline.holds_cons rfl, and_iff_left (hnone _),
    Outline.Row.holds, Outline.Row.holds, Outline.Row.given?_of_ne (by decide),
    Outline.Row.given?_of_ne (by decide)]
  simp only [expand_eq_ok, must, may]
  constructor
  · rintro ⟨b, name, port, hname, hport, -⟩
    rw [hname, hport]
    cases port <;> exact ⟨rfl, rfl⟩
  · rintro ⟨hname, hport⟩
    cases hn : Entries.get? entries "service_name" with
    | none => simp [hn] at hname
    | some t =>
      rw [hn] at hname
      obtain ⟨name, rfl⟩ := (hstring t).1 hname
      cases hp : Entries.get? entries "service_port" with
      | none => exact ⟨_, name, none, rfl, rfl, rfl⟩
      | some u =>
        rw [hp] at hport
        obtain ⟨port, rfl⟩ := (hstring u).1 hport
        exact ⟨_, name, some port, rfl, rfl, rfl⟩

/-- A list of blocks can be read exactly if all of its elements can. -/
theorem exists_expandBlocks_iff {fields : Fields}
    (hfields : ∀ path entries, (∃ v, fields.expand path entries = .ok v) ↔
      fields.outline.Holds (.map entries))
    {path : Path} {t : Tree} :
    (∃ found, (Shape.blocks fields).expand path t = .ok found) ↔
      (Shape.blocks fields).Accepts t := by
  have hform : (Shape.blocks fields).outlineForm = .maps := rfl
  rw [Shape.expand, Outcome.exists_bind_iff]
  simp only [Outcome.exists_return_iff, exists_expandEach_iff, hfields, Shape.Accepts, hform,
    reduceCtorEq, false_and, false_or, Outline.takes_maps_iff]
  constructor
  · rintro ⟨located, hread, hinside⟩
    cases t with
    | list items =>
      obtain rfl := eq_maps_of_readItems hread
      refine ⟨⟨_, rfl, readItems_iff.1 ⟨located, hread⟩⟩, fun item hitem => ?_⟩
      obtain ⟨e, he, rfl⟩ := List.mem_map.1 hitem
      exact hinside e he
    | _ => cases hread
  · rintro ⟨⟨items, rfl, hmaps⟩, hinside⟩
    obtain ⟨located, hread⟩ : ∃ located, readItems path 0 items = .ok located :=
      readItems_iff.2 hmaps
    obtain rfl := eq_maps_of_readItems hread
    exact ⟨located, hread, fun e he => hinside _ (List.mem_map_of_mem he)⟩

/-- A field that is kept can be read exactly if its row holds and its value can be read. -/
theorem Shape.exists_found_iff {s : Shape} {path : Path} {key : String}
    (hs : ∀ t, (∃ found, s.expand (path ++ [key]) t = .ok found) ↔ s.Accepts t) (solid : Bool)
    (entries : List (String × Tree)) :
    (∃ x, s.found path key entries = .ok x ∧ (solid → x.isSome)) ↔
      Outline.Holds (Outline.Row.around ⟨[], key, s.outlineForm, solid⟩ s.outline)
        (.map entries) := by
  rw [Outline.Row.around, Outline.holds_cons rfl, Outline.holds_under, Outline.Row.holds,
    Outline.Row.given?, Shape.found]
  cases hget : Entries.get? entries key with
  | none => simp
  | some t =>
    simp only [Option.elim_some, Option.bind_some]
    by_cases hempty : s.outlineForm = .block ∧ t = .list []
    · have hnone : s.expand (path ++ [key]) t = .ok none := Shape.expand_eq_none_iff.2 hempty
      obtain ⟨hform, rfl⟩ := hempty
      simp [hnone, hform, Option.filter, Tree.items?]
    · have hsome : ∀ x, s.expand (path ++ [key]) t = .ok x → x.isSome := by
        intro x hx
        cases x with
        | none => exact absurd (Shape.expand_eq_none_iff.1 hx) hempty
        | some v => rfl
      have hgiven : Option.filter (fun t => !(s.outlineForm = .block && t = .list [])) (some t) =
          some t := by
        simpa [Option.filter] using hempty
      have haccepts : s.Accepts t ↔ s.outlineForm.takes t = true ∧
          ∀ item ∈ t.items?.getD [], s.outline.Holds item :=
        and_congr_left' (or_iff_right hempty)
      rw [hgiven, ← haccepts, ← hs t]
      exact exists_congr fun x => and_iff_left_of_imp fun hx _ => hsome x hx

mutual

theorem Shape.exists_expand_iff : (s : Shape) → (path : Path) → (t : Tree) →
    ((∃ found, s.expand path t = .ok found) ↔ s.Accepts t)
  | .leaf l, path, t => by
    have hform : l.outlineForm ≠ .block := by cases l <;> simp [Leaf.outlineForm]
    rw [Shape.expand, Outcome.exists_map_iff, l.exists_expand_iff]
    simp [Shape.Accepts, Shape.outlineForm, hform, Shape.outline, Outline.Holds]
  | .block fields, path, t => by
    rw [Shape.expand_block]
    exact exists_expandBlock_iff rfl fields.exists_expand_iff
  | .blocks fields, _, _ => exists_expandBlocks_iff fields.exists_expand_iff
  | .backend, path, t => by
    rw [Shape.expand_backend]
    exact exists_expandBlock_iff rfl fun _ _ => Backend.exists_expand_iff

/-- A block can be expanded exactly if its outline holds in it. -/
theorem Fields.exists_expand_iff : (fields : Fields) → (path : Path) →
    (entries : List (String × Tree)) →
    ((∃ v, fields.expand path entries = .ok v) ↔ fields.outline.Holds (.map entries))
  | .nil, path, entries => by simp [Fields.expand, Fields.outline, Outline.Holds]
  | .typed _ _ rest, path, entries => rest.exists_expand_iff path entries
  | .cons field shape rest, path, entries => by
    have hfirst := Shape.exists_found_iff (shape.exists_expand_iff (path ++ [field.key]))
      field.presence.isSolid entries
    have hothers := rest.exists_expand_iff path entries
    have hpair : (∃ v, (Fields.cons field shape rest).expand path entries = .ok v) ↔
        (field.presence.isKept → ∃ x, shape.found path field.key entries = .ok x ∧
          (field.presence.isSolid → x.isSome)) ∧ ∃ vs, rest.expand path entries = .ok vs := by
      rw [← Presence.exists_settle_iff]
      constructor
      · rintro ⟨v, hv⟩
        obtain ⟨hhead, htail⟩ := (Fields.expand_cons_iff field shape rest path entries v).1 hv
        exact ⟨⟨v.1, hhead⟩, v.2, htail⟩
      · rintro ⟨⟨v, hhead⟩, vs, htail⟩
        exact ⟨(v, vs), (Fields.expand_cons_iff field shape rest path entries _).2 ⟨hhead, htail⟩⟩
    rw [hpair, hothers, Fields.outline]
    cases hkept : field.presence.isKept with
    | true => simp [hfirst, Outline.holds_append]
    | false => simp

end

end Schema

end DesiredState
