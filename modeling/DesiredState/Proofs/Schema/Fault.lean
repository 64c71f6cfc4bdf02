import DesiredState.Proofs.Schema.Gathered
import DesiredState.Proofs.Tree.Path

/-!
Faults of expanded trees.
Where a tree has no dots in the keys that a schema reads, every reader that
fails tells of a place of what it was given. Leaves, blocks and lists of blocks
do so at one step below them at most, and a schema passes on what its parts
tell.
-/
namespace DesiredState

namespace Outline

/-- The keys of the string maps that a tree has where an outline lists them. -/
def textKeys (o : Outline) (t : Tree) : List String :=
  (o.filter (·.form = .stringMap)).flatMap fun r =>
    ((t.valuesAt r.parents r.key).filterMap Tree.entries?).flatMap (·.map Prod.fst)

theorem mem_textKeys {o : Outline} {t : Tree} {key : String} :
    key ∈ o.textKeys t ↔ ∃ r ∈ o, r.form = .stringMap ∧
      ∃ entries, .map entries ∈ t.valuesAt r.parents r.key ∧ ∃ e ∈ entries, e.1 = key := by
  have hentries : ∀ (u : Tree) (entries : List (String × Tree)),
      u.entries? = some entries ↔ u = .map entries := by
    intro u entries
    cases u <;> simp [Tree.entries?]
  simp only [textKeys, List.mem_flatMap, List.mem_filter, decide_eq_true_eq, List.mem_filterMap,
    hentries, List.mem_map, and_assoc, exists_eq_right]

/-- No segment of a path into a tree has a dot, as far as an outline goes. -/
structure Legible (o : Outline) (t : Tree) : Prop where
  traversable : t.Traversable
  keys : ∀ r ∈ o, '.' ∉ r.key.toList
  textKeys : ∀ key ∈ o.textKeys t, '.' ∉ key.toList

theorem Legible.mono {a b : Outline} {t : Tree} (h : a.Legible t) (hb : b ⊆ a) : b.Legible t := by
  refine ⟨h.traversable, fun r hr => h.keys r (hb hr), fun key hkey => h.textKeys key ?_⟩
  obtain ⟨r, hr, hvalue⟩ := mem_textKeys.1 hkey
  exact mem_textKeys.2 ⟨r, hb hr, hvalue⟩

theorem Legible.inside {key : String} {o : Outline} {entries : List (String × Tree)} {t : Tree}
    (h : (under key o).Legible (.map entries)) (ht : Entries.get? entries key = some t)
    {item : Tree} (hitem : item ∈ t.items?.getD []) : o.Legible item := by
  refine ⟨?_, fun r hr => ?_, fun k hk => h.textKeys k ?_⟩
  · cases t with
    | list items => exact (h.traversable.entry ht).item hitem
    | _ => cases hitem
  · exact h.keys { r with parents := key :: r.parents } (List.mem_map_of_mem hr)
  · obtain ⟨r, hr, hform, m, hm, hkey⟩ := mem_textKeys.1 hk
    refine mem_textKeys.2 ⟨_, List.mem_map_of_mem hr, hform, m, ?_, hkey⟩
    rw [Tree.valuesAt_below, ht]
    exact List.mem_flatMap.2 ⟨item, hitem, hm⟩

end Outline

namespace Schema

open Tree.Violation (Blames blames_here)

/-- No segment of a path into a subtree has a dot, as far as its shape goes. -/
structure Shape.Legible (s : Shape) (t : Tree) : Prop where
  traversable : t.Traversable
  textKeys : s.outlineForm = .stringMap → ∀ entries, t = .map entries →
    ∀ e ∈ entries, '.' ∉ e.1.toList
  inside : ∀ item ∈ t.items?.getD [], s.outline.Legible item

theorem Shape.legible_of_get? {s : Shape} {key : String} {solid : Bool}
    {entries : List (String × Tree)}
    (h : Outline.Legible (Outline.Row.around ⟨[], key, s.outlineForm, solid⟩ s.outline)
      (.map entries))
    {t : Tree} (ht : Entries.get? entries key = some t) : s.Legible t := by
  refine ⟨h.traversable.entry ht, ?_, fun item => (h.mono (List.subset_cons_self _ _)).inside ht⟩
  rintro hform m rfl e he
  refine h.textKeys e.1 (Outline.mem_textKeys.2 ⟨_, List.mem_cons_self, hform, m, ?_, e, he, rfl⟩)
  rw [Tree.valuesAt_here, ht]
  exact List.mem_singleton_self _

variable {path : Path} {t : Tree} {v : Tree.Violation}

/-- A reader that goes through a list tells of the element that it fails at, by its number. -/
theorem blames_of_numbered {α : Type} (read : Nat → List Tree → Checked α)
    (hnil : ∀ i, read i [] ≠ .error v)
    (hcons : ∀ i u rest, read i (u :: rest) = .error v →
      v.Blames (path ++ [i.repr]) (some u) ∨ read (i + 1) rest = .error v)
    {items : List Tree} (ht : (Tree.list items).Traversable) (h : read 0 items = .error v) :
    v.Blames path (some (.list items)) := by
  have hitem : ∀ i rest, read i rest = .error v →
      ∃ j u, rest[j]? = some u ∧ v.Blames (path ++ [(i + j).repr]) (some u) := by
    intro i rest hrest
    induction rest generalizing i with
    | nil => exact absurd hrest (hnil i)
    | cons first others ih =>
      rcases hcons i first others hrest with hfirst | hothers
      · exact ⟨0, first, rfl, hfirst⟩
      · obtain ⟨j, u, hu, hv⟩ := ih (i + 1) hothers
        refine ⟨j + 1, u, hu, ?_⟩
        rwa [Nat.add_right_comm, Nat.add_assoc] at hv
  obtain ⟨j, u, hu, hv⟩ := hitem 0 items h
  rw [Nat.zero_add] at hv
  exact Blames.outOfItem ht (hu ▸ hv)

namespace Leaf

theorem blames_of_mismatch {α : Type} {wanted : Tree.Form} (hform : t.form ≠ wanted)
    (h : (mismatch path wanted t : Checked α) = .error v) : v.Blames path (some t) := by
  cases h
  exact blames_here ⟨t, rfl, rfl, hform⟩

theorem blames_of_expandTexts {items : List Tree} (ht : (Tree.list items).Traversable)
    (h : expandTexts path 0 items = .error v) : v.Blames path (some (.list items)) := by
  refine blames_of_numbered (expandTexts path) (fun _ hnil => by cases hnil)
    (fun i u rest hu => ?_) ht h
  cases u with
  | str s => exact Or.inr (Outcome.return_eq_error.1 hu)
  | _ => exact Or.inl (blames_of_mismatch (by simp [Tree.form]) hu)

theorem exists_of_expandEntries {entries : List (String × Tree)}
    (h : expandEntries path entries = .error v) :
    ∃ e ∈ entries, v.Blames (path ++ [e.1]) (some e.2) := by
  induction entries with
  | nil => cases h
  | cons first rest ih =>
    obtain ⟨key, u⟩ := first
    cases u with
    | str s =>
      rw [expandEntries, Outcome.return_eq_error] at h
      obtain ⟨e, he, hv⟩ := ih h
      exact ⟨e, List.mem_cons_of_mem _ he, hv⟩
    | _ => exact ⟨_, List.mem_cons_self, blames_of_mismatch (by simp [Tree.form]) h⟩

theorem blames_of_expandEntries {entries : List (String × Tree)}
    (ht : (Tree.map entries).Traversable) (hkeys : ∀ e ∈ entries, '.' ∉ e.1.toList)
    (h : expandEntries path entries = .error v) : v.Blames path (some (.map entries)) := by
  obtain ⟨e, he, hv⟩ := exists_of_expandEntries h
  have hget : Entries.get? entries e.1 = some e.2 := Entries.get?_of_mem ht.wellFormed.1 he
  exact Blames.outOfEntry (hkeys e he) (hget ▸ hv)

theorem blames_of_expandInt32 {i : Int64} (h : expandInt32 path i = .error v) :
    v.Blames path (some (.int i)) := by
  rw [expandInt32] at h
  split at h
  · cases h
  · rename_i hrange
    cases h
    exact blames_here ⟨rfl, hrange⟩

theorem blames_of_expand_text (h : text.expand path t = .error v) : v.Blames path (some t) := by
  cases t with
  | str s => cases h
  | _ => exact blames_of_mismatch (by simp [Tree.form]) h

theorem blames_of_expand {l : Leaf} (hlegible : (Shape.leaf l).Legible t)
    (h : l.expand path t = .error v) : v.Blames path (some t) := by
  have ht := hlegible.traversable
  cases l with
  | int32 =>
    cases t with
    | int i => exact blames_of_expandInt32 h
    | _ => exact blames_of_mismatch (by simp [Tree.form]) h
  | texts =>
    cases t with
    | list items => exact blames_of_expandTexts ht h
    | _ => exact blames_of_mismatch (by simp [Tree.form]) h
  | textSet =>
    cases t with
    | set items => cases h
    | list items => exact blames_of_expandTexts ht (Outcome.map_eq_error.1 h)
    | _ => exact blames_of_mismatch (by simp [Tree.form]) h
  | textMap =>
    cases t with
    | map entries =>
      exact blames_of_expandEntries ht (hlegible.textKeys rfl entries rfl)
        (Outcome.map_eq_error.1 h)
    | _ => exact blames_of_mismatch (by simp [Tree.form]) h
  | text => exact blames_of_expand_text h
  | intOrText =>
    cases t with
    | str s => cases h
    | _ => exact blames_of_mismatch (by simp [Tree.form]) h
  | int64 =>
    cases t with
    | int i => cases h
    | _ => exact blames_of_mismatch (by simp [Tree.form]) h
  | flag =>
    cases t with
    | bool b => cases h
    | _ => exact blames_of_mismatch (by simp [Tree.form]) h

end Leaf

theorem blames_of_readBlock (ht : t.Traversable) (h : readBlock path t = .error v) :
    v.Blames path (some t) := by
  unfold readBlock at h
  split at h
  · cases h
  · cases h
  · rename_i inner hinner
    have hform : inner.form ≠ .map := by
      cases inner with
      | map entries => exact absurd rfl (hinner entries)
      | _ => simp [Tree.form]
    exact Blames.outOfItem (i := 0) ht (Leaf.blames_of_mismatch hform h)
  · rename_i items hnil hmap hone
    cases h
    refine blames_here ⟨items, rfl, rfl, ?_⟩
    cases items with
    | nil => exact absurd rfl hnil
    | cons first rest =>
      cases rest with
      | nil => exact absurd rfl (hone first)
      | cons second more => simp
  · rename_i hnil hmap hone hlist
    have hform : t.form ≠ .list := by
      cases t with
      | list items => exact absurd rfl (hlist items)
      | _ => simp [Tree.form]
    exact Leaf.blames_of_mismatch hform h

/-- Each map is read with its own place. -/
theorem exists_of_mem_readItems {i : Nat} {items : List Tree}
    {located : List (Path × List (String × Tree))} (h : readItems path i items = .ok located)
    {e : Path × List (String × Tree)} (he : e ∈ located) :
    ∃ j, items[j]? = some (.map e.2) ∧ e.1 = path ++ [(i + j).repr] := by
  induction items generalizing i located with
  | nil =>
    cases h
    cases he
  | cons first rest ih =>
    cases first with
    | map entries =>
      rw [readItems] at h
      obtain ⟨others, hothers, heq⟩ := Outcome.bind_eq_ok.1 h
      cases heq
      rcases List.mem_cons.1 he with rfl | he
      · exact ⟨0, rfl, rfl⟩
      · obtain ⟨j, hj, hpath⟩ := ih hothers he
        refine ⟨j + 1, hj, ?_⟩
        rwa [Nat.add_right_comm, Nat.add_assoc] at hpath
    | _ => simp [readItems, Leaf.mismatch] at h

theorem exists_of_expandEach {α : Type} {one : Path → List (String × Tree) → Checked α}
    {located : List (Path × List (String × Tree))} (h : expandEach one located = .error v) :
    ∃ e ∈ located, one e.1 e.2 = .error v := by
  induction located with
  | nil => cases h
  | cons first rest ih =>
    rw [expandEach] at h
    rcases Outcome.bind_eq_error.1 h with hfirst | ⟨w, -, hrest⟩
    · exact ⟨first, List.mem_cons_self, hfirst⟩
    · obtain ⟨e, he, hv⟩ := ih (Outcome.return_eq_error.1 hrest)
      exact ⟨e, List.mem_cons_of_mem _ he, hv⟩

/-- What is told of the map of a block is told of the block. -/
theorem blames_of_expandBlock {α : Type} {read : Path → List (String × Tree) → Checked α}
    (ht : t.Traversable)
    (hread : ∀ {entries}, .map entries ∈ t.items?.getD [] →
      read (path ++ ["0"]) entries = .error v → v.Blames (path ++ ["0"]) (some (.map entries)))
    (h : expandBlock read path t = .error v) : v.Blames path (some t) := by
  rcases Outcome.bind_eq_error.1 h with hblock | ⟨block?, hblock, hinside⟩
  · exact blames_of_readBlock ht hblock
  · rcases readBlock_eq_ok.1 hblock with ⟨rfl, rfl⟩ | ⟨entries, rfl, rfl⟩
    · cases hinside
    · have hv := hread List.mem_cons_self (Outcome.map_eq_error.1 hinside)
      exact Blames.outOfItem (i := 0) ht hv

theorem blames_of_readBlocks (ht : t.Traversable) (h : readBlocks path t = .error v) :
    v.Blames path (some t) := by
  cases t with
  | list items =>
    refine blames_of_numbered (readItems path) (fun _ hnil => by cases hnil)
      (fun i u rest hu => ?_) ht h
    cases u with
    | map entries => exact Or.inr (Outcome.return_eq_error.1 hu)
    | _ => exact Or.inl (Leaf.blames_of_mismatch (by simp [Tree.form]) hu)
  | _ => exact Leaf.blames_of_mismatch (by simp [Tree.form]) h

theorem blames_of_expandBlocks {fields : Fields} (ht : t.Traversable)
    (hfields : ∀ {path entries}, .map entries ∈ t.items?.getD [] →
      fields.expand path entries = .error v → v.Blames path (some (.map entries)))
    (h : (Shape.blocks fields).expand path t = .error v) : v.Blames path (some t) := by
  rw [Shape.expand] at h
  rcases Outcome.bind_eq_error.1 h with hread | ⟨located, hread, hinside⟩
  · exact blames_of_readBlocks ht hread
  · obtain ⟨e, he, hone⟩ := exists_of_expandEach (Outcome.return_eq_error.1 hinside)
    cases t with
    | list items =>
      obtain ⟨j, hj, hpath⟩ := exists_of_mem_readItems hread he
      rw [Nat.zero_add] at hpath
      have hv := hfields (List.mem_of_getElem? hj) hone
      exact Blames.outOfItem ht (hj ▸ hpath ▸ hv)
    | _ => cases hread

theorem blames_of_text {key : String} {entries : List (String × Tree)}
    (ht : Entries.get? entries key = some t) (hkey : '.' ∉ key.toList)
    (h : Leaf.text.expand (path ++ [key]) t = .error v) : v.Blames path (some (.map entries)) :=
  Blames.outOfEntry hkey (ht ▸ Leaf.blames_of_expand_text h)

/-- The rest of a backend after its port. -/
theorem Backend.blames_of_expandName {entries : List (String × Tree)} {port : Option ServicePort}
    (h : (match Entries.get? entries "service_name" with
      | some t => do
        let name ← Leaf.text.expand (path ++ ["service_name"]) t
        return (⟨some ⟨name, port⟩⟩ : Backend)
      | none => Except.error ⟨path ++ ["service_name"], .missing⟩) = Except.error v) :
    v.Blames path (some (.map entries)) := by
  cases hget : Entries.get? entries "service_name" with
  | none =>
    rw [hget] at h
    cases h
    exact Blames.outOfEntry (by decide) (blames_here hget)
  | some t =>
    rw [hget] at h
    exact blames_of_text hget (by decide) (Outcome.return_eq_error.1 h)

theorem Backend.blames_of_expand {entries : List (String × Tree)}
    (h : expand path entries = .error v) : v.Blames path (some (.map entries)) := by
  simp only [expand] at h
  cases hget : Entries.get? entries "service_port" with
  | none =>
    rw [hget] at h
    exact blames_of_expandName h
  | some t =>
    rw [hget] at h
    rcases Outcome.bind_eq_error.1 h with hport | ⟨port, -, hname⟩
    · exact blames_of_text hget (by decide) (Outcome.map_eq_error.1 hport)
    · exact blames_of_expandName hname

theorem Presence.exists_of_settle {α : Type} {p : Presence} {found : Checked (Option α)}
    {fallback : String → α} {missing : Tree.Violation}
    (h : p.settle found fallback missing = .error v) :
    p.isKept ∧ (found = .error v ∨ found = .ok none ∧ v = missing) := by
  cases found with
  | error e => cases p <;> simp_all [settle, isKept]
  | ok x => cases p <;> cases x <;> simp_all [settle, isKept]

theorem Fields.expand_cons_eq_error {field : Field} {shape : Shape} {rest : Fields}
    {entries : List (String × Tree)}
    (h : (Fields.cons field shape rest).expand path entries = .error v) :
    field.presence.settle (shape.found path field.key entries) shape.fallback
        ⟨path ++ [field.key], if shape.isBlock then .missingBlock else .missing⟩ = .error v ∨
      rest.expand path entries = .error v := by
  rw [Fields.expand] at h
  rw [Shape.found]
  cases hget : Entries.get? entries field.key with
  | none | some t =>
    rw [hget] at h
    rcases Outcome.bind_eq_error.1 h with hfirst | ⟨w, -, hrest⟩
    · exact Or.inl hfirst
    · exact Or.inr (Outcome.return_eq_error.1 hrest)

theorem Shape.isBlock_iff {s : Shape} : s.isBlock ↔ s.outlineForm = .block := by
  cases s with
  | leaf l => cases l <;> simp [isBlock, outlineForm, Leaf.outlineForm]
  | _ => simp [isBlock, outlineForm]

/-- A field that cannot be read is told of, or what is missing there. -/
theorem Shape.blames_of_found {s : Shape} {key : String} {entries : List (String × Tree)}
    (hs : ∀ t, Entries.get? entries key = some t → s.expand (path ++ [key]) t = .error v →
      v.Blames (path ++ [key]) (some t))
    (h : s.found path key entries = .error v ∨ s.found path key entries = .ok none ∧
      v = ⟨path ++ [key], if s.isBlock then .missingBlock else .missing⟩) :
    v.Blames (path ++ [key]) (Entries.get? entries key) := by
  rw [found] at h
  cases hget : Entries.get? entries key with
  | none =>
    rw [hget] at h
    rcases h with h | ⟨-, rfl⟩
    · cases h
    · refine blames_here ?_
      split
      · exact Or.inl rfl
      · rfl
  | some t =>
    rw [hget] at h
    rcases h with h | ⟨hnone, rfl⟩
    · exact hs t hget h
    · obtain ⟨hform, rfl⟩ := expand_eq_none_iff.1 hnone
      rw [if_pos (isBlock_iff.2 hform)]
      exact blames_here (Or.inr rfl)

theorem Fields.outline_cons (field : Field) (shape : Shape) (rest : Fields) :
    (Fields.cons field shape rest).outline =
      (Fields.cons field shape .nil).outline ++ rest.outline := by
  simp only [outline]
  split <;> simp

mutual

theorem Shape.blames_of_expand : (s : Shape) → {path : Path} → {t : Tree} → s.Legible t →
    s.expand path t = .error v → v.Blames path (some t)
  | .leaf l, _, _, ht, h => Leaf.blames_of_expand ht (Outcome.map_eq_error.1 h)
  | .block fields, path, t, ht, h => by
    rw [Shape.expand_block] at h
    exact blames_of_expandBlock ht.traversable
      (fun hitem hread => fields.blames_of_expandMap (ht.inside _ hitem) hread) h
  | .blocks fields, _, _, ht, h =>
    blames_of_expandBlocks ht.traversable
      (fun hitem hread => fields.blames_of_expandMap (ht.inside _ hitem) hread) h
  | .backend, path, t, ht, h => by
    rw [Shape.expand_backend] at h
    exact blames_of_expandBlock ht.traversable (fun _ hread => Backend.blames_of_expand hread) h

/-- A block that cannot be expanded is told of at one of its keys. -/
theorem Fields.blames_of_expand : (fields : Fields) → {path : Path} →
    {entries : List (String × Tree)} → fields.outline.Legible (.map entries) →
    fields.expand path entries = .error v →
    ∃ key ∈ fields.keys, '.' ∉ key.toList ∧ v.Blames (path ++ [key]) (Entries.get? entries key)
  | .nil, _, _, _, h => by cases h
  | .typed _ _ rest, _, _, ht, h => rest.blames_of_expand ht h
  | .cons field shape rest, path, entries, ht, h => by
    rw [Fields.outline_cons] at ht
    rcases Fields.expand_cons_eq_error h with hsettle | hrest
    · obtain ⟨hkept, hfound⟩ := Presence.exists_of_settle hsettle
      have hhere := ht.mono (List.subset_append_left _ _)
      rw [Fields.outline, if_pos hkept, Fields.outline, List.append_nil] at hhere
      exact ⟨field.key, List.mem_cons_self, hhere.keys _ List.mem_cons_self,
        Shape.blames_of_found
          (fun t hget => shape.blames_of_expand (Shape.legible_of_get? hhere hget)) hfound⟩
    · obtain ⟨key, hkey, hv⟩ :=
        rest.blames_of_expand (ht.mono (List.subset_append_right _ _)) hrest
      exact ⟨key, List.mem_cons_of_mem _ hkey, hv⟩

theorem Fields.blames_of_expandMap (fields : Fields) {path : Path}
    {entries : List (String × Tree)} (ht : fields.outline.Legible (.map entries))
    (h : fields.expand path entries = .error v) : v.Blames path (some (.map entries)) := by
  obtain ⟨key, -, hkey, hv⟩ := fields.blames_of_expand ht h
  exact Blames.outOfEntry hkey hv

end

end Schema

end DesiredState
