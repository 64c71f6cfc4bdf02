import DesiredState.Proofs.Schema.Alike

/-!
Keys that no row names.
Pruning a tree by an outline drops the keys that no row of the outline names,
at every depth, and keeps leaves as they are. A schema reads the same out of
a tree and out of what is left of it, faults included.
-/
namespace DesiredState

namespace Outline

/-- The form of a key at the top. -/
def form? (o : Outline) (key : String) : Option Form :=
  (o.find? (fun r => r.parents = [] && r.key = key)).map Row.form

/-- The rows that a path enters a map through, without its key. -/
def Row.below? (key : String) (r : Row) : Option Row :=
  match r.parents with
  | first :: rest => if first = key then some { r with parents := rest } else none
  | [] => none

/-- The outline of the maps at a key. -/
def below (o : Outline) (key : String) : Outline := o.filterMap (Row.below? key)

section Around

variable {r : Row} (hr : r.parents = []) (inside rest : Outline) (key : String)

include hr

theorem form?_around :
    form? (r.around inside ++ rest) key = if r.key = key then some r.form else form? rest key := by
  have hunder : (under r.key inside).find? (fun r => r.parents = [] && r.key = key) = none := by
    simp [under]
  unfold form? Row.around
  rw [List.cons_append, List.find?_cons, List.find?_append, hunder, hr]
  by_cases hkey : r.key = key <;> simp [hkey]

theorem below_around :
    below (r.around inside ++ rest) key =
      if r.key = key then inside ++ below rest key else below rest key := by
  have hunder : below (under r.key inside) key = if r.key = key then inside else [] := by
    unfold below under
    rw [List.filterMap_map]
    by_cases hkey : r.key = key
    · rw [if_pos hkey]
      refine (List.filterMap_congr fun row _ => ?_).trans List.filterMap_some
      simp [Row.below?, hkey]
    · rw [if_neg hkey, List.filterMap_eq_nil_iff]
      intro row _
      simp [Row.below?, hkey]
  have hhead : Row.below? key r = none := by simp [Row.below?, hr]
  unfold below at hunder ⊢
  rw [Row.around, List.cons_append, List.filterMap_cons, hhead, List.filterMap_append, hunder]
  by_cases hkey : r.key = key <;> simp [hkey]

end Around

/-- Whether there are maps inside, with keys of the schema. -/
def Form.isNested : Form → Bool
  | block | maps => true
  | string | int | int32 | flag | strings | stringSet | stringMap => false

end Outline

namespace Tree

mutual

/-- The tree without the keys that no row names. -/
def pruned : Tree → Outline → Tree
  | map entries, o => map (prunedEntries entries o)
  | list items, o => list (prunedItems items o)
  | t, _ => t

def prunedItems : List Tree → Outline → List Tree
  | [], _ => []
  | t :: rest, o => t.pruned o :: prunedItems rest o

def prunedEntries : List (String × Tree) → Outline → List (String × Tree)
  | [], _ => []
  | (key, t) :: rest, o =>
    match o.form? key with
    | some form =>
      (key, if form.isNested then t.pruned (o.below key) else t) :: prunedEntries rest o
    | none => prunedEntries rest o

end

theorem prunedItems_eq (items : List Tree) (o : Outline) :
    prunedItems items o = items.map (·.pruned o) := by
  induction items with
  | nil => rfl
  | cons t rest ih => rw [prunedItems, ih, List.map_cons]

/-- Only what is in the maps of a list is pruned. -/
theorem mapsAlike_pruned (t : Tree) (o : Outline) :
    (t.pruned o).MapsAlike (fun a b => a = prunedEntries b o) t := by
  have hmap : ∀ t : Tree, (t.pruned o).MapAlike (fun a b => a = prunedEntries b o) t := by
    intro t
    cases t with
    | map entries => exact Or.inl ⟨_, entries, rfl, rfl, rfl⟩
    | _ => exact Or.inr ⟨rfl, nofun⟩
  cases t with
  | list items =>
    refine Or.inl ⟨items.map (·.pruned o), items, congrArg list (prunedItems_eq items o), rfl, ?_⟩
    exact List.forall₂_map_left_iff.2 (List.forall₂_same.2 fun t _ => hmap t)
  | _ => exact Or.inr ⟨rfl, nofun⟩

theorem get?_prunedEntries (entries : List (String × Tree)) (o : Outline) (key : String) :
    Entries.get? (prunedEntries entries o) key = (o.form? key).bind (fun form =>
      (Entries.get? entries key).map
        (fun t => if form.isNested then t.pruned (o.below key) else t)) := by
  induction entries with
  | nil => cases o.form? key <;> rfl
  | cons e rest ih =>
    obtain ⟨first, t⟩ := e
    rw [prunedEntries]
    by_cases hkey : first = key
    · subst hkey
      cases hform : o.form? first with
      | none =>
        rw [hform] at ih
        exact ih
      | some form => simp [Entries.get?_cons]
    · cases hform : o.form? first with
      | none => rw [ih, Entries.get?_cons, if_neg hkey]
      | some form => rw [Entries.get?_cons, if_neg hkey, ih, Entries.get?_cons, if_neg hkey]

end Tree

namespace Schema

/-- The keys that a backend is read from. -/
def Backend.keys : List String := ["service_name", "service_port"]

theorem Backend.outline_of_mem {key : String} (h : key ∈ keys) :
    Shape.backend.outline.form? key = some .string ∧ Shape.backend.outline.below key = [] := by
  simp only [keys, List.mem_cons, List.not_mem_nil, or_false] at h
  rcases h with rfl | rfl <;> decide

theorem Backend.expand_congr {entries others : List (String × Tree)}
    (h : ∀ key ∈ keys, Entries.get? entries key = Entries.get? others key) (path : Path) :
    expand path entries = expand path others := by
  rw [expand, expand, h _ List.mem_cons_self, h _ (List.mem_cons_of_mem _ List.mem_cons_self)]

theorem Backend.expand_pruned (path : Path) (entries : List (String × Tree)) :
    expand path (Tree.prunedEntries entries Shape.backend.outline) = expand path entries := by
  refine expand_congr (fun key hkey => ?_) path
  rw [Tree.get?_prunedEntries, (outline_of_mem hkey).1]
  cases Entries.get? entries key <;> rfl

/-- The outline has the rows of all fields that a tree can set. -/
def Fields.Outlined (o : Outline) : Fields → Prop
  | .nil => True
  | .typed _ _ rest => rest.Outlined o
  | .cons field shape rest =>
    (field.presence.isKept → o.form? field.key = some shape.outlineForm ∧
      o.below field.key = shape.outline) ∧ rest.Outlined o

/-- What the store sets is not looked for. -/
theorem Presence.settle_of_not_isKept {p : Presence} (h : p.isKept = false) {α : Type}
    (found found' : Checked (Option α)) (fallback : String → α) (missing : Tree.Violation) :
    p.settle found fallback missing = p.settle found' fallback missing := by
  cases p with
  | reported | internal => rfl
  | _ => cases h

/-- The rows of a block are about its keys. -/
theorem Fields.outline_of_not_mem (fields : Fields) {key : String} (h : key ∉ fields.keys) :
    fields.outline.form? key = none ∧ fields.outline.below key = [] := by
  match fields with
  | .nil => exact ⟨rfl, rfl⟩
  | .typed _ _ rest => exact rest.outline_of_not_mem h
  | .cons field shape rest =>
    simp only [keys, List.mem_cons, not_or] at h
    have hrest := rest.outline_of_not_mem h.2
    rw [outline]
    cases field.presence.isKept with
    | true =>
      rw [if_pos rfl, Outline.form?_around rfl, Outline.below_around rfl, if_neg (Ne.symm h.1),
        if_neg (Ne.symm h.1)]
      exact hrest
    | false => exact hrest

theorem Fields.outlined_of_agrees (fields : Fields) (hs : fields.Lawful) {o : Outline}
    (h : ∀ key ∈ fields.keys, o.form? key = fields.outline.form? key ∧
      o.below key = fields.outline.below key) : fields.Outlined o := by
  match fields with
  | .nil => trivial
  | .typed _ _ rest => exact rest.outlined_of_agrees hs.2.2 h
  | .cons field shape rest =>
    obtain ⟨⟨hkey, -, -⟩, -, hrest⟩ := hs
    refine ⟨fun hkept => ?_, rest.outlined_of_agrees hrest fun key hmem => ?_⟩
    · obtain ⟨hform, hbelow⟩ := h field.key List.mem_cons_self
      rw [hform, hbelow, outline, if_pos hkept, Outline.form?_around rfl,
        Outline.below_around rfl, if_pos rfl, if_pos rfl, (rest.outline_of_not_mem hkey).2,
        List.append_nil]
      exact ⟨rfl, rfl⟩
    · have hne : field.key ≠ key := fun heq => hkey (heq ▸ hmem)
      obtain ⟨hform, hbelow⟩ := h key (List.mem_cons_of_mem _ hmem)
      rw [hform, hbelow, outline]
      cases field.presence.isKept with
      | true =>
        rw [if_pos rfl, Outline.form?_around rfl, Outline.below_around rfl, if_neg hne,
          if_neg hne]
        exact ⟨rfl, rfl⟩
      | false => exact ⟨rfl, rfl⟩

theorem Fields.outlined_outline (fields : Fields) (hs : fields.Lawful) :
    fields.Outlined fields.outline :=
  fields.outlined_of_agrees hs fun _ _ => ⟨rfl, rfl⟩

mutual

/-- A shape reads the same out of what is left of a tree. -/
theorem Shape.expand_pruned : (s : Shape) → s.Lawful → (path : Path) → (t : Tree) →
    s.expand path (if s.outlineForm.isNested then t.pruned s.outline else t) = s.expand path t
  | .leaf l, _, path, t => by
    have hform : l.outlineForm.isNested = false := by cases l <;> rfl
    rw [Shape.outlineForm, hform, if_neg Bool.false_ne_true]
  | .block fields, hs, path, t => by
    rw [Shape.outlineForm, Outline.Form.isNested, if_pos rfl, Shape.expand_block,
      Shape.expand_block]
    refine expandBlock_alike ?_ (t.mapsAlike_pruned fields.outline) path
    rintro path _ entries rfl
    exact fields.expand_pruned (fields.outlined_outline hs) hs path entries
  | .blocks fields, hs, path, t => by
    rw [Shape.outlineForm, Outline.Form.isNested, if_pos rfl]
    refine expandBlocks_alike ?_ (t.mapsAlike_pruned fields.outline) path
    rintro path _ entries rfl
    exact fields.expand_pruned (fields.outlined_outline hs) hs path entries
  | .backend, _, path, t => by
    rw [Shape.outlineForm, Outline.Form.isNested, if_pos rfl, Shape.expand_backend,
      Shape.expand_backend]
    refine expandBlock_alike ?_ (t.mapsAlike_pruned Shape.backend.outline) path
    rintro path _ entries rfl
    exact Backend.expand_pruned path entries

theorem Fields.expand_pruned : (fields : Fields) → {o : Outline} → fields.Outlined o →
    fields.Lawful → (path : Path) → (entries : List (String × Tree)) →
    fields.expand path (Tree.prunedEntries entries o) = fields.expand path entries
  | .nil, _, _, _, _, _ => rfl
  | .typed _ _ rest, _, ho, hs, path, entries => rest.expand_pruned ho hs.2.2 path entries
  | .cons field shape rest, o, ho, hs, path, entries => by
    obtain ⟨-, hshape, hrest⟩ := hs
    obtain ⟨hfirst, hothers⟩ := ho
    rw [Fields.expand, Fields.expand, rest.expand_pruned hothers hrest path entries,
      Tree.get?_prunedEntries]
    cases hkept : field.presence.isKept with
    | true =>
      obtain ⟨hform, hbelow⟩ := hfirst hkept
      rw [hform, hbelow, Option.bind_some]
      cases Entries.get? entries field.key with
      | none => rfl
      | some t =>
        have hvalue := shape.expand_pruned hshape (path ++ [field.key]) t
        simp only [Option.map_some, hvalue]
    | false =>
      exact congrArg (· >>= _) (Presence.settle_of_not_isKept hkept _ _ _ _)

end

end Schema

end DesiredState
