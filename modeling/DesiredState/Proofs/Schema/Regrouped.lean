import DesiredState.Proofs.Schema.Pruned
import Mathlib.Data.List.Sort

/-!
Trees that group the same strings differently.
A set may be written as a set, or as a list in any order and with repetitions.
Two trees are regrouped by an outline if they differ only in the fields that the
outline lists as sets of strings, and hold the same strings there. A schema
reads the same out of both of them, faults included.
-/
namespace DesiredState

namespace Tree

/-- A set or a list of the given strings. -/
def Groups (t : Tree) (texts : List String) : Prop := t = set texts ∨ t = strings texts

/-- Two sets or lists of the same strings. -/
def SameTexts (t u : Tree) : Prop :=
  ∃ a b, t.Groups a ∧ u.Groups b ∧ ∀ s, s ∈ a ↔ s ∈ b

mutual

/-- The trees are equal but for the fields that are sets of strings. -/
def Regrouped : Tree → Outline → Tree → Prop
  | list items, o, list others => ItemsRegrouped items o others
  | map entries, o, map others => EntriesRegrouped entries o others
  | t, _, u => t = u

def ItemsRegrouped : List Tree → Outline → List Tree → Prop
  | [], _, [] => True
  | t :: rest, o, u :: others => t.Regrouped o u ∧ ItemsRegrouped rest o others
  | _, _, _ => False

def EntriesRegrouped : List (String × Tree) → Outline → List (String × Tree) → Prop
  | [], _, [] => True
  | (key, t) :: rest, o, (other, u) :: others =>
    key = other ∧
      (if o.form? key = some .stringSet then t = u ∨ t.SameTexts u
        else t.Regrouped (o.below key) u) ∧
      EntriesRegrouped rest o others
  | _, _, _ => False

end

/-- Two values of one key, which has the form if it is listed, and the outline below it. -/
def ValueRegrouped (form : Option Outline.Form) (o : Outline) (t u : Tree) : Prop :=
  if form = some .stringSet then t = u ∨ t.SameTexts u else t.Regrouped o u

variable {o : Outline}

theorem Regrouped.eq_list {items : List Tree} {u : Tree} (h : (list items).Regrouped o u) :
    ∃ others, u = list others ∧ ItemsRegrouped items o others := by
  cases u with
  | list others => exact ⟨others, rfl, h⟩
  | _ => simp [Regrouped] at h

theorem Regrouped.eq_map {entries : List (String × Tree)} {u : Tree}
    (h : (map entries).Regrouped o u) :
    ∃ others, u = map others ∧ EntriesRegrouped entries o others := by
  cases u with
  | map others => exact ⟨others, rfl, h⟩
  | _ => simp [Regrouped] at h

theorem Regrouped.form {t u : Tree} (h : t.Regrouped o u) : t.form = u.form := by
  cases t with
  | list items =>
    obtain ⟨others, rfl, -⟩ := h.eq_list
    rfl
  | map entries =>
    obtain ⟨others, rfl, -⟩ := h.eq_map
    rfl
  | _ =>
    cases h
    rfl

/-- A key that one of two regrouped maps has, the other one has as well. -/
theorem EntriesRegrouped.get? {entries others : List (String × Tree)}
    (h : EntriesRegrouped entries o others) (key : String) :
    (Entries.get? entries key = none ∧ Entries.get? others key = none) ∨
      ∃ t u, Entries.get? entries key = some t ∧ Entries.get? others key = some u ∧
        ValueRegrouped (o.form? key) (o.below key) t u := by
  induction entries generalizing others with
  | nil =>
    cases others with
    | nil => exact Or.inl ⟨rfl, rfl⟩
    | cons f others => exact h.elim
  | cons e rest ih =>
    obtain ⟨first, t⟩ := e
    match others, h with
    | (_, u) :: others, ⟨rfl, hfirst, hrest⟩ =>
      by_cases hkey : first = key
      · subst hkey
        exact Or.inr ⟨t, u, by simp [Entries.get?_cons], by simp [Entries.get?_cons], hfirst⟩
      · simp only [Entries.get?_cons, if_neg hkey]
        exact ih hrest

/-- The entries of two well-formed maps that are regrouped. -/
structure MapsRegrouped (o : Outline) (a b : List (String × Tree)) : Prop where
  left : (map a).WellFormed
  right : (map b).WellFormed
  entries : EntriesRegrouped a o b

theorem Regrouped.mapAlike {t u : Tree} (ht : t.WellFormed) (hu : u.WellFormed)
    (h : t.Regrouped o u) : t.MapAlike (MapsRegrouped o) u := by
  cases t with
  | map entries =>
    obtain ⟨others, rfl, hentries⟩ := h.eq_map
    exact Or.inl ⟨entries, others, rfl, rfl, ht, hu, hentries⟩
  | _ => exact Or.inr ⟨h.form, nofun⟩

theorem ItemsRegrouped.forall₂ {items others : List Tree} (ht : AllWellFormed items)
    (hu : AllWellFormed others) (h : ItemsRegrouped items o others) :
    List.Forall₂ (MapAlike (MapsRegrouped o)) items others := by
  induction items generalizing others with
  | nil =>
    cases others with
    | nil => exact .nil
    | cons u others => exact h.elim
  | cons t rest ih =>
    cases others with
    | nil => exact h.elim
    | cons u others => exact .cons (h.1.mapAlike ht.1 hu.1) (ih ht.2 hu.2 h.2)

theorem Regrouped.mapsAlike {t u : Tree} (ht : t.WellFormed) (hu : u.WellFormed)
    (h : t.Regrouped o u) : t.MapsAlike (MapsRegrouped o) u := by
  cases t with
  | list items =>
    obtain ⟨others, rfl, hitems⟩ := h.eq_list
    exact Or.inl ⟨items, others, rfl, rfl, hitems.forall₂ ht hu⟩
  | _ => exact Or.inr ⟨h.form, nofun⟩

mutual

/-- An outline without sets leaves no room. -/
theorem eq_of_regrouped_nil : (t : Tree) → {u : Tree} → t.Regrouped [] u → t = u
  | list items, u, h => by
    obtain ⟨others, rfl, hitems⟩ := h.eq_list
    rw [eq_of_itemsRegrouped_nil items hitems]
  | map entries, u, h => by
    obtain ⟨others, rfl, hentries⟩ := h.eq_map
    rw [eq_of_entriesRegrouped_nil entries hentries]
  | str _, _, h | int _, _, h | bool _, _, h | set _, _, h => h

theorem eq_of_itemsRegrouped_nil : (items : List Tree) → {others : List Tree} →
    ItemsRegrouped items [] others → items = others
  | [], [], _ => rfl
  | t :: rest, u :: others, h => by
    rw [eq_of_regrouped_nil t h.1, eq_of_itemsRegrouped_nil rest h.2]

theorem eq_of_entriesRegrouped_nil : (entries : List (String × Tree)) →
    {others : List (String × Tree)} → EntriesRegrouped entries [] others → entries = others
  | [], [], _ => rfl
  | (key, t) :: rest, (_, u) :: others, ⟨hkey, hfirst, hrest⟩ => by
    rw [hkey, eq_of_regrouped_nil t hfirst, eq_of_entriesRegrouped_nil rest hrest]

end

/-- The sorted items are those of the set, whatever list it is made from. -/
theorem sortedItems_congr {a b : List String} (h : ∀ s, s ∈ a ↔ s ∈ b) :
    sortedItems a = sortedItems b := by
  refine (pairwise_sortedItems a).eq_of_mem_iff (pairwise_sortedItems b) fun s => ?_
  rw [mem_sortedItems, mem_sortedItems, h s]

end Tree

namespace Schema

open DesiredState.Tree (Regrouped MapsRegrouped ValueRegrouped)

theorem Leaf.expand_textSet_of_groups {t : Tree} (ht : t.WellFormed) {texts : List String}
    (h : t.Groups texts) (path : Path) :
    Leaf.textSet.expand path t = .ok (Tree.sortedItems texts) := by
  rcases h with rfl | rfl
  · exact congrArg Except.ok (Tree.sortedItems_of_pairwise ht).symm
  · exact congrArg (Except.map Tree.sortedItems) (expandTexts_strings path 0 texts)

theorem Leaf.expand_textSet_congr {t u : Tree} (ht : t.WellFormed) (hu : u.WellFormed)
    (h : t.SameTexts u) (path : Path) :
    Leaf.textSet.expand path t = Leaf.textSet.expand path u := by
  obtain ⟨a, b, ha, hb, hsame⟩ := h
  rw [expand_textSet_of_groups ht ha, expand_textSet_of_groups hu hb,
    Tree.sortedItems_congr hsame]

/-- A backend has no sets. -/
theorem Backend.expand_regrouped (path : Path) (entries others : List (String × Tree))
    (h : MapsRegrouped Shape.backend.outline entries others) :
    expand path entries = expand path others := by
  refine expand_congr (fun key hkey => ?_) path
  obtain ⟨hform, hbelow⟩ := outline_of_mem hkey
  rcases h.entries.get? key with ⟨hleft, hright⟩ | ⟨t, u, hleft, hright, hvalue⟩
  · rw [hleft, hright]
  · rw [hform, hbelow, ValueRegrouped, if_neg (by decide)] at hvalue
    rw [hleft, hright, Tree.eq_of_regrouped_nil t hvalue]

theorem Leaf.eq_textSet {l : Leaf} (h : l.outlineForm = .stringSet) : l = .textSet := by
  cases l with
  | textSet => rfl
  | _ => cases h

theorem Leaf.expand_regrouped (l : Leaf) {t u : Tree} (ht : t.WellFormed) (hu : u.WellFormed)
    (h : ValueRegrouped (some l.outlineForm) [] t u) (path : Path) :
    l.expand path t = l.expand path u := by
  unfold ValueRegrouped at h
  split at h
  · rename_i hform
    obtain rfl := Leaf.eq_textSet (Option.some.inj hform)
    rcases h with rfl | hsame
    · rfl
    · exact expand_textSet_congr ht hu hsame path
  · rw [Tree.eq_of_regrouped_nil t h]

mutual

/-- A shape reads the same out of two values that are regrouped. -/
theorem Shape.expand_regrouped : (s : Shape) → s.Lawful → {t u : Tree} → t.WellFormed →
    u.WellFormed → ValueRegrouped (some s.outlineForm) s.outline t u → (path : Path) →
    s.expand path t = s.expand path u
  | .leaf l, _, t, u, ht, hu, h, path => by
    rw [Shape.expand, Shape.expand, l.expand_regrouped ht hu h path]
  | .block fields, hs, _, _, ht, hu, h, path => by
    rw [Shape.expand_block, Shape.expand_block]
    exact expandBlock_alike (fields.expand_regrouped (fields.outlined_outline hs) hs)
      (Regrouped.mapsAlike ht hu h) path
  | .blocks fields, hs, _, _, ht, hu, h, path =>
    expandBlocks_alike (fields.expand_regrouped (fields.outlined_outline hs) hs)
      (Regrouped.mapsAlike ht hu h) path
  | .backend, _, _, _, ht, hu, h, path => by
    rw [Shape.expand_backend, Shape.expand_backend]
    exact expandBlock_alike Backend.expand_regrouped (Regrouped.mapsAlike ht hu h) path

theorem Fields.expand_regrouped : (fields : Fields) → {o : Outline} → fields.Outlined o →
    fields.Lawful → (path : Path) → (entries others : List (String × Tree)) →
    MapsRegrouped o entries others → fields.expand path entries = fields.expand path others
  | .nil, _, _, _, _, _, _, _ => rfl
  | .typed _ _ rest, _, ho, hs, path, entries, others, h =>
    rest.expand_regrouped ho hs.2.2 path entries others h
  | .cons field shape rest, o, ho, hs, path, entries, others, h => by
    obtain ⟨-, hshape, hrest⟩ := hs
    obtain ⟨hfirst, hothers⟩ := ho
    rw [Fields.expand, Fields.expand, rest.expand_regrouped hothers hrest path entries others h]
    cases hkept : field.presence.isKept with
    | true =>
      obtain ⟨hform, hbelow⟩ := hfirst hkept
      rcases h.entries.get? field.key with ⟨hleft, hright⟩ | ⟨t, u, hleft, hright, hvalue⟩
      · rw [hleft, hright]
      · rw [hform, hbelow] at hvalue
        rw [hleft, hright]
        dsimp only
        rw [shape.expand_regrouped hshape (Tree.wellFormed_of_get? h.left hleft)
          (Tree.wellFormed_of_get? h.right hright) hvalue]
    | false =>
      exact congrArg (· >>= _) (Presence.settle_of_not_isKept hkept _ _ _ _)

end

end Schema

end DesiredState
