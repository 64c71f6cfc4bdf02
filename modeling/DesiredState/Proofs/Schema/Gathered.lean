import DesiredState.Proofs.Schema.Regrouped
import DesiredState.Proofs.Text.Order

/-!
Sets in canonical form.
Where a tree that can be expanded has a set or a list for a set of strings, its
canonical form has the set of these strings, in the order of their octets.
-/
namespace DesiredState

namespace Tree

/-- The values of a key in the maps at a path of parents. -/
def valuesAt (t : Tree) (parents : List String) (key : String) : List Tree :=
  (t.mapsAt parents).filterMap (Entries.get? · key)

/-- The set of the strings of another tree, in the order of their octets. -/
def Gathers (t u : Tree) : Prop :=
  ∃ items, t = set items ∧ u.SameTexts t ∧
    items.Pairwise (fun a b => Text.Utf8.encode a.toList < Text.Utf8.encode b.toList)

/-- What a tree that may be missing has in the maps of its list. -/
def valuesIn (t : Option Tree) (parents : List String) (key : String) : List Tree :=
  ((t.bind items?).getD []).flatMap (valuesAt · parents key)

variable (parents : List String) (key : String)

theorem valuesAt_here (entries : List (String × Tree)) :
    (map entries).valuesAt [] key = (Entries.get? entries key).toList := by
  cases h : Entries.get? entries key <;> simp [valuesAt, mapsAt, h]

theorem valuesAt_below (first : String) (entries : List (String × Tree)) :
    (map entries).valuesAt (first :: parents) key =
      valuesIn (Entries.get? entries first) parents key := by
  simp [valuesAt, valuesIn, mapsAt, List.filterMap_flatMap]

theorem valuesAt_empty : (map []).valuesAt parents key = [] := by
  cases parents with
  | nil => rfl
  | cons first rest => rfl

/-- A map is looked into at the first key only. -/
theorem valuesAt_congr {entries others : List (String × Tree)}
    (h : Entries.get? entries (parents.headD key) = Entries.get? others (parents.headD key)) :
    (map entries).valuesAt parents key = (map others).valuesAt parents key := by
  cases parents with
  | nil =>
    rw [valuesAt_here, valuesAt_here]
    exact congrArg Option.toList h
  | cons first rest =>
    rw [valuesAt_below, valuesAt_below]
    exact congrArg (valuesIn · rest key) h

theorem gathers_setOf {t : Tree} {texts : List String} (h : t.Groups texts) :
    (setOf texts).Gathers t := by
  refine ⟨sortedItems texts, rfl, ⟨texts, sortedItems texts, h, Or.inl rfl, fun s => ?_⟩, ?_⟩
  · exact mem_sortedItems.symm
  · exact (pairwise_sortedItems texts).imp Text.Utf8.lt_iff_encode_lt.1

end Tree

namespace Schema

open DesiredState.Tree (Gathers valuesIn)

theorem Leaf.gathers_canonical {path : Path} {t : Tree} (ht : t.WellFormed) {texts : List String}
    (h : Leaf.textSet.expand path t = .ok texts) : (Leaf.textSet.canonical t).Gathers t := by
  cases t with
  | set items =>
    have hset : Leaf.textSet.canonical (.set items) = Tree.setOf items :=
      congrArg Tree.set (Tree.sortedItems_of_pairwise ht).symm
    rw [hset]
    exact Tree.gathers_setOf (Or.inl rfl)
  | list items =>
    obtain ⟨given, hgiven, -⟩ := Outcome.map_eq_ok.1 h
    obtain rfl := eq_strings_of_expandTexts hgiven
    have hset : Leaf.textSet.canonical (.list (given.map .str)) = Tree.setOf given := by
      rw [canonical, List.filterMap_map]
      exact congrArg Tree.setOf (List.filterMap_some)
    rw [hset]
    exact Tree.gathers_setOf (Or.inr rfl)
  | _ => cases h

/-- The canonical form gathers what is given at the row of a set. -/
def GathersAt (r : Outline.Row) (canonical given : Option Tree) : Prop :=
  List.Forall₂ Gathers (valuesIn canonical r.parents r.key) (valuesIn given r.parents r.key)

theorem Fields.gathersAt_of_expandEach {fields : Fields} {r : Outline.Row}
    (hone : ∀ {path : Path} {entries : List (String × Tree)} {v : fields.Value},
      (Tree.map entries).WellFormed → fields.expand path entries = .ok v →
      List.Forall₂ Gathers ((Tree.map (fields.canonical entries)).valuesAt r.parents r.key)
        ((Tree.map entries).valuesAt r.parents r.key))
    {located : List (Path × List (String × Tree))} {vs : List fields.Value}
    (ht : Tree.AllWellFormed (located.map (fun e => .map e.2)))
    (h : expandEach fields.expand located = .ok vs) :
    GathersAt r (some (.list (located.map (fun e => .map (fields.canonical e.2)))))
      (some (.list (located.map (fun e => .map e.2)))) := by
  induction located generalizing vs with
  | nil => exact .nil
  | cons e rest ih =>
    simp only [expandEach] at h
    obtain ⟨v, hv, h⟩ := Outcome.bind_eq_ok.1 h
    obtain ⟨others, hothers, -⟩ := Outcome.bind_eq_ok.1 h
    exact List.rel_append (hone ht.1 hv) (ih ht.2 hothers)

/-- A default that is filled in has nothing in it. -/
theorem Presence.valuesIn_canonical (p : Presence) (hkept : p.isKept) (s : Shape)
    (given : Option Tree) (parents : List String) (key : String) :
    valuesIn (p.canonical given (fun text => s.fallbackTree text)) parents key =
      valuesIn given parents key := by
  cases given with
  | some t => rw [Presence.canonical_some hkept]
  | none =>
    cases p with
    | defaulted text =>
      cases s with
      | block fields | backend =>
        exact (List.append_nil _).trans (Tree.valuesAt_empty parents key)
      | leaf l | blocks fields => rfl
    | _ => rfl

/-- A set has no default. -/
theorem Presence.canonical_textSet {p : Presence} (hkept : p.isKept)
    (hsuits : p.Suits (.leaf .textSet)) (given : Option Tree) (fallback : String → Tree) :
    p.canonical given fallback = given := by
  cases p with
  | optional | required | expected => rfl
  | defaulted text => cases hsuits
  | reported | internal => cases hkept

/-- The way to a row leads through a key of the block. -/
theorem Fields.headD_mem_keys (fields : Fields) {r : Outline.Row} (h : r ∈ fields.outline) :
    r.parents.headD r.key ∈ fields.keys := by
  match fields with
  | .nil => cases h
  | .typed _ _ rest => exact rest.headD_mem_keys h
  | .cons field shape rest =>
    rw [outline] at h
    split at h
    · rcases List.mem_append.1 h with hhere | hrest
      · rcases List.mem_cons.1 hhere with rfl | hunder
        · exact List.mem_cons_self
        · obtain ⟨inner, -, rfl⟩ := List.mem_map.1 hunder
          exact List.mem_cons_self
      · exact List.mem_cons_of_mem _ (rest.headD_mem_keys hrest)
    · exact List.mem_cons_of_mem _ (rest.headD_mem_keys h)

theorem Shape.eq_textSet {s : Shape} (h : s.outlineForm = .stringSet) : s = .leaf .textSet := by
  cases s with
  | leaf l => exact congrArg Shape.leaf (Leaf.eq_textSet h)
  | _ => cases h

mutual

theorem Shape.gathersAt_canonical : (s : Shape) → s.Lawful → {path : Path} → {t : Tree} →
    t.WellFormed → {found : Option s.Value} → s.expand path t = .ok found →
    {r : Outline.Row} → r ∈ s.outline → r.form = .stringSet → GathersAt r (s.canonical t) (some t)
  | .leaf _, _, _, _, _, _, _, _, hr, _ => by cases hr
  | .backend, _, _, _, _, _, _, r, hr, hform => by
    simp only [Shape.outline, List.mem_cons, List.not_mem_nil, or_false] at hr
    rcases hr with rfl | rfl <;> cases hform
  | .block fields, hs, path, t, ht, found, h, r, hr, hform => by
    rw [Shape.expand_block] at h
    rcases expandBlock_eq_ok.1 h with ⟨rfl, -⟩ | ⟨entries, v, rfl, hv, -⟩
    · exact .nil
    · exact List.rel_append (fields.gathers_canonical hs ht.1 hv hr hform) .nil
  | .blocks fields, hs, path, t, ht, found, h, r, hr, hform => by
    simp only [Shape.expand] at h
    obtain ⟨located, hread, h⟩ := Outcome.bind_eq_ok.1 h
    obtain ⟨vs, hvs, -⟩ := Outcome.bind_eq_ok.1 h
    cases t with
    | list items =>
      obtain rfl := eq_maps_of_readItems hread
      have hgathers := Fields.gathersAt_of_expandEach
        (fun ht hv => fields.gathers_canonical hs ht hv hr hform) ht hvs
      rw [Shape.canonical, List.map_map]
      exact hgathers
    | _ => cases hread

/-- Where a map that can be expanded has strings for a set, its canonical form has the set. -/
theorem Fields.gathers_canonical : (fields : Fields) → fields.Lawful → {path : Path} →
    {entries : List (String × Tree)} → (Tree.map entries).WellFormed → {v : fields.Value} →
    fields.expand path entries = .ok v → {r : Outline.Row} → r ∈ fields.outline →
    r.form = .stringSet →
    List.Forall₂ Gathers ((Tree.map (fields.canonical entries)).valuesAt r.parents r.key)
      ((Tree.map entries).valuesAt r.parents r.key)
  | .nil, _, _, _, _, _, _, _, hr, _ => by cases hr
  | .typed _ _ rest, hs, _, _, ht, _, h, _, hr, hform =>
    rest.gathers_canonical hs.2.2 ht h hr hform
  | .cons field shape rest, hs, path, entries, ht, v, h, r, hr, hform => by
    obtain ⟨⟨hkey, -, hsuits⟩, hshape, hrest⟩ := hs
    obtain ⟨hv, hvs⟩ := (Fields.expand_cons_iff field shape rest path entries v).1 h
    have hothers : r ∈ rest.outline →
        List.Forall₂ Gathers
          ((Tree.map ((Fields.cons field shape rest).canonical entries)).valuesAt r.parents r.key)
          ((Tree.map entries).valuesAt r.parents r.key) := by
      intro hr
      have hne : field.key ≠ r.parents.headD r.key :=
        fun heq => hkey (heq ▸ rest.headD_mem_keys hr)
      rw [Tree.valuesAt_congr _ _ (Fields.get?_canonical_rest hne entries)]
      exact rest.gathers_canonical hrest ht hvs hr hform
    rw [Fields.outline] at hr
    split at hr
    · rename_i hkept
      obtain ⟨found, hfound, -⟩ := Presence.exists_settle_iff.1 ⟨v.1, hv⟩ hkept
      rw [Shape.found] at hfound
      rcases List.mem_append.1 hr with hhere | hr
      · rcases List.mem_cons.1 hhere with rfl | hunder
        · obtain rfl := Shape.eq_textSet hform
          rw [Tree.valuesAt_here, Tree.valuesAt_here, Fields.get?_canonical_cons hkey,
            Presence.canonical_textSet hkept hsuits]
          cases hget : Entries.get? entries field.key with
          | none => exact .nil
          | some t =>
            rw [hget] at hfound
            obtain ⟨texts, htexts, -⟩ := Outcome.map_eq_ok.1 hfound
            exact .cons (Leaf.gathers_canonical (Tree.wellFormed_of_get? ht hget) htexts) .nil
        · obtain ⟨inner, hinner, rfl⟩ := List.mem_map.1 hunder
          rw [Tree.valuesAt_below, Tree.valuesAt_below, Fields.get?_canonical_cons hkey,
            Presence.valuesIn_canonical _ hkept]
          cases hget : Entries.get? entries field.key with
          | none => exact .nil
          | some t =>
            rw [hget] at hfound
            exact shape.gathersAt_canonical hshape (Tree.wellFormed_of_get? ht hget) hfound hinner
              hform
      · exact hothers hr
    · exact hothers hr

end

end Schema

end DesiredState
