import DesiredState.Proofs.Schema.Projection
import DesiredState.Proofs.Tree

/-!
The canonical form of a tree.
A tree that can be expanded is given back in its canonical form: without the
keys that no field takes from it and without empty blocks, with sets sorted
and numerals plain, and with the defaults filled in. The canonical form is
defined on trees alone, by recursion on the schema.
-/
namespace DesiredState

namespace Schema

theorem Leaf.wellFormed_flatten (l : Leaf) (v : l.Value) : (l.flatten v).WellFormed := by
  cases l with
  | text | int32 | int64 | flag | intOrText => trivial
  | textSet => exact Tree.pairwise_sortedItems v
  | texts =>
    refine Tree.allWellFormed_iff.2 fun t ht => ?_
    obtain ⟨s, -, rfl⟩ := List.mem_map.1 ht
    trivial
  | textMap =>
    refine ⟨Entries.sorted_map _ v.sorted, Tree.entriesWellFormed_iff.2 fun e he => ?_⟩
    obtain ⟨f, -, rfl⟩ := List.mem_map.1 he
    trivial

theorem Backend.wellFormed_flatten (b : Backend) : (Tree.map b.flatten).WellFormed := by
  refine Tree.wellFormed_insert? (Tree.wellFormed_insert? ⟨Entries.sorted_nil, trivial⟩ _ ?_) _ ?_
  · intro t ht
    obtain ⟨s, -, rfl⟩ := Option.map_eq_some_iff.1 ht
    trivial
  · intro t ht
    obtain ⟨s, -, rfl⟩ := Option.map_eq_some_iff.1 ht
    trivial

mutual

theorem Shape.wellFormed_flatten : (s : Shape) → (v : s.Value) → (s.flatten v).WellFormed
  | .leaf l, v => l.wellFormed_flatten v
  | .block fields, v => ⟨fields.wellFormed_flatten v, trivial⟩
  | .blocks fields, items => by
    refine Tree.allWellFormed_iff.2 fun t ht => ?_
    obtain ⟨v, -, rfl⟩ := List.mem_map.1 ht
    exact fields.wellFormed_flatten v
  | .backend, b => ⟨b.wellFormed_flatten, trivial⟩

theorem Fields.wellFormed_flatten : (fields : Fields) → (v : fields.Value) →
    (Tree.map (fields.flatten v)).WellFormed
  | .nil, _ => ⟨Entries.sorted_nil, trivial⟩
  | .typed _ _ rest, v => rest.wellFormed_flatten v
  | .cons field shape rest, (v, vs) => by
    refine Tree.wellFormed_insert? (rest.wellFormed_flatten vs) _ fun t ht => ?_
    obtain ⟨x, -, rfl⟩ := Option.map_eq_some_iff.1 ht
    exact shape.wellFormed_flatten x

end

/-- The tree of a default. -/
def Shape.fallbackTree (text : String) : Shape → Tree
  | .leaf _ => .str text
  | .blocks _ => .list []
  | .block _ | .backend => .block []

/-- What a presence makes of a subtree that is or is not given. -/
def Presence.canonical (p : Presence) (given : Option Tree) (fallback : String → Tree) :
    Option Tree :=
  match p with
  | .optional | .required | .expected => given
  | .defaulted text => some (given.getD (fallback text))
  | .reported | .internal => none

def Backend.canonical (entries : List (String × Tree)) : List (String × Tree) :=
  Entries.insert? "service_name" (Entries.get? entries "service_name")
    (Entries.insert? "service_port"
      ((Entries.get? entries "service_port").map (Leaf.canonical .intOrText)) [])

mutual

/-- The canonical form of a subtree; none for an empty block. -/
def Shape.canonical : Shape → Tree → Option Tree
  | .leaf l, t => some (l.canonical t)
  | .block _, .list [] => none
  | .block fields, .list [.map entries] => some (.block (fields.canonical entries))
  | .block _, t => some t
  | .blocks fields, .list items =>
    some (.list (items.map fun
      | .map entries => .map (fields.canonical entries)
      | t => t))
  | .blocks _, t => some t
  | .backend, .list [] => none
  | .backend, .list [.map entries] => some (.block (Backend.canonical entries))
  | .backend, t => some t

def Fields.canonical : Fields → List (String × Tree) → List (String × Tree)
  | .nil, _ => []
  | .typed _ _ rest, entries => rest.canonical entries
  | .cons field shape rest, entries =>
    Entries.insert? field.key
      (field.presence.canonical ((Entries.get? entries field.key).bind shape.canonical)
        (fun text => shape.fallbackTree text))
      (rest.canonical entries)

end

theorem readBlock_eq_ok {path : Path} {t : Tree}
    {found : Option (Path × List (String × Tree))} :
    readBlock path t = .ok found ↔
      (t = .list [] ∧ found = none) ∨
        ∃ entries, t = .block entries ∧ found = some (path ++ ["0"], entries) := by
  unfold readBlock
  split
  · simp [Tree.block, eq_comm]
  · simp [Tree.block, eq_comm]
  · rename_i inner hinner
    simp only [Leaf.mismatch, Tree.block, Tree.list.injEq, List.cons.injEq, and_true,
      reduceCtorEq, false_and, false_or, false_iff, not_exists, not_and]
    exact fun entries heq => absurd heq (hinner entries)
  · rename_i items hnil hmap hone
    simp only [Tree.block, Tree.list.injEq, reduceCtorEq, false_iff, not_or, not_exists, not_and]
    exact ⟨fun heq => absurd heq hnil, fun entries heq => absurd heq (hone _)⟩
  · rename_i hnil hmap hone hlist
    simp only [Leaf.mismatch, Tree.block, reduceCtorEq, false_iff, not_or, not_exists, not_and]
    exact ⟨fun heq => absurd heq hnil, fun entries heq => absurd heq (hlist _)⟩

/-- Only maps are read, and all of them. -/
theorem eq_maps_of_readItems {path : Path} {i : Nat} {items : List Tree}
    {located : List (Path × List (String × Tree))} (h : readItems path i items = .ok located) :
    items = located.map (fun e => .map e.2) := by
  induction items generalizing i located with
  | nil =>
    cases h
    rfl
  | cons t rest ih =>
    cases t with
    | map entries =>
      simp only [readItems] at h
      obtain ⟨others, hothers, heq⟩ := Outcome.bind_eq_ok.1 h
      cases heq
      rw [ih hothers]
      rfl
    | _ => simp [readItems, Leaf.mismatch] at h

theorem Fields.hollow_blank (fields : Fields) (h : fields.Hollow) :
    fields.Complete fields.blank ∧ fields.configured fields.blank = fields.blank ∧
      fields.flatten fields.blank = [] := by
  match fields with
  | .nil => exact ⟨trivial, rfl, rfl⟩
  | .typed _ _ rest => exact rest.hollow_blank h
  | .cons ⟨key, member, presence⟩ shape rest =>
    obtain ⟨hpresence, hrest⟩ := h
    obtain ⟨hcomplete, hconfigured, hflatten⟩ := rest.hollow_blank hrest
    rcases hpresence with rfl | rfl | rfl <;>
      simp [Complete, configured, flatten, blank, Presence.Complete, Presence.configured,
        Presence.blank, Presence.shown, Entries.insert?, hcomplete, hconfigured, hflatten]

/-- A default is complete and has no more in it than its tree says. -/
theorem Shape.fallback_defaultable {s : Shape} (h : s.Defaultable) (text : String) :
    s.Complete (s.fallback text) ∧ s.configured (s.fallback text) = s.fallback text ∧
      s.flatten (s.fallback text) = s.fallbackTree text := by
  match s with
  | .leaf l =>
    obtain rfl : l = .text := h
    exact ⟨trivial, rfl, rfl⟩
  | .block fields =>
    obtain ⟨hcomplete, hconfigured, hflatten⟩ := fields.hollow_blank h
    exact ⟨hcomplete, hconfigured, congrArg Tree.block hflatten⟩
  | .blocks _ =>
    refine ⟨fun v hv => ?_, rfl, rfl⟩
    simp [fallback, blank] at hv

/-- A value with nothing an expansion drops, and the tree that it is written as. -/
structure Shape.Settled (s : Shape) (v : s.Value) (t : Tree) : Prop where
  complete : s.Complete v
  configured : s.configured v = v
  flatten : s.flatten v = t

structure Fields.Settled (fields : Fields) (v : fields.Value) (entries : List (String × Tree)) :
    Prop where
  complete : fields.Complete v
  configured : fields.configured v = v
  flatten : fields.flatten v = entries

/-- An optional value that is settled where it is there and shows nothing elsewhere. -/
def Shape.Found (s : Shape) (found : Option s.Value) (given : Option Tree) : Prop :=
  match found, given with
  | some v, some t => s.Settled v t
  | none, none => True
  | _, _ => False

theorem Fields.settled_of_expandEach {fields : Fields}
    (hone : ∀ {path : Path} {entries : List (String × Tree)} {v : fields.Value},
      (Tree.map entries).WellFormed → fields.expand path entries = .ok v →
      fields.Settled v (fields.canonical entries))
    {located : List (Path × List (String × Tree))} {vs : List fields.Value}
    (ht : Tree.AllWellFormed (located.map (fun e => .map e.2)))
    (h : expandEach fields.expand located = .ok vs) :
    (∀ v ∈ vs, fields.Complete v) ∧ vs.map fields.configured = vs ∧
      vs.map fields.flatten = located.map (fun e => fields.canonical e.2) := by
  induction located generalizing vs with
  | nil =>
    cases h
    exact ⟨fun v hv => absurd hv List.not_mem_nil, rfl, rfl⟩
  | cons e rest ih =>
    simp only [expandEach] at h
    obtain ⟨v, hv, h⟩ := Outcome.bind_eq_ok.1 h
    obtain ⟨others, hothers, heq⟩ := Outcome.bind_eq_ok.1 h
    cases heq
    have hfirst := hone ht.1 hv
    obtain ⟨hcomplete, hconfigured, hflatten⟩ := ih ht.2 hothers
    refine ⟨List.forall_mem_cons.2 ⟨hfirst.complete, hcomplete⟩, ?_, ?_⟩
    · rw [List.map_cons, hfirst.configured, hconfigured]
    · rw [List.map_cons, List.map_cons, hfirst.flatten, hflatten]

theorem Shape.found_iff {s : Shape} {found : Option s.Value} {given : Option Tree} :
    s.Found found given ↔ (found = none ∧ given = none) ∨
      ∃ v t, found = some v ∧ given = some t ∧ s.Settled v t := by
  cases found <;> cases given <;> simp [Found]

theorem Presence.settled_of_settle {p : Presence} {s : Shape} {found : Checked (Option s.Value)}
    (given : Option Tree) {missing : Tree.Violation} {w : p.Held s.Value}
    (hsuits : p.Suits s) (hfound : ∀ x, found = .ok x → s.Found x given)
    (h : p.settle found s.fallback missing = .ok w) :
    p.Complete s.Complete w ∧ p.configured s.configured w = w ∧
      (p.shown w).map s.flatten = p.canonical given (fun text => s.fallbackTree text) := by
  cases p with
  | optional =>
    rcases Shape.found_iff.1 (hfound w h) with ⟨rfl, rfl⟩ | ⟨v, t, rfl, rfl, hv⟩
    · exact ⟨fun x hx => absurd hx.symm (Option.some_ne_none x), rfl, rfl⟩
    · refine ⟨fun x hx => ?_, congrArg some hv.configured, congrArg some hv.flatten⟩
      cases hx
      exact hv.complete
  | required =>
    simp only [settle] at h
    obtain ⟨x, hx, h⟩ := Outcome.bind_eq_ok.1 h
    rcases Shape.found_iff.1 (hfound x hx) with ⟨rfl, rfl⟩ | ⟨v, t, rfl, rfl, hv⟩
    · cases h
    · cases h
      exact ⟨hv.complete, hv.configured, congrArg some hv.flatten⟩
  | expected =>
    simp only [settle] at h
    obtain ⟨x, hx, h⟩ := Outcome.bind_eq_ok.1 h
    rcases Shape.found_iff.1 (hfound x hx) with ⟨rfl, rfl⟩ | ⟨v, t, rfl, rfl, hv⟩
    · cases h
    · cases h
      exact ⟨⟨v, rfl, hv.complete⟩, congrArg some hv.configured, congrArg some hv.flatten⟩
  | defaulted text =>
    simp only [settle] at h
    obtain ⟨x, hx, h⟩ := Outcome.bind_eq_ok.1 h
    cases h
    rcases Shape.found_iff.1 (hfound x hx) with ⟨rfl, rfl⟩ | ⟨v, t, rfl, rfl, hv⟩
    · obtain ⟨hcomplete, hconfigured, hflatten⟩ := Shape.fallback_defaultable hsuits text
      exact ⟨hcomplete, hconfigured, congrArg some hflatten⟩
    · exact ⟨hv.complete, hv.configured, congrArg some hv.flatten⟩
  | reported | internal =>
    cases h
    exact ⟨trivial, rfl, rfl⟩

theorem Backend.settled_of_expand {path : Path} {entries : List (String × Tree)} {b : Backend}
    (h : expand path entries = .ok b) : Shape.backend.Settled b (.block (canonical entries)) := by
  obtain ⟨hcomplete, hconfigured⟩ := configured_of_expand h
  obtain ⟨name, port, hname, hport, rfl⟩ := expand_eq_ok.1 h
  refine ⟨hcomplete, hconfigured, ?_⟩
  simp only [Shape.flatten, flatten, canonical, hname, hport]
  cases port with
  | none => rfl
  | some s =>
    simp only [Option.map_some, Option.bind_some, ServicePort.toText?_ofText]
    rfl

mutual

/-- What was read from a tree is written back as the canonical form of the tree. -/
theorem Shape.found_of_expand : (s : Shape) → s.Lawful → {path : Path} → {t : Tree} →
    t.WellFormed → {found : Option s.Value} → s.expand path t = .ok found →
    s.Found found (s.canonical t)
  | .leaf l, _, path, t, ht, found, h => by
    obtain ⟨v, hv, rfl⟩ := Outcome.map_eq_ok.1 h
    exact ⟨trivial, Leaf.configured_of_expand ht hv, Leaf.flatten_of_expand ht hv⟩
  | .block fields, hs, path, t, ht, found, h => by
    simp only [Shape.expand] at h
    obtain ⟨read, hread, h⟩ := Outcome.bind_eq_ok.1 h
    rcases readBlock_eq_ok.1 hread with ⟨rfl, rfl⟩ | ⟨entries, rfl, rfl⟩
    · cases h
      trivial
    · obtain ⟨v, hv, heq⟩ := Outcome.bind_eq_ok.1 h
      cases heq
      have hfields := fields.settled_of_expand hs ht.1 hv
      exact ⟨hfields.complete, hfields.configured, congrArg Tree.block hfields.flatten⟩
  | .blocks fields, hs, path, t, ht, found, h => by
    simp only [Shape.expand] at h
    obtain ⟨located, hread, h⟩ := Outcome.bind_eq_ok.1 h
    obtain ⟨vs, hvs, heq⟩ := Outcome.bind_eq_ok.1 h
    cases heq
    cases t with
    | list items =>
      obtain rfl := eq_maps_of_readItems hread
      obtain ⟨hcomplete, hconfigured, hflatten⟩ :=
        Fields.settled_of_expandEach (fun ht hv => fields.settled_of_expand hs ht hv) ht hvs
      refine ⟨hcomplete, hconfigured, congrArg Tree.list ?_⟩
      rw [List.map_map, ← Function.comp_def Tree.map, ← List.map_map, hflatten, List.map_map]
      rfl
    | _ => simp [readBlocks, Leaf.mismatch] at hread
  | .backend, _, path, t, ht, found, h => by
    simp only [Shape.expand] at h
    obtain ⟨read, hread, h⟩ := Outcome.bind_eq_ok.1 h
    rcases readBlock_eq_ok.1 hread with ⟨rfl, rfl⟩ | ⟨entries, rfl, rfl⟩
    · cases h
      trivial
    · obtain ⟨b, hb, heq⟩ := Outcome.bind_eq_ok.1 h
      cases heq
      exact Backend.settled_of_expand hb

theorem Fields.settled_of_expand : (fields : Fields) → fields.Lawful → {path : Path} →
    {entries : List (String × Tree)} → (Tree.map entries).WellFormed → {v : fields.Value} →
    fields.expand path entries = .ok v → fields.Settled v (fields.canonical entries)
  | .nil, _, _, _, _, _, _ => ⟨trivial, rfl, rfl⟩
  | .typed _ _ rest, hs, _, _, ht, _, h =>
    have hrest := rest.settled_of_expand hs.2.2 ht h
    ⟨hrest.complete, hrest.configured, hrest.flatten⟩
  | .cons field shape rest, hs, path, entries, ht, v, h => by
    obtain ⟨⟨-, -, hsuits⟩, hshape, hrest⟩ := hs
    obtain ⟨hv, hvs⟩ := (Fields.expand_cons_iff field shape rest path entries v).1 h
    have hothers := rest.settled_of_expand hrest ht hvs
    obtain ⟨hcomplete, hconfigured, hflatten⟩ := Presence.settled_of_settle
      ((Entries.get? entries field.key).bind shape.canonical) hsuits (fun x hx => by
        unfold Shape.found at hx
        cases hget : Entries.get? entries field.key with
        | none =>
          rw [hget] at hx
          cases hx
          trivial
        | some t =>
          rw [hget] at hx
          exact shape.found_of_expand hshape (Tree.wellFormed_of_get? ht hget) hx) hv
    refine ⟨⟨hcomplete, hothers.complete⟩, ?_, ?_⟩
    · exact Prod.ext hconfigured hothers.configured
    · simp only [Fields.flatten, Fields.canonical, hflatten, hothers.flatten]

end

namespace Fields

theorem get?_canonical_of_not_mem (fields : Fields) (entries : List (String × Tree))
    {key : String} (h : key ∉ fields.keys) :
    Entries.get? (fields.canonical entries) key = none := by
  match fields with
  | .nil => rfl
  | .typed _ _ rest => exact rest.get?_canonical_of_not_mem entries h
  | .cons field shape rest =>
    simp only [keys, List.mem_cons, not_or] at h
    simp only [canonical, Entries.get?_insert?, if_neg (Ne.symm h.1)]
    exact rest.get?_canonical_of_not_mem entries h.2

variable {field : Field} {shape : Shape} {rest : Fields}

theorem get?_canonical_cons (h : field.key ∉ rest.keys) (entries : List (String × Tree)) :
    Entries.get? ((cons field shape rest).canonical entries) field.key =
      field.presence.canonical ((Entries.get? entries field.key).bind shape.canonical)
        (fun text => shape.fallbackTree text) := by
  rw [canonical, Entries.get?_insert?, if_pos rfl, rest.get?_canonical_of_not_mem entries h,
    Option.or_none]

theorem get?_canonical_rest {key : String} (h : field.key ≠ key) (entries : List (String × Tree)) :
    Entries.get? ((cons field shape rest).canonical entries) key =
      Entries.get? (rest.canonical entries) key := by
  rw [canonical, Entries.get?_insert?, if_neg h]

end Fields

theorem Presence.canonical_some {p : Presence} (h : p.isKept) (t : Tree)
    (fallback : String → Tree) : p.canonical (some t) fallback = some t := by
  cases p <;> simp_all [isKept, canonical]

end Schema

end DesiredState
