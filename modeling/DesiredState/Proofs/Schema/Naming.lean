import DesiredState.Proofs.Schema.Canonical
import DesiredState.Proofs.Schema.Place
import DesiredState.Tree.Path

/-!
One field under its two names.
A field inside blocks that are always there has a path of members in a document
and a path of keys in a tree, where each block is the only element of a list.
Trees that agree at the path of keys expand to documents that agree at the path
of members.
-/
namespace DesiredState.Schema

open Json (resolve?)

mutual

def Shape.keyPath? : Shape → List String → Option (List String)
  | .block fields, path => (fields.keyPath? path).map ("0" :: ·)
  | .leaf _, _ | .blocks _, _ | .backend, _ => none

/-- The path in a tree of the field at a path of members. -/
def Fields.keyPath? : Fields → List String → Option (List String)
  | .nil, _ => none
  | .typed _ _ rest, path => rest.keyPath? path
  | .cons .., [] => none
  | .cons field shape rest, key :: path =>
    if field.member = key then
      match path with
      | [] => some [field.key]
      | token :: path =>
        if field.presence.isSolid then
          (shape.keyPath? (token :: path)).map (field.key :: ·)
        else none
    else rest.keyPath? (key :: path)

end

mutual

/-- Both names lead to the same fields. -/
theorem Shape.isSome_keyPath? : (s : Shape) → (path : List String) →
    (s.keyPath? path).isSome = (s.place? path).isSome
  | .block fields, path => by
    rw [Shape.keyPath?, Shape.place?, Option.isSome_map]
    exact fields.isSome_keyPath? path
  | .leaf _, _ | .blocks _, _ | .backend, _ => rfl

theorem Fields.isSome_keyPath? : (fields : Fields) → (path : List String) →
    (fields.keyPath? path).isSome = (fields.place? path).isSome
  | .nil, _ => rfl
  | .typed _ _ rest, path => rest.isSome_keyPath? path
  | .cons .., [] => rfl
  | .cons field shape rest, key :: path => by
    simp only [Fields.keyPath?, Fields.place?]
    by_cases hkey : field.member = key
    · rw [if_pos hkey, if_pos hkey]
      cases path with
      | nil => rfl
      | cons token path =>
        have hshape := shape.isSome_keyPath? (token :: path)
        cases hsolid : field.presence.isSolid with
        | false => simp
        | true => simpa using hshape
    · rw [if_neg hkey, if_neg hkey]
      exact rest.isSome_keyPath? (key :: path)

end

theorem Fields.exists_place {fields : Fields} {path keys : List String}
    (h : fields.keyPath? path = some keys) : ∃ place, fields.place? path = some place := by
  have hsome : (fields.keyPath? path).isSome := by rw [h]; rfl
  rw [fields.isSome_keyPath?] at hsome
  exact Option.isSome_iff_exists.1 hsome

namespace Fields

variable {field : Field} {shape : Shape} {inner rest : Fields} {key token : String}
  {path : List String}

theorem keyPath?_here :
    (Fields.cons field shape rest).keyPath? [field.member] = some [field.key] := by
  simp [keyPath?]

theorem keyPath?_inside (hsolid : field.presence.isSolid) :
    (Fields.cons field (.block inner) rest).keyPath? (field.member :: token :: path) =
      (inner.keyPath? (token :: path)).map (fun keys => field.key :: "0" :: keys) := by
  simp [keyPath?, hsolid, Shape.keyPath?, Function.comp_def]

theorem keyPath?_later (hkey : field.member ≠ key) :
    (Fields.cons field shape rest).keyPath? (key :: path) = rest.keyPath? (key :: path) := by
  simp [keyPath?, hkey]

end Fields

/-- The only element of the list that a block is. -/
theorem walk?_block (entries : List (String × Tree)) (path : List String) :
    (Tree.block entries).walk? ("0" :: path) = (Tree.map entries).walk? path := by
  have hzero : Text.nat64? "0" = some 0 := by decide +kernel
  simp [Tree.block, Tree.walk?, Tree.step?, hzero]

theorem walk?_cons (key : String) (path : List String) (entries : List (String × Tree)) :
    (Tree.map entries).walk? (key :: path) = (Entries.get? entries key).bind (Tree.walk? path) :=
  rfl

/-- What must be there was found. -/
theorem Presence.found_of_settle {p : Presence} (hsolid : p.isSolid) {α : Type}
    {found : Checked (Option α)} {fallback : String → α} {missing : Tree.Violation}
    {w : p.Held α} (h : p.settle found fallback missing = .ok w) :
    ∃ v, found = .ok (some v) ∧ p.sent w = some v := by
  cases p with
  | required | expected =>
    obtain ⟨read, hread, hw⟩ := Outcome.bind_eq_ok.1 h
    cases read with
    | none => cases hw
    | some v =>
      cases hw
      exact ⟨_, hread, rfl⟩
  | _ => cases hsolid

/-- A block that must be there was given and expanded. -/
theorem Fields.block_of_found {fields : Fields} {path : Path} {key : String}
    {entries : List (String × Tree)} {v : fields.Value}
    (h : (Shape.block fields).found path key entries = .ok (some v)) :
    ∃ given, Entries.get? entries key = some (.block given) ∧
      fields.expand (path ++ [key] ++ ["0"]) given = .ok v := by
  unfold Shape.found at h
  cases hget : Entries.get? entries key with
  | none =>
    rw [hget] at h
    cases h
  | some t =>
    rw [hget, Option.elim_some, Shape.expand] at h
    obtain ⟨read, hread, h⟩ := Outcome.bind_eq_ok.1 h
    rcases readBlock_eq_ok.1 hread with ⟨rfl, rfl⟩ | ⟨given, rfl, rfl⟩
    · cases h
    · obtain ⟨x, hx, heq⟩ := Outcome.bind_eq_ok.1 h
      cases heq
      exact ⟨given, rfl, hx⟩

/-- Trees that agree at the path of a field give it one value. -/
theorem Fields.resolve?_encode_congr (fields : Fields) (hs : fields.Lawful)
    {members keys : List String} (hkeys : fields.keyPath? members = some keys) {path : Path}
    {entries entries' : List (String × Tree)} {v v' : fields.Value}
    (h : fields.expand path entries = .ok v) (h' : fields.expand path entries' = .ok v')
    (hsame : (Tree.map entries).walk? keys = (Tree.map entries').walk? keys) :
    resolve? members (.obj (fields.encode v)) = resolve? members (.obj (fields.encode v')) := by
  obtain ⟨place, hplace⟩ := exists_place hkeys
  replace hplace := fields.reaches_of_place? hplace
  induction hplace generalizing keys path entries entries' with
  | typed hrest ih =>
    have hothers := ih hs.2.2 hkeys h h' hsame
    rw [Json.resolve?_cons, Json.resolve?_cons] at hothers ⊢
    have hmem := hrest.mem_members
    rw [get?_encode_typed_of_mem hs hmem, get?_encode_typed_of_mem hs hmem]
    exact hothers
  | @here field shape rest =>
    obtain ⟨v, vs⟩ := v
    obtain ⟨v', vs'⟩ := v'
    obtain ⟨hfirst, -⟩ := (expand_cons_iff field shape rest path entries (v, vs)).1 h
    obtain ⟨hfirst', -⟩ := (expand_cons_iff field shape rest path entries' (v', vs')).1 h'
    rw [keyPath?_here] at hkeys
    cases hkeys
    have hget : Entries.get? entries field.key = Entries.get? entries' field.key := by
      simpa [Tree.walk?, Tree.step?] using hsame
    have hfound : shape.found path field.key entries = shape.found path field.key entries' := by
      rw [Shape.found, Shape.found, hget]
    rw [hfound] at hfirst
    have hvalue : v = v' := Except.ok.inj (hfirst.symm.trans hfirst')
    rw [Json.resolve?_singleton, Json.resolve?_singleton, get?_encode_cons hs.1.2.1,
      get?_encode_cons hs.1.2.1, hvalue]
  | @inside field inner rest _ _ _ hsolid _ ih =>
    obtain ⟨v, vs⟩ := v
    obtain ⟨v', vs'⟩ := v'
    obtain ⟨hfirst, -⟩ := (expand_cons_iff field _ rest path entries (v, vs)).1 h
    obtain ⟨hfirst', -⟩ := (expand_cons_iff field _ rest path entries' (v', vs')).1 h'
    rw [keyPath?_inside hsolid] at hkeys
    obtain ⟨deeper, hdeeper, rfl⟩ := Option.map_eq_some_iff.1 hkeys
    obtain ⟨x, hx, hsent⟩ := Presence.found_of_settle hsolid hfirst
    obtain ⟨x', hx', hsent'⟩ := Presence.found_of_settle hsolid hfirst'
    obtain ⟨given, hgiven, hexpand⟩ := block_of_found hx
    obtain ⟨given', hgiven', hexpand'⟩ := block_of_found hx'
    have hblocks : (Tree.map given).walk? deeper = (Tree.map given').walk? deeper := by
      rw [walk?_cons, walk?_cons, hgiven, hgiven', Option.bind_some, Option.bind_some,
        walk?_block, walk?_block] at hsame
      exact hsame
    rw [Json.resolve?_cons, Json.resolve?_cons, get?_encode_cons hs.1.2.1,
      get?_encode_cons hs.1.2.1, hsent, hsent']
    exact ih hs.2.1 hdeeper hexpand hexpand' hblocks
  | later hkey _ ih =>
    obtain ⟨-, hothers⟩ := (expand_cons_iff _ _ _ path entries v).1 h
    obtain ⟨-, hothers'⟩ := (expand_cons_iff _ _ _ path entries' v').1 h'
    rw [keyPath?_later hkey] at hkeys
    have hrestSame := ih hs.2.2 hkeys hothers hothers' hsame
    rw [Json.resolve?_cons, Json.resolve?_cons] at hrestSame ⊢
    rw [get?_encode_rest _ _ hkey, get?_encode_rest _ _ hkey]
    exact hrestSame

end DesiredState.Schema
