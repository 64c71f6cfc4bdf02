import DesiredState.Patch.Diff
import DesiredState.Proofs.Json.Pointer
import DesiredState.Proofs.Json.Revised

/-!
What a patch leads to.
A patch leads from one document to another if it can be sent and every step of
it succeeds. Each single operation revises one place: the one that it names, or
the object or array that it names a part of.
-/
namespace DesiredState.Patch

open Json (Revised resolve?)

/-- The patch can be sent and turns one document into another. -/
def Leads (patch : List Operation) (v w : Json) : Prop :=
  ∃ steps, patch.mapM Operation.toStep? = some steps ∧ applyAll steps v = some w

variable {v w u x : Json} {pointer key : String} {tokens parents : List String}

theorem toSteps_eq_ok {patch : List Operation} {steps : List Step} :
    toSteps patch = .ok steps ↔ patch.mapM Operation.toStep? = some steps := by
  rw [toSteps]
  cases patch.mapM Operation.toStep? <;> simp

theorem leads_nil (v : Json) : Leads [] v v := ⟨[], rfl, rfl⟩

theorem Leads.append {first rest : List Operation} (h : Leads first v w) (h' : Leads rest w u) :
    Leads (first ++ rest) v u := by
  obtain ⟨steps, hsteps, happly⟩ := h
  obtain ⟨more, hmore, happly'⟩ := h'
  refine ⟨steps ++ more, ?_, ?_⟩
  · simp [List.mapM_append, hsteps, hmore]
  · unfold applyAll at *
    simp [List.foldlM_append, happly, happly']

theorem Leads.cons {op : Operation} {rest : List Operation} (h : Leads [op] v w)
    (h' : Leads rest w u) : Leads (op :: rest) v u :=
  h.append h'

theorem leads_step {op : Operation} {step : Step} (hstep : op.toStep? = some step)
    (happly : step.apply v = some w) : Leads [op] v w :=
  ⟨[step], by simp [hstep], by simp [applyAll, happly]⟩

/-- The last token of a pointer as it is written. -/
theorem rawTokens?_of_tokens? (h : Pointer.tokens? pointer = some (parents ++ [key])) :
    ∃ raws raw, Pointer.rawTokens? pointer = some (raws ++ [raw]) ∧
      raws.map Pointer.unescape = parents ∧ Pointer.unescape raw = key := by
  obtain ⟨all, hall, hmap⟩ := Pointer.tokens?_eq_some.1 h
  obtain ⟨raws, last, rfl, hraws, hlast⟩ := List.map_eq_append_iff.1 hmap
  obtain ⟨raw, rfl, hraw⟩ := List.map_eq_singleton_iff.1 hlast
  exact ⟨raws, raw, hall, hraws, hraw⟩

theorem last_of_append {raws rest : List String} {raw first : String}
    (h : raws ++ [raw] = first :: rest) :
    (first :: rest).getLastD "" = raw ∧ (first :: rest).dropLast = raws := by
  rw [← h]
  simp

theorem addAt_eq {raws : List String} {raw : String}
    (h : Pointer.rawTokens? pointer = some (raws ++ [raw])) (value v : Json) :
    addAt pointer value v = changeAt (addChild raw value) (raws.map Pointer.unescape) v := by
  unfold addAt
  rw [h]
  cases hraws : raws ++ [raw] with
  | nil => simp at hraws
  | cons first rest =>
    obtain ⟨hlast, hinit⟩ := last_of_append hraws
    change changeAt (addChild ((first :: rest).getLastD "") value)
      ((first :: rest).dropLast.map Pointer.unescape) v = _
    rw [hlast, hinit]

theorem removeAt_eq {raws : List String} {raw : String}
    (h : Pointer.rawTokens? pointer = some (raws ++ [raw])) (v : Json) :
    removeAt pointer v = changeAt (removeChild raw) (raws.map Pointer.unescape) v := by
  unfold removeAt
  rw [h]
  cases hraws : raws ++ [raw] with
  | nil => simp at hraws
  | cons first rest =>
    obtain ⟨hlast, hinit⟩ := last_of_append hraws
    change changeAt (removeChild ((first :: rest).getLastD ""))
      ((first :: rest).dropLast.map Pointer.unescape) v = _
    rw [hlast, hinit]

theorem leads_add (h : Pointer.tokens? pointer = some (parents ++ [key]))
    {members : List (String × Json)} (hparent : resolve? parents v = some (.obj members))
    (value : Json) :
    ∃ w, Leads [add pointer value] v w ∧ Revised (parents ++ [key]) (some value) v w := by
  obtain ⟨raws, raw, hraws, rfl, rfl⟩ := rawTokens?_of_tokens? h
  have hchange : addChild raw value (.obj members) =
      some (.obj (Entries.insert (Pointer.unescape raw) value members)) := rfl
  obtain ⟨w, hw, hrevised⟩ := changeAt_member hparent hchange (fun other hother => by
    rw [Entries.get?_insert, if_neg (Ne.symm hother)])
  rw [Entries.get?_insert, if_pos rfl] at hrevised
  exact ⟨w, leads_step rfl ((addAt_eq hraws value v).trans hw), hrevised⟩

theorem leads_remove (h : Pointer.tokens? pointer = some (parents ++ [key]))
    {members : List (String × Json)} (hparent : resolve? parents v = some (.obj members))
    (hx : Entries.contains members key) :
    ∃ w, Leads [remove pointer] v w ∧ Revised (parents ++ [key]) none v w := by
  obtain ⟨raws, raw, hraws, rfl, rfl⟩ := rawTokens?_of_tokens? h
  have hchange : removeChild raw (.obj members) =
      some (.obj (Entries.erase (Pointer.unescape raw) members)) := by
    simp [removeChild, hx]
  obtain ⟨w, hw, hrevised⟩ := changeAt_member hparent hchange (fun other hother => by
    rw [Entries.get?_erase, if_neg (Ne.symm hother)])
  rw [Entries.get?_erase, if_pos rfl] at hrevised
  exact ⟨w, leads_step rfl ((removeAt_eq hraws v).trans hw), hrevised⟩

theorem leads_replace (h : Pointer.tokens? pointer = some tokens)
    (hx : resolve? tokens v = some x) (value : Json) :
    ∃ w, Leads [replace pointer value] v w ∧ Revised tokens (some value) v w := by
  obtain ⟨w, hw, hrevised⟩ : ∃ w, changeAt (fun _ => some value) tokens v = some w ∧
      Revised tokens (some value) v w := changeAt_eq_some hx rfl
  exact ⟨w, leads_step rfl (by simp [Step.apply, h, hw]), hrevised⟩

theorem leads_addMember (h : Pointer.tokens? pointer = some tokens)
    {members : List (String × Json)} (hx : resolve? tokens v = some (.obj members))
    (key : String) (value : Json) :
    ∃ w, Leads [add (Pointer.member pointer key) value] v w ∧
      Revised tokens (some (.obj (Entries.insert key value members))) v w := by
  obtain ⟨raws, hraws, rfl⟩ := Pointer.tokens?_eq_some.1 h
  have hchange : addChild (Pointer.escape key) value (.obj members) =
      some (.obj (Entries.insert key value members)) := by simp [addChild]
  obtain ⟨w, hw, hrevised⟩ := changeAt_eq_some hx hchange
  have happly := addAt_eq (Pointer.rawTokens?_member hraws key) value v
  exact ⟨w, leads_step rfl (happly.trans hw), hrevised⟩

theorem leads_removeMember (h : Pointer.tokens? pointer = some tokens)
    {members : List (String × Json)} (hx : resolve? tokens v = some (.obj members))
    {key : String} (hkey : Entries.contains members key) :
    ∃ w, Leads [remove (Pointer.member pointer key)] v w ∧
      Revised tokens (some (.obj (Entries.erase key members))) v w := by
  obtain ⟨raws, hraws, rfl⟩ := Pointer.tokens?_eq_some.1 h
  have hchange : removeChild (Pointer.escape key) (.obj members) =
      some (.obj (Entries.erase key members)) := by simp [removeChild, hkey]
  obtain ⟨w, hw, hrevised⟩ := changeAt_eq_some hx hchange
  have happly := removeAt_eq (Pointer.rawTokens?_member hraws key) v
  exact ⟨w, leads_step rfl (happly.trans hw), hrevised⟩

theorem leads_replaceElement (h : Pointer.tokens? pointer = some tokens) {items : List Json}
    (hx : resolve? tokens v = some (.arr items)) {index : Nat} (hindex : index < items.length)
    (value : Json) :
    ∃ w, Leads [replace (Pointer.element pointer index) value] v w ∧
      Revised tokens (some (.arr (items.set index value))) v w := by
  have hchange : changeAt (fun _ => some value) [index.repr] (.arr items) =
      some (.arr (items.set index value)) := by
    simp [changeAt, changeChild, Pointer.index?_repr, hindex]
  obtain ⟨w, hw, hrevised⟩ := changeAt_eq_some hx hchange
  refine ⟨w, leads_step rfl ?_, hrevised⟩
  simp [Step.apply, Pointer.tokens?_element h index, changeAt_append, hw]

end DesiredState.Patch
