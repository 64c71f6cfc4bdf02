import DesiredState.Proofs.Json.Placed
import DesiredState.Proofs.Patch.Between
import DesiredState.Proofs.Patch.Meets

/-!
What remains of a rule's patch after one of its operations.
Whichever operation of a rule is done first, it succeeds, it writes the one
place that it names, and the rule then asks for the other operations and for
nothing else.
-/
namespace DesiredState.Patch

open Json (Revised place resolve?)

section Lists

variable {α β : Type} {before after : List β} {b : β}

theorem append_eq_append_cons {first rest : List β} (h : first ++ rest = before ++ b :: after) :
    (∃ more, first = before ++ b :: more ∧ after = more ++ rest) ∨
      ∃ more, before = first ++ more ∧ rest = more ++ b :: after := by
  rcases List.append_eq_append_iff.1 h with ⟨more, hbefore, hrest⟩ | ⟨more, hfirst, htail⟩
  · exact Or.inr ⟨more, hbefore, hrest⟩
  · rcases List.cons_eq_append_iff.1 htail with ⟨rfl, hrest⟩ | ⟨others, rfl, hafter⟩
    · exact Or.inr ⟨[], by simpa using hfirst.symm, hrest⟩
    · exact Or.inl ⟨others, hfirst, hafter⟩

/-- An item of a filtered list comes from one item of the list. -/
theorem exists_of_filterMap_eq_append_cons {f : α → Option β} {l : List α}
    (h : l.filterMap f = before ++ b :: after) :
    ∃ l₁ a l₂, l = l₁ ++ a :: l₂ ∧ f a = some b ∧ l₁.filterMap f = before ∧
      l₂.filterMap f = after := by
  obtain ⟨l₁, rest, rfl, hbefore, hrest⟩ := List.filterMap_eq_append_iff.1 h
  obtain ⟨skipped, a, l₂, rfl, hskipped, ha, hafter⟩ := List.filterMap_eq_cons_iff.1 hrest
  have hnone : skipped.filterMap f = [] := List.filterMap_eq_nil_iff.2 hskipped
  refine ⟨l₁ ++ skipped, a, l₂, by simp, ha, ?_, hafter⟩
  rw [List.filterMap_append, hbefore, hnone, List.append_nil]

/-- An item of a joined list comes from what one item of the list is mapped to. -/
theorem exists_of_flatMap_eq_append_cons {f : α → List β} {l : List α}
    (h : l.flatMap f = before ++ b :: after) :
    ∃ l₁ a l₂ m₁ m₂, l = l₁ ++ a :: l₂ ∧ f a = m₁ ++ b :: m₂ ∧
      before = l₁.flatMap f ++ m₁ ∧ after = m₂ ++ l₂.flatMap f := by
  induction l generalizing before with
  | nil => simp at h
  | cons a rest ih =>
    rw [List.flatMap_cons] at h
    rcases append_eq_append_cons h with ⟨more, hfirst, rfl⟩ | ⟨more, rfl, hrest⟩
    · exact ⟨[], a, rest, before, more, rfl, hfirst, rfl, rfl⟩
    · obtain ⟨l₁, c, l₂, m₁, m₂, rfl, hc, rfl, rfl⟩ := ih hrest
      exact ⟨a :: l₁, c, l₂, m₁, m₂, rfl, hc, by simp, rfl⟩

end Lists

/-- Where the operation acts. -/
def Operation.path (op : Operation) : List String := (Pointer.tokens? op.pointer).getD []

/-- A document with the value of the operation, or with nothing, at its path. -/
def Operation.write (op : Operation) (v : Json) : Option Json := place op.path op.value? (some v)

section Write

variable {v w x value : Json} {pointer key : String} {parents tokens : List String}
  {members : List (String × Json)}

theorem Operation.path_eq {op : Operation} (h : Pointer.tokens? op.pointer = some tokens) :
    op.path = tokens := by
  rw [path, h, Option.getD_some]

theorem apply_of_leads {op : Operation} {step : Step} (hstep : op.toStep? = some step)
    (h : Leads [op] v w) : step.apply v = some w := by
  obtain ⟨steps, hsteps, happly⟩ := h
  rw [List.mapM_cons, hstep] at hsteps
  cases hsteps
  simpa [applyAll] using happly

theorem write_add (h : Pointer.tokens? pointer = some (parents ++ [key]))
    (hparent : resolve? parents v = some (.obj members)) (hleads : Leads [add pointer value] v w) :
    (add pointer value).write v = some w := by
  obtain ⟨raws, raw, hraws, rfl, rfl⟩ := rawTokens?_of_tokens? h
  have hchange : addChild raw value (.obj members) =
      some (.obj (Entries.insert (Pointer.unescape raw) value members)) := rfl
  have happly := apply_of_leads rfl hleads
  rw [Step.apply, addAt_eq hraws] at happly
  rw [Operation.write, Operation.path_eq h, ← happly, changeAt_eq_place hparent hchange,
    Json.place_append hparent]
  rfl

theorem write_remove (h : Pointer.tokens? pointer = some (parents ++ [key]))
    (hparent : resolve? parents v = some (.obj members)) (hkey : Entries.contains members key)
    (hleads : Leads [remove pointer] v w) : (remove pointer).write v = some w := by
  obtain ⟨raws, raw, hraws, rfl, rfl⟩ := rawTokens?_of_tokens? h
  have hchange : removeChild raw (.obj members) =
      some (.obj (Entries.erase (Pointer.unescape raw) members)) := by simp [removeChild, hkey]
  have happly := apply_of_leads rfl hleads
  rw [Step.apply, removeAt_eq hraws] at happly
  rw [Operation.write, Operation.path_eq h, ← happly, changeAt_eq_place hparent hchange,
    Json.place_append hparent]
  rfl

theorem write_replace (h : Pointer.tokens? pointer = some tokens) (hx : resolve? tokens v = some x)
    (hleads : Leads [replace pointer value] v w) : (replace pointer value).write v = some w := by
  have happly := apply_of_leads rfl hleads
  rw [Step.apply, h] at happly
  rw [Operation.write, Operation.path_eq h, ← happly]
  have hchange : (fun _ => some value) x = some value := rfl
  exact (changeAt_eq_place hx hchange).symm

end Write

section Rule

variable {r : Rule} {v : Json} {tokens parents : List String} {key : String}
  {before after : List Operation} {op : Operation}

theorem not_differs_self (r : Rule) {d : Json} (hd : d.WellFormed) : differs r d d = false := by
  simp [differs, bne, Json.containedIn_refl d hd]

theorem differs_cons (r : Rule) (d p : Json) (ds ps : List Json) :
    differs r (.arr (d :: ds)) (.arr (p :: ps)) =
      (differs r d p || differs r (.arr ds) (.arr ps)) := by
  unfold differs
  cases r.computed with
  | true => simp [Json.containedIn, Json.itemsContainedIn]
  | false =>
    simp only [Bool.false_eq_true, if_false, bne, Json.beq_arr, Json.sameItems, Bool.not_and]
    rfl

/-- Arrays of one length differ if some of their elements do. -/
theorem elementOperations_eq_nil_iff {ps ds : List Json} (hlength : ps.length = ds.length)
    {i : Nat} : elementOperations r i ps ds = [] ↔ differs r (.arr ds) (.arr ps) = false := by
  induction ps generalizing ds i with
  | nil =>
    obtain rfl := List.length_eq_zero_iff.1 hlength.symm
    have hsame : differs r (.arr []) (.arr []) = false := not_differs_self r trivial
    simp [elementOperations, hsame]
  | cons p ps ih =>
    cases ds with
    | nil => simp at hlength
    | cons d ds =>
      rw [elementOperations, differs_cons]
      cases differs r d p with
      | true => simp
      | false => simpa using ih (by simpa using hlength)

theorem wholeOperations_arr {ps ds : List Json} (hlength : ps.length = ds.length) :
    wholeOperations r (some (.arr ps)) (some (.arr ds)) = elementOperations r 0 ps ds := by
  simp only [wholeOperations, replacements, if_pos hlength]
  cases hdiffers : differs r (.arr ds) (.arr ps) with
  | true => rfl
  | false => exact ((elementOperations_eq_nil_iff hlength).2 hdiffers).symm

/-- An element that is replaced is the desired one from then on. -/
theorem elementOperations_set {ps ds : List Json} (hds : Json.AllWellFormed ds) {i : Nat}
    (h : elementOperations r i ps ds = before ++ op :: after) :
    ∃ j d, j < ps.length ∧ d.WellFormed ∧ op = replace (Pointer.element r.pointer (i + j)) d ∧
      elementOperations r i (ps.set j d) ds = before ++ after := by
  induction ps generalizing ds i before with
  | nil => simp [elementOperations] at h
  | cons p ps ih =>
    cases ds with
    | nil => simp [elementOperations] at h
    | cons d ds =>
      obtain ⟨hd, hds⟩ := hds
      rw [elementOperations] at h
      split at h
      · cases before with
        | nil =>
          obtain ⟨rfl, rfl⟩ := List.cons.inj h
          refine ⟨0, d, by simp, hd, rfl, ?_⟩
          rw [List.set_cons_zero, elementOperations]
          simp [not_differs_self r hd]
        | cons first before =>
          obtain ⟨rfl, htail⟩ := List.cons.inj h
          obtain ⟨j, y, hj, hy, rfl, hrest⟩ := ih hds htail
          refine ⟨j + 1, y, by simpa using hj, hy, by rw [Nat.add_assoc, Nat.add_comm 1], ?_⟩
          rename_i hdiffers
          rw [List.set_cons_succ, elementOperations, hrest]
          simp [hdiffers]
      · obtain ⟨j, y, hj, hy, rfl, hrest⟩ := ih hds h
        refine ⟨j + 1, y, by simpa using hj, hy, by rw [Nat.add_assoc, Nat.add_comm 1], ?_⟩
        rename_i hdiffers
        rw [List.set_cons_succ, elementOperations, hrest]
        simp [hdiffers]

/-- The changed keys are told by the previous values of the desired ones. -/
theorem changedKeys_congr {ps qs ds : List (String × Json)}
    (h : ∀ e ∈ ds, Entries.get? ps e.1 = Entries.get? qs e.1) :
    changedKeys r ps ds = changedKeys r qs ds := by
  refine List.filterMap_congr fun e he => ?_
  simp only [h e he]

theorem changedKeys_erase {ps ds : List (String × Json)} (hds : Entries.Sorted ds) {k : String}
    (h : Entries.contains ds k = false) :
    changedKeys r (Entries.erase k ps) ds = changedKeys r ps ds := by
  refine changedKeys_congr fun e he => ?_
  rw [Entries.get?_erase, if_neg]
  rintro rfl
  rw [Entries.contains, Entries.get?_of_mem hds he] at h
  cases h

/-- A key that is written is not written again. -/
theorem changedKeys_insert {ps ds : List (String × Json)} (hds : Entries.Sorted ds)
    (h : changedKeys r ps ds = before ++ op :: after) :
    ∃ k d, (k, d) ∈ ds ∧ op = add (Pointer.member r.pointer k) d ∧
      changedKeys r (Entries.insert k d ps) ds = before ++ after := by
  obtain ⟨l₁, ⟨k, d⟩, l₂, rfl, hop, hbefore, hafter⟩ := exists_of_filterMap_eq_append_cons h
  have hsame : ∀ e ∈ l₁ ++ l₂,
      Entries.get? (Entries.insert k d ps) e.1 = Entries.get? ps e.1 := by
    intro e he
    rw [Entries.get?_insert, if_neg (hds.ne_of_mem_append he)]
  have hskip : (if Entries.get? (Entries.insert k d ps) k == some d then none
      else some (add (Pointer.member r.pointer k) d)) = none := by
    rw [Entries.get?_insert, if_pos rfl, if_pos BEq.rfl]
  refine ⟨k, d, by simp, ?_, ?_⟩
  · dsimp only at hop
    split at hop
    · cases hop
    · exact (Option.some.inj hop).symm
  · calc changedKeys r (Entries.insert k d ps) (l₁ ++ (k, d) :: l₂)
      _ = changedKeys r (Entries.insert k d ps) (l₁ ++ l₂) := by
          simp only [changedKeys, List.filterMap_append, List.filterMap_cons, hskip]
      _ = changedKeys r ps (l₁ ++ l₂) := changedKeys_congr hsame
      _ = before ++ after := by
          rw [changedKeys, List.filterMap_append]
          exact congrArg₂ _ hbefore hafter

/-- A key that is removed is not removed again. -/
theorem droppedKeys_erase {ps ds : List (String × Json)} (hps : Entries.Sorted ps)
    (h : droppedKeys r ps ds = before ++ op :: after) :
    ∃ k, Entries.contains ps k ∧ Entries.contains ds k = false ∧
      op = remove (Pointer.member r.pointer k) ∧
      droppedKeys r (Entries.erase k ps) ds = before ++ after := by
  obtain ⟨l₁, ⟨k, p⟩, l₂, rfl, hop, hbefore, hafter⟩ := exists_of_filterMap_eq_append_cons h
  have herase : Entries.erase k (l₁ ++ (k, p) :: l₂) = l₁ ++ l₂ := by
    have hkeep : ∀ e ∈ l₁ ++ l₂, e.1 ≠ k := fun e he => (hps.ne_of_mem_append he).symm
    have hfilter : (l₁ ++ l₂).filter (fun e => e.1 ≠ k) = l₁ ++ l₂ :=
      List.filter_eq_self.2 fun e he => by simpa using hkeep e he
    rw [List.filter_append] at hfilter
    simpa [Entries.erase] using hfilter
  dsimp only at hop
  split at hop
  · cases hop
  · rename_i hdesired
    split at hop
    · cases hop
    · refine ⟨k, ?_, by simpa using hdesired, (Option.some.inj hop).symm, ?_⟩
      · exact Entries.contains_iff.2 ⟨p, Entries.get?_of_mem hps (by simp)⟩
      · rw [herase, droppedKeys, List.filterMap_append]
        exact congrArg₂ _ hbefore hafter

theorem eq_of_singleton_eq {op' : Operation} (h : [op'] = before ++ op :: after) :
    before = [] ∧ op = op' ∧ after = [] := by
  cases before with
  | nil =>
    obtain ⟨rfl, rfl⟩ := List.cons.inj h
    exact ⟨rfl, rfl, rfl⟩
  | cons first before => simp at h

theorem keyOperations_obj (ps : List (String × Json)) (d : Option Json) :
    keyOperations r (some (.obj ps)) d =
      changedKeys r ps ((d.bind Json.members?).getD []) ++
        droppedKeys r ps ((d.bind Json.members?).getD []) := rfl

theorem wellFormed_members {d : Option Json} (hd : ∀ y, d = some y → y.WellFormed) :
    (Json.obj ((d.bind Json.members?).getD [])).WellFormed := by
  cases hmembers : d.bind Json.members? with
  | none => exact Json.wellFormed_empty
  | some ds =>
    obtain ⟨y, rfl, hy⟩ := Option.bind_eq_some_iff.1 hmembers
    obtain rfl := Json.members?_eq_some.1 hy
    exact hd _ rfl

/-- An operation done for the field at a path. -/
structure Operation.Acts (op : Operation) (tokens : List String) (v w : Json) : Prop where
  leads : Leads [op] v w
  write : op.write v = some w
  revised : ∃ x, Revised tokens x v w
  wellFormed : ∀ y, op.value? = some y → y.WellFormed

variable {members : List (String × Json)} (h : Pointer.tokens? r.pointer = some (parents ++ [key]))
  (hparent : resolve? parents v = some (.obj members))

include h

theorem acts_of_leads {w : Json} {x : Option Json} (hleads : Leads [op] v w)
    (hwrite : op.write v = some w) (hrevised : Revised (parents ++ [key]) x v w)
    (hvalue : ∀ y, op.value? = some y → y.WellFormed) :
    ∃ w, op.Acts (parents ++ [key]) v w ∧ w.pointer? r.pointer = x := by
  refine ⟨w, ⟨hleads, hwrite, ⟨x, hrevised⟩, hvalue⟩, ?_⟩
  rw [Json.pointer?_eq h]
  exact hrevised.slot

theorem acts_replace {x d : Json} (hx : v.pointer? r.pointer = some x) (hd : d.WellFormed) :
    ∃ w, (replace r.pointer d).Acts (parents ++ [key]) v w ∧ w.pointer? r.pointer = some d := by
  rw [Json.pointer?_eq h] at hx
  obtain ⟨w, hleads, hrevised⟩ := leads_replace h hx d
  exact acts_of_leads h hleads (write_replace h hx hleads) hrevised (by rintro y ⟨⟩; exact hd)

theorem acts_replaceElement {items : List Json} (hx : v.pointer? r.pointer = some (.arr items))
    {i : Nat} (hi : i < items.length) {d : Json} (hd : d.WellFormed) :
    ∃ w, (replace (Pointer.element r.pointer i) d).Acts (parents ++ [key]) v w ∧
      w.pointer? r.pointer = some (.arr (items.set i d)) := by
  rw [Json.pointer?_eq h] at hx
  have hitem : resolve? (parents ++ [key] ++ [i.repr]) v = some items[i] := by
    rw [Json.resolve?_append, hx]
    simp [resolve?, Json.step?, Pointer.index?_repr, hi]
  obtain ⟨w, hleads, hrevised⟩ := leads_replaceElement h hx hi d
  exact acts_of_leads h hleads (write_replace (Pointer.tokens?_element h i) hitem hleads) hrevised
    (by rintro y ⟨⟩; exact hd)

theorem acts_addMember {entries : List (String × Json)}
    (hx : v.pointer? r.pointer = some (.obj entries)) (k : String) {d : Json} (hd : d.WellFormed) :
    ∃ w, (add (Pointer.member r.pointer k) d).Acts (parents ++ [key]) v w ∧
      w.pointer? r.pointer = some (.obj (Entries.insert k d entries)) := by
  rw [Json.pointer?_eq h] at hx
  obtain ⟨w, hleads, hrevised⟩ := leads_addMember h hx k d
  exact acts_of_leads h hleads (write_add (Pointer.tokens?_member h k) hx hleads) hrevised
    (by rintro y ⟨⟩; exact hd)

theorem acts_removeMember {entries : List (String × Json)}
    (hx : v.pointer? r.pointer = some (.obj entries)) {k : String}
    (hk : Entries.contains entries k) :
    ∃ w, (remove (Pointer.member r.pointer k)).Acts (parents ++ [key]) v w ∧
      w.pointer? r.pointer = some (.obj (Entries.erase k entries)) := by
  rw [Json.pointer?_eq h] at hx
  obtain ⟨w, hleads, hrevised⟩ := leads_removeMember h hx hk
  exact acts_of_leads h hleads (write_remove (Pointer.tokens?_member h k) hx hk hleads) hrevised
    (by rintro y ⟨⟩)

include hparent

theorem acts_add {d : Json} (hd : d.WellFormed) :
    ∃ w, (add r.pointer d).Acts (parents ++ [key]) v w ∧ w.pointer? r.pointer = some d := by
  obtain ⟨w, hleads, hrevised⟩ := leads_add h hparent d
  exact acts_of_leads h hleads (write_add h hparent hleads) hrevised (by rintro y ⟨⟩; exact hd)

theorem acts_remove (hkey : Entries.contains members key) :
    ∃ w, (remove r.pointer).Acts (parents ++ [key]) v w ∧ w.pointer? r.pointer = none := by
  obtain ⟨w, hleads, hrevised⟩ := leads_remove h hparent hkey
  exact acts_of_leads h hleads (write_remove h hparent hkey hleads) hrevised (by rintro y ⟨⟩)

theorem acts_of_wholeOperations {d : Option Json} (hd : ∀ y, d = some y → y.WellFormed)
    (hops : wholeOperations r (v.pointer? r.pointer) d = before ++ op :: after) :
    ∃ w, op.Acts (parents ++ [key]) v w ∧
      wholeOperations r (w.pointer? r.pointer) d = before ++ after := by
  have hsame : ∀ y, d = some y → wholeOperations r (some y) d = [] := by
    rintro y rfl
    simp [wholeOperations, not_differs_self r (hd y rfl)]
  cases hx : v.pointer? r.pointer with
  | none =>
    rw [hx] at hops
    cases d with
    | none => simp [wholeOperations] at hops
    | some d =>
      obtain ⟨rfl, rfl, rfl⟩ := eq_of_singleton_eq hops
      obtain ⟨w, hacts, hw⟩ := acts_add h hparent (hd d rfl)
      exact ⟨w, hacts, hw ▸ hsame d rfl⟩
  | some x =>
    rw [hx] at hops
    cases d with
    | none =>
      simp only [wholeOperations] at hops
      split at hops
      · simp at hops
      · obtain ⟨rfl, rfl, rfl⟩ := eq_of_singleton_eq hops
        have hkey : Entries.contains members key := by
          rw [Json.pointer?_eq h, resolve?_member parents key hparent] at hx
          exact Entries.contains_iff.2 ⟨x, hx⟩
        obtain ⟨w, hacts, hw⟩ := acts_remove h hparent hkey
        exact ⟨w, hacts, by rw [hw]; rfl⟩
    | some d =>
      have hall : replacements r x d = [replace r.pointer d] →
          ∃ w, op.Acts (parents ++ [key]) v w ∧
            wholeOperations r (w.pointer? r.pointer) (some d) = before ++ after := by
        intro hreplace
        simp only [wholeOperations, hreplace] at hops
        split at hops
        · obtain ⟨rfl, rfl, rfl⟩ := eq_of_singleton_eq hops
          obtain ⟨w, hacts, hw⟩ := acts_replace h hx (hd d rfl)
          exact ⟨w, hacts, hw ▸ hsame d rfl⟩
        · simp at hops
      cases x with
      | arr ps =>
        cases d with
        | arr ds =>
          by_cases hlength : ps.length = ds.length
          · rw [wholeOperations_arr hlength] at hops
            obtain ⟨j, d, hj, helement, rfl, hrest⟩ := elementOperations_set (hd _ rfl) hops
            rw [Nat.zero_add]
            obtain ⟨w, hacts, hw⟩ := acts_replaceElement h hx hj helement
            refine ⟨w, hacts, ?_⟩
            rw [hw, wholeOperations_arr (by simpa using hlength), hrest]
          · exact hall (if_neg hlength)
        | _ => exact hall rfl
      | _ => exact hall rfl

theorem acts_of_keyOperations (hv : v.WellFormed) {d : Option Json}
    (hd : ∀ y, d = some y → y.WellFormed)
    (hops : keyOperations r (v.pointer? r.pointer) d = before ++ op :: after) :
    ∃ w, op.Acts (parents ++ [key]) v w ∧
      keyOperations r (w.pointer? r.pointer) d = before ++ after := by
  obtain ⟨hsorted, hvalues⟩ := wellFormed_members hd
  unfold keyOperations at hops
  split at hops
  · rename_i ps hps
    obtain ⟨x, hx, hmembers⟩ := Option.bind_eq_some_iff.1 hps
    obtain rfl := Json.members?_eq_some.1 hmembers
    rcases append_eq_append_cons hops with ⟨more, hchanged, rfl⟩ | ⟨more, rfl, hdropped⟩
    · obtain ⟨k, y, hmem, rfl, hrest⟩ := changedKeys_insert hsorted hchanged
      obtain ⟨w, hacts, hw⟩ :=
        acts_addMember h hx k (Json.membersWellFormed_iff.1 hvalues _ hmem)
      have hk : Entries.contains ((d.bind Json.members?).getD []) k :=
        Entries.contains_iff.2 ⟨y, Entries.get?_of_mem hsorted hmem⟩
      refine ⟨w, hacts, ?_⟩
      rw [hw, keyOperations_obj, hrest, droppedKeys_insert hk, List.append_assoc]
    · obtain ⟨k, hk, hgone, rfl, hrest⟩ := droppedKeys_erase (hv.pointer? hx).1 hdropped
      obtain ⟨w, hacts, hw⟩ := acts_removeMember h hx hk
      refine ⟨w, hacts, ?_⟩
      rw [hw, keyOperations_obj, hrest, changedKeys_erase hsorted hgone, List.append_assoc]
  · rename_i e ds hnone hds
    obtain ⟨y, rfl, hmembers⟩ := Option.bind_eq_some_iff.1 hds
    obtain rfl := Json.members?_eq_some.1 hmembers
    obtain ⟨rfl, rfl, rfl⟩ := eq_of_singleton_eq hops
    obtain ⟨w, hacts, hw⟩ := acts_add h hparent (hd _ rfl)
    refine ⟨w, hacts, ?_⟩
    rw [hw]
    exact keyOperations_of_hasKeys (p := some (.obj (e :: ds))) rfl rfl (hd _ rfl).1
      (Rule.hasKeys_refl hd)
  · simp at hops

/-- Of the operations of a rule, one that is done is no longer asked for, and all others are. -/
theorem acts_of_ruleOperations (hv : v.WellFormed) {desired : Json} (hdesired : desired.WellFormed)
    (hops : ruleOperations r v desired = before ++ op :: after) :
    ∃ w, op.Acts (parents ++ [key]) v w ∧ ruleOperations r w desired = before ++ after := by
  unfold ruleOperations at hops ⊢
  split at hops
  · simp at hops
  · rename_i hactive
    simp only [if_neg hactive]
    split at hops
    · rename_i hwhole
      simp only [if_pos hwhole]
      exact acts_of_wholeOperations h hparent (fun y hy => hdesired.pointer? hy) hops
    · rename_i hkeyed
      simp only [if_neg hkeyed]
      exact acts_of_keyOperations h hparent hv (fun y hy => hdesired.pointer? hy) hops

end Rule

end DesiredState.Patch
