import DesiredState.Proofs.Patch.Correct
import DesiredState.Proofs.Patch.Remaining
import DesiredState.Proofs.Patch.Sparing

/-!
Patches are minimal and free of order.
The operations of a patch act at places apart from each other, so they may be
done in any order, and each of them is needed: without it the document still
asks for it and for nothing else. Nothing is asked for where all rules are
satisfied already.
-/
namespace DesiredState

open Json (Revised place resolve?)

/-- What a field has to be for its rule to leave it alone. -/
def Rule.Satisfied (r : Rule) (previous desired : Option Json) : Prop :=
  match r.comparison with
  | .whole =>
    if r.computed then ∀ d, desired = some d → ∃ p, previous = some p ∧ d.containedIn p = true
    else (previous == desired) = true
  | .perKey | .perKeyUnmanaged =>
    let ps := (previous.bind Json.members?).getD []
    let ds := (desired.bind Json.members?).getD []
    ∀ key, (Entries.get? ps key == r.wanted ps ds key) = true

/-- The field of every rule that may give operations is satisfied. -/
def Plan.Satisfied (plan : Plan) (previous desired : Json) : Prop :=
  ∀ r ∈ plan, r.policy = .mutable → Patch.isOwned r desired = false →
    r.Satisfied (previous.pointer? r.pointer) (desired.pointer? r.pointer)

namespace Patch

section Satisfied

variable {r : Rule} {p d : Option Json}

theorem replacements_ne_nil {p d : Json} (h : differs r d p = true) : replacements r p d ≠ [] := by
  cases p with
  | arr ps =>
    cases d with
    | arr ds =>
      simp only [replacements]
      split
      · rename_i hlength
        rw [ne_eq, elementOperations_eq_nil_iff hlength, h]
        decide
      · simp
    | _ => simp [replacements]
  | _ => simp [replacements]

theorem wholeOperations_eq_nil_iff :
    wholeOperations r p d = [] ↔
      if r.computed then ∀ y, d = some y → ∃ x, p = some x ∧ y.containedIn x = true
      else (p == d) = true := by
  cases p with
  | none => cases d <;> cases r.computed <;> simp [wholeOperations]
  | some x =>
    cases d with
    | none => cases hcomputed : r.computed <;> simp [wholeOperations, hcomputed]
    | some y =>
      have hdiffers : wholeOperations r (some x) (some y) = [] ↔ differs r y x = false := by
        simp only [wholeOperations]
        split
        · rename_i hdiffers
          simp [replacements_ne_nil hdiffers, hdiffers]
        · rename_i hsame
          simpa using hsame
      rw [hdiffers, differs]
      cases r.computed with
      | true => simp
      | false =>
        simp only [Bool.false_eq_true, if_false, bne, Bool.not_eq_false']
        exact ⟨Json.same_symm, Json.same_symm⟩

/-- Where no key is written and none is removed, each is as it is wanted. -/
theorem wanted_of_nil {ps ds : List (String × Json)} (hchanged : changedKeys r ps ds = [])
    (hdropped : droppedKeys r ps ds = []) (key : String) :
    (Entries.get? ps key == r.wanted ps ds key) = true := by
  unfold Rule.wanted
  cases hdesired : Entries.get? ds key with
  | some y =>
    have hkept := List.filterMap_eq_nil_iff.1 hchanged _ (Entries.mem_of_get? hdesired)
    simpa using hkept
  | none =>
    dsimp only
    split
    · exact BEq.rfl
    · rename_i hmanaged
      cases hprevious : Entries.get? ps key with
      | none => rfl
      | some x =>
        have hkept := List.filterMap_eq_nil_iff.1 hdropped _ (Entries.mem_of_get? hprevious)
        simp [Entries.contains, hdesired, hmanaged] at hkept

theorem keyOperations_eq_nil_iff (hp : ∀ y, p = some y → y.WellFormed)
    (hd : ∀ y, d = some y → y.WellFormed) :
    keyOperations r p d = [] ↔
      ∀ key, (Entries.get? ((p.bind Json.members?).getD []) key ==
        r.wanted ((p.bind Json.members?).getD []) ((d.bind Json.members?).getD []) key) = true := by
  have hps := (wellFormed_members hp).1
  have hds := (wellFormed_members hd).1
  unfold keyOperations
  split
  · rename_i ps hmembers
    rw [hmembers] at hps ⊢
    simp only [Option.getD_some] at hps ⊢
    constructor
    · intro hnil key
      obtain ⟨hchanged, hdropped⟩ := List.append_eq_nil_iff.1 hnil
      exact wanted_of_nil hchanged hdropped key
    · intro hwanted
      rw [changedKeys_of_wanted hds hwanted, droppedKeys_of_wanted hps hwanted, List.append_nil]
  · rename_i e ds hnone hmembers
    rw [hmembers, Option.getD_some] at hds ⊢
    rw [hnone]
    simp only [List.cons_ne_nil, false_iff]
    intro hwanted
    have hfirst := hwanted e.1
    rw [Rule.wanted, Entries.get?_of_mem hds List.mem_cons_self] at hfirst
    cases hfirst
  · rename_i hnone hempty
    have hnil : (d.bind Json.members?).getD [] = [] := by
      cases hmembers : d.bind Json.members? with
      | none => rfl
      | some ds =>
        cases ds with
        | nil => rfl
        | cons e ds => exact absurd hmembers (hempty e ds)
    rw [hnone, hnil]
    simp [Rule.wanted]

/-- A rule that may give operations gives none just where it is satisfied. -/
theorem ruleOperations_eq_nil_iff {previous desired : Json} (hprevious : previous.WellFormed)
    (hdesired : desired.WellFormed) (hactive : r.isActive desired) :
    ruleOperations r previous desired = [] ↔
      r.Satisfied (previous.pointer? r.pointer) (desired.pointer? r.pointer) := by
  have hskip : (r.isForceNew || isOwned r desired) = false := by
    simpa [Rule.isActive] using hactive
  simp only [ruleOperations, hskip, Rule.Satisfied, Bool.false_eq_true, if_false]
  have hkeyed := keyOperations_eq_nil_iff (r := r) (p := previous.pointer? r.pointer)
    (d := desired.pointer? r.pointer) (fun y hy => hprevious.pointer? hy)
    (fun y hy => hdesired.pointer? hy)
  cases r.comparison with
  | whole => exact wholeOperations_eq_nil_iff
  | perKey => exact hkeyed
  | perKeyUnmanaged => exact hkeyed

/-- A patch is empty if all rules that may give operations are satisfied, and only then. -/
theorem between_eq_nil_iff {plan : Plan} {previous desired : Json} (hprevious : previous.WellFormed)
    (hdesired : desired.WellFormed) :
    between previous desired plan = [] ↔ plan.Satisfied previous desired := by
  rw [between, List.flatMap_eq_nil_iff]
  refine forall₂_congr fun r hr => ?_
  cases hactive : r.isActive desired with
  | true =>
    obtain ⟨hmutable, howner⟩ := isActive_iff.1 hactive
    simp [ruleOperations_eq_nil_iff hprevious hdesired hactive, hmutable, howner]
  | false =>
    rw [ruleOperations_of_not_isActive hactive]
    have hnot : ¬ (r.policy = .mutable ∧ isOwned r desired = false) := by
      rw [← isActive_iff, hactive]
      decide
    exact ⟨fun _ hmutable howner => absurd ⟨hmutable, howner⟩ hnot, fun _ => rfl⟩

end Satisfied

section Apart

/-- The places of two operations lie apart. -/
def Operation.Beside (first second : Operation) : Prop :=
  ∃ a b, Pointer.tokens? first.pointer = some a ∧ Pointer.tokens? second.pointer = some b ∧
    Apart a b

theorem Operation.Beside.symm {first second : Operation} (h : first.Beside second) :
    second.Beside first := by
  obtain ⟨a, b, ha, hb, hapart⟩ := h
  exact ⟨b, a, hb, ha, hapart.symm⟩

theorem apart_concat {path : List String} {a b : String} (h : a ≠ b) :
    Apart (path ++ [a]) (path ++ [b]) := by
  have hlt : ∀ {c d : String}, c ≠ d → ¬ path ++ [c] <+: path ++ [d] := by
    intro c d hne hle
    rw [List.prefix_append_right_inj] at hle
    exact hne (List.cons_prefix_cons.1 hle).1
  exact ⟨hlt h, hlt h.symm⟩

variable {r : Rule} {tokens : List String} (h : Pointer.tokens? r.pointer = some tokens)

include h

theorem beside_of_members {first second : Operation} {a b : String}
    (ha : first.pointer = Pointer.member r.pointer a)
    (hb : second.pointer = Pointer.member r.pointer b) (hne : a ≠ b) : first.Beside second := by
  refine ⟨tokens ++ [a], tokens ++ [b], ?_, ?_, apart_concat hne⟩
  · rw [ha, Pointer.tokens?_member h]
  · rw [hb, Pointer.tokens?_member h]

theorem pairwise_elementOperations (i : Nat) (ps ds : List Json) :
    (elementOperations r i ps ds).Pairwise Operation.Beside ∧
      ∀ op ∈ elementOperations r i ps ds,
        ∃ j, i ≤ j ∧ op.pointer = Pointer.element r.pointer j := by
  induction ps generalizing i ds with
  | nil => exact ⟨List.Pairwise.nil, by simp [elementOperations]⟩
  | cons p ps ih =>
    cases ds with
    | nil => exact ⟨List.Pairwise.nil, by simp [elementOperations]⟩
    | cons d ds =>
      obtain ⟨hpairwise, hlater⟩ := ih (i + 1) ds
      have hrest : ∀ op ∈ elementOperations r (i + 1) ps ds,
          ∃ j, i ≤ j ∧ op.pointer = Pointer.element r.pointer j := by
        intro op hop
        obtain ⟨j, hj, hpointer⟩ := hlater op hop
        exact ⟨j, by omega, hpointer⟩
      rw [elementOperations]
      split
      · refine ⟨List.pairwise_cons.2 ⟨fun op hop => ?_, hpairwise⟩, ?_⟩
        · obtain ⟨j, hj, hpointer⟩ := hlater op hop
          refine ⟨tokens ++ [i.repr], tokens ++ [j.repr], Pointer.tokens?_element h i, ?_,
            apart_concat ?_⟩
          · rw [hpointer, Pointer.tokens?_element h]
          · intro heq
            have hsame : some i = some j := by
              rw [← Pointer.index?_repr i, heq, Pointer.index?_repr]
            cases hsame
            omega
        · exact List.forall_mem_cons.2 ⟨⟨i, Nat.le_refl i, rfl⟩, hrest⟩
      · exact ⟨hpairwise, hrest⟩

theorem pairwise_keys {ps ds : List (String × Json)} (hps : Entries.Sorted ps)
    (hds : Entries.Sorted ds) :
    (changedKeys r ps ds ++ droppedKeys r ps ds).Pairwise Operation.Beside := by
  have hchanged : ∀ (e : String × Json) op, (if Entries.get? ps e.1 == some e.2 then none
      else some (add (Pointer.member r.pointer e.1) e.2)) = some op →
      op.pointer = Pointer.member r.pointer e.1 := by
    intro e op hop
    split at hop
    · cases hop
    · exact (congrArg Operation.pointer (Option.some.inj hop)).symm
  have hdropped : ∀ k op, (if Entries.contains ds k then none
      else if r.comparison = .perKeyUnmanaged ∧ isServerManaged k then none
      else some (remove (Pointer.member r.pointer k))) = some op →
      Entries.contains ds k = false ∧ op.pointer = Pointer.member r.pointer k := by
    intro k op hop
    split at hop
    · cases hop
    · rename_i hgone
      split at hop
      · cases hop
      · exact ⟨by simpa using hgone, (congrArg Operation.pointer (Option.some.inj hop)).symm⟩
  refine List.pairwise_append.2 ⟨?_, ?_, ?_⟩
  · refine List.Pairwise.filterMap _ (fun e e' hlt op hop op' hop' => ?_) hds
    refine beside_of_members h (hchanged e op hop) (hchanged e' op' hop') fun heq => ?_
    exact String.lt_irrefl _ (heq ▸ hlt)
  · refine List.Pairwise.filterMap _ (fun e e' hlt op hop op' hop' => ?_) hps
    refine beside_of_members h (hdropped e.1 op hop).2 (hdropped e'.1 op' hop').2 fun heq => ?_
    exact String.lt_irrefl _ (heq ▸ hlt)
  · intro op hop op' hop'
    obtain ⟨e, he, hop⟩ := List.mem_filterMap.1 hop
    obtain ⟨e', -, hop'⟩ := List.mem_filterMap.1 hop'
    obtain ⟨hgone, hpointer'⟩ := hdropped e'.1 op' hop'
    refine beside_of_members h (hchanged e op hop) hpointer' fun heq => ?_
    rw [← heq, Entries.contains, Entries.get?_of_mem hds he] at hgone
    cases hgone

/-- The operations of a rule act beside each other. -/
theorem pairwise_ruleOperations {previous desired : Json} (hprevious : previous.WellFormed)
    (hdesired : desired.WellFormed) :
    (ruleOperations r previous desired).Pairwise Operation.Beside := by
  have hps := (wellFormed_members (d := previous.pointer? r.pointer)
    fun y hy => hprevious.pointer? hy).1
  have hds := (wellFormed_members (d := desired.pointer? r.pointer)
    fun y hy => hdesired.pointer? hy).1
  unfold ruleOperations
  split
  · exact List.Pairwise.nil
  · dsimp only
    split
    · unfold wholeOperations
      split
      · exact List.Pairwise.nil
      · split
        · exact List.Pairwise.nil
        · exact List.pairwise_singleton _ _
      · exact List.pairwise_singleton _ _
      · split
        · unfold replacements
          split
          · split
            · exact (pairwise_elementOperations h 0 _ _).1
            · exact List.pairwise_singleton _ _
          · exact List.pairwise_singleton _ _
        · exact List.Pairwise.nil
    · unfold keyOperations
      split
      · rename_i ps hmembers
        rw [hmembers, Option.getD_some] at hps
        exact pairwise_keys h hps hds
      · exact List.pairwise_singleton _ _
      · exact List.Pairwise.nil

/-- The operations of rules whose fields lie apart act beside each other. -/
theorem beside_of_apart {s : Rule} {tokens' : List String}
    (h' : Pointer.tokens? s.pointer = some tokens') (hapart : Apart tokens tokens')
    {previous desired : Json} {first second : Operation}
    (hfirst : first ∈ ruleOperations r previous desired)
    (hsecond : second ∈ ruleOperations s previous desired) : first.Beside second := by
  obtain ⟨a, ha, hfirst⟩ := spares_of_mem_ruleOperations h hapart.symm hfirst
  obtain ⟨b, hb, hsecond⟩ := spares_of_mem_ruleOperations h' hfirst.symm hsecond
  exact ⟨a, b, ha, hb, hsecond⟩

end Apart

/-- The operations of a patch act beside each other. -/
theorem pairwise_between {plan : Plan} {previous desired : Json} (hprevious : previous.WellFormed)
    (hdesired : desired.WellFormed) (hfits : plan.Fits previous) :
    (between previous desired plan).Pairwise Operation.Beside := by
  refine List.pairwise_flatMap.2 ⟨fun r hr => ?_, hfits.apart.imp_of_mem ?_⟩
  · obtain ⟨parents, key, _, htokens, -⟩ := hfits.located r hr
    exact pairwise_ruleOperations htokens hprevious hdesired
  · intro r s hr hs hapart first hfirst second hsecond
    obtain ⟨parents, key, _, hr, -⟩ := hfits.located r hr
    obtain ⟨parents', key', _, hs, -⟩ := hfits.located s hs
    exact beside_of_apart hr hs (hapart _ _ hr hs) hfirst hsecond

/-- One operation of a patch succeeds, and the others are what is left of the patch. -/
theorem between_of_step {plan : Plan} {v desired : Json} (hv : v.WellFormed)
    (hdesired : desired.WellFormed) (hfits : plan.Fits v) {before after : List Operation}
    {op : Operation} (hops : between v desired plan = before ++ op :: after) :
    ∃ tokens w, op.Acts tokens v w ∧ w.WellFormed ∧ plan.Fits w ∧
      between w desired plan = before ++ after := by
  obtain ⟨first, r, rest, mine, others, rfl, hrule, rfl, rfl⟩ :=
    exists_of_flatMap_eq_append_cons hops
  obtain ⟨parents, key, members, htokens, hparent⟩ := hfits.located r (by simp)
  obtain ⟨w, hacts, hleft⟩ := acts_of_ruleOperations htokens hparent hv hdesired hrule
  obtain ⟨x, hrevised⟩ := hacts.revised
  have hapart : ∀ s ∈ first ++ rest, ∀ tokens, Pointer.tokens? s.pointer = some tokens →
      Apart (parents ++ [key]) tokens := by
    intro s hs tokens htokens'
    obtain ⟨-, hright, hleft⟩ := List.pairwise_append.1 hfits.apart
    rcases List.mem_append.1 hs with hs | hs
    · exact (hleft s hs r List.mem_cons_self _ _ htokens' htokens).symm
    · exact (List.pairwise_cons.1 hright).1 s hs _ _ htokens htokens'
  have hother : Plan.Fits (first ++ rest) v := by
    refine ⟨fun s hs => hfits.located s ?_, hfits.apart.sublist ?_⟩
    · rcases List.mem_append.1 hs with hs | hs <;> simp [hs]
    · exact (List.Sublist.refl first).append (List.sublist_cons_self r rest)
  obtain ⟨hfits', hsame⟩ := fits_of_revised hrevised hother hapart
  obtain ⟨members', hparent'⟩ := hrevised.above parents members (List.prefix_append parents [key])
    (by simp) hparent
  refine ⟨_, w, hacts, hv.place hacts.wellFormed hacts.write, ⟨fun s hs => ?_, hfits.apart⟩, ?_⟩
  · rcases List.mem_append.1 hs with hs | hs
    · exact hfits'.located s (List.mem_append_left rest hs)
    · rcases List.mem_cons.1 hs with rfl | hs
      · exact ⟨parents, key, members', htokens, hparent'⟩
      · exact hfits'.located s (List.mem_append_right first hs)
  · have hfirst : between w desired first = between v desired first :=
      between_congr fun s hs => hsame s (List.mem_append_left rest hs)
    have hrest : between w desired rest = between v desired rest :=
      between_congr fun s hs => hsame s (List.mem_append_right first hs)
    unfold between at hfirst hrest ⊢
    rw [List.flatMap_append, List.flatMap_cons, hfirst, hrest, hleft]
    simp

/-- All writes in order. -/
def writeAll (ops : List Operation) (v : Json) : Option Json :=
  ops.foldlM (fun v op => op.write v) v

/-- Some of the operations of a patch succeed in any order, and the others are left of the patch. -/
theorem between_of_perm {plan : Plan} {v desired : Json} (hv : v.WellFormed)
    (hdesired : desired.WellFormed) (hfits : plan.Fits v) {ops rest : List Operation}
    (hperm : (between v desired plan).Perm (ops ++ rest)) :
    ∃ w, Leads ops v w ∧ writeAll ops v = some w ∧ w.WellFormed ∧ plan.Fits w ∧
      (between w desired plan).Perm rest := by
  induction ops generalizing v with
  | nil => exact ⟨v, leads_nil v, rfl, hv, hfits, hperm⟩
  | cons op ops ih =>
    have hmem : op ∈ between v desired plan := hperm.mem_iff.2 List.mem_cons_self
    obtain ⟨before, after, hops⟩ := List.append_of_mem hmem
    obtain ⟨tokens, u, hacts, hu, hfits', hleft⟩ := between_of_step hv hdesired hfits hops
    have hperm' : (between u desired plan).Perm (ops ++ rest) := by
      rw [hops] at hperm
      rw [hleft]
      exact (List.perm_middle.symm.trans hperm).cons_inv
    obtain ⟨w, hleads, hwrites, hmore⟩ := ih hu hfits' hperm'
    refine ⟨w, hacts.leads.cons hleads, ?_, hmore⟩
    rw [writeAll, List.foldlM_cons, hacts.write]
    exact hwrites

theorem write_comm {first second : Operation} (h : first.Beside second) {v : Json}
    (hv : v.WellFormed) :
    (first.write v).bind second.write = (second.write v).bind first.write := by
  obtain ⟨a, b, ha, hb, hapart⟩ := h
  have hfirst : first.path ≠ [] := by
    rw [Operation.path_eq ha]
    rintro rfl
    exact hapart.1 List.nil_prefix
  have hsecond : second.path ≠ [] := by
    rw [Operation.path_eq hb]
    rintro rfl
    exact hapart.2 List.nil_prefix
  obtain ⟨u, hu⟩ := Json.exists_place hfirst first.value? v
  obtain ⟨w, hw⟩ := Json.exists_place hsecond second.value? v
  have hcomm := Json.place_comm hapart hv first.value? second.value?
  rw [← Operation.path_eq ha, ← Operation.path_eq hb, hu, hw] at hcomm
  unfold Operation.write
  rw [hu, hw]
  exact hcomm.symm

/-- Operations beside each other write the same in any order. -/
theorem writeAll_perm {first second : List Operation} (hperm : first.Perm second) {v : Json}
    (hv : v.WellFormed) (hbeside : first.Pairwise Operation.Beside)
    (hvalue : ∀ op ∈ first, ∀ y, op.value? = some y → y.WellFormed) :
    writeAll first v = writeAll second v := by
  unfold writeAll
  induction hperm generalizing v with
  | nil => rfl
  | cons op hperm ih =>
    obtain ⟨hop, hrest⟩ := List.forall_mem_cons.1 hvalue
    rw [List.foldlM_cons, List.foldlM_cons]
    cases hwrite : op.write v with
    | none => rfl
    | some u => exact ih (hv.place hop hwrite) hbeside.tail hrest
  | swap a b rest =>
    have hcomm := write_comm ((List.pairwise_cons.1 hbeside).1 a List.mem_cons_self) hv
    simp only [List.foldlM_cons, ← bind_assoc]
    exact congrArg (· >>= fun u => rest.foldlM (fun v op => op.write v) u) hcomm
  | trans h h' ih ih' =>
    refine (ih hv hbeside hvalue).trans (ih' hv ?_ fun op hop => hvalue op (h.mem_iff.2 hop))
    exact (h.pairwise_iff Operation.Beside.symm).1 hbeside

/-- The operations of a patch lie apart and can be applied in any order with one result, each of
them is just what is missing without it, and there are none only where every rule is satisfied. -/
theorem between_minimal {plan : Plan} {previous desired : Json} (hprevious : previous.WellFormed)
    (hdesired : desired.WellFormed) (hfits : plan.Fits previous) :
    (between previous desired plan).Pairwise Operation.Beside ∧
    (∃ w, ∀ ops, ops.Perm (between previous desired plan) →
      ∃ steps, toSteps ops = .ok steps ∧ applyAll steps previous = some w) ∧
    (∀ op others, (op :: others).Perm (between previous desired plan) →
      ∃ steps w, toSteps others = .ok steps ∧ applyAll steps previous = some w ∧
        between w desired plan = [op]) ∧
    (between previous desired plan = [] ↔ plan.Satisfied previous desired) := by
  have hbeside := pairwise_between hprevious hdesired hfits
  refine ⟨hbeside, ?_, ?_, between_eq_nil_iff hprevious hdesired⟩
  · have hall : (between previous desired plan).Perm (between previous desired plan ++ []) := by
      simp
    obtain ⟨w, -, hwrites, -⟩ := between_of_perm hprevious hdesired hfits hall
    refine ⟨w, fun ops hperm => ?_⟩
    have hops : (between previous desired plan).Perm (ops ++ []) := by simpa using hperm.symm
    obtain ⟨w', hleads, hwrites', -⟩ := between_of_perm hprevious hdesired hfits hops
    have hvalue : ∀ op ∈ between previous desired plan, ∀ y, op.value? = some y →
        y.WellFormed := by
      intro op hop
      obtain ⟨before, after, hops⟩ := List.append_of_mem hop
      obtain ⟨tokens, u, hacts, -⟩ := between_of_step hprevious hdesired hfits hops
      exact hacts.wellFormed
    have hsame := writeAll_perm hperm.symm hprevious hbeside hvalue
    rw [hwrites, hwrites'] at hsame
    cases hsame
    exact hleads.toSteps
  · intro op others hperm
    have hothers : (between previous desired plan).Perm (others ++ [op]) :=
      hperm.symm.trans (List.perm_append_singleton op others).symm
    obtain ⟨w, hleads, -, -, -, hleft⟩ := between_of_perm hprevious hdesired hfits hothers
    obtain ⟨steps, hsteps, happly⟩ := hleads.toSteps
    exact ⟨steps, w, hsteps, happly, List.perm_singleton.1 hleft⟩

theorem between_minimal_labelled :
    Plan.Fits [Kind.labelRule] (labelled "a" "1") ∧
    between (labelled "a" "1") (labelled "b" "2") [Kind.labelRule] =
      [add "/metadata/labels/b" (.str "2"), remove "/metadata/labels/a"] ∧
    ∃ steps w, toSteps [remove "/metadata/labels/a"] = .ok steps ∧
      applyAll steps (labelled "a" "1") = some w ∧
      between w (labelled "b" "2") [Kind.labelRule] = [add "/metadata/labels/b" (.str "2")] := by
  have hops : between (labelled "a" "1") (labelled "b" "2") [Kind.labelRule] =
      [add "/metadata/labels/b" (.str "2"), remove "/metadata/labels/a"] := by rfl
  obtain ⟨-, -, hmissing, -⟩ := between_minimal (wellFormed_labelled "a" "1")
    (wellFormed_labelled "b" "2") (fits_labelled "a" "1")
  exact ⟨fits_labelled "a" "1", hops, hmissing _ _ (by rw [hops])⟩

end Patch

end DesiredState
