import DesiredState.Proofs.Patch.Minimal

/-!
What a store may add to a document.
A store fills in the fields that are its own to fill in and keeps keys of its
own among the annotations. A document that needed no change before needs none
afterwards.
-/
namespace DesiredState

namespace Json

instance : PartialEquivBEq (Option Json) where
  symm {a b} h :=
    match a, b, h with
    | none, none, h => h
    | some _, some _, h => same_symm h
  trans {a b c} hab hbc :=
    match a, b, c, hab, hbc with
    | none, none, none, _, h => h
    | some _, some _, some _, hab, hbc => same_trans hab hbc

theorem get?_congr {bs as : List (String × Json)} (h : sameMembers bs as = true) (key : String) :
    (Entries.get? bs key == Entries.get? as key) = true := by
  induction bs generalizing as with
  | nil =>
    cases as with
    | nil => rfl
    | cons => cases h
  | cons first rest ih =>
    obtain ⟨k, b⟩ := first
    cases as with
    | nil => cases h
    | cons other others =>
      obtain ⟨l, a⟩ := other
      simp only [sameMembers, Bool.and_eq_true, beq_iff_eq] at h
      obtain ⟨rfl, hfirst, hrest⟩ := h
      rw [Entries.get?_cons, Entries.get?_cons]
      split
      · exact hfirst
      · exact ih hrest

theorem get?_members_congr {before after : Option Json} (h : (before == after) = true)
    (key : String) :
    (Entries.get? ((before.bind members?).getD []) key ==
      Entries.get? ((after.bind members?).getD []) key) = true := by
  cases before with
  | none =>
    cases after with
    | none => rfl
    | some => cases h
  | some b =>
    cases after with
    | none => cases h
    | some a =>
      change b.same a = true at h
      cases b with
      | obj =>
        cases a with
        | obj => exact get?_congr h key
        | _ => cases h
      | _ =>
        cases a with
        | obj => cases h
        | _ => rfl

end Json

namespace Rule

/-- What a store may make of a field. One that it fills in still contains what was there, and is
free if nothing is desired there. Keys that it manages are free unless they are desired. Everything
else stays as it is. -/
def Completes (r : Rule) (desired before after : Option Json) : Prop :=
  match r.comparison with
  | .whole =>
    if r.computed then
      desired = none ∨ ∀ b, before = some b → ∃ a, after = some a ∧ b.containedIn a = true
    else (before == after) = true
  | .perKey => (before == after) = true
  | .perKeyUnmanaged =>
    let bs := (before.bind Json.members?).getD []
    let as := (after.bind Json.members?).getD []
    let ds := (desired.bind Json.members?).getD []
    ∀ key, (Entries.get? bs key == Entries.get? as key) = true ∨
      isServerManaged key = true ∧ Entries.get? ds key = none

variable {r : Rule}

/-- A key that is as it is wanted stays so. -/
theorem wanted_of_completes {bs as ds : List (String × Json)} {key : String}
    (h : (Entries.get? bs key == r.wanted bs ds key) = true)
    (hkey : (Entries.get? bs key == Entries.get? as key) = true ∨
      (r.comparison = .perKeyUnmanaged ∧ isServerManaged key = true) ∧
        Entries.get? ds key = none) :
    (Entries.get? as key == r.wanted as ds key) = true := by
  unfold wanted at h ⊢
  rcases hkey with hsame | ⟨hmanaged, hnone⟩
  · cases hdesired : Entries.get? ds key with
    | some d =>
      rw [hdesired] at h
      exact PartialEquivBEq.trans (BEq.symm hsame) h
    | none =>
      rw [hdesired] at h
      dsimp only at h ⊢
      split
      · exact BEq.rfl
      · rename_i hfree
        rw [if_neg hfree] at h
        exact PartialEquivBEq.trans (BEq.symm hsame) h
  · rw [hnone, if_pos hmanaged]
    exact BEq.rfl

theorem Satisfied.completes {desired before after : Option Json} (h : r.Satisfied before desired)
    (hcompletes : r.Completes desired before after) : r.Satisfied after desired := by
  unfold Satisfied at h ⊢
  unfold Completes at hcompletes
  cases hcomparison : r.comparison with
  | whole =>
    simp only [hcomparison] at h hcompletes ⊢
    cases hcomputed : r.computed with
    | true =>
      simp only [hcomputed, if_true] at h hcompletes ⊢
      intro d hd
      obtain ⟨b, hb, hdb⟩ := h d hd
      obtain hnone | hkept := hcompletes
      · cases hnone.symm.trans hd
      · obtain ⟨a, ha, hba⟩ := hkept b hb
        exact ⟨a, ha, Json.containedIn_trans d hdb hba⟩
    | false =>
      simp only [hcomputed, Bool.false_eq_true, if_false] at h hcompletes ⊢
      exact PartialEquivBEq.trans (BEq.symm hcompletes) h
  | perKey =>
    simp only [hcomparison] at h hcompletes ⊢
    exact fun key => wanted_of_completes (h key) (.inl (Json.get?_members_congr hcompletes key))
  | perKeyUnmanaged =>
    simp only [hcomparison] at h hcompletes ⊢
    exact fun key => wanted_of_completes (h key)
      ((hcompletes key).imp_right fun hfree => ⟨⟨hcomparison, hfree.1⟩, hfree.2⟩)

end Rule

/-- What a store may make of a document. Fields that are left to their owner, and those that never
change in place, are free. -/
def Plan.Completes (plan : Plan) (desired before after : Json) : Prop :=
  ∀ r ∈ plan, r.policy = .mutable → Patch.isOwned r desired = false →
    r.Completes (desired.pointer? r.pointer) (before.pointer? r.pointer)
      (after.pointer? r.pointer)

namespace Patch

/-- Where nothing was to change, nothing is to change after the store has completed the document. -/
theorem between_eq_nil_of_completes {plan : Plan} {desired before after : Json}
    (hdesired : desired.WellFormed) (hbefore : before.WellFormed) (hafter : after.WellFormed)
    (hcompletes : plan.Completes desired before after) (h : between before desired plan = []) :
    between after desired plan = [] := by
  rw [between_eq_nil_iff hbefore hdesired] at h
  rw [between_eq_nil_iff hafter hdesired]
  intro r hr hmutable hfree
  exact (h r hr hmutable hfree).completes (hcompletes r hr hmutable hfree)

/-- A deployment as it is sent. -/
def sentDeployment : Json :=
  .object [
    ("metadata", .object [("labels", .object [("team", .str "web")])]),
    ("spec", .object [("template", .object [("spec", .object [
      ("containers", .arr [.object [("image", .str "nginx"), ("name", .str "web")]])])])])]

/-- The same deployment with what a store fills in and with the revision that a controller keeps. -/
def storedDeployment : Json :=
  .object [
    ("metadata", .object [
      ("annotations", .object [("deployment.kubernetes.io/revision", .str "1")]),
      ("labels", .object [("team", .str "web")])]),
    ("spec", .object [
      ("replicas", .int 1),
      ("template", .object [("spec", .object [
        ("containers", .arr [.object [
          ("image", .str "nginx"), ("imagePullPolicy", .str "Always"), ("name", .str "web")]]),
        ("restartPolicy", .str "Always")])])])]

theorem completes_deployment :
    Kind.deployment.plan.Completes sentDeployment sentDeployment storedDeployment := by
  simp only [Plan.Completes, Kind.plan, Kind.bodyPlan, List.forall_mem_cons]
  refine ⟨fun _ _ => by rfl, fun _ _ key => ?_, nofun, fun _ _ => .inl (by rfl), fun _ _ => by rfl,
    fun _ _ => .inl (by rfl), fun _ _ => .inl (by rfl), fun _ _ => .inl (by rfl), fun _ _ => by rfl,
    fun _ _ => by rfl, fun _ _ => .inr fun b hb => ?_, nofun⟩
  · by_cases hkey : key = "deployment.kubernetes.io/revision"
    · subst hkey
      exact .inr ⟨by decide +kernel, by rfl⟩
    · left
      change (none == Entries.get? [("deployment.kubernetes.io/revision", Json.str "1")] key) = true
      rw [Entries.get?_cons, if_neg (Ne.symm hkey)]
      rfl
  · cases hb
    exact ⟨_, by rfl, by rfl⟩

theorem between_eq_nil_of_completes_deployment :
    Kind.deployment.plan.Completes sentDeployment sentDeployment storedDeployment ∧
    between sentDeployment sentDeployment Kind.deployment.plan = [] ∧
    between storedDeployment sentDeployment Kind.deployment.plan = [] := by
  have hsettled : between sentDeployment sentDeployment Kind.deployment.plan = [] := by rfl
  exact ⟨completes_deployment, hsettled, between_eq_nil_of_completes (by decide +kernel)
    (by decide +kernel) (by decide +kernel) completes_deployment hsettled⟩

end Patch

end DesiredState
