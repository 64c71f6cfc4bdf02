import DesiredState.Proofs.Kind.Outline
import DesiredState.Proofs.Numeral
import DesiredState.Proofs.Schema.Normal

/-!
The normal forms of the trees of each kind.
Beside the keys of its trees, a kind lays down which of their values may be
numerals, and what stands for the few that are filled in where they are missing.
Expanding and flattening a tree gives its normal form by these lists.
-/
namespace DesiredState

open Schema

namespace Kind

/-- The bounds and ports that may be numerals, and the trees of the defaults. -/
def adjustments : Kind → List Adjustment
  | deployment => [
      ⟨["spec", "strategy", "rolling_update"], "max_surge", .shorten⟩,
      ⟨["spec", "strategy", "rolling_update"], "max_unavailable", .shorten⟩]
  | statefulSet => [
      ⟨["spec", "volume_claim_template"], "metadata", .fill (.block [])⟩,
      ⟨["spec", "update_strategy", "rolling_update"], "max_unavailable", .shorten⟩]
  | daemonSet => [
      ⟨["spec", "update_strategy", "rolling_update"], "max_surge", .shorten⟩,
      ⟨["spec", "update_strategy", "rolling_update"], "max_unavailable", .shorten⟩]
  | ingress => [
      ⟨["spec", "rules", "http"], "paths", .fill (.list [])⟩,
      ⟨["spec", "rules", "http", "paths"], "path_type", .fill (.str "ImplementationSpecific")⟩,
      ⟨["spec", "rules", "http", "paths", "backend"], "service_port", .shorten⟩,
      ⟨["spec", "backend"], "service_port", .shorten⟩]
  | roleBinding | clusterRoleBinding => [
      ⟨["role_ref"], "api_group", .fill (.str "rbac.authorization.k8s.io")⟩]
  | cronJob | role | clusterRole => []

def conventions (k : Kind) : Conventions := ⟨k.outline, k.adjustments⟩

theorem adjustments_fields (k : Kind) : k.fields.adjustments = k.adjustments := by
  cases k <;> decide +kernel

theorem conventions_fields (k : Kind) : k.fields.conventions = k.conventions := by
  rw [Fields.conventions, k.outline_fields, k.adjustments_fields]
  rfl

/-- Whether the conventions lay down for the key of a row what the lists have for it. -/
def provides (k : Kind) (r : Outline.Row) : Bool :=
  match k.conventions.along? r.parents with
  | some c =>
    let p := c.provision r.key
    p.form? = some r.form &&
      (k.adjustments.filter (fun a => a.parents = r.parents && a.key = r.key)).map (·.act) =
        (if p.shortens then [.shorten] else []) ++ p.fill?.toList.map .fill
  | none => false

theorem provides_outline (k : Kind) : k.outline.all k.provides = true := by
  cases k <;> decide +kernel

theorem exists_provision {k : Kind} {r : Outline.Row} (hr : r ∈ k.outline) :
    ∃ c, k.conventions.along? r.parents = some c ∧ (c.provision r.key).form? = some r.form ∧
      (c.provision r.key).shortens = decide (⟨r.parents, r.key, .shorten⟩ ∈ k.adjustments) ∧
      ∀ d, (c.provision r.key).fill? = some d ↔ ⟨r.parents, r.key, .fill d⟩ ∈ k.adjustments := by
  have hprovides := List.all_eq_true.1 k.provides_outline r hr
  unfold provides at hprovides
  split at hprovides
  · rename_i c hc
    simp only [Bool.and_eq_true, decide_eq_true_eq] at hprovides
    obtain ⟨hform, hacts⟩ := hprovides
    have hmem : ∀ act, (⟨r.parents, r.key, act⟩ : Adjustment) ∈ k.adjustments ↔
        act ∈ (k.adjustments.filter (fun a => a.parents = r.parents && a.key = r.key)).map
          (·.act) := by
      intro act
      constructor
      · intro h
        exact List.mem_map.2 ⟨_, List.mem_filter.2 ⟨h, by simp⟩, rfl⟩
      · intro h
        obtain ⟨a, ha, rfl⟩ := List.mem_map.1 h
        obtain ⟨ha, hplace⟩ := List.mem_filter.1 ha
        simp only [Bool.and_eq_true, decide_eq_true_eq] at hplace
        rw [← hplace.1, ← hplace.2]
        exact ha
    rw [hacts] at hmem
    refine ⟨c, hc, hform, ?_, fun d => ?_⟩
    · refine Bool.eq_iff_iff.2 ?_
      rw [decide_eq_true_iff, hmem]
      cases (c.provision r.key).shortens <;> simp
    · rw [hmem]
      cases (c.provision r.key).shortens <;> simp [eq_comm]
  · cases hprovides

end Kind

/-- A text that denotes an integer of 32 bits becomes its shortest numeral, any other one stays. -/
def Tree.Shortens (given written : Tree) : Prop :=
  ∃ s, given = .str s ∧
    ((∃ i : Int32, Text.Denotes s i.toInt ∧ written = .str (toString i.toInt)) ∨
      (∀ i : Int32, ¬ Text.Denotes s i.toInt) ∧ written = given)

/-- What is written where a value was given at a key of the form. Maps are as many as before. -/
def Outline.Form.Renders (form : Outline.Form) (shortens : Bool) (given written : Tree) : Prop :=
  match form with
  | .string => if shortens then given.Shortens written else written = given
  | .stringSet => written.Gathers given
  | .block | .maps => ∃ items others, given = .list items ∧ written = .list others ∧
      others.length = items.length
  | .int | .int32 | .flag | .strings | .stringMap => written = given

theorem Tree.shortens_shortened (s : String) : (Tree.str s).Shortens (Tree.str s).shortened := by
  refine ⟨s, rfl, ?_⟩
  cases h : Text.int32? s with
  | some i =>
    refine Or.inl ⟨i, Text.int32?_eq_some.1 h, ?_⟩
    rw [shortened, h]
  | none =>
    refine Or.inr ⟨fun i hi => ?_, ?_⟩
    · rw [Text.int32?_eq_some.2 hi] at h
      cases h
    · rw [shortened, h]

theorem Provision.renders_of_takes {p : Provision} {form : Outline.Form}
    (hform : p.form? = some form) {t : Tree} (ht : t.WellFormed) (htakes : form.takes t = true) :
    ∃ w, p.kept? t (t.normal p.inside) = some w ∧ form.Renders p.shortens t w := by
  unfold kept?
  rw [hform]
  cases form with
  | block =>
    obtain ⟨entries, rfl⟩ := Outline.takes_block_iff.1 htakes
    exact ⟨_, if_neg (by simp [Tree.block]), _, _, rfl, rfl, rfl⟩
  | maps =>
    obtain ⟨items, rfl, -⟩ := Outline.takes_maps_iff.1 htakes
    refine ⟨_, rfl, items, Tree.normalItems items p.inside, rfl, rfl, ?_⟩
    rw [Tree.normalItems_eq, List.length_map]
  | stringSet => exact ⟨_, rfl, Tree.gathers_gathered ht htakes⟩
  | string =>
    cases t with
    | str s =>
      refine ⟨_, rfl, ?_⟩
      cases p.shortens with
      | true => exact Tree.shortens_shortened s
      | false => rfl
    | _ => cases htakes
  | _ => exact ⟨_, rfl, rfl⟩

/-- Without a value, or with an empty block, there is what is filled in. -/
theorem Provision.value?_of_given?_eq_none {p : Provision} {r : Outline.Row}
    (hform : p.form? = some r.form) {m : List (String × Tree)} (h : r.given? m = none) :
    p.value? (Entries.get? m r.key) = p.fill? := by
  unfold Outline.Row.given? at h
  cases hget : Entries.get? m r.key with
  | none => rfl
  | some v =>
    obtain ⟨hblock, rfl⟩ : r.form = .block ∧ v = .list [] := by simpa [hget] using h
    simp [value?, kept?, hform, hblock]

namespace Object

variable {k : Kind} {t : Tree}

theorem flatten_eq_normal (ht : t.WellFormed) {o : Object k} (h : expand k t = .ok o) :
    o.flatten = t.normal k.conventions := by
  obtain ⟨-, -, -, hflatten⟩ := settled_of_expand ht h
  obtain ⟨entries, rfl, hfields, -⟩ := expand_iff.1 h
  rw [hflatten, ← k.conventions_fields]
  exact congrArg Tree.map (Fields.canonical_eq_normalMap ht.1
    (k.fields.value?_of_expand k.lawful_fields ht hfields))

/-- What the normal form has at the key of a row, in a map of the tree. -/
theorem walk?_normal_row {r : Outline.Row} (hr : r ∈ k.outline) {path : List String}
    {m : List (String × Tree)} (hm : t.MapAt r.parents path m) (ht : t.WellFormed) :
    ∃ p : Provision, p.form? = some r.form ∧
      p.shortens = decide (⟨r.parents, r.key, .shorten⟩ ∈ k.adjustments) ∧
      (∀ d, p.fill? = some d ↔ ⟨r.parents, r.key, .fill d⟩ ∈ k.adjustments) ∧
      (t.normal k.conventions).walk? (path ++ [r.key]) = p.value? (Entries.get? m r.key) := by
  obtain ⟨c, hc, hform, hshortens, hfill⟩ := Kind.exists_provision hr
  refine ⟨c.provision r.key, hform, hshortens, hfill, ?_⟩
  rw [Tree.walk?_append, Tree.walk?_normal hm ht hc, ← Tree.get?_normalMap (hm.wellFormed ht).1]
  simp [Tree.walk?, Tree.step?]

/-- Expanding and flattening a tree gives its normal form by the lists of the kind, which is its
own normal form. In each map of the tree, a value that was given at a key of the outline is there
again as the form of the key has it, and a missing one is filled in if the kind says so. -/
theorem flatten_expand (ht : t.WellFormed) {o : Object k} (h : expand k t = .ok o) :
    o.flatten = t.normal k.conventions ∧
    (t.normal k.conventions).normal k.conventions = t.normal k.conventions ∧
    ∀ r ∈ k.outline, ∀ path m, t.MapAt r.parents path m →
      (∀ v, r.given? m = some v → ∃ w, o.flatten.walk? (path ++ [r.key]) = some w ∧
        r.form.Renders (⟨r.parents, r.key, .shorten⟩ ∈ k.adjustments) v w) ∧
      (r.given? m = none → ∀ w, o.flatten.walk? (path ++ [r.key]) = some w ↔
        ⟨r.parents, r.key, .fill w⟩ ∈ k.adjustments) := by
  have hflatten := flatten_eq_normal ht h
  have hstays := flatten_eq_normal o.wellFormed_flatten (expand_flatten_of_expand ht h)
  rw [hflatten] at hstays
  refine ⟨hflatten, hstays.symm, fun r hr path m hm => ?_⟩
  obtain ⟨p, hform, hshortens, hfill, hwalk⟩ := walk?_normal_row hr hm ht
  have hholds := ((expand_iff_conforms k t).1.1 ⟨o, h⟩).rows r hr m hm.mem_mapsAt
  rw [hflatten, hwalk]
  constructor
  · intro v hv
    rw [Outline.Row.holds, hv] at hholds
    have hget : Entries.get? m r.key = some v := (Option.filter_eq_some_iff.1 hv).1
    have hwell := Tree.wellFormed_of_get? (hm.wellFormed ht) hget
    obtain ⟨w, hw, hrenders⟩ := Provision.renders_of_takes hform hwell hholds
    refine ⟨w, ?_, hshortens ▸ hrenders⟩
    rw [hget, Provision.value?, Option.bind_some, hw, Option.some_or]
  · intro hnone w
    rw [Provision.value?_of_given?_eq_none hform hnone]
    exact hfill w

/-- An ordered set with an empty list of containers and an empty block. Its bound has a sign and a
leading zero, its claim lists a mode twice and has no metadata, and its uid is not its own. -/
def looseSet : Tree :=
  .map [
    ("metadata", .block [("name", .str "db"), ("uid", .str "7")]),
    ("spec", .block [
      ("selector", .block []),
      ("service_name", .str ""),
      ("template", .block [
        ("metadata", .list []),
        ("spec", .block [("containers", .list [])])]),
      ("update_strategy", .block [("rolling_update", .block [("max_unavailable", .str "+02")])]),
      ("volume_claim_template", .list [
        .map [("spec", .block [("access_modes", Tree.strings ["once", "many", "once"])])]])])]

theorem flatten_expand_looseSet :
    looseSet.WellFormed ∧ ∃ o, expand .statefulSet looseSet = .ok o ∧ o.flatten =
      .map [
        ("metadata", .block [("name", .str "db")]),
        ("spec", .block [
          ("selector", .block []),
          ("service_name", .str ""),
          ("template", .block [("spec", .block [("containers", .list [])])]),
          ("update_strategy", .block [("rolling_update", .block [("max_unavailable", .str "2")])]),
          ("volume_claim_template", .list [
            .map [
              ("metadata", .block []),
              ("spec", .block [("access_modes", .set ["many", "once"])])]])])] := by
  have ht : looseSet.WellFormed := by decide +kernel
  refine ⟨ht, _, rfl, (flatten_expand ht rfl).1.trans ?_⟩
  decide +kernel

end Object

end DesiredState
