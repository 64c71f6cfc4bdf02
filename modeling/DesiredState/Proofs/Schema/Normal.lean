import DesiredState.Proofs.Tree.Normal

/-!
Canonical forms as normal forms.
A schema lays down its own conventions: the outline of its fields, a numeral to
shorten for each bound and each port, and the tree of each default. The
canonical form of a tree that can be expanded is its normal form by these.
-/
namespace DesiredState

/-- Nothing is laid down for a key that is not listed. -/
def Provision.blank : Provision := ⟨none, ⟨[], []⟩, false, none⟩

theorem Provision.value?_blank (given : Option Tree) : blank.value? given = none := by
  cases given <;> rfl

namespace Schema

/-- The tree that a presence fills in. -/
def Presence.fill? (s : Shape) : Presence → Option Tree
  | .defaulted text => some (s.fallbackTree text)
  | .optional | .required | .expected | .reported | .internal => none

/-- What is done at the key of a field. -/
def Field.acts (field : Field) (s : Shape) : List Adjustment.Act :=
  (field.presence.fill? s).toList.map .fill ++ if s = .leaf .intOrText then [.shorten] else []

mutual

def Shape.adjustments : Shape → List Adjustment
  | .leaf _ => []
  | .block fields | .blocks fields => fields.adjustments
  | .backend => [⟨[], "service_port", .shorten⟩]

def Fields.adjustments : Fields → List Adjustment
  | .nil => []
  | .typed _ _ rest => rest.adjustments
  | .cons field shape rest =>
    if field.presence.isKept then
      Adjustment.around field.key (field.acts shape) shape.adjustments ++ rest.adjustments
    else rest.adjustments

end

def Shape.conventions (s : Shape) : Conventions := ⟨s.outline, s.adjustments⟩

def Fields.conventions (fields : Fields) : Conventions := ⟨fields.outline, fields.adjustments⟩

/-- What is laid down for the key of a field. -/
def Field.provision (field : Field) (s : Shape) : Provision where
  form? := some s.outlineForm
  inside := s.conventions
  shortens := s = .leaf .intOrText
  fill? := field.presence.fill? s

theorem Field.shorten_mem_acts (field : Field) (s : Shape) :
    .shorten ∈ field.acts s ↔ s = .leaf .intOrText := by
  cases h : field.presence.fill? s <;> simp [acts, h]

theorem Field.tree?_acts (field : Field) (s : Shape) :
    (field.acts s).findSome? Adjustment.Act.tree? = field.presence.fill? s := by
  unfold acts
  cases field.presence.fill? s with
  | none => split <;> rfl
  | some t => rfl

namespace Fields

variable (field : Field) (shape : Shape) (rest : Fields)

theorem provision_cons (key : String) :
    (cons field shape rest).conventions.provision key =
      if field.presence.isKept ∧ field.key = key then
        { form? := some shape.outlineForm
          inside := ⟨shape.outline ++ (rest.conventions.provision key).inside.rows,
            shape.adjustments ++ (rest.conventions.provision key).inside.adjustments⟩
          shortens := decide (shape = .leaf .intOrText) || (rest.conventions.provision key).shortens
          fill? := (field.presence.fill? shape).or (rest.conventions.provision key).fill? }
      else rest.conventions.provision key := by
  rw [conventions, outline, adjustments]
  cases field.presence.isKept with
  | true =>
    have haround := Conventions.provision_around
      (r := ⟨[], field.key, shape.outlineForm, field.presence.isSolid⟩) rfl (field.acts shape)
      shape.conventions rest.conventions key
    simp only [Field.shorten_mem_acts, Field.tree?_acts] at haround
    simp only [if_true, true_and]
    exact haround
  | false => simp [conventions]

theorem provision_of_not_mem (fields : Fields) {key : String} (h : key ∉ fields.keys) :
    fields.conventions.provision key = .blank := by
  match fields with
  | .nil => rfl
  | .typed _ _ rest => exact rest.provision_of_not_mem h
  | .cons field shape rest =>
    simp only [keys, List.mem_cons, not_or] at h
    rw [provision_cons, if_neg fun heq => h.1 heq.2.symm, rest.provision_of_not_mem h.2]

theorem provision_key (h : field.key ∉ rest.keys) :
    (cons field shape rest).conventions.provision field.key =
      if field.presence.isKept then field.provision shape else .blank := by
  rw [provision_cons, rest.provision_of_not_mem h]
  simp [Provision.blank, Field.provision, Shape.conventions]

theorem provision_of_ne {key : String} (h : field.key ≠ key) :
    (cons field shape rest).conventions.provision key = rest.conventions.provision key := by
  rw [provision_cons, if_neg fun heq => h heq.2]

end Fields

theorem Fields.sorted_canonical : (fields : Fields) → (entries : List (String × Tree)) →
    Entries.Sorted (fields.canonical entries)
  | .nil, _ => Entries.sorted_nil
  | .typed _ _ rest, entries => rest.sorted_canonical entries
  | .cons _ _ rest, entries => Entries.sorted_insert? _ _ (rest.sorted_canonical entries)

theorem Leaf.canonical_eq_kept? (l : Leaf) (field : Field) (t inside : Tree) :
    (field.provision (.leaf l)).kept? t inside = some (l.canonical t) := by
  cases l with
  | intOrText =>
    cases t with
    | str s =>
      change some (Tree.str s).shortened = some (.str (plainNumeral s))
      cases hs : Text.int32? s <;>
        simp only [Tree.shortened, plainNumeral, hs, Text.intText_eq_toString]
    | _ => rfl
  | _ => cases t <;> rfl

theorem Backend.canonical_eq_normalMap {entries : List (String × Tree)}
    (h : Entries.Sorted entries) :
    canonical entries = Tree.normalMap entries Shape.backend.conventions := by
  refine Entries.ext_of_sorted ?_ (Tree.sorted_normalMap _ _) fun key => ?_
  · exact Entries.sorted_insert? _ _ (Entries.sorted_insert? _ _ Entries.sorted_nil)
  · rw [Tree.get?_normalMap h, canonical, Entries.get?_insert?, Entries.get?_insert?,
      Entries.get?_nil, Option.or_none]
    by_cases hname : "service_name" = key
    · subst hname
      have hport : ¬ "service_port" = "service_name" := by decide
      rw [if_pos rfl, if_neg hport, Option.or_none]
      cases Entries.get? entries "service_name" <;> rfl
    · by_cases hport : "service_port" = key
      · subst hport
        rw [if_neg hname, if_pos rfl]
        cases hget : Entries.get? entries "service_port" with
        | none => rfl
        | some t => exact (Leaf.canonical_eq_kept? .intOrText ⟨"", "", .optional⟩ t t).symm
      · have hblank : Shape.backend.conventions.provision key = .blank := by
          simp [Conventions.provision, Provision.blank, Shape.conventions, Shape.outline,
            Shape.adjustments, Outline.form?, Outline.below, Outline.Row.below?,
            Adjustment.below?, Adjustment.fill?, Outline.must, Outline.may, hname, hport,
            Ne.symm hport]
        rw [if_neg hname, if_neg hport, hblank, Provision.value?_blank]

theorem Presence.canonical_eq (p : Presence) (s : Shape) (given : Option Tree) :
    p.canonical given (fun text => s.fallbackTree text) =
      if p.isKept then given.or (p.fill? s) else none := by
  cases p <;> cases given <;> rfl

theorem Fields.canonical_eq_normalMap {fields : Fields} {entries : List (String × Tree)}
    (hsorted : Entries.Sorted entries)
    (h : ∀ key, (fields.conventions.provision key).value? (Entries.get? entries key) =
      Entries.get? (fields.canonical entries) key) :
    fields.canonical entries = Tree.normalMap entries fields.conventions := by
  refine Entries.ext_of_sorted (fields.sorted_canonical entries) (Tree.sorted_normalMap _ _)
    fun key => ?_
  rw [Tree.get?_normalMap hsorted, h key]

mutual

/-- A value that can be expanded is kept by what its field lays down as it is by its shape. -/
theorem Shape.kept?_of_expand : (s : Shape) → s.Lawful → (field : Field) → {path : Path} →
    {t : Tree} → t.WellFormed → {found : Option s.Value} → s.expand path t = .ok found →
    (field.provision s).kept? t (t.normal s.conventions) = s.canonical t
  | .leaf l, _, field, _, t, _, _, _ => l.canonical_eq_kept? field t _
  | .block fields, hs, field, path, t, ht, found, h => by
    simp only [Shape.expand] at h
    obtain ⟨read, hread, h⟩ := Outcome.bind_eq_ok.1 h
    rcases readBlock_eq_ok.1 hread with ⟨rfl, rfl⟩ | ⟨entries, rfl, rfl⟩
    · rfl
    · obtain ⟨v, hv, -⟩ := Outcome.bind_eq_ok.1 h
      have hfields := Fields.canonical_eq_normalMap ht.1.1 (fields.value?_of_expand hs ht.1 hv)
      change some (Tree.block (Tree.normalMap entries fields.conventions)) = _
      rw [← hfields]
      rfl
  | .blocks fields, hs, field, path, t, ht, found, h => by
    simp only [Shape.expand] at h
    obtain ⟨located, hread, h⟩ := Outcome.bind_eq_ok.1 h
    obtain ⟨vs, hvs, -⟩ := Outcome.bind_eq_ok.1 h
    cases t with
    | list items =>
      obtain rfl := eq_maps_of_readItems hread
      have heach := exists_expandEach_iff.1 ⟨vs, hvs⟩
      change some (Tree.list (Tree.normalItems _ fields.conventions)) = some (Tree.list _)
      rw [Tree.normalItems_eq, List.map_map, List.map_map]
      refine congrArg (some ∘ Tree.list) (List.map_congr_left fun e he => ?_)
      obtain ⟨v, hv⟩ := heach e he
      have hmap : (Tree.map e.2).WellFormed :=
        Tree.allWellFormed_iff.1 ht _ (List.mem_map.2 ⟨e, he, rfl⟩)
      exact congrArg Tree.map (Fields.canonical_eq_normalMap hmap.1
        (fields.value?_of_expand hs hmap hv)).symm
    | _ => simp [readBlocks, Leaf.mismatch] at hread
  | .backend, _, field, path, t, ht, found, h => by
    simp only [Shape.expand] at h
    obtain ⟨read, hread, h⟩ := Outcome.bind_eq_ok.1 h
    rcases readBlock_eq_ok.1 hread with ⟨rfl, rfl⟩ | ⟨entries, rfl, rfl⟩
    · rfl
    · change some (Tree.block (Tree.normalMap entries Shape.backend.conventions)) = _
      rw [← Backend.canonical_eq_normalMap ht.1.1]
      rfl

theorem Fields.value?_of_expand : (fields : Fields) → fields.Lawful → {path : Path} →
    {entries : List (String × Tree)} → (Tree.map entries).WellFormed → {v : fields.Value} →
    fields.expand path entries = .ok v → (key : String) →
    (fields.conventions.provision key).value? (Entries.get? entries key) =
      Entries.get? (fields.canonical entries) key
  | .nil, _, _, entries, _, _, _, key => Provision.value?_blank (Entries.get? entries key)
  | .typed _ _ rest, hs, _, _, ht, _, h, key => rest.value?_of_expand hs.2.2 ht h key
  | .cons field shape rest, hs, path, entries, ht, v, h, key => by
    obtain ⟨⟨hfirst, -, -⟩, hshape, hrest⟩ := hs
    obtain ⟨hv, hvs⟩ := (Fields.expand_cons_iff field shape rest path entries v).1 h
    by_cases hkey : field.key = key
    · subst hkey
      rw [Fields.provision_key field shape rest hfirst, Fields.get?_canonical_cons hfirst,
        Presence.canonical_eq]
      cases hkept : field.presence.isKept with
      | true =>
        obtain ⟨x, hx, -⟩ := Presence.exists_settle_iff.1 ⟨_, hv⟩ hkept
        rw [if_pos rfl, if_pos rfl, Provision.value?]
        cases hget : Entries.get? entries field.key with
        | none => rfl
        | some t =>
          rw [Shape.found, hget, Option.elim_some] at hx
          have hvalue := shape.kept?_of_expand hshape field (Tree.wellFormed_of_get? ht hget) hx
          exact congrArg (Option.or · (field.presence.fill? shape)) hvalue
      | false =>
        rw [if_neg Bool.false_ne_true, if_neg Bool.false_ne_true, Provision.value?_blank]
    · rw [Fields.provision_of_ne field shape rest hkey, Fields.get?_canonical_rest hkey]
      exact rest.value?_of_expand hrest ht hvs key

end

end Schema

end DesiredState
