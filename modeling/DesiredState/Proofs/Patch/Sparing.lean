import DesiredState.Proofs.Outcome
import DesiredState.Proofs.Patch.Generated
import DesiredState.Proofs.Patch.Leads

/-!
Steps that spare a path.
A step spares a path if none of its pointers leads to the path, through it, or
into what it leads to. Whatever the document is, such steps leave the value at a
path of names alone. The patch of a rule changes what the rule points at and
nothing beside it.
-/
namespace DesiredState.Patch

open Json (resolve?)

def Step.pointers : Step → List String
  | .add pointer _ | .remove pointer | .replace pointer _ | .test pointer _ => [pointer]
  | .move source pointer | .copy source pointer => [source, pointer]

/-- A pointer that lies apart from a path. -/
def Spares (path : List String) (pointer : String) : Prop :=
  ∃ tokens, Pointer.tokens? pointer = some tokens ∧ Apart path tokens

def Step.Spares (path : List String) (s : Step) : Prop :=
  ∀ pointer ∈ s.pointers, Patch.Spares path pointer

section Frame

/-- No element of an array is named by the path. -/
def Named (path : List String) : Prop := ∀ token ∈ path, Pointer.index? token = none

variable {path : List String} {v w c c' : Json} {change : Json → Option Json}

theorem step?_arr {token : String} (h : Pointer.index? token = none) (items : List Json) :
    (Json.arr items).step? token = none := by
  simp [Json.step?, h]

theorem step?_changeChild {token other : String} (h : changeChild change token v = some w)
    (hne : other ≠ token) (hname : Pointer.index? other = none) :
    w.step? other = v.step? other := by
  cases v with
  | obj members =>
    obtain ⟨c, -, h⟩ := Option.bind_eq_some_iff.1 h
    obtain ⟨c', -, heq⟩ := Option.bind_eq_some_iff.1 h
    cases heq
    change Entries.get? _ other = Entries.get? members other
    rw [Entries.get?_insert, if_neg (Ne.symm hne)]
  | arr items =>
    obtain ⟨i, -, h⟩ := Option.bind_eq_some_iff.1 h
    obtain ⟨c, -, h⟩ := Option.bind_eq_some_iff.1 h
    obtain ⟨c', -, heq⟩ := Option.bind_eq_some_iff.1 h
    cases heq
    rw [step?_arr hname, step?_arr hname]
  | _ => cases h

/-- What a change below a token makes of the value there. -/
theorem step?_changeChild_self {token : String} (h : changeChild change token v = some w)
    (hname : Pointer.index? token = none) :
    ∃ c c', v.step? token = some c ∧ change c = some c' ∧ w.step? token = some c' := by
  cases v with
  | obj members =>
    obtain ⟨c, hc, h⟩ := Option.bind_eq_some_iff.1 h
    obtain ⟨c', hc', heq⟩ := Option.bind_eq_some_iff.1 h
    cases heq
    refine ⟨c, c', hc, hc', ?_⟩
    change Entries.get? _ token = some c'
    rw [Entries.get?_insert, if_pos rfl]
  | arr items =>
    obtain ⟨i, hi, -⟩ := Option.bind_eq_some_iff.1 h
    rw [hname] at hi
    cases hi
  | _ => cases h

/-- A change that touches one name spares the paths apart from it. -/
theorem resolve?_changeAt {parents : List String} {key : String}
    (hlast : ∀ c c', change c = some c' → ∀ other, other ≠ key → Pointer.index? other = none →
      c'.step? other = c.step? other)
    (hpath : Named path) (hapart : Apart path (parents ++ [key]))
    (h : changeAt change parents v = some w) : resolve? path w = resolve? path v := by
  induction parents generalizing path v w with
  | nil =>
    cases path with
    | nil => exact absurd List.nil_prefix hapart.1
    | cons token rest =>
      have hne : token ≠ key := by
        rintro rfl
        exact hapart.2 (List.prefix_append [token] rest)
      have hstep := hlast v w h token hne (hpath token List.mem_cons_self)
      rw [Json.resolve?, Json.resolve?, hstep]
  | cons first parents ih =>
    cases path with
    | nil => exact absurd List.nil_prefix hapart.1
    | cons token rest =>
      have hname := hpath token List.mem_cons_self
      by_cases htoken : token = first
      · subst htoken
        obtain ⟨c, c', hc, hchange, hc'⟩ := step?_changeChild_self h hname
        have hbelow : Apart rest (parents ++ [key]) :=
          Apart.of_append (show Apart ([token] ++ rest) ([token] ++ (parents ++ [key])) from hapart)
        rw [Json.resolve?, Json.resolve?, hc, hc', Option.bind_some, Option.bind_some]
        exact ih (fun other hother => hpath other (List.mem_cons_of_mem _ hother)) hbelow hchange
      · rw [Json.resolve?, Json.resolve?, step?_changeChild h htoken hname]

theorem exists_last_of_apart {tokens : List String} (h : Apart path tokens) :
    ∃ parents key, tokens = parents ++ [key] := by
  rcases List.eq_nil_or_concat' tokens with rfl | ⟨parents, key, rfl⟩
  · exact absurd List.nil_prefix h.2
  · exact ⟨parents, key, rfl⟩

theorem resolve?_addAt {pointer : String} (hpath : Named path) (h : Spares path pointer)
    {value : Json} (happly : addAt pointer value v = some w) :
    resolve? path w = resolve? path v := by
  obtain ⟨tokens, htokens, hapart⟩ := h
  obtain ⟨parents, key, rfl⟩ := exists_last_of_apart hapart
  obtain ⟨raws, raw, hraws, rfl, rfl⟩ := rawTokens?_of_tokens? htokens
  rw [addAt_eq hraws] at happly
  refine resolve?_changeAt (fun c c' hc other hne hname => ?_) hpath hapart happly
  cases c with
  | obj members =>
    cases hc
    change Entries.get? _ other = Entries.get? members other
    rw [Entries.get?_insert, if_neg (Ne.symm hne)]
  | arr items =>
    simp only [addChild] at hc
    split at hc
    · cases hc
      rw [step?_arr hname, step?_arr hname]
    · obtain ⟨i, -, rfl⟩ := Option.map_eq_some_iff.1 hc
      rw [step?_arr hname, step?_arr hname]
  | _ => cases hc

theorem resolve?_removeAt {pointer : String} (hpath : Named path) (h : Spares path pointer)
    (happly : removeAt pointer v = some w) : resolve? path w = resolve? path v := by
  obtain ⟨tokens, htokens, hapart⟩ := h
  obtain ⟨parents, key, rfl⟩ := exists_last_of_apart hapart
  obtain ⟨raws, raw, hraws, rfl, rfl⟩ := rawTokens?_of_tokens? htokens
  rw [removeAt_eq hraws] at happly
  refine resolve?_changeAt (fun c c' hc other hne hname => ?_) hpath hapart happly
  cases c with
  | obj members =>
    simp only [removeChild] at hc
    split at hc
    · cases hc
      change Entries.get? _ other = Entries.get? members other
      rw [Entries.get?_erase, if_neg (Ne.symm hne)]
    · cases hc
  | arr items =>
    obtain ⟨i, -, rfl⟩ := Option.map_eq_some_iff.1 hc
    rw [step?_arr hname, step?_arr hname]
  | _ => cases hc

theorem resolve?_replaceAt {tokens : List String} (hpath : Named path) (hapart : Apart path tokens)
    {value : Json} (happly : changeAt (fun _ => some value) tokens v = some w) :
    resolve? path w = resolve? path v := by
  obtain ⟨parents, key, rfl⟩ := exists_last_of_apart hapart
  rw [changeAt_append] at happly
  exact resolve?_changeAt (fun c c' hc other hne hname => step?_changeChild hc hne hname) hpath
    hapart happly

/-- A step leaves the paths alone that it spares. -/
theorem Step.Spares.resolve?_apply {s : Step} (hpath : Named path) (h : s.Spares path)
    (happly : s.apply v = some w) : resolve? path w = resolve? path v := by
  cases s with
  | add pointer value => exact resolve?_addAt hpath (h pointer List.mem_cons_self) happly
  | remove pointer => exact resolve?_removeAt hpath (h pointer List.mem_cons_self) happly
  | replace pointer value =>
    obtain ⟨tokens, htokens, hapart⟩ := h pointer List.mem_cons_self
    obtain ⟨tokens', htokens', hchange⟩ := Option.bind_eq_some_iff.1 happly
    obtain rfl : tokens = tokens' := Option.some.inj (htokens.symm.trans htokens')
    exact resolve?_replaceAt hpath hapart hchange
  | move source pointer =>
    have hsource := h source List.mem_cons_self
    have hpointer := h pointer (List.mem_cons_of_mem _ List.mem_cons_self)
    simp only [Step.apply] at happly
    split at happly
    · cases happly
    · obtain ⟨x, -, happly⟩ := Option.bind_eq_some_iff.1 happly
      obtain ⟨u, hu, happly⟩ := Option.bind_eq_some_iff.1 happly
      rw [resolve?_addAt hpath hpointer happly, resolve?_removeAt hpath hsource hu]
  | copy source pointer =>
    obtain ⟨x, -, happly⟩ := Option.bind_eq_some_iff.1 happly
    exact resolve?_addAt hpath (h pointer (List.mem_cons_of_mem _ List.mem_cons_self)) happly
  | test pointer value =>
    obtain ⟨x, -, happly⟩ := Option.bind_eq_some_iff.1 happly
    split at happly
    · cases happly
      rfl
    · cases happly

theorem resolve?_applyAll {steps : List Step} (hpath : Named path)
    (h : ∀ s ∈ steps, s.Spares path) (happly : applyAll steps v = some w) :
    resolve? path w = resolve? path v := by
  induction steps generalizing v with
  | nil =>
    cases happly
    rfl
  | cons s rest ih =>
    obtain ⟨u, hu, hrest⟩ := Option.bind_eq_some_iff.1 happly
    rw [ih (fun other hother => h other (List.mem_cons_of_mem _ hother)) hrest]
    exact (h s List.mem_cons_self).resolve?_apply hpath hu

end Frame

/-- A pointer further down spares what the pointer does. -/
theorem Spares.further {path tokens more : List String} {pointer : String}
    (hapart : Apart path tokens) (h : Pointer.tokens? pointer = some (tokens ++ more)) :
    Spares path pointer :=
  ⟨_, h, (hapart.symm.of_prefix (List.prefix_append tokens more)).symm⟩

section Rule

variable {r : Rule} {path tokens : List String} (htokens : Pointer.tokens? r.pointer = some tokens)
  (hapart : Apart path tokens)

include htokens hapart

theorem spares_of_touches {pointer : String} (h : Touches r pointer) : Spares path pointer := by
  cases h with
  | field => exact ⟨tokens, htokens, hapart⟩
  | member key => exact Spares.further hapart (Pointer.tokens?_member htokens key)
  | element i => exact Spares.further hapart (Pointer.tokens?_element htokens i)

/-- The operations of a rule spare what its field lies apart from. -/
theorem spares_of_mem_ruleOperations {p d : Json} {op : Operation}
    (hop : op ∈ ruleOperations r p d) : Spares path op.pointer :=
  spares_of_touches htokens hapart (serves_of_mem_ruleOperations hop).touches

end Rule

/-- An operation is sent as a step with its pointer and no other. -/
theorem pointers_of_toStep? {op : Operation} {s : Step} (h : op.toStep? = some s) :
    s.pointers = [op.pointer] := by
  unfold Operation.toStep? at h
  split at h <;> cases h <;> rfl

/-- The steps of a patch spare what its operations do. -/
theorem spares_of_toSteps {path : List String} {patch : List Operation} {steps : List Step}
    (hpatch : ∀ op ∈ patch, Spares path op.pointer) (h : toSteps patch = .ok steps) :
    ∀ s ∈ steps, s.Spares path := by
  intro s hs pointer hpointer
  have hmap := Outcome.mapM_eq_some_iff.1 (toSteps_eq_ok.1 h)
  obtain ⟨op, hop, hstep⟩ := List.mem_map.1 (hmap ▸ List.mem_map_of_mem hs)
  rw [pointers_of_toStep? hstep] at hpointer
  obtain rfl := List.mem_singleton.1 hpointer
  exact hpatch op hop

end DesiredState.Patch
