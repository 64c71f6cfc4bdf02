import DesiredState.Proofs.Json.Containment
import DesiredState.Proofs.Json.Revised
import DesiredState.Proofs.Json.WellFormed

/-!
Documents with some members left out.
What is left is contained in the whole document, and nothing is found any more
at the paths that were left out.
-/
namespace DesiredState.Json

/-- The document without the member at a path of keys. -/
def without : Json → List String → Json
  | v, [] => v
  | v, [key] => v.eraseMember key
  | v, key :: token :: rest =>
    match v.member? key with
    | some c => v.setMember key (c.without (token :: rest))
    | none => v

def withoutAll (v : Json) (paths : List (List String)) : Json := paths.foldl without v

/-- As far as a path goes, it goes from objects to their members. -/
def ByMembers : List String → Json → Prop
  | [], _ => True
  | key :: rest, v => ∃ members, v = .obj members ∧
      ∀ c, Entries.get? members key = some c → ByMembers rest c

theorem member?_obj (members : List (String × Json)) (key : String) :
    (obj members).member? key = Entries.get? members key := rfl

theorem member?_eq_some {v c : Json} {key : String} (h : v.member? key = some c) :
    ∃ members, v = .obj members ∧ Entries.get? members key = some c := by
  obtain ⟨members, hmembers, hget⟩ := Option.bind_eq_some_iff.1 h
  exact ⟨members, members?_eq_some.1 hmembers, hget⟩

theorem eq_obj_of_containedIn_obj {v : Json} {members : List (String × Json)}
    (h : v.containedIn (obj members) = true) : ∃ others, v = obj others := by
  cases v with
  | obj others => exact ⟨others, rfl⟩
  | arr _ => simp [containedIn] at h
  | null | bool _ | num _ | str _ =>
    rw [containedIn_of_isScalar rfl] at h
    cases h

theorem ByMembers.of_containedIn {path : List String} {v w : Json} (h : ByMembers path w)
    (hvw : v.containedIn w = true) : ByMembers path v := by
  induction path generalizing v w with
  | nil => trivial
  | cons key rest ih =>
    obtain ⟨members, rfl, hbelow⟩ := h
    obtain ⟨others, rfl⟩ := eq_obj_of_containedIn_obj hvw
    refine ⟨others, rfl, fun c hc => ?_⟩
    obtain ⟨c', hc', hinside⟩ := membersContainedIn_iff.1 hvw _ (Entries.mem_of_get? hc)
    exact ih (hbelow c' hc') hinside

/-- Less of a member is less of the object. -/
theorem containedIn_insert {members : List (String × Json)} (h : (obj members).WellFormed)
    {key : String} {c d : Json} (hc : Entries.get? members key = some c)
    (hd : d.containedIn c = true) :
    (obj (Entries.insert key d members)).containedIn (obj members) = true := by
  rw [containedIn, membersContainedIn_iff]
  intro e he
  rcases Entries.mem_insert he with rfl | he
  · exact ⟨c, hc, hd⟩
  · exact ⟨e.2, Entries.get?_of_mem h.1 he,
      containedIn_refl e.2 (membersWellFormed_iff.1 h.2 e he)⟩

/-- What is left is well formed and contained in the whole. -/
theorem containedIn_without {v : Json} (h : v.WellFormed) (path : List String) :
    (v.without path).WellFormed ∧ (v.without path).containedIn v = true := by
  induction path generalizing v with
  | nil => exact ⟨h, containedIn_refl v h⟩
  | cons key rest ih =>
    cases rest with
    | nil =>
      cases v with
      | obj members =>
        have hkept : ∀ e ∈ Entries.erase key members, e ∈ members :=
          fun e he => List.mem_of_mem_filter he
        refine ⟨⟨Entries.sorted_erase key h.1, membersWellFormed_iff.2 fun e he => ?_⟩, ?_⟩
        · exact membersWellFormed_iff.1 h.2 e (hkept e he)
        · change (obj (Entries.erase key members)).containedIn (obj members) = true
          rw [containedIn, membersContainedIn_iff]
          intro e he
          exact ⟨e.2, Entries.get?_of_mem h.1 (hkept e he),
            containedIn_refl e.2 (membersWellFormed_iff.1 h.2 e (hkept e he))⟩
      | _ => exact ⟨h, containedIn_refl _ h⟩
    | cons token rest =>
      rw [without]
      split
      · rename_i c hc
        obtain ⟨members, rfl, hget⟩ := member?_eq_some hc
        have hcwf : c.WellFormed := membersWellFormed_iff.1 h.2 _ (Entries.mem_of_get? hget)
        obtain ⟨hwf, hinside⟩ := ih hcwf
        exact ⟨wellFormed_insert h key hwf, containedIn_insert h hget hinside⟩
      · exact ⟨h, containedIn_refl v h⟩

theorem resolve?_without {v : Json} {path : List String} (hne : path ≠ [])
    (h : ByMembers path v) : resolve? path (v.without path) = none := by
  induction path generalizing v with
  | nil => exact absurd rfl hne
  | cons key rest ih =>
    obtain ⟨members, rfl, hbelow⟩ := h
    cases rest with
    | nil =>
      change resolve? [key] (obj (Entries.erase key members)) = none
      rw [resolve?_singleton, Entries.get?_erase, if_pos rfl]
    | cons token rest =>
      rw [without]
      split
      · rename_i c hc
        rw [member?_obj] at hc
        rw [setMember, members?, Option.getD_some, resolve?_cons, Entries.get?_insert, if_pos rfl]
        exact ih (by simp) (hbelow c hc)
      · rename_i hnone
        rw [member?_obj] at hnone
        rw [resolve?_cons, hnone]
        rfl

/-- What lies apart from the path stays as it is. -/
theorem resolve?_without_of_apart {v : Json} {path other : List String} (h : Apart path other) :
    resolve? other (v.without path) = resolve? other v := by
  induction path generalizing v other with
  | nil => exact absurd List.nil_prefix h.1
  | cons key rest ih =>
    cases other with
    | nil => exact absurd List.nil_prefix h.2
    | cons first further =>
      cases rest with
      | nil =>
        have hne : key ≠ first := by
          intro heq
          exact h.1 (heq ▸ List.prefix_append [key] further)
        cases v with
        | obj members =>
          change resolve? (first :: further) (obj (Entries.erase key members)) = _
          rw [resolve?_cons, resolve?_cons, Entries.get?_erase, if_neg hne]
        | _ => rfl
      | cons token rest =>
        rw [without]
        split
        · rename_i c hc
          obtain ⟨members, rfl, hget⟩ := member?_eq_some hc
          rw [setMember, members?, Option.getD_some, resolve?_cons, resolve?_cons,
            Entries.get?_insert]
          by_cases heq : key = first
          · subst heq
            have hbelow : Apart (token :: rest) further :=
              Apart.of_append (show Apart ([key] ++ token :: rest) ([key] ++ further) from h)
            rw [if_pos rfl, hget, Option.bind_some, Option.bind_some]
            exact ih hbelow
          · rw [if_neg heq]
        · rfl

/-- What is found in a part is found in the whole. -/
theorem resolve?_eq_none_of_containedIn {v w : Json} (h : v.containedIn w = true)
    {path : List String} (hw : resolve? path w = none) : resolve? path v = none := by
  cases hx : resolve? path v with
  | none => rfl
  | some x =>
    obtain ⟨y, hy, -⟩ := containedIn_resolve? h hx
    rw [hw] at hy
    cases hy

theorem containedIn_withoutAll {v : Json} (h : v.WellFormed) (paths : List (List String)) :
    (v.withoutAll paths).WellFormed ∧ (v.withoutAll paths).containedIn v = true := by
  induction paths generalizing v with
  | nil => exact ⟨h, containedIn_refl v h⟩
  | cons path rest ih =>
    obtain ⟨hfirst, hinside⟩ := containedIn_without h path
    obtain ⟨hwf, hrest⟩ := ih hfirst
    exact ⟨hwf, containedIn_trans _ hrest hinside⟩

theorem resolve?_withoutAll_of_apart {v : Json} {paths : List (List String)}
    {other : List String} (h : ∀ path ∈ paths, Apart path other) :
    resolve? other (v.withoutAll paths) = resolve? other v := by
  induction paths generalizing v with
  | nil => rfl
  | cons path rest ih =>
    have hrest := ih (v := v.without path) (fun p hp => h p (List.mem_cons_of_mem _ hp))
    exact hrest.trans (resolve?_without_of_apart (h path List.mem_cons_self))

/-- Nothing is left at any of the paths. -/
theorem resolve?_withoutAll {v : Json} (hv : v.WellFormed) {paths : List (List String)}
    (hby : ∀ path ∈ paths, path ≠ [] ∧ ByMembers path v) {path : List String}
    (hpath : path ∈ paths) : resolve? path (v.withoutAll paths) = none := by
  induction paths generalizing v with
  | nil => cases hpath
  | cons first rest ih =>
    obtain ⟨hwf, hinside⟩ := containedIn_without hv first
    rcases List.mem_cons.1 hpath with rfl | hrest
    · obtain ⟨hne, hfirst⟩ := hby path List.mem_cons_self
      exact resolve?_eq_none_of_containedIn (containedIn_withoutAll hwf rest).2
        (resolve?_without hne hfirst)
    · refine ih hwf (fun other hother => ?_) hrest
      obtain ⟨hne, hobjects⟩ := hby other (List.mem_cons_of_mem _ hother)
      exact ⟨hne, hobjects.of_containedIn hinside⟩

end DesiredState.Json
