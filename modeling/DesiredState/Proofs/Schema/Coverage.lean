import DesiredState.Proofs.Json.Without
import DesiredState.Proofs.Schema.Place

/-!
Paths that reach every field.
Some paths cover a schema if each field that an expanded object can have is
named by one of them, or holds a block that is always there and whose fields
are covered in turn. One document is then contained in another one if it is at
each of these paths.
-/
namespace DesiredState.Schema

open Json (resolve?)

/-- What is left of the paths that go through a member. -/
def below (key : String) (paths : List (List String)) : List (List String) :=
  paths.filterMap fun
    | first :: rest => if first = key then some rest else none
    | [] => none

theorem mem_below {key : String} {path : List String} {paths : List (List String)} :
    path ∈ below key paths ↔ key :: path ∈ paths := by
  unfold below
  rw [List.mem_filterMap]
  constructor
  · rintro ⟨whole, hwhole, hrest⟩
    cases whole with
    | nil => cases hrest
    | cons first rest =>
      obtain ⟨rfl, rfl⟩ : first = key ∧ rest = path := by simpa using hrest
      exact hwhole
  · intro h
    exact ⟨key :: path, h, by simp⟩

mutual

def Shape.coveredBy (paths : List (List String)) : Shape → Bool
  | .block fields => fields.coveredBy paths
  | .leaf _ | .blocks _ | .backend => false

def Fields.coveredBy (paths : List (List String)) : Fields → Bool
  | .nil => true
  | .typed _ _ rest => rest.coveredBy paths
  | .cons field shape rest =>
    (paths.contains [field.member] || !field.presence.isKept ||
      (field.presence.isSolid && shape.coveredBy (below field.member paths))) &&
    rest.coveredBy paths

end

theorem Presence.sent_of_not_isKept {p : Presence} (h : p.isKept = false) {α : Type} {f : α → α}
    {v : p.Held α} (hv : p.configured f v = v) : p.sent v = none := by
  cases p with
  | reported | internal => exact hv.symm
  | _ => cases h

theorem Presence.isKept_of_isSolid {p : Presence} (h : p.isSolid) : p.isKept := by
  cases p with
  | required | expected => rfl
  | _ => cases h

theorem Presence.configured_of_sent {p : Presence} (h : p.isKept) {α : Type} {f : α → α}
    {v : p.Held α} (hv : p.configured f v = v) {x : α} (hx : p.sent v = some x) : f x = x := by
  cases p with
  | required | defaulted =>
    cases hx
    exact hv
  | optional | expected =>
    obtain rfl : v = some x := hx
    exact Option.some.inj hv
  | reported | internal => cases h

/-- A part of what a configured value has at a member is contained in what a complete one has
there, if it is so at all paths that cover the schema. -/
theorem Fields.containedIn_of_coveredBy (fields : Fields) (hs : fields.Lawful)
    {paths : List (List String)} (hcovered : fields.coveredBy paths = true)
    {v w : fields.Value} (hv : fields.configured v = v) (hw : fields.Complete w)
    {key : String} {x u : Json} (hu : Entries.get? (fields.encode v) key = some u)
    (hxwf : x.WellFormed) (hx : x.containedIn u = true)
    (hpaths : ∀ path, key :: path ∈ paths → ∀ z, resolve? path x = some z →
      ∃ y, resolve? (key :: path) (.obj (fields.encode w)) = some y ∧ z.containedIn y = true) :
    ∃ y, Entries.get? (fields.encode w) key = some y ∧ x.containedIn y = true := by
  match fields, v, w with
  | .nil, _, _ => cases hu
  | .typed apiVersion kind rest, v, w =>
    by_cases hversion : "apiVersion" = key
    · subst hversion
      have hget : ∀ v, Entries.get? ((Fields.typed apiVersion kind rest).encode v) "apiVersion" =
          some (.str apiVersion) := by
        intro v
        rw [encode_typed, Entries.get?_insert, if_pos rfl]
      rw [hget] at hu ⊢
      exact ⟨u, hu, hx⟩
    · by_cases hkind : "kind" = key
      · subst hkind
        have hget : ∀ v, Entries.get? ((Fields.typed apiVersion kind rest).encode v) "kind" =
            some (.str kind) := by
          intro v
          rw [encode_typed, Entries.get?_insert, if_neg hversion, Entries.get?_insert, if_pos rfl]
        rw [hget] at hu ⊢
        exact ⟨u, hu, hx⟩
      · have hget := get?_encode_typed apiVersion kind rest
        simp only [Json.resolve?_cons, hget _ hversion hkind] at hu hpaths ⊢
        exact rest.containedIn_of_coveredBy hs.2.2 hcovered hv hw hu hxwf hx hpaths
  | .cons field shape rest, (v, vs), (w, ws) =>
    obtain ⟨⟨-, hmember, -⟩, hshape, hrest⟩ := hs
    obtain ⟨hfirst, hothers⟩ := Bool.and_eq_true_iff.1 hcovered
    obtain ⟨hv, hvs⟩ := Prod.ext_iff.1 hv
    by_cases hkey : field.member = key
    · subst hkey
      by_cases hnamed : [field.member] ∈ paths
      · obtain ⟨y, hy, hxy⟩ := hpaths [] hnamed x rfl
        rw [Json.resolve?_singleton] at hy
        exact ⟨y, hy, hxy⟩
      · rw [get?_encode_cons hmember] at hu
        obtain ⟨vx, hvx, hux⟩ := Option.map_eq_some_iff.1 hu
        have hsolid : field.presence.isSolid = true ∧
            shape.coveredBy (below field.member paths) = true := by
          cases hkept : field.presence.isKept with
          | false =>
            have hnone := Presence.sent_of_not_isKept hkept hv
            rw [hvx] at hnone
            cases hnone
          | true => simpa [hnamed, hkept] using hfirst
        obtain ⟨hsolid, hinner⟩ := hsolid
        obtain ⟨wx, hwx, hwcomplete⟩ : ∃ wx, field.presence.sent w = some wx ∧ shape.Complete wx :=
          Presence.sent_solid hsolid hw.1
        have hvconfigured :=
          Presence.configured_of_sent (Presence.isKept_of_isSolid hsolid) hv hvx
        match shape with
        | .leaf _ | .blocks _ | .backend => cases hinner
        | .block inner =>
          subst hux
          obtain ⟨xs, rfl⟩ := Json.eq_obj_of_containedIn_obj hx
          have hthere : Entries.get? ((Fields.cons field (.block inner) rest).encode (w, ws))
              field.member = some (.obj (inner.encode wx)) := by
            rw [get?_encode_cons hmember, hwx]
            rfl
          refine ⟨_, hthere, ?_⟩
          rw [Json.containedIn, Json.membersContainedIn_iff]
          intro e he
          obtain ⟨u', hu', hinside⟩ := Json.membersContainedIn_iff.1 hx e he
          have hgiven : Entries.get? xs e.1 = some e.2 := Entries.get?_of_mem hxwf.1 he
          refine inner.containedIn_of_coveredBy hshape hinner hvconfigured hwcomplete hu'
            (Json.membersWellFormed_iff.1 hxwf.2 e he) hinside ?_
          intro path hpath z hz
          have hfound : resolve? (e.1 :: path) (.obj xs) = some z := by
            rw [Json.resolve?_cons, hgiven]
            exact hz
          obtain ⟨y, hy, hzy⟩ := hpaths (e.1 :: path) (mem_below.1 hpath) z hfound
          rw [Json.resolve?_cons, hthere] at hy
          exact ⟨y, hy, hzy⟩
    · simp only [Json.resolve?_cons, get?_encode_rest _ _ hkey] at hu hpaths ⊢
      exact rest.containedIn_of_coveredBy hrest hothers hvs hw.2 hu hxwf hx hpaths

end DesiredState.Schema
