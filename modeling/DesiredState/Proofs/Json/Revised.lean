import DesiredState.Patch.Apply
import DesiredState.Proofs.Json.WellFormed
import DesiredState.Proofs.Numeral
import Mathlib.Data.List.Infix

/-!
One place of a document revised.
A revision gives a path a new value, or none, and leaves every path alone that
neither leads through it nor to it. Objects on the way stay objects. Changing
the value at a path revises it, and so does changing a member of the object at
its parent.
-/
namespace DesiredState

/-- Neither path leads through the other. -/
def Apart (first second : List String) : Prop :=
  ¬ first <+: second ∧ ¬ second <+: first

theorem Apart.symm {first second : List String} (h : Apart first second) :
    Apart second first :=
  ⟨h.2, h.1⟩

/-- What lies apart from a path lies apart from what the path leads to. -/
theorem Apart.of_prefix {first second longer : List String} (h : Apart first second)
    (hle : first <+: longer) : Apart longer second := by
  constructor
  · intro hlonger
    exact h.1 (hle.trans hlonger)
  · intro hsecond
    rcases List.prefix_or_prefix_of_prefix hle hsecond with hfirst | hfirst
    · exact h.1 hfirst
    · exact h.2 hfirst

theorem Apart.of_append {path first second : List String}
    (h : Apart (path ++ first) (path ++ second)) : Apart first second := by
  rw [Apart, List.prefix_append_right_inj, List.prefix_append_right_inj] at h
  exact h

namespace Json

/-- `w` is `v` with another value at a path. -/
structure Revised (path : List String) (value : Option Json) (v w : Json) : Prop where
  slot : resolve? path w = value
  frame : ∀ other, Apart path other → resolve? other w = resolve? other v
  above : ∀ other members, other <+: path → other ≠ path →
    resolve? other v = some (.obj members) → ∃ members', resolve? other w = some (.obj members')

namespace Revised

variable {path rest : List String} {value : Option Json} {v w u c c' : Json}

theorem rfl_at (path : List String) (v : Json) : Revised path (resolve? path v) v v :=
  ⟨rfl, fun _ _ => rfl, fun _ members _ _ h => ⟨members, h⟩⟩

/-- The later one of two revisions of a place counts. -/
theorem trans {earlier : Option Json} (h : Revised path earlier v w)
    (h' : Revised path value w u) : Revised path value v u := by
  refine ⟨h'.slot, ?_, ?_⟩
  · intro other hother
    rw [h'.frame other hother, h.frame other hother]
  · intro other members hprefix hne hobject
    obtain ⟨_, hbetween⟩ := h.above other members hprefix hne hobject
    exact h'.above other _ hprefix hne hbetween

/-- Revising below a place that is itself revised. -/
theorem within (h : Revised path (some c') v w) (hc : resolve? path v = some c)
    (h' : Revised rest value c c') : Revised (path ++ rest) value v w := by
  refine ⟨?_, ?_, ?_⟩
  · rw [resolve?_append, h.slot, Option.bind_some, h'.slot]
  · intro other hother
    by_cases hpath : path <+: other
    · obtain ⟨further, rfl⟩ := hpath
      rw [resolve?_append, resolve?_append, h.slot, hc, Option.bind_some, Option.bind_some]
      exact h'.frame further hother.of_append
    · refine h.frame other ⟨hpath, fun hother' => hother.2 ?_⟩
      exact hother'.trans (List.prefix_append path rest)
  · intro other members hprefix hne hobject
    rcases List.prefix_or_prefix_of_prefix hprefix (List.prefix_append path rest) with hle | hle
    · by_cases heq : other = path
      · subst heq
        cases rest with
        | nil => simp at hne
        | cons token rest =>
          have hroot := h'.above [] members List.nil_prefix (by simp)
            (hc.symm.trans hobject)
          obtain ⟨members', hmembers'⟩ := hroot
          cases hmembers'
          exact ⟨members', h.slot⟩
      · exact h.above other members hle heq hobject
    · obtain ⟨further, rfl⟩ := hle
      rw [resolve?_append, h.slot, Option.bind_some]
      rw [resolve?_append, hc, Option.bind_some] at hobject
      refine h'.above further members ((List.prefix_append_right_inj path).1 hprefix) ?_ hobject
      intro heq
      exact hne (heq ▸ rfl)

/-- Changing what one token selects, and no other. -/
theorem of_step {token : String} (hobject : ∀ members, v = .obj members →
    ∃ members', w = .obj members')
    (h : ∀ other, other ≠ token → w.step? other = v.step? other) :
    Revised [token] (w.step? token) v w := by
  refine ⟨?_, ?_, ?_⟩
  · simp [resolve?]
  · intro other hother
    cases other with
    | nil => exact absurd List.nil_prefix hother.2
    | cons first further =>
      have hne : first ≠ token := by
        intro heq
        exact hother.1 (heq ▸ List.prefix_append [first] further)
      simp only [resolve?, h first hne]
  · intro other members hprefix hne hmembers
    have hnil : other = [] := by
      rcases List.prefix_cons_iff.1 hprefix with hnil | ⟨further, rfl, hfurther⟩
      · exact hnil
      · rw [List.prefix_nil.1 hfurther] at hne
        exact absurd rfl hne
    subst hnil
    obtain ⟨members', hw⟩ := hobject members (Option.some.inj hmembers)
    exact ⟨members', congrArg some hw⟩

/-- Changing one member of an object. -/
theorem of_member {key : String} {members members' : List (String × Json)}
    (h : ∀ other, other ≠ key → Entries.get? members' other = Entries.get? members other) :
    Revised [key] (Entries.get? members' key) (.obj members) (.obj members') :=
  of_step (fun _ _ => ⟨members', rfl⟩) h

/-- A place apart from the revised one still has an object for its parent. -/
theorem parent (h : Revised path value v w) {parents : List String} {key : String}
    (hapart : Apart path (parents ++ [key])) {members : List (String × Json)}
    (hparent : resolve? parents v = some (.obj members)) :
    ∃ members', resolve? parents w = some (.obj members') := by
  by_cases habove : parents <+: path
  · have hne : parents ≠ path := fun heq => hapart.1 (heq ▸ List.prefix_append parents [key])
    exact h.above parents members habove hne hparent
  · have hbelow : ¬ path <+: parents := fun hle =>
      hapart.1 (hle.trans (List.prefix_append parents [key]))
    exact ⟨members, (h.frame parents ⟨hbelow, habove⟩).trans hparent⟩

theorem of_insert (key : String) (value : Json) (members : List (String × Json)) :
    Revised [key] (some value) (.obj members) (.obj (Entries.insert key value members)) := by
  have hslot : Entries.get? (Entries.insert key value members) key = some value := by
    simp [Entries.get?_insert]
  rw [← hslot]
  refine of_member fun other hother => ?_
  rw [Entries.get?_insert, if_neg (Ne.symm hother)]

variable {key : String} {a a' b b' : List (String × Json)}

/-- The members that a path does not lead through stay as they are. -/
theorem get?_of_ne (h : Revised (key :: rest) value (.obj a) (.obj a')) {other : String}
    (hne : other ≠ key) : Entries.get? a' other = Entries.get? a other := by
  have hapart : Apart (key :: rest) [other] := by
    constructor
    · intro hle
      exact hne (List.cons_prefix_cons.1 hle).1.symm
    · intro hle
      exact hne (List.cons_prefix_cons.1 hle).1
  have hframe := h.frame [other] hapart
  rwa [resolve?_singleton, resolve?_singleton] at hframe

/-- What a path leads through is revised at the rest of the path. -/
theorem below {token : String} (h : Revised (key :: token :: rest) value (.obj a) (.obj a'))
    (ha : Entries.get? a key = some (.obj b)) :
    ∃ b', Entries.get? a' key = some (.obj b') ∧
      Revised (token :: rest) value (.obj b) (.obj b') := by
  have hprefix : [key] <+: key :: token :: rest := List.prefix_append [key] _
  obtain ⟨b', hb'⟩ := h.above [key] b hprefix (by simp) (by rw [resolve?_singleton, ha])
  rw [resolve?_singleton] at hb'
  have hbefore : ∀ path, resolve? (key :: path) (.obj a) = resolve? path (.obj b) := by
    intro path
    rw [resolve?_cons, ha, Option.bind_some]
  have hafter : ∀ path, resolve? (key :: path) (.obj a') = resolve? path (.obj b') := by
    intro path
    rw [resolve?_cons, hb', Option.bind_some]
  refine ⟨b', hb', ?_, ?_, ?_⟩
  · rw [← hafter]
    exact h.slot
  · intro other hother
    rw [← hafter, ← hbefore]
    refine h.frame (key :: other) ⟨fun hle => hother.1 ?_, fun hle => hother.2 ?_⟩
    · exact (List.cons_prefix_cons.1 hle).2
    · exact (List.cons_prefix_cons.1 hle).2
  · intro other members hle hne hobject
    rw [← hafter]
    rw [← hbefore] at hobject
    refine h.above (key :: other) members (List.cons_prefix_cons.2 ⟨rfl, hle⟩) ?_ hobject
    intro heq
    exact hne (List.cons.inj heq).2

/-- Members that a path does not lead through do not matter as long as they stay. -/
theorem of_get? (h : Revised (key :: rest) value (.obj a) (.obj a'))
    (hkey : Entries.get? b key = Entries.get? a key)
    (hkey' : Entries.get? b' key = Entries.get? a' key)
    (hother : ∀ other, other ≠ key → Entries.get? b' other = Entries.get? b other) :
    Revised (key :: rest) value (.obj b) (.obj b') := by
  have hbefore : ∀ path, resolve? (key :: path) (.obj b) = resolve? (key :: path) (.obj a) := by
    intro path
    rw [resolve?_cons, resolve?_cons, hkey]
  have hafter : ∀ path, resolve? (key :: path) (.obj b') = resolve? (key :: path) (.obj a') := by
    intro path
    rw [resolve?_cons, resolve?_cons, hkey']
  refine ⟨?_, ?_, ?_⟩
  · rw [hafter]
    exact h.slot
  · intro other hapart
    cases other with
    | nil => exact absurd List.nil_prefix hapart.2
    | cons token path =>
      by_cases htoken : token = key
      · subst htoken
        rw [hbefore, hafter]
        exact h.frame _ hapart
      · rw [resolve?_cons, resolve?_cons, hother token htoken]
  · intro other members hle hne hobject
    cases other with
    | nil => exact ⟨b', rfl⟩
    | cons token path =>
      obtain rfl : token = key := (List.cons_prefix_cons.1 hle).1
      rw [hbefore] at hobject
      rw [hafter]
      exact h.above _ members hle hne hobject

end Revised

/-- Revisions of several places, one after the other. -/
def Revisions : List (List String × Option Json) → Json → Json → Prop
  | [], v, w => w = v
  | (path, value) :: rest, v, w => ∃ u, Revised path value v u ∧ Revisions rest u w

namespace Revisions

variable {places : List (List String × Option Json)} {v w : Json}

/-- What lies apart from all places stays as it is. -/
theorem frame (h : Revisions places v w) {path : List String}
    (hpath : ∀ place ∈ places, Apart place.1 path) : resolve? path w = resolve? path v := by
  induction places generalizing v with
  | nil =>
    obtain rfl : w = v := h
    rfl
  | cons place rest ih =>
    obtain ⟨u, hfirst, hrest⟩ := h
    rw [ih hrest (fun other hother => hpath other (List.mem_cons_of_mem _ hother))]
    exact hfirst.frame path (hpath place List.mem_cons_self)

/-- Places apart from each other keep the value that each of them got. -/
theorem slot (h : Revisions places v w)
    (hapart : places.Pairwise (fun a b => Apart a.1 b.1)) {path : List String}
    {value : Option Json} (hmem : (path, value) ∈ places) : resolve? path w = value := by
  induction places generalizing v with
  | nil => simp at hmem
  | cons place rest ih =>
    obtain ⟨u, hfirst, hrest⟩ := h
    obtain ⟨hplace, hothers⟩ := List.pairwise_cons.1 hapart
    rcases List.mem_cons.1 hmem with heq | hmem
    · subst heq
      rw [hrest.frame (fun other hother => (hplace other hother).symm)]
      exact hfirst.slot
    · exact ih hrest hothers hmem

end Revisions

end Json

namespace Patch

open Json (Revised resolve?)

variable {change : Json → Option Json} {v x y : Json}

theorem changeAt_append (change : Json → Option Json) (first rest : List String) (v : Json) :
    changeAt change (first ++ rest) v = changeAt (changeAt change rest) first v := by
  induction first generalizing v with
  | nil => rfl
  | cons token tokens ih =>
    have hrest : changeAt change (tokens ++ rest) = changeAt (changeAt change rest) tokens :=
      funext ih
    simp only [List.cons_append, changeAt, hrest]

theorem step?_set {items : List Json} {token : String} {i : Nat}
    (hi : Pointer.index? token = some i) (y : Json) {other : String} (h : other ≠ token) :
    (Json.arr (items.set i y)).step? other = (Json.arr items).step? other := by
  simp only [Json.step?]
  cases hj : Pointer.index? other with
  | none => rfl
  | some j =>
    -- Two numerals without leading zeros that name one element are one token.
    have hij : i ≠ j := by
      intro heq
      rw [Pointer.eq_repr_of_index? hi, Pointer.eq_repr_of_index? hj, heq] at h
      exact h rfl
    simp [List.getElem?_set_ne hij]

theorem changeChild_eq_some {token : String} (hx : v.step? token = some x)
    (hy : change x = some y) :
    ∃ w, changeChild change token v = some w ∧ Revised [token] (some y) v w := by
  cases v with
  | obj members =>
    have hget : Entries.get? members token = some x := hx
    exact ⟨.obj (Entries.insert token y members), by simp [changeChild, hget, hy],
      Revised.of_insert token y members⟩
  | arr items =>
    obtain ⟨i, hi, hitem⟩ := Option.bind_eq_some_iff.1 hx
    refine ⟨.arr (items.set i y), by simp [changeChild, hi, hitem, hy], ?_⟩
    have hlt : i < items.length := (List.getElem?_eq_some_iff.1 hitem).1
    have hslot : (Json.arr (items.set i y)).step? token = some y := by
      simp [Json.step?, hi, hlt]
    rw [← hslot]
    refine Revised.of_step (fun members h => by cases h) fun other hother => ?_
    exact step?_set hi y hother
  | _ => simp [Json.step?] at hx

/-- A change at a path succeeds where it succeeds on the value there, and revises the path. -/
theorem changeAt_eq_some {path : List String} (hx : resolve? path v = some x)
    (hy : change x = some y) :
    ∃ w, changeAt change path v = some w ∧ Revised path (some y) v w := by
  induction path generalizing v with
  | nil =>
    cases hx
    refine ⟨y, hy, rfl, ?_, ?_⟩
    · intro other hother
      exact absurd List.nil_prefix hother.1
    · intro other members hprefix hne
      exact absurd (List.prefix_nil.1 hprefix) hne
  | cons token rest ih =>
    obtain ⟨c, hc, hrest⟩ := Option.bind_eq_some_iff.1 hx
    obtain ⟨c', hc', hbelow⟩ := ih hrest
    obtain ⟨w, hw, hrevised⟩ := changeChild_eq_some hc hc'
    refine ⟨w, hw, hrevised.within ?_ hbelow⟩
    simp [resolve?, hc]

/-- A change of the members of an object that touches one of them revises this member. -/
theorem changeAt_member {parents : List String} {members members' : List (String × Json)}
    {key : String} (hx : resolve? parents v = some (.obj members))
    (hy : change (.obj members) = some (.obj members'))
    (h : ∀ other, other ≠ key → Entries.get? members' other = Entries.get? members other) :
    ∃ w, changeAt change parents v = some w ∧
      Revised (parents ++ [key]) (Entries.get? members' key) v w := by
  obtain ⟨w, hw, hrevised⟩ := changeAt_eq_some hx hy
  exact ⟨w, hw, hrevised.within hx (Revised.of_member h)⟩

end Patch

end DesiredState
