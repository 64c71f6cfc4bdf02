import DesiredState.Proofs.Patch.Leads

/-!
What a rule makes of a field.
The operations of a rule are computed from the previous and the desired value
of its field, and may act on a third one that the previous value was read off.
They succeed on it if it `Covers` the previous value, and what they make of it
is its `outcome`.
-/
namespace DesiredState

open Json (Revised resolve?)

namespace Rule

/-- Whether a previous key is removed. -/
def drops (r : Rule) (desired : List (String × Json)) (key : String) : Bool :=
  !Entries.contains desired key &&
    !(r.comparison = .perKeyUnmanaged && isServerManaged key)

/-- The members after those that changed are written. -/
def written (previous : List (String × Json)) :
    List (String × Json) → List (String × Json) → List (String × Json)
  | [], members => members
  | (k, d) :: desired, members =>
    written previous desired
      (if Entries.get? previous k == some d then members else Entries.insert k d members)

/-- The members after those that are no longer desired are removed. -/
def swept (r : Rule) (desired : List (String × Json)) :
    List (String × Json) → List (String × Json) → List (String × Json)
  | [], members => members
  | (k, _) :: previous, members =>
    swept r desired previous (if r.drops desired k then Entries.erase k members else members)

/-- The elements after those that differ are replaced. -/
def mixed (r : Rule) : List Json → List Json → List Json → List Json
  | p :: ps, d :: ds, x :: xs =>
    (if Patch.differs r d p then d else x) :: mixed r ps ds xs
  | _, _, xs => xs

/-- A value after its changed parts, or all of it, are replaced. -/
def replaced (r : Rule) (previous desired x : Json) : Json :=
  match previous, desired, x with
  | .arr ps, .arr ds, .arr xs => if ps.length = ds.length then .arr (mixed r ps ds xs) else .arr ds
  | _, d, _ => d

def wholeOutcome (r : Rule) (previous desired x : Option Json) : Option Json :=
  match previous, desired with
  | none, none => x
  | some _, none => if r.computed then x else none
  | none, some d => some d
  | some p, some d => if Patch.differs r d p then x.map (r.replaced p d) else x

def keyOutcome (r : Rule) (previous desired x : Option Json) : Option Json :=
  match previous.bind Json.members?, desired.bind Json.members? with
  | some ps, d =>
    x.map fun x => .obj (r.swept (d.getD []) ps (written ps (d.getD []) (x.members?.getD [])))
  | none, some (e :: d) => some (.obj (e :: d))
  | none, _ => x

/-- What the operations of a rule make of a value. -/
def outcome (r : Rule) (previous desired x : Option Json) : Option Json :=
  if r.comparison = .whole then r.wholeOutcome previous desired x
  else r.keyOutcome previous desired x

/-- A value has the parts of the previous one that operations may act on. -/
structure Covers (r : Rule) (previous x : Option Json) : Prop where
  present : previous.isSome → x.isSome
  items : r.comparison = .whole → ∀ ps, previous = some (.arr ps) →
    ∃ xs, x = some (.arr xs) ∧ xs.length = ps.length
  members : r.comparison ≠ .whole → ∀ ps, previous = some (.obj ps) →
    ∃ xs, x = some (.obj xs) ∧ ∀ key, Entries.contains ps key → Entries.contains xs key

theorem covers_self (r : Rule) (p : Option Json) : r.Covers p p :=
  ⟨id, fun _ ps h => ⟨ps, h, rfl⟩, fun _ ps h => ⟨ps, h, fun _ hkey => hkey⟩⟩

theorem get?_written {previous desired : List (String × Json)} (h : Entries.Sorted desired)
    (members : List (String × Json)) (key : String) :
    Entries.get? (written previous desired members) key =
      match Entries.get? desired key with
      | some d => if Entries.get? previous key == some d then Entries.get? members key else some d
      | none => Entries.get? members key := by
  induction desired generalizing members with
  | nil => rfl
  | cons e rest ih =>
    obtain ⟨k, d⟩ := e
    rw [written, ih h.tail, Entries.get?_cons]
    by_cases hk : k = key
    · subst hk
      rw [h.get?_rest (String.lt_irrefl k), if_pos rfl]
      by_cases hsame : (Entries.get? previous k == some d) = true
      · simp [hsame]
      · simp [hsame, Entries.get?_insert]
    · have hsame : Entries.get? (if Entries.get? previous k == some d then members
          else Entries.insert k d members) key = Entries.get? members key := by
        split
        · rfl
        · rw [Entries.get?_insert, if_neg hk]
      rw [if_neg hk, hsame]

theorem get?_swept (r : Rule) (desired previous members : List (String × Json)) (key : String) :
    Entries.get? (r.swept desired previous members) key =
      if Entries.contains previous key && r.drops desired key then none
      else Entries.get? members key := by
  induction previous generalizing members with
  | nil => rfl
  | cons e rest ih =>
    obtain ⟨k, p⟩ := e
    rw [swept, ih]
    by_cases hk : k = key
    · subst hk
      have hhere : Entries.contains ((k, p) :: rest) k = true := by
        simp [Entries.contains, Entries.get?_cons]
      rw [hhere]
      cases hdrops : r.drops desired k with
      | true => simp [Entries.get?_erase]
      | false => simp
    · have hrest : Entries.contains ((k, p) :: rest) key = Entries.contains rest key := by
        simp [Entries.contains, Entries.get?_cons, hk]
      have hsame : Entries.get? (if r.drops desired k then Entries.erase k members
          else members) key = Entries.get? members key := by
        split
        · rw [Entries.get?_erase, if_neg hk]
        · rfl
      rw [hrest, hsame]

theorem contains_written (previous desired : List (String × Json))
    {members : List (String × Json)} {key : String} (h : Entries.contains members key) :
    Entries.contains (written previous desired members) key := by
  induction desired generalizing members with
  | nil => exact h
  | cons e rest ih =>
    rw [written]
    apply ih
    split
    · exact h
    · rw [Entries.contains, Entries.get?_insert]
      split
      · rfl
      · exact h

theorem sorted_written (previous desired : List (String × Json)) {members : List (String × Json)}
    (h : Entries.Sorted members) : Entries.Sorted (written previous desired members) := by
  induction desired generalizing members with
  | nil => exact h
  | cons e rest ih =>
    rw [written]
    apply ih
    split
    · exact h
    · exact Entries.sorted_insert _ _ h

theorem sorted_swept (r : Rule) (desired previous : List (String × Json))
    {members : List (String × Json)} (h : Entries.Sorted members) :
    Entries.Sorted (r.swept desired previous members) := by
  induction previous generalizing members with
  | nil => exact h
  | cons e rest ih =>
    rw [swept]
    apply ih
    split
    · exact Entries.sorted_erase _ h
    · exact h

end Rule

namespace Patch

variable {r : Rule} {tokens parents : List String} {key : String} {v : Json}

theorem leads_changedKeys (h : Pointer.tokens? r.pointer = some tokens)
    (previous desired : List (String × Json)) {members : List (String × Json)}
    (hx : resolve? tokens v = some (.obj members)) :
    ∃ w, Leads (changedKeys r previous desired) v w ∧
      Revised tokens (some (.obj (Rule.written previous desired members))) v w := by
  induction desired generalizing v members with
  | nil => exact ⟨v, leads_nil v, hx ▸ Revised.rfl_at tokens v⟩
  | cons e rest ih =>
    obtain ⟨k, d⟩ := e
    simp only [changedKeys, List.filterMap_cons, Rule.written] at ih ⊢
    split
    · rename_i hsame
      split at hsame
      · rename_i heq
        simpa [heq] using ih hx
      · simp at hsame
    · rename_i op hop
      split at hop
      · simp at hop
      · rename_i hne
        cases hop
        obtain ⟨w, hw, hrevised⟩ := leads_addMember h hx k d
        obtain ⟨u, hu, hrest⟩ := ih hrevised.slot
        simp only [hne]
        exact ⟨u, hw.cons hu, hrevised.trans hrest⟩

theorem leads_droppedKeys (h : Pointer.tokens? r.pointer = some tokens)
    (previous desired : List (String × Json)) (hprevious : Entries.Sorted previous)
    {members : List (String × Json)} (hx : resolve? tokens v = some (.obj members))
    (hkeys : ∀ e ∈ previous, Entries.contains members e.1) :
    ∃ w, Leads (droppedKeys r previous desired) v w ∧
      Revised tokens (some (.obj (r.swept desired previous members))) v w := by
  induction previous generalizing v members with
  | nil => exact ⟨v, leads_nil v, hx ▸ Revised.rfl_at tokens v⟩
  | cons e rest ih =>
    obtain ⟨k, p⟩ := e
    have hdrops : (if Entries.contains desired k then none
        else if r.comparison = .perKeyUnmanaged ∧ isServerManaged k then none
        else some (remove (Pointer.member r.pointer k))) =
        if r.drops desired k then some (remove (Pointer.member r.pointer k)) else none := by
      cases hc : Entries.contains desired k <;> simp [Rule.drops, hc]
      split <;> simp_all
    simp only [droppedKeys, List.filterMap_cons, Rule.swept] at ih ⊢
    rw [hdrops]
    cases hd : r.drops desired k with
    | false =>
      simpa using ih hprevious.tail hx (fun e he => hkeys e (List.mem_cons_of_mem _ he))
    | true =>
      obtain ⟨w, hw, hrevised⟩ := leads_removeMember h hx (hkeys (k, p) List.mem_cons_self)
      obtain ⟨u, hu, hrest⟩ := ih hprevious.tail hrevised.slot (fun e he => by
        -- Each key occurs once, so the others are still there.
        have hne : k ≠ e.1 := hprevious.ne_of_mem he
        have hthere := hkeys e (List.mem_cons_of_mem _ he)
        rwa [Entries.contains, Entries.get?_erase, if_neg hne])
      exact ⟨u, hw.cons hu, hrevised.trans hrest⟩

theorem leads_elements (h : Pointer.tokens? r.pointer = some tokens) (ps ds : List Json)
    {before xs : List Json} (hx : resolve? tokens v = some (.arr (before ++ xs)))
    (hlength : xs.length = ps.length) :
    ∃ w, Leads (elementOperations r before.length ps ds) v w ∧
      Revised tokens (some (.arr (before ++ r.mixed ps ds xs))) v w := by
  have hdone : ∃ w, Leads [] v w ∧ Revised tokens (some (.arr (before ++ xs))) v w :=
    ⟨v, leads_nil v, hx ▸ Revised.rfl_at tokens v⟩
  induction ps generalizing v before ds xs with
  | nil => simpa [elementOperations, Rule.mixed] using hdone
  | cons p ps ih =>
    cases ds with
    | nil => simpa [elementOperations, Rule.mixed] using hdone
    | cons d ds =>
      cases xs with
      | nil => simp at hlength
      | cons x xs =>
        have hlength : xs.length = ps.length := by simpa using hlength
        -- The element in question moves from the rest to the front.
        have happend : ∀ y : Json, before ++ y :: xs = (before ++ [y]) ++ xs := by simp
        have hcount : ∀ y : Json, (before ++ [y]).length = before.length + 1 := by simp
        simp only [elementOperations, Rule.mixed]
        by_cases hdiffers : differs r d p
        · have hindex : before.length < (before ++ x :: xs).length := by simp
          obtain ⟨w, hw, hrevised⟩ := leads_replaceElement h hx hindex d
          have hset : (before ++ x :: xs).set before.length d = (before ++ [d]) ++ xs := by
            simp
          rw [hset] at hrevised
          obtain ⟨u, hu, hrest⟩ := ih ds hrevised.slot hlength
            ⟨w, leads_nil w, hrevised.slot ▸ Revised.rfl_at tokens w⟩
          rw [hcount] at hu
          simp only [hdiffers, if_true]
          refine ⟨u, hw.cons hu, ?_⟩
          simpa using hrevised.trans hrest
        · rw [happend] at hx hdone
          obtain ⟨u, hu, hrest⟩ := ih ds hx hlength hdone
          rw [hcount] at hu
          simp only [hdiffers, if_false, Bool.false_eq_true]
          refine ⟨u, hu, ?_⟩
          simpa using hrest

theorem resolve?_member (parents : List String) (key : String) {members : List (String × Json)}
    (hparent : resolve? parents v = some (.obj members)) :
    resolve? (parents ++ [key]) v = Entries.get? members key := by
  rw [Json.resolve?_append, hparent]
  simp [resolve?, Json.step?]

theorem leads_replacements (h : Pointer.tokens? r.pointer = some tokens) {p d x : Json}
    (hx : resolve? tokens v = some x) (hwhole : r.comparison = .whole)
    (hcovers : r.Covers (some p) (some x)) :
    ∃ w, Leads (replacements r p d) v w ∧ Revised tokens (some (r.replaced p d x)) v w := by
  have hall := leads_replace h hx d
  cases p with
  | arr ps =>
    obtain ⟨xs, hxs, hlength⟩ := hcovers.items hwhole ps rfl
    cases hxs
    cases d with
    | arr ds =>
      by_cases heq : ps.length = ds.length
      · simp only [replacements, Rule.replaced, if_pos heq]
        exact leads_elements h ps ds (List.nil_append xs ▸ hx) hlength
      · simpa only [replacements, Rule.replaced, if_neg heq] using hall
    | _ => exact hall
  | _ => exact hall

theorem leads_wholeOperations (h : Pointer.tokens? r.pointer = some (parents ++ [key]))
    {members : List (String × Json)} (hparent : resolve? parents v = some (.obj members))
    (hwhole : r.comparison = .whole) (p d : Option Json)
    (hcovers : r.Covers p (resolve? (parents ++ [key]) v)) :
    ∃ w, Leads (wholeOperations r p d) v w ∧
      Revised (parents ++ [key]) (r.wholeOutcome p d (resolve? (parents ++ [key]) v)) v w := by
  have hsame : ∃ w, Leads [] v w ∧
      Revised (parents ++ [key]) (resolve? (parents ++ [key]) v) v w :=
    ⟨v, leads_nil v, Revised.rfl_at _ v⟩
  cases p with
  | none =>
    cases d with
    | none => exact hsame
    | some d => exact leads_add h hparent d
  | some p =>
    obtain ⟨x, hx⟩ := Option.isSome_iff_exists.1 (hcovers.present rfl)
    cases d with
    | none =>
      simp only [wholeOperations, Rule.wholeOutcome]
      cases r.computed with
      | true => exact hsame
      | false =>
        have hkey : Entries.contains members key := by
          rw [resolve?_member parents key hparent] at hx
          simp [Entries.contains, hx]
        exact leads_remove h hparent hkey
    | some d =>
      simp only [wholeOperations, Rule.wholeOutcome]
      cases differs r d p with
      | false => exact hsame
      | true =>
        rw [hx] at hcovers ⊢
        exact leads_replacements h hx hwhole hcovers

theorem leads_keyOperations (h : Pointer.tokens? r.pointer = some (parents ++ [key]))
    {members : List (String × Json)} (hparent : resolve? parents v = some (.obj members))
    (hkeyed : r.comparison ≠ .whole) (p d : Option Json)
    (hsorted : ∀ ps, p = some (.obj ps) → Entries.Sorted ps)
    (hcovers : r.Covers p (resolve? (parents ++ [key]) v)) :
    ∃ w, Leads (keyOperations r p d) v w ∧
      Revised (parents ++ [key]) (r.keyOutcome p d (resolve? (parents ++ [key]) v)) v w := by
  simp only [keyOperations, Rule.keyOutcome]
  cases hp : p.bind Json.members? with
  | some ps =>
    obtain ⟨pv, rfl, hps⟩ := Option.bind_eq_some_iff.1 hp
    obtain rfl := Json.members?_eq_some.1 hps
    obtain ⟨xs, hx, hkeys⟩ := hcovers.members hkeyed ps rfl
    dsimp only
    generalize (d.bind Json.members?).getD [] = ds
    obtain ⟨u, hu, hwritten⟩ := leads_changedKeys h ps ds hx
    have hsub : ∀ e ∈ ps, Entries.contains (Rule.written ps ds xs) e.1 := by
      intro e he
      have hthere : Entries.contains ps e.1 :=
        Entries.contains_iff.2 ⟨e.2, Entries.get?_of_mem (hsorted ps rfl) he⟩
      exact Rule.contains_written ps ds (hkeys e.1 hthere)
    obtain ⟨w, hw, hswept⟩ := leads_droppedKeys h ps ds (hsorted ps rfl) hwritten.slot hsub
    rw [hx]
    exact ⟨w, hu.append hw, hwritten.trans hswept⟩
  | none =>
    have hsame : ∃ w, Leads [] v w ∧
        Revised (parents ++ [key]) (resolve? (parents ++ [key]) v) v w :=
      ⟨v, leads_nil v, Revised.rfl_at _ v⟩
    cases d.bind Json.members? with
    | none => exact hsame
    | some ds =>
      cases ds with
      | nil => exact hsame
      | cons e ds => exact leads_add h hparent (.obj (e :: ds))

end Patch

end DesiredState
