import DesiredState.Proofs.Json.Containment
import DesiredState.Proofs.Patch.Outcome

/-!
What a rule asks of the value at its pointer.
A field compared as a whole is to equal the desired one or, where the store
fills it in, to contain it; a field compared by keys is to have the desired
keys. The outcome of a rule on the previous value meets it, and a rule that is
met gives no operations.
-/
namespace DesiredState

namespace Json

/-- The members of an object, none where nothing is. -/
def entries? : Option Json → Option (List (String × Json))
  | none => some []
  | some (.obj members) => some members
  | some _ => none

variable {x : Option Json} {members : List (String × Json)}

theorem entries?_eq_some :
    entries? x = some members ↔ x = none ∧ members = [] ∨ x = some (.obj members) := by
  cases x with
  | none => simp [entries?, eq_comm]
  | some v => cases v <;> simp [entries?]

theorem getD_members?_of_entries? (h : entries? x = some members) :
    (x.bind members?).getD [] = members := by
  rcases entries?_eq_some.1 h with ⟨rfl, rfl⟩ | rfl <;> rfl

theorem sorted_of_entries? (h : entries? x = some members)
    (hx : ∀ v, x = some v → v.WellFormed) : Entries.Sorted members := by
  rcases entries?_eq_some.1 h with ⟨-, rfl⟩ | rfl
  · exact Entries.sorted_nil
  · exact (hx _ rfl).1

end Json

namespace Rule

/-- What a key is to have: the desired value, or what the server manages. -/
def wanted (r : Rule) (previous desired : List (String × Json)) (key : String) : Option Json :=
  match Entries.get? desired key with
  | some d => some d
  | none =>
    if r.comparison = .perKeyUnmanaged ∧ isServerManaged key then Entries.get? previous key
    else none

/-- A value that is to contain the desired one, and not to differ from a previous one that does. -/
def Contains (previous desired x : Option Json) : Prop :=
  match desired with
  | none => x = previous
  | some d => ∃ w, x = some w ∧ d.containedIn w = true ∧
      ∀ p, previous = some p → d.containedIn p = true → w = p

def HasKeys (r : Rule) (previous desired x : Option Json) : Prop :=
  ∀ ps ds, Json.entries? previous = some ps → Json.entries? desired = some ds →
    ∃ xs, Json.entries? x = some xs ∧ Entries.Sorted xs ∧
      ∀ key, (Entries.get? xs key == r.wanted ps ds key) = true

/-- What a rule asks of the value that takes the place of the previous one. -/
def Meets (r : Rule) (previous desired x : Option Json) : Prop :=
  match r.comparison with
  | .whole => if r.computed then Contains previous desired x else (x == desired) = true
  | .perKey | .perKeyUnmanaged => r.HasKeys previous desired x

theorem sameItems_mixed {r : Rule} (h : r.computed = false) {ps ds : List Json}
    (hlength : ps.length = ds.length) : Json.sameItems (r.mixed ps ds ps) ds = true := by
  induction ps generalizing ds with
  | nil =>
    cases ds with
    | nil => rfl
    | cons d ds => simp at hlength
  | cons p ps ih =>
    cases ds with
    | nil => simp at hlength
    | cons d ds =>
      have hrest := ih (by simpa using hlength)
      have hfirst : (if Patch.differs r d p then d else p).same d = true := by
        split
        · exact Json.same_refl d
        · rename_i hsame
          simp only [Patch.differs, h, Bool.false_eq_true, if_false, bne, Bool.not_eq_true,
            Bool.not_eq_false'] at hsame
          exact Json.same_symm hsame
      rw [mixed, Json.sameItems, hfirst, hrest]
      rfl

theorem itemsContainedIn_mixed {r : Rule} (h : r.computed = true) {ps ds : List Json}
    (hds : Json.AllWellFormed ds) (hlength : ps.length = ds.length) :
    Json.itemsContainedIn ds (r.mixed ps ds ps) = true := by
  induction ps generalizing ds with
  | nil =>
    cases ds with
    | nil => rfl
    | cons d ds => simp at hlength
  | cons p ps ih =>
    cases ds with
    | nil => simp at hlength
    | cons d ds =>
      have hrest := ih hds.2 (by simpa using hlength)
      have hfirst : d.containedIn (if Patch.differs r d p then d else p) = true := by
        split
        · exact Json.containedIn_refl d hds.1
        · rename_i hcontained
          simpa [Patch.differs, h] using hcontained
      rw [mixed, Json.itemsContainedIn, hfirst, hrest]
      rfl

theorem same_replaced {r : Rule} (h : r.computed = false) (p d : Json) :
    (r.replaced p d p == d) = true := by
  cases p with
  | arr ps =>
    cases d with
    | arr ds =>
      simp only [replaced]
      split
      · rename_i hlength
        exact sameItems_mixed h hlength
      · exact BEq.rfl
    | _ => exact BEq.rfl
  | _ => exact BEq.rfl

theorem containedIn_replaced {r : Rule} (h : r.computed = true) (p : Json) {d : Json}
    (hd : d.WellFormed) : d.containedIn (r.replaced p d p) = true := by
  cases p with
  | arr ps =>
    cases d with
    | arr ds =>
      simp only [replaced]
      split
      · rename_i hlength
        rw [Json.containedIn]
        exact itemsContainedIn_mixed h hd hlength
      · exact Json.containedIn_refl _ hd
    | _ => exact Json.containedIn_refl _ hd
  | _ => exact Json.containedIn_refl _ hd

theorem contains_wholeOutcome {r : Rule} (h : r.computed = true) (p : Option Json)
    {d : Option Json} (hd : ∀ v, d = some v → v.WellFormed) :
    Contains p d (r.wholeOutcome p d p) := by
  cases d with
  | none => cases p <;> simp [Contains, wholeOutcome, h]
  | some d =>
    cases p with
    | none => exact ⟨d, rfl, Json.containedIn_refl d (hd d rfl), fun p hp => by cases hp⟩
    | some p =>
      simp only [Contains, wholeOutcome]
      cases hdiffers : Patch.differs r d p with
      | false =>
        have hcontained : d.containedIn p = true := by simpa [Patch.differs, h] using hdiffers
        refine ⟨p, rfl, hcontained, fun q hq _ => ?_⟩
        cases hq
        rfl
      | true =>
        refine ⟨_, rfl, containedIn_replaced h p (hd d rfl), fun q hq hcontained => ?_⟩
        cases hq
        simp [Patch.differs, h, hcontained] at hdiffers

theorem same_wholeOutcome {r : Rule} (h : r.computed = false) (p d : Option Json) :
    (r.wholeOutcome p d p == d) = true := by
  cases p with
  | none => cases d <;> simp [wholeOutcome]
  | some p =>
    cases d with
    | none => simp [wholeOutcome, h]
    | some d =>
      simp only [wholeOutcome]
      cases hdiffers : Patch.differs r d p with
      | false =>
        have hsame : (d == p) = true := by simpa [Patch.differs, h, bne] using hdiffers
        exact Json.same_symm hsame
      | true => exact same_replaced h p d

/-- A key is kept, written or removed just as it is wanted. -/
theorem wanted_of_kept (r : Rule) (previous desired : List (String × Json)) (key : String) :
    ((if Entries.contains previous key && r.drops desired key then none
      else match Entries.get? desired key with
        | some d => if Entries.get? previous key == some d then Entries.get? previous key
          else some d
        | none => Entries.get? previous key) == r.wanted previous desired key) = true := by
  unfold wanted drops Entries.contains
  cases hdesired : Entries.get? desired key with
  | some d =>
    simp only [Option.isSome_some, Bool.not_true, Bool.false_and, Bool.and_false,
      Bool.false_eq_true, if_false]
    split
    · assumption
    · exact BEq.rfl
  | none =>
    cases hprevious : Entries.get? previous key with
    | none => simp
    | some p =>
      by_cases hmanaged : r.comparison = .perKeyUnmanaged ∧ isServerManaged key
      · simp [hmanaged]
      · have hdrops :
            (decide (r.comparison = .perKeyUnmanaged) && isServerManaged key) = false := by
          simpa using hmanaged
        simp [hmanaged, hdrops]

theorem hasKeys_keyOutcome {r : Rule} {p d : Option Json}
    (hp : ∀ v, p = some v → v.WellFormed) (hd : ∀ v, d = some v → v.WellFormed) :
    r.HasKeys p d (r.keyOutcome p d p) := by
  intro ps ds hps hds
  have hsorted := Json.sorted_of_entries? hds hd
  have hmembers := Json.getD_members?_of_entries? hds
  rcases Json.entries?_eq_some.1 hps with ⟨rfl, rfl⟩ | rfl
  · have houtcome : Json.entries? (r.keyOutcome none d none) = some ds := by
      rcases Json.entries?_eq_some.1 hds with ⟨rfl, rfl⟩ | rfl
      · rfl
      · cases ds <;> rfl
    have hwanted : ∀ key, r.wanted [] ds key = Entries.get? ds key := by
      intro key
      simp only [wanted, Entries.get?_nil, ite_self]
      cases Entries.get? ds key <;> rfl
    refine ⟨ds, houtcome, hsorted, fun key => ?_⟩
    rw [hwanted]
    exact BEq.rfl
  · refine ⟨r.swept ds ps (written ps ds ps), ?_, ?_, ?_⟩
    · rw [← hmembers]
      rfl
    · exact sorted_swept r ds ps (sorted_written ps ds (hp _ rfl).1)
    · intro key
      rw [get?_swept, get?_written hsorted]
      exact wanted_of_kept r ps ds key

theorem meets_outcome {r : Rule} {p d : Option Json}
    (hp : ∀ v, p = some v → v.WellFormed) (hd : ∀ v, d = some v → v.WellFormed) :
    r.Meets p d (r.outcome p d p) := by
  unfold Meets outcome
  cases hcomparison : r.comparison with
  | whole =>
    simp only [if_true]
    cases hcomputed : r.computed with
    | true => exact contains_wholeOutcome hcomputed p hd
    | false => exact same_wholeOutcome hcomputed p d
  | perKey => exact hasKeys_keyOutcome hp hd
  | perKeyUnmanaged => exact hasKeys_keyOutcome hp hd

theorem hasKeys_refl {r : Rule} {x : Option Json} (hx : ∀ v, x = some v → v.WellFormed) :
    r.HasKeys x x x := by
  intro ps ds hps hds
  obtain rfl : ps = ds := Option.some.inj (hps.symm.trans hds)
  refine ⟨ps, hps, Json.sorted_of_entries? hps hx, fun key => ?_⟩
  unfold wanted
  cases hget : Entries.get? ps key with
  | some v => exact Json.same_refl v
  | none => simp

/-- The desired value itself is all that is asked for. -/
theorem meets_refl {r : Rule} {x : Option Json} (hx : ∀ v, x = some v → v.WellFormed) :
    r.Meets x x x := by
  have hkeyed : r.HasKeys x x x := hasKeys_refl hx
  unfold Meets
  cases r.comparison with
  | whole =>
    cases r.computed with
    | true =>
      cases x with
      | none => rfl
      | some v =>
        exact ⟨v, rfl, Json.containedIn_refl v (hx v rfl), fun p hp _ => Option.some.inj hp⟩
    | false =>
      cases x with
      | none => rfl
      | some v => exact Json.same_refl v
  | perKey => exact hkeyed
  | perKeyUnmanaged => exact hkeyed

end Rule

namespace Patch

variable {r : Rule} {p x d : Option Json}

theorem wholeOperations_of_same (h : r.computed = false) (hsame : (x == d) = true) :
    wholeOperations r x d = [] := by
  cases x with
  | none =>
    cases d with
    | none => rfl
    | some d => cases hsame
  | some x =>
    cases d with
    | none => cases hsame
    | some d =>
      have hdiffers : differs r d x = false := by
        have hsame : (d == x) = true := Json.same_symm hsame
        simp [differs, h, bne, hsame]
      simp [wholeOperations, hdiffers]

theorem wholeOperations_of_contains (h : r.computed = true) (hcontains : Rule.Contains p d x) :
    wholeOperations r x d = [] := by
  cases d with
  | none => cases x <;> simp [wholeOperations, h]
  | some d =>
    obtain ⟨w, rfl, hcontained, -⟩ := hcontains
    simp [wholeOperations, differs, h, hcontained]

theorem changedKeys_of_wanted {ps xs ds : List (String × Json)} (hds : Entries.Sorted ds)
    (h : ∀ key, (Entries.get? xs key == r.wanted ps ds key) = true) : changedKeys r xs ds = [] := by
  refine List.filterMap_eq_nil_iff.2 fun e he => ?_
  have hwanted : r.wanted ps ds e.1 = some e.2 := by
    simp [Rule.wanted, Entries.get?_of_mem hds he]
  have hsame := h e.1
  rw [hwanted] at hsame
  simp [hsame]

theorem droppedKeys_of_wanted {ps xs ds : List (String × Json)} (hxs : Entries.Sorted xs)
    (h : ∀ key, (Entries.get? xs key == r.wanted ps ds key) = true) : droppedKeys r xs ds = [] := by
  refine List.filterMap_eq_nil_iff.2 fun e he => ?_
  have hsame := h e.1
  rw [Entries.get?_of_mem hxs he] at hsame
  dsimp only
  cases hdesired : Entries.get? ds e.1 with
  | some d => simp [Entries.contains, hdesired]
  | none =>
    simp only [Rule.wanted, hdesired] at hsame
    split at hsame
    · rename_i hmanaged
      simp [hmanaged]
    · cases hsame

/-- Writing a desired key does not change which keys are dropped. -/
theorem droppedKeys_insert {desired : List (String × Json)} {key : String}
    (h : Entries.contains desired key = true) (value : Json) (previous : List (String × Json)) :
    droppedKeys r (Entries.insert key value previous) desired = droppedKeys r previous desired := by
  unfold droppedKeys
  induction previous with
  | nil => simp [Entries.insert, h]
  | cons e rest ih =>
    simp only [Entries.insert]
    split
    · simp [h]
    · split
      · rename_i heq
        simp [h, ← heq]
      · simp only [List.filterMap_cons, ih]

theorem keyOperations_of_hasKeys {ps ds : List (String × Json)} (hps : Json.entries? p = some ps)
    (hds : Json.entries? d = some ds) (hsorted : Entries.Sorted ds) (h : r.HasKeys p d x) :
    keyOperations r x d = [] := by
  obtain ⟨xs, hxs, hxsorted, hkeys⟩ := h ps ds hps hds
  rcases Json.entries?_eq_some.1 hxs with ⟨rfl, rfl⟩ | rfl
  · have hnil : ds = [] := by
      cases ds with
      | nil => rfl
      | cons e rest =>
        have hsame := hkeys e.1
        rw [Rule.wanted, Entries.get?_of_mem hsorted List.mem_cons_self] at hsame
        cases hsame
    subst hnil
    rcases Json.entries?_eq_some.1 hds with ⟨rfl, -⟩ | rfl <;> rfl
  · have hgiven := Json.getD_members?_of_entries? hds
    simp only [keyOperations, Option.bind_some, Json.members?] at hgiven ⊢
    rw [hgiven, changedKeys_of_wanted hsorted hkeys, droppedKeys_of_wanted hxsorted hkeys]
    rfl

/-- A rule that is met gives no operations. -/
theorem ruleOperations_of_meets {previous desired : Json}
    (h : r.Meets p (desired.pointer? r.pointer) (previous.pointer? r.pointer))
    (hkeyed : r.comparison ≠ .whole → ∃ ps ds, Json.entries? p = some ps ∧
      Json.entries? (desired.pointer? r.pointer) = some ds ∧ Entries.Sorted ds) :
    ruleOperations r previous desired = [] := by
  have hkeys : r.comparison ≠ .whole →
      r.HasKeys p (desired.pointer? r.pointer) (previous.pointer? r.pointer) →
      keyOperations r (previous.pointer? r.pointer) (desired.pointer? r.pointer) = [] := by
    intro hcomparison hhas
    obtain ⟨ps, ds, hps, hds, hsorted⟩ := hkeyed hcomparison
    exact keyOperations_of_hasKeys hps hds hsorted hhas
  unfold ruleOperations
  split
  · rfl
  · unfold Rule.Meets at h
    cases hcomparison : r.comparison with
    | whole =>
      simp only [hcomparison] at h
      simp only [if_true]
      cases hcomputed : r.computed with
      | true => exact wholeOperations_of_contains hcomputed (by simpa [hcomputed] using h)
      | false => exact wholeOperations_of_same hcomputed (by simpa [hcomputed] using h)
    | perKey =>
      simp only [hcomparison] at h
      exact hkeys (by simp [hcomparison]) h
    | perKeyUnmanaged =>
      simp only [hcomparison] at h
      exact hkeys (by simp [hcomparison]) h

end Patch

end DesiredState
