import DesiredState.Patch.Merge
import DesiredState.Proofs.Entries

/-!
Merging by look-ups.
What a merged object has under a key depends on what the two objects have under
it: a member that the second one does not name stays. A value is retained in
another one if merging leaves no such member.
-/
namespace DesiredState.Json

theorem merge_of_members?_eq_none {change : Json} (h : change.members? = none) (v : Json) :
    v.merge change = change := by
  cases change with
  | obj _ => cases h
  | _ => simp [merge]

@[simp] theorem merge_str (v : Json) (s : String) : v.merge (.str s) = .str s :=
  merge_of_members?_eq_none rfl v

@[simp] theorem merge_null (change : Json) : null.merge change = change := by
  cases change <;> simp [merge]

theorem isNull_merge {change : Json} (h : change.isNull = false) (v : Json) :
    (v.merge change).isNull = false := by
  cases change with
  | obj changes => cases v <;> simp [merge, isNull]
  | _ =>
    rw [merge_of_members?_eq_none rfl]
    exact h

/-- What becomes of one member, which either side may lack. -/
def mergeMember (given change : Option Json) : Option Json :=
  match change with
  | none => given
  | some change => if change.isNull then none else some ((given.getD null).merge change)

theorem get?_mergeMembers {changes : List (String × Json)} (h : Entries.Sorted changes)
    (members : List (String × Json)) (key : String) :
    Entries.get? (mergeMembers members changes) key =
      mergeMember (Entries.get? members key) (Entries.get? changes key) := by
  induction changes generalizing members with
  | nil => rfl
  | cons e rest ih =>
    obtain ⟨k, change⟩ := e
    rw [mergeMembers, ih h.tail, Entries.get?_cons]
    by_cases hk : k = key
    · subst hk
      rw [h.get?_rest (String.lt_irrefl k), if_pos rfl]
      by_cases hnull : change.isNull = true
      · simp [mergeMember, hnull, Entries.get?_erase]
      · simp [mergeMember, hnull, Entries.get?_insert]
    · have hsame : Entries.get? (if change.isNull then Entries.erase k members
          else Entries.insert k (((Entries.get? members k).getD null).merge change) members) key =
          Entries.get? members key := by
        split
        · rw [Entries.get?_erase, if_neg hk]
        · rw [Entries.get?_insert, if_neg hk]
      rw [if_neg hk, hsame]

mutual

/-- The changes name each member of an object again, at every depth. Arrays are replaced whole, so
nothing of them could stay. -/
def retainedIn : Json → Json → Bool
  | obj members, change =>
    match change with
    | obj changes => membersRetainedIn members changes
    | _ => true
  | _, _ => true

def membersRetainedIn : List (String × Json) → List (String × Json) → Bool
  | [], _ => true
  | (k, v) :: rest, changes =>
    (match Entries.get? changes k with
      | some change => v.retainedIn change
      | none => false) && membersRetainedIn rest changes

end

theorem membersRetainedIn_iff {members changes : List (String × Json)}
    (h : Entries.Sorted members) :
    membersRetainedIn members changes = true ↔
      ∀ key v, Entries.get? members key = some v →
        ∃ change, Entries.get? changes key = some change ∧ v.retainedIn change = true := by
  induction members with
  | nil => simp [membersRetainedIn]
  | cons e rest ih =>
    obtain ⟨k, v⟩ := e
    have hfirst : (match Entries.get? changes k with
        | some change => v.retainedIn change
        | none => false) = true ↔
        ∃ change, Entries.get? changes k = some change ∧ v.retainedIn change = true := by
      cases Entries.get? changes k <;> simp
    rw [membersRetainedIn, Bool.and_eq_true, ih h.tail, hfirst]
    constructor
    · rintro ⟨hv, hrest⟩ key w hw
      rw [Entries.get?_cons] at hw
      by_cases hk : k = key
      · rw [if_pos hk] at hw
        cases hw
        exact hk ▸ hv
      · rw [if_neg hk] at hw
        exact hrest key w hw
    · intro hall
      refine ⟨hall k v (by rw [Entries.get?_cons, if_pos rfl]), fun key w hw => hall key w ?_⟩
      have hne : k ≠ key := by
        intro heq
        rw [← heq, h.get?_rest (String.lt_irrefl k)] at hw
        cases hw
      rw [Entries.get?_cons, if_neg hne]
      exact hw

end DesiredState.Json
