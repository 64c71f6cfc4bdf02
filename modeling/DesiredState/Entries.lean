/-!
Dictionary entries as lists of keyed values.
A dictionary keeps its keys strictly increasing, so each key occurs once and
two dictionaries with the same look-ups are the same list. Look-up, insertion
and removal are described through `get?`.
-/
namespace DesiredState.Entries

variable {α β : Type}

def Sorted (entries : List (String × α)) : Prop :=
  entries.Pairwise (fun a b => a.1 < b.1)

def get? : List (String × α) → String → Option α
  | [], _ => none
  | (k, v) :: rest, key => if k = key then some v else get? rest key

def contains (entries : List (String × α)) (key : String) : Bool :=
  (get? entries key).isSome

/-- A key that is already there gets the new value. -/
def insert (key : String) (value : α) : List (String × α) → List (String × α)
  | [] => [(key, value)]
  | (k, v) :: rest =>
    if key < k then (key, value) :: (k, v) :: rest
    else if key = k then (key, value) :: rest
    else (k, v) :: insert key value rest

def erase (key : String) (entries : List (String × α)) : List (String × α) :=
  entries.filter (fun e => e.1 ≠ key)

/-- Of two entries with one key the later one counts. -/
def ofList (entries : List (String × α)) : List (String × α) :=
  entries.foldl (fun d e => insert e.1 e.2 d) []

def insert? (key : String) (value : Option α) (entries : List (String × α)) :
    List (String × α) :=
  match value with
  | some v => insert key v entries
  | none => entries

def map (f : α → β) (entries : List (String × α)) : List (String × β) :=
  entries.map (fun e => (e.1, f e.2))

@[simp] theorem get?_nil (key : String) : get? ([] : List (String × α)) key = none := rfl

theorem get?_cons (k key : String) (v : α) (rest : List (String × α)) :
    get? ((k, v) :: rest) key = if k = key then some v else get? rest key := rfl

theorem get?_insert (key other : String) (value : α) (entries : List (String × α)) :
    get? (insert key value entries) other =
      if key = other then some value else get? entries other := by
  induction entries with
  | nil => simp [insert, get?]
  | cons e rest ih =>
    obtain ⟨k, v⟩ := e
    simp only [insert]
    split
    · simp [get?]
    · split
      · subst_vars
        simp only [get?]
        split <;> rfl
      · simp only [get?, ih]
        by_cases hk : k = other
        · by_cases hkey : key = other <;> simp_all
        · simp [hk]

theorem get?_erase (key other : String) (entries : List (String × α)) :
    get? (erase key entries) other = if key = other then none else get? entries other := by
  induction entries with
  | nil => simp [erase]
  | cons e rest ih =>
    obtain ⟨k, v⟩ := e
    simp only [erase, List.filter] at ih ⊢
    by_cases hk : k = key
    · subst k
      simp only [ne_eq, not_true_eq_false, decide_false, ih, get?]
      split <;> rfl
    · simp only [ne_eq, hk, not_false_eq_true, decide_true, get?, ih]
      by_cases ho : k = other
      · have hne : key ≠ other := fun h => hk (ho.trans h.symm)
        simp [ho, hne]
      · simp [ho]

theorem get?_map (f : α → β) (entries : List (String × α)) (key : String) :
    get? (map f entries) key = (get? entries key).map f := by
  induction entries with
  | nil => rfl
  | cons e rest ih =>
    simp only [map, List.map_cons, get?] at ih ⊢
    split <;> simp_all

theorem mem_of_get? {entries : List (String × α)} {key : String} {value : α}
    (h : get? entries key = some value) : (key, value) ∈ entries := by
  induction entries with
  | nil => simp at h
  | cons e rest ih =>
    obtain ⟨k, v⟩ := e
    simp only [get?] at h
    split at h
    · simp_all
    · exact List.mem_cons_of_mem _ (ih h)

theorem mem_insert {key : String} {value : α} {entries : List (String × α)}
    {e : String × α} (h : e ∈ insert key value entries) : e = (key, value) ∨ e ∈ entries := by
  induction entries with
  | nil => simp [insert] at h; exact Or.inl h
  | cons x rest ih =>
    simp only [insert] at h
    split at h
    · simpa using h
    · split at h
      · simp only [List.mem_cons] at h ⊢
        exact h.imp id Or.inr
      · simp only [List.mem_cons] at h ⊢
        rcases h with h | h
        · exact Or.inr (Or.inl h)
        · exact (ih h).imp id Or.inr

theorem sorted_nil : Sorted ([] : List (String × α)) := List.Pairwise.nil

theorem sorted_insert (key : String) (value : α) {entries : List (String × α)}
    (h : Sorted entries) : Sorted (insert key value entries) := by
  induction entries with
  | nil => simp [insert, Sorted]
  | cons e rest ih =>
    obtain ⟨k, v⟩ := e
    have hrest : Sorted rest := (List.pairwise_cons.1 h).2
    have hfirst := (List.pairwise_cons.1 h).1
    simp only [insert]
    split
    · rename_i hlt
      refine List.pairwise_cons.2 ⟨fun a ha => ?_, h⟩
      rcases List.mem_cons.1 ha with rfl | ha
      · exact hlt
      · exact String.lt_trans hlt (hfirst a ha)
    · split
      · rename_i heq
        subst heq
        exact List.pairwise_cons.2 ⟨hfirst, hrest⟩
      · rename_i hlt hne
        refine List.pairwise_cons.2 ⟨fun a ha => ?_, ih hrest⟩
        rcases mem_insert ha with rfl | ha
        · exact Std.lt_of_le_of_ne (String.not_lt.1 hlt) (Ne.symm hne)
        · exact hfirst a ha

theorem sorted_erase (key : String) {entries : List (String × α)} (h : Sorted entries) :
    Sorted (erase key entries) :=
  List.Pairwise.sublist List.filter_sublist h

theorem sorted_foldl_insert (entries : List (String × α)) {d : List (String × α)}
    (h : Sorted d) : Sorted (entries.foldl (fun d e => insert e.1 e.2 d) d) := by
  induction entries generalizing d with
  | nil => exact h
  | cons e rest ih => exact ih (sorted_insert e.1 e.2 h)

theorem sorted_ofList (entries : List (String × α)) : Sorted (ofList entries) :=
  sorted_foldl_insert entries sorted_nil

theorem sorted_map (f : α → β) {entries : List (String × α)} (h : Sorted entries) :
    Sorted (map f entries) := by
  unfold Sorted map at *
  exact List.pairwise_map.2 h

end DesiredState.Entries
