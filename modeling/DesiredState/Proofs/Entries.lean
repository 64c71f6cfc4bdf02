import DesiredState.Entries

/-!
Dictionaries are determined by their look-ups.
Two sorted lists of entries with the same look-ups are equal, so sorting the
entries of a dictionary again, or writing a key that already has the value,
changes nothing, and each key comes once. Optional insertions are described
through `get?` as well.
-/
namespace DesiredState.Entries

variable {α β : Type}

theorem get?_eq_none_of_forall_ne {entries : List (String × α)} {key : String}
    (h : ∀ e ∈ entries, e.1 ≠ key) : get? entries key = none := by
  induction entries with
  | nil => rfl
  | cons e rest ih =>
    obtain ⟨k, v⟩ := e
    have hk : k ≠ key := h (k, v) List.mem_cons_self
    simp only [get?_cons, if_neg hk]
    exact ih (fun e he => h e (List.mem_cons_of_mem _ he))

/-- No key of the rest of a sorted list comes before its first one. -/
theorem Sorted.get?_rest {k : String} {v : α} {rest : List (String × α)}
    (h : Sorted ((k, v) :: rest)) {key : String} (hkey : ¬ k < key) : get? rest key = none := by
  refine get?_eq_none_of_forall_ne (fun e he hk => hkey ?_)
  exact hk ▸ (List.pairwise_cons.1 h).1 e he

theorem Sorted.tail {e : String × α} {rest : List (String × α)} (h : Sorted (e :: rest)) :
    Sorted rest :=
  (List.pairwise_cons.1 h).2

/-- A key of a sorted list comes once. -/
theorem Sorted.ne_of_mem_append {before after : List (String × α)} {k : String} {v : α}
    (h : Sorted (before ++ (k, v) :: after)) {e : String × α} (he : e ∈ before ++ after) :
    k ≠ e.1 := by
  obtain ⟨-, hafter, hbefore⟩ := List.pairwise_append.1 h
  intro heq
  rcases List.mem_append.1 he with he | he
  · have hlt : e.1 < k := hbefore e he (k, v) List.mem_cons_self
    exact String.lt_irrefl k (heq ▸ hlt)
  · have hlt : k < e.1 := (List.pairwise_cons.1 hafter).1 e he
    exact String.lt_irrefl k (heq ▸ hlt)

theorem Sorted.ne_of_mem {k : String} {v : α} {rest : List (String × α)}
    (h : Sorted ((k, v) :: rest)) {e : String × α} (he : e ∈ rest) : k ≠ e.1 := by
  have happend : Sorted ([] ++ (k, v) :: rest) := h
  exact happend.ne_of_mem_append he

/-- Two sorted lists start with one key if each has the first key of the other. -/
theorem Sorted.head_eq {k l : String} {v : α} {w : β} {as : List (String × α)}
    {bs : List (String × β)} (ha : Sorted ((k, v) :: as)) (hb : Sorted ((l, w) :: bs))
    (hk : (get? ((l, w) :: bs) k).isSome) (hl : (get? ((k, v) :: as) l).isSome) : k = l := by
  have hkl : ¬ k < l := by
    intro hlt
    have hne : l ≠ k := fun heq => String.lt_irrefl k (heq ▸ hlt)
    have hnot : ¬ l < k := fun hgt => String.lt_irrefl k (String.lt_trans hlt hgt)
    simp [get?_cons, if_neg hne, hb.get?_rest hnot] at hk
  have hlk : ¬ l < k := by
    intro hlt
    have hne : k ≠ l := fun heq => String.lt_irrefl k (heq ▸ hlt)
    have hnot : ¬ k < l := fun hgt => String.lt_irrefl l (String.lt_trans hlt hgt)
    simp [get?_cons, if_neg hne, ha.get?_rest hnot] at hl
  exact String.le_antisymm (String.not_lt.1 hlk) (String.not_lt.1 hkl)

theorem get?_of_mem {entries : List (String × α)} (h : Sorted entries) {key : String} {value : α}
    (hmem : (key, value) ∈ entries) : get? entries key = some value := by
  induction entries with
  | nil => simp at hmem
  | cons e rest ih =>
    obtain ⟨k, v⟩ := e
    rcases List.mem_cons.1 hmem with heq | hrest
    · cases heq
      simp [get?_cons]
    · simp only [get?_cons, if_neg (h.ne_of_mem hrest)]
      exact ih h.tail hrest

instance (entries : List (String × α)) : Decidable (Sorted entries) :=
  inferInstanceAs (Decidable (entries.Pairwise (fun a b => a.1 < b.1)))

theorem ext_of_sorted {a b : List (String × α)} (ha : Sorted a) (hb : Sorted b)
    (h : ∀ key, get? a key = get? b key) : a = b := by
  induction a generalizing b with
  | nil =>
    cases b with
    | nil => rfl
    | cons e rest =>
      obtain ⟨k, v⟩ := e
      simpa [get?_cons] using h k
  | cons e as ih =>
    obtain ⟨k, v⟩ := e
    cases b with
    | nil => simpa [get?_cons] using h k
    | cons f bs =>
      obtain ⟨l, w⟩ := f
      have hk : (get? ((l, w) :: bs) k).isSome := by simp [← h k, get?_cons]
      have hl : (get? ((k, v) :: as) l).isSome := by simp [h l, get?_cons]
      obtain rfl : k = l := ha.head_eq hb hk hl
      have hv : v = w := by simpa [get?_cons] using h k
      subst hv
      have hrest : ∀ key, get? as key = get? bs key := by
        intro key
        by_cases hkey : k = key
        · subst hkey
          rw [ha.get?_rest (String.lt_irrefl k), hb.get?_rest (String.lt_irrefl k)]
        · simpa [get?_cons, hkey] using h key
      rw [ih ha.tail hb.tail hrest]

theorem get?_foldl_insert (entries d : List (String × α)) (h : Sorted entries) (key : String) :
    get? (entries.foldl (fun d e => insert e.1 e.2 d) d) key =
      (get? entries key).or (get? d key) := by
  induction entries generalizing d with
  | nil => simp
  | cons e rest ih =>
    obtain ⟨k, v⟩ := e
    rw [List.foldl_cons, ih _ h.tail, get?_insert, get?_cons]
    by_cases hk : k = key
    · subst hk
      simp [h.get?_rest (String.lt_irrefl k)]
    · simp [hk]

theorem get?_ofList (entries : List (String × α)) (h : Sorted entries) (key : String) :
    get? (ofList entries) key = get? entries key := by
  simp [ofList, get?_foldl_insert entries [] h key]

theorem ofList_of_sorted {entries : List (String × α)} (h : Sorted entries) :
    ofList entries = entries :=
  ext_of_sorted (sorted_ofList entries) h (get?_ofList entries h)

theorem get?_insert? (key other : String) (value : Option α) (entries : List (String × α)) :
    get? (insert? key value entries) other =
      if key = other then value.or (get? entries other) else get? entries other := by
  cases value with
  | none => simp [insert?]
  | some v => simp [insert?, get?_insert]

theorem sorted_insert? (key : String) (value : Option α) {entries : List (String × α)}
    (h : Sorted entries) : Sorted (insert? key value entries) := by
  cases value with
  | none => exact h
  | some v => exact sorted_insert key v h

/-- Of two values for one key the later one counts. -/
theorem insert_insert? (key : String) (value : α) (earlier : Option α)
    {entries : List (String × α)} (h : Sorted entries) :
    insert key value (insert? key earlier entries) = insert key value entries := by
  refine ext_of_sorted (sorted_insert _ _ (sorted_insert? _ _ h)) (sorted_insert _ _ h)
    fun other => ?_
  simp only [get?_insert, get?_insert?]
  split <;> rfl

/-- Values for different keys may come in any order. -/
theorem insert_insert?_comm {key other : String} (hne : other ≠ key) (value : α)
    (value? : Option α) {entries : List (String × α)} (h : Sorted entries) :
    insert key value (insert? other value? entries) =
      insert? other value? (insert key value entries) := by
  refine ext_of_sorted (sorted_insert _ _ (sorted_insert? _ _ h))
    (sorted_insert? _ _ (sorted_insert _ _ h)) fun k => ?_
  simp only [get?_insert, get?_insert?]
  by_cases hkey : key = k
  · subst hkey
    rw [if_pos rfl, if_neg hne, if_pos rfl]
  · rw [if_neg hkey, if_neg hkey]

theorem sorted_of_sorted_map {f : α → β} {entries : List (String × α)}
    (h : Sorted (map f entries)) : Sorted entries := by
  unfold Sorted map at h
  have hkeys := List.pairwise_map.1 h
  exact hkeys

theorem map_insert (f : α → β) (key : String) (value : α) (entries : List (String × α)) :
    map f (insert key value entries) = insert key (f value) (map f entries) := by
  induction entries with
  | nil => rfl
  | cons e rest ih =>
    unfold map at ih ⊢
    simp only [List.map_cons, insert, ← ih]
    split
    · rfl
    · split <;> rfl

theorem contains_iff {entries : List (String × α)} {key : String} :
    contains entries key = true ↔ ∃ v, get? entries key = some v := by
  simp [contains, Option.isSome_iff_exists]

end DesiredState.Entries
