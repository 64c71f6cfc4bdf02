/-!
Cutting a text at every occurrence of a separator.
The pieces never contain the separator and joining them with it gives the text
back, so a text without the separator is its own single piece.
-/
namespace DesiredState.Text

def segments (sep : Char) : List Char → List (List Char)
  | [] => [[]]
  | c :: rest =>
    if c = sep then [] :: segments sep rest
    else match segments sep rest with
      | [] => [[c]]
      | first :: others => (c :: first) :: others

def split (sep : Char) (text : String) : List String :=
  (segments sep text.toList).map String.ofList

/-- The text before and after the first separator, if there is one. -/
def splitOnce (sep : Char) (text : String) : Option (String × String) :=
  match text.toList.dropWhile (· ≠ sep) with
  | [] => none
  | _ :: after => some (String.ofList (text.toList.takeWhile (· ≠ sep)), String.ofList after)

theorem segments_ne_nil (sep : Char) (text : List Char) : segments sep text ≠ [] := by
  cases text with
  | nil => simp [segments]
  | cons c rest =>
    simp only [segments]
    split
    · simp
    · split <;> simp

theorem segments_cons_sep (sep : Char) (rest : List Char) :
    segments sep (sep :: rest) = [] :: segments sep rest := by simp [segments]

theorem segments_of_not_mem {sep : Char} {text : List Char} (h : sep ∉ text) :
    segments sep text = [text] := by
  induction text with
  | nil => rfl
  | cons c rest ih =>
    have hc : c ≠ sep := fun e => h (e ▸ List.mem_cons_self)
    have hrest : sep ∉ rest := fun m => h (List.mem_cons_of_mem _ m)
    simp [segments, hc, ih hrest]

/-- A text is cut on both sides of a separator alike. -/
theorem segments_append (sep : Char) (first rest : List Char) :
    segments sep (first ++ sep :: rest) = segments sep first ++ segments sep rest := by
  induction first with
  | nil => exact segments_cons_sep sep rest
  | cons c cs ih =>
    by_cases hc : c = sep
    · rw [hc, List.cons_append, segments_cons_sep, segments_cons_sep, ih, List.cons_append]
    · obtain ⟨piece, others, hcs⟩ := List.exists_cons_of_ne_nil (segments_ne_nil sep cs)
      simp [segments, hc, ih, hcs]

theorem segments_append_sep {sep : Char} {first : List Char} (h : sep ∉ first)
    (rest : List Char) : segments sep (first ++ sep :: rest) = first :: segments sep rest := by
  rw [segments_append, segments_of_not_mem h, List.singleton_append]

theorem split_ne_nil (sep : Char) (text : String) : split sep text ≠ [] := by
  intro h
  exact segments_ne_nil sep text.toList (List.map_eq_nil_iff.1 h)

theorem split_of_not_mem {sep : Char} {text : String} (h : sep ∉ text.toList) :
    split sep text = [text] := by
  rw [split, segments_of_not_mem h, List.map_singleton, String.ofList_toList]

theorem split_append (sep : Char) (first rest : String) :
    split sep (first ++ String.singleton sep ++ rest) = split sep first ++ split sep rest := by
  have htext : (first ++ String.singleton sep ++ rest).toList =
      first.toList ++ sep :: rest.toList := by simp
  rw [split, htext, segments_append, List.map_append, split, split]

/-- The first piece is what stands before the first separator. -/
theorem exists_segments (sep : Char) (text : List Char) :
    ∃ others, segments sep text = text.takeWhile (· ≠ sep) :: others := by
  induction text with
  | nil => exact ⟨[], rfl⟩
  | cons c rest ih =>
    obtain ⟨others, hrest⟩ := ih
    by_cases hc : c = sep
    · exact ⟨segments sep rest, by simp [segments, hc]⟩
    · exact ⟨others, by simp [segments, hc, hrest]⟩

theorem not_mem_of_mem_segments {sep : Char} {text piece : List Char}
    (h : piece ∈ segments sep text) : sep ∉ piece := by
  induction text generalizing piece with
  | nil => simp_all [segments]
  | cons c rest ih =>
    simp only [segments] at h
    split at h
    · rcases List.mem_cons.1 h with rfl | h
      · simp
      · exact ih h
    · rename_i hc
      split at h
      · rename_i hs
        exact absurd hs (segments_ne_nil sep rest)
      · rename_i first others hs
        rcases List.mem_cons.1 h with rfl | h
        · have : sep ∉ first := ih (by simp [hs])
          simp only [List.mem_cons, not_or]
          exact ⟨Ne.symm hc, this⟩
        · exact ih (by simp [hs, h])

/-- Joined by the separator the pieces give the text back. -/
theorem intercalate_segments (sep : Char) (text : List Char) :
    [sep].intercalate (segments sep text) = text := by
  induction text with
  | nil => rfl
  | cons c rest ih =>
    obtain ⟨first, others, hrest⟩ := List.exists_cons_of_ne_nil (segments_ne_nil sep rest)
    rw [hrest] at ih
    by_cases hc : c = sep
    · rw [hc, segments_cons_sep, hrest]
      exact congrArg (sep :: ·) ih
    · have hsegments : segments sep (c :: rest) = (c :: first) :: others := by
        simp [segments, hc, hrest]
      rw [hsegments]
      cases others with
      | nil => exact congrArg (c :: ·) ih
      | cons second more => exact congrArg (c :: ·) ih

theorem intercalate_split (sep : Char) (text : String) :
    [sep].intercalate ((split sep text).map String.toList) = text.toList := by
  have hpieces : (split sep text).map String.toList = segments sep text.toList := by
    simp [split, Function.comp_def]
  rw [hpieces, intercalate_segments]

/-- A text of one piece is that piece. -/
theorem eq_of_split_eq_singleton {sep : Char} {text piece : String} (h : split sep text = [piece]) :
    text = piece := by
  have hjoin := intercalate_split sep text
  rw [h, List.map_singleton, List.intercalate_singleton] at hjoin
  exact String.toList_inj.1 hjoin.symm

/-- If a text with a separator has two pieces, then they are what it separates. -/
theorem eq_of_split_eq_pair {sep : Char} {first rest piece other : String}
    (h : split sep (first ++ String.singleton sep ++ rest) = [piece, other]) :
    first = piece ∧ rest = other := by
  obtain ⟨a, as, hfirst⟩ := List.exists_cons_of_ne_nil (split_ne_nil sep first)
  obtain ⟨b, bs, hrest⟩ := List.exists_cons_of_ne_nil (split_ne_nil sep rest)
  rw [split_append, hfirst, hrest, List.cons_append, List.cons.injEq] at h
  obtain ⟨rfl, hothers⟩ := h
  have hlength := congrArg List.length hothers
  simp only [List.length_append, List.length_cons, List.length_nil] at hlength
  obtain rfl : as = [] := List.length_eq_zero_iff.1 (by omega)
  rw [List.nil_append] at hothers
  exact ⟨eq_of_split_eq_singleton hfirst, eq_of_split_eq_singleton (hrest.trans hothers)⟩

end DesiredState.Text
