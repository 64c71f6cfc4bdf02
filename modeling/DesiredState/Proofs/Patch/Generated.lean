import DesiredState.Patch.Diff

/-!
The operations that a rule gives.
Each of them is made with a value exactly if its action takes one, and names
the field of the rule or one part of it.
-/
namespace DesiredState.Patch

/-- An operation with a value if its action takes one, and without one otherwise. -/
inductive Operation.Formed : Operation → Prop
  | add (pointer : String) (v : Json) : Formed (Patch.add pointer v)
  | remove (pointer : String) : Formed (Patch.remove pointer)
  | replace (pointer : String) (v : Json) : Formed (Patch.replace pointer v)

/-- A pointer to the field of a rule, to a member of it, or to an element. -/
inductive Touches (r : Rule) : String → Prop
  | field : Touches r r.pointer
  | member (key : String) : Touches r (Pointer.member r.pointer key)
  | element (i : Nat) : Touches r (Pointer.element r.pointer i)

/-- An operation that a rule may give. -/
structure Serves (r : Rule) (op : Operation) : Prop where
  formed : op.Formed
  touches : Touches r op.pointer

variable {r : Rule} {op : Operation}

theorem serves_add (v : Json) : Serves r (add r.pointer v) := ⟨.add _ v, .field⟩

theorem serves_remove : Serves r (remove r.pointer) := ⟨.remove _, .field⟩

theorem serves_replace (v : Json) : Serves r (replace r.pointer v) := ⟨.replace _ v, .field⟩

theorem serves_of_mem_keyOperations {p d : Option Json} (hop : op ∈ keyOperations r p d) :
    Serves r op := by
  unfold keyOperations at hop
  split at hop
  · rcases List.mem_append.1 hop with hop | hop
    · obtain ⟨⟨key, v⟩, -, he⟩ := List.mem_filterMap.1 hop
      dsimp only at he
      split at he
      · cases he
      · cases he
        exact ⟨.add _ v, .member key⟩
    · obtain ⟨⟨key, v⟩, -, he⟩ := List.mem_filterMap.1 hop
      dsimp only at he
      split at he
      · cases he
      · split at he
        · cases he
        · cases he
          exact ⟨.remove _, .member key⟩
  · obtain rfl := List.mem_singleton.1 hop
    exact serves_add _
  · cases hop

theorem serves_of_mem_elementOperations {i : Nat} {ps ds : List Json}
    (hop : op ∈ elementOperations r i ps ds) : Serves r op := by
  induction ps generalizing i ds with
  | nil => cases hop
  | cons p ps ih =>
    cases ds with
    | nil => cases hop
    | cons d ds =>
      simp only [elementOperations] at hop
      split at hop
      · rcases List.mem_cons.1 hop with rfl | hop
        · exact ⟨.replace _ d, .element i⟩
        · exact ih hop
      · exact ih hop

theorem serves_of_mem_wholeOperations {p d : Option Json} (hop : op ∈ wholeOperations r p d) :
    Serves r op := by
  unfold wholeOperations at hop
  split at hop
  · cases hop
  · split at hop
    · cases hop
    · obtain rfl := List.mem_singleton.1 hop
      exact serves_remove
  · obtain rfl := List.mem_singleton.1 hop
    exact serves_add _
  · split at hop
    · unfold replacements at hop
      split at hop
      · split at hop
        · exact serves_of_mem_elementOperations hop
        · obtain rfl := List.mem_singleton.1 hop
          exact serves_replace _
      · obtain rfl := List.mem_singleton.1 hop
        exact serves_replace _
    · cases hop

theorem serves_of_mem_ruleOperations {p d : Json} (hop : op ∈ ruleOperations r p d) :
    Serves r op := by
  unfold ruleOperations at hop
  split at hop
  · cases hop
  · dsimp only at hop
    split at hop
    · exact serves_of_mem_wholeOperations hop
    · exact serves_of_mem_keyOperations hop

/-- Every operation of a patch along a plan is one that a rule of the plan may give. -/
theorem exists_serves_of_mem_between {previous desired : Json} {plan : Plan}
    (hop : op ∈ between previous desired plan) : ∃ r ∈ plan, Serves r op := by
  obtain ⟨r, hr, hop⟩ := List.mem_flatMap.1 hop
  exact ⟨r, hr, serves_of_mem_ruleOperations hop⟩

end DesiredState.Patch
