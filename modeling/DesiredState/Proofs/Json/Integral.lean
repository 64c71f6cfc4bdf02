import DesiredState.Json.Basic

/-!
Documents without fractions.
Equal documents are the same where every number is an integer, since only the
two zeros of a binary64 number are equal without being the same.
-/
namespace DesiredState.Json

mutual

/-- Every number in the document is an integer. -/
def Integral : Json → Prop
  | null | bool _ | str _ | num (.int _) => True
  | num (.real _) => False
  | arr items => AllIntegral items
  | obj members => MembersIntegral members

def AllIntegral : List Json → Prop
  | [] => True
  | x :: rest => x.Integral ∧ AllIntegral rest

def MembersIntegral : List (String × Json) → Prop
  | [] => True
  | (_, x) :: rest => x.Integral ∧ MembersIntegral rest

end

theorem allIntegral_iff {items : List Json} : AllIntegral items ↔ ∀ x ∈ items, x.Integral := by
  induction items with
  | nil => simp [AllIntegral]
  | cons first rest ih => simp [AllIntegral, ih]

theorem membersIntegral_iff {members : List (String × Json)} :
    MembersIntegral members ↔ ∀ e ∈ members, e.2.Integral := by
  induction members with
  | nil => simp [MembersIntegral]
  | cons e rest ih => simp [MembersIntegral, ih]

theorem integral_insert {members : List (String × Json)} (h : (obj members).Integral)
    (key : String) {x : Json} (hx : x.Integral) :
    (obj (Entries.insert key x members)).Integral := by
  refine membersIntegral_iff.2 fun e he => ?_
  rcases Entries.mem_insert he with rfl | he
  · exact hx
  · exact membersIntegral_iff.1 h e he

theorem integral_insert? {members : List (String × Json)} (h : (obj members).Integral)
    (key : String) {value : Option Json} (hvalue : ∀ x, value = some x → x.Integral) :
    (obj (Entries.insert? key value members)).Integral := by
  cases value with
  | none => exact h
  | some x => exact integral_insert h key (hvalue x rfl)

mutual

theorem eq_of_same : ∀ {a b : Json}, a.Integral → a.same b = true → a = b
  | null, null, _, _ => rfl
  | bool _, bool _, _, h => by simpa [same] using h
  | str _, str _, _, h => by simpa [same] using h
  | num (.int _), num (.int _), _, h => by simpa [same] using h
  | num (.int i), num (.real x), _, h => by
    have hnormal := (Number.beq_iff _ _).1 h
    simp only [Number.normal] at hnormal
    split at hnormal <;> cases hnormal
  | arr _, arr _, ha, h => congrArg arr (eq_of_sameItems ha h)
  | obj _, obj _, ha, h => congrArg obj (eq_of_sameMembers ha h)

theorem eq_of_sameItems : ∀ {a b : List Json}, AllIntegral a → sameItems a b = true → a = b
  | [], [], _, _ => rfl
  | _ :: _, _ :: _, ha, h => by
    obtain ⟨hfirst, hrest⟩ := Bool.and_eq_true_iff.1 h
    rw [eq_of_same ha.1 hfirst, eq_of_sameItems ha.2 hrest]

theorem eq_of_sameMembers : ∀ {a b : List (String × Json)}, MembersIntegral a →
    sameMembers a b = true → a = b
  | [], [], _, _ => rfl
  | (_, _) :: _, (_, _) :: _, ha, h => by
    obtain ⟨hkey, h⟩ := Bool.and_eq_true_iff.1 h
    obtain ⟨hfirst, hrest⟩ := Bool.and_eq_true_iff.1 h
    rw [beq_iff_eq.1 hkey, eq_of_same ha.1 hfirst, eq_of_sameMembers ha.2 hrest]

end

end DesiredState.Json
