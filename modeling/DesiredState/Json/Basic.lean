import DesiredState.Entries
import DesiredState.Number.Basic

/-!
JSON documents. An object keeps its members in key order; `WellFormed` says so
at every depth. Equality of documents is `==`: it differs from identity only
in the two zeros of a binary64 number.
-/
namespace DesiredState

inductive Json where
  | null
  | bool (b : Bool)
  | num (n : Number)
  | str (s : String)
  | arr (items : List Json)
  | obj (members : List (String × Json))
deriving Repr, Inhabited

namespace Json

mutual

def WellFormed : Json → Prop
  | null | bool _ | str _ => True
  | num n => n.InRange
  | arr items => AllWellFormed items
  | obj members => Entries.Sorted members ∧ MembersWellFormed members

def AllWellFormed : List Json → Prop
  | [] => True
  | x :: rest => x.WellFormed ∧ AllWellFormed rest

def MembersWellFormed : List (String × Json) → Prop
  | [] => True
  | (_, x) :: rest => x.WellFormed ∧ MembersWellFormed rest

end

mutual

def same : Json → Json → Bool
  | null, null => true
  | bool a, bool b => a == b
  | num a, num b => a == b
  | str a, str b => a == b
  | arr a, arr b => sameItems a b
  | obj a, obj b => sameMembers a b
  | _, _ => false

def sameItems : List Json → List Json → Bool
  | [], [] => true
  | a :: as, b :: bs => a.same b && sameItems as bs
  | _, _ => false

def sameMembers : List (String × Json) → List (String × Json) → Bool
  | [], [] => true
  | (k, a) :: as, (l, b) :: bs => k == l && (a.same b && sameMembers as bs)
  | _, _ => false

end

instance : BEq Json := ⟨same⟩

def int (i : Int) : Json := num (.int i)

/-- An object from members in any order; of two with one key the later one counts. -/
def object (members : List (String × Json)) : Json := obj (Entries.ofList members)

def isNull : Json → Bool
  | null => true
  | _ => false

def asString? : Json → Option String
  | str s => some s
  | _ => none

def asInt? : Json → Option Int
  | num (.int i) => some i
  | _ => none

/-- An integer that fits 64 signed bits. -/
def asInt64? (v : Json) : Option Int :=
  v.asInt?.filter (fun i => Int64.minValue.toInt ≤ i ∧ i ≤ Int64.maxValue.toInt)

/-- An integer of 32 signed bits. -/
def asInt32? (v : Json) : Option Int32 :=
  v.asInt?.bind fun i =>
    if Int32.minValue.toInt ≤ i ∧ i ≤ Int32.maxValue.toInt then some (Int32.ofInt i) else none

def members? : Json → Option (List (String × Json))
  | obj members => some members
  | _ => none

def items? : Json → Option (List Json)
  | arr items => some items
  | _ => none

/-- The member of an object; nothing else has members. -/
def member? (v : Json) (key : String) : Option Json :=
  v.members?.bind (Entries.get? · key)

/-- The member of an object unless it is missing or null. -/
def present? (v : Json) (key : String) : Option Json :=
  (v.member? key).filter (!·.isNull)

/-- A value that may be null, read where it is not. -/
def readUnlessNull {α : Type} (v : Json) (read : Json → Option α) : Option (Option α) :=
  if v.isNull then some none else (read v).map some

/-- A member that may be missing or null, read where it is there. -/
def readMember {α : Type} (v : Json) (key : String) (read : Json → Option α) :
    Option (Option α) :=
  ((v.member? key).getD null).readUnlessNull read

/-- Sets a member; a value that is no object becomes one first. -/
def setMember (v : Json) (key : String) (value : Json) : Json :=
  obj (Entries.insert key value (v.members?.getD []))

def eraseMember (v : Json) (key : String) : Json :=
  match v with
  | obj members => obj (Entries.erase key members)
  | other => other

/-- Sets the value below a path of keys, making the objects missing on the way. -/
def setAt : Json → List String → Json → Json
  | _, [], value => value
  | v, key :: rest, value =>
    v.setMember key (setAt ((v.member? key).getD null) rest value)

/-- Removes the member at a path of keys, making the objects missing on the way. -/
def eraseAt : Json → List String → Json
  | v, [] => v
  | v, [key] => v.eraseMember key
  | v, key :: rest => v.setMember key (eraseAt ((v.member? key).getD null) rest)

theorem beq_arr (a b : List Json) : (arr a == arr b) = sameItems a b := rfl

mutual

theorem same_refl : ∀ a : Json, a.same a = true
  | null => rfl
  | bool _ => by simp [same]
  | num _ => by simp [same]
  | str _ => by simp [same]
  | arr items => sameItems_refl items
  | obj members => sameMembers_refl members

theorem sameItems_refl : ∀ l : List Json, sameItems l l = true
  | [] => rfl
  | x :: rest => by simp [sameItems, same_refl x, sameItems_refl rest]

theorem sameMembers_refl : ∀ l : List (String × Json), sameMembers l l = true
  | [] => rfl
  | (_, x) :: rest => by simp [sameMembers, same_refl x, sameMembers_refl rest]

end

mutual

theorem same_symm : ∀ {a b : Json}, a.same b = true → b.same a = true
  | null, null, _ => rfl
  | bool _, bool _, h => by simp_all [same]
  | num _, num _, h => by simp only [same] at h ⊢; exact BEq.symm h
  | str _, str _, h => by simp_all [same]
  | arr _, arr _, h => sameItems_symm h
  | obj _, obj _, h => sameMembers_symm h

theorem sameItems_symm : ∀ {a b : List Json}, sameItems a b = true → sameItems b a = true
  | [], [], _ => rfl
  | _ :: _, _ :: _, h => by
    simp only [sameItems, Bool.and_eq_true] at h ⊢
    exact ⟨same_symm h.1, sameItems_symm h.2⟩

theorem sameMembers_symm : ∀ {a b : List (String × Json)},
    sameMembers a b = true → sameMembers b a = true
  | [], [], _ => rfl
  | (_, _) :: _, (_, _) :: _, h => by
    simp only [sameMembers, Bool.and_eq_true] at h ⊢
    exact ⟨BEq.symm h.1, same_symm h.2.1, sameMembers_symm h.2.2⟩

end

mutual

theorem same_trans : ∀ {a b c : Json}, a.same b = true → b.same c = true → a.same c = true
  | null, null, null, _, _ => rfl
  | bool _, bool _, bool _, h, k => by simp_all [same]
  | num _, num _, num _, h, k => by simp only [same] at h k ⊢; exact PartialEquivBEq.trans h k
  | str _, str _, str _, h, k => by simp_all [same]
  | arr _, arr _, arr _, h, k => sameItems_trans h k
  | obj _, obj _, obj _, h, k => sameMembers_trans h k

theorem sameItems_trans : ∀ {a b c : List Json},
    sameItems a b = true → sameItems b c = true → sameItems a c = true
  | [], [], [], _, _ => rfl
  | _ :: _, _ :: _, _ :: _, h, k => by
    simp only [sameItems, Bool.and_eq_true] at h k ⊢
    exact ⟨same_trans h.1 k.1, sameItems_trans h.2 k.2⟩

theorem sameMembers_trans : ∀ {a b c : List (String × Json)},
    sameMembers a b = true → sameMembers b c = true → sameMembers a c = true
  | [], [], [], _, _ => rfl
  | (_, _) :: _, (_, _) :: _, (_, _) :: _, h, k => by
    simp only [sameMembers, Bool.and_eq_true, beq_iff_eq] at h k ⊢
    exact ⟨h.1.trans k.1, same_trans h.2.1 k.2.1, sameMembers_trans h.2.2 k.2.2⟩

end

instance : EquivBEq Json where
  rfl := same_refl _
  symm := same_symm
  trans := same_trans

end Json

end DesiredState
