import DesiredState.Entries

/-!
Configuration trees: the values a desired state is written in.
A missing key means that nothing is configured, which differs from a key with
an empty value. A set holds its strings once and in increasing order; a map
holds its keys in increasing order. `WellFormed` says so at every depth.
-/
namespace DesiredState

inductive Tree where
  | str (s : String)
  | int (i : Int64)
  | bool (b : Bool)
  | list (items : List Tree)
  | set (items : List String)
  | map (entries : List (String × Tree))
deriving Repr, Inhabited

namespace Tree

inductive Form where
  | string | int | bool | list | set | map
deriving DecidableEq, Repr

def Form.name : Form → String
  | .string => "string"
  | .int => "int"
  | .bool => "bool"
  | .list => "list"
  | .set => "set"
  | .map => "map"

def form : Tree → Form
  | str _ => .string
  | int _ => .int
  | bool _ => .bool
  | list _ => .list
  | set _ => .set
  | map _ => .map

def empty : Tree := map []

/-- An at-most-one block that is there: a list holding one map. -/
def block (entries : List (String × Tree)) : Tree := list [map entries]

mutual

def WellFormed : Tree → Prop
  | str _ | int _ | bool _ => True
  | list items => AllWellFormed items
  | set items => items.Pairwise (· < ·)
  | map entries => Entries.Sorted entries ∧ EntriesWellFormed entries

def AllWellFormed : List Tree → Prop
  | [] => True
  | t :: rest => t.WellFormed ∧ AllWellFormed rest

def EntriesWellFormed : List (String × Tree) → Prop
  | [] => True
  | (_, t) :: rest => t.WellFormed ∧ EntriesWellFormed rest

end

/-- Adds a string to a set unless it is there. -/
def insertItem (item : String) : List String → List String
  | [] => [item]
  | first :: rest =>
    if item < first then item :: first :: rest
    else if item = first then first :: rest
    else first :: insertItem item rest

/-- The strings of a list once each and in increasing order. -/
def sortedItems (items : List String) : List String := items.foldr insertItem []

def setOf (items : List String) : Tree := set (sortedItems items)

def strings (items : List String) : Tree := list (items.map str)

mutual

def same : Tree → Tree → Bool
  | str a, str b => a == b
  | int a, int b => a == b
  | bool a, bool b => a == b
  | list a, list b => sameItems a b
  | set a, set b => a == b
  | map a, map b => sameEntries a b
  | _, _ => false

def sameItems : List Tree → List Tree → Bool
  | [], [] => true
  | a :: as, b :: bs => a.same b && sameItems as bs
  | _, _ => false

def sameEntries : List (String × Tree) → List (String × Tree) → Bool
  | [], [] => true
  | (k, a) :: as, (l, b) :: bs => k == l && (a.same b && sameEntries as bs)
  | _, _ => false

end

mutual

theorem same_refl : ∀ t : Tree, t.same t = true
  | str _ | int _ | bool _ | set _ => by simp [same]
  | list items => sameItems_refl items
  | map entries => sameEntries_refl entries

theorem sameItems_refl : ∀ l : List Tree, sameItems l l = true
  | [] => rfl
  | t :: rest => by simp [sameItems, same_refl t, sameItems_refl rest]

theorem sameEntries_refl : ∀ l : List (String × Tree), sameEntries l l = true
  | [] => rfl
  | (_, t) :: rest => by simp [sameEntries, same_refl t, sameEntries_refl rest]

end

mutual

theorem eq_of_same : ∀ {a b : Tree}, a.same b = true → a = b
  | str _, str _, h => by simpa [same] using h
  | int _, int _, h => by simpa [same] using h
  | bool _, bool _, h => by simpa [same] using h
  | set _, set _, h => by simpa [same] using h
  | list _, list _, h => congrArg list (eq_of_sameItems h)
  | map _, map _, h => congrArg map (eq_of_sameEntries h)

theorem eq_of_sameItems : ∀ {a b : List Tree}, sameItems a b = true → a = b
  | [], [], _ => rfl
  | _ :: _, _ :: _, h => by
    simp only [sameItems, Bool.and_eq_true] at h
    rw [eq_of_same h.1, eq_of_sameItems h.2]

theorem eq_of_sameEntries : ∀ {a b : List (String × Tree)}, sameEntries a b = true → a = b
  | [], [], _ => rfl
  | (_, _) :: _, (_, _) :: _, h => by
    simp only [sameEntries, Bool.and_eq_true, beq_iff_eq] at h
    rw [h.1, eq_of_same h.2.1, eq_of_sameEntries h.2.2]

end

theorem same_iff {a b : Tree} : a.same b = true ↔ a = b :=
  ⟨eq_of_same, fun h => h ▸ same_refl a⟩

instance : DecidableEq Tree := fun _ _ => decidable_of_iff _ same_iff

def asString? : Tree → Option String
  | str s => some s
  | _ => none

def asInt? : Tree → Option Int64
  | int i => some i
  | _ => none

def asBool? : Tree → Option Bool
  | bool b => some b
  | _ => none

def items? : Tree → Option (List Tree)
  | list items => some items
  | _ => none

def entries? : Tree → Option (List (String × Tree))
  | map entries => some entries
  | _ => none

def get? (t : Tree) (key : String) : Option Tree :=
  t.entries?.bind (Entries.get? · key)

/-- Sets a key; a tree that is no map becomes an empty one first. -/
def insert (t : Tree) (key : String) (value : Tree) : Tree :=
  map (Entries.insert key value (t.entries?.getD []))

/-- Drops a key; a tree that is no map stays as it is. -/
def erase (t : Tree) (key : String) : Tree :=
  match t with
  | map entries => map (Entries.erase key entries)
  | other => other

theorem get?_insert (t : Tree) (key other : String) (value : Tree) :
    (t.insert key value).get? other = if key = other then some value else t.get? other := by
  cases t <;> simp [insert, get?, entries?, Entries.get?_insert]

theorem get?_erase (t : Tree) (key other : String) :
    (t.erase key).get? other = if key = other then none else t.get? other := by
  cases t <;> simp [erase, get?, entries?, Entries.get?_erase]

end Tree

end DesiredState
