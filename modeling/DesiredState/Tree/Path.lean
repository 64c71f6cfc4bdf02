import DesiredState.Text.Numeral
import DesiredState.Text.Split
import DesiredState.Tree.Basic

/-!
Dotted paths into a configuration tree.
A segment is a key of a map or the index of a list element; sets and scalars
have nothing below them. The empty path is the tree itself.
-/
namespace DesiredState.Tree

def step? (t : Tree) (segment : String) : Option Tree :=
  match t with
  | map entries => Entries.get? entries segment
  | list items => (Text.nat64? segment).bind (items[·]?)
  | _ => none

def walk? : List String → Tree → Option Tree
  | [], t => some t
  | segment :: rest, t => (t.step? segment).bind (walk? rest)

/-- The subtree at a dotted path. -/
def lookup? (t : Tree) (path : String) : Option Tree :=
  if path.isEmpty then some t else walk? (Text.split '.' path) t

theorem lookup?_eq_walk? {path : String} (h : path ≠ "") (t : Tree) :
    t.lookup? path = t.walk? (Text.split '.' path) := by
  rw [lookup?, if_neg (by simpa using h)]

theorem walk?_append (first rest : List String) (t : Tree) :
    walk? (first ++ rest) t = (walk? first t).bind (walk? rest) := by
  induction first generalizing t with
  | nil => rfl
  | cons segment segments ih =>
    simp only [List.cons_append, walk?, Option.bind_assoc]
    exact congrArg _ (funext ih)

end DesiredState.Tree
