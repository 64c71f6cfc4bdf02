import DesiredState.Proofs.Numeral
import DesiredState.Proofs.Tree
import DesiredState.Tree.Path
import DesiredState.Tree.Violation
import Mathlib.Data.String.Basic

/-!
Faults found by their paths.
A dotted path whose segments have no dot is followed segment by segment, so
what is below the elements of a list is found under their numbers. A violation
blames a subtree if it names a path below it and what is at its end bears out
the cause; blame is carried from a subtree to the tree around it.
-/
namespace DesiredState

namespace Text

/-- Pieces without the separator are got back from the text that they are joined to. -/
theorem segments_intercalate {sep : Char} {first : List Char} {rest : List (List Char)}
    (h : ∀ piece ∈ first :: rest, sep ∉ piece) :
    segments sep ([sep].intercalate (first :: rest)) = first :: rest := by
  induction rest generalizing first with
  | nil =>
    rw [List.intercalate_singleton]
    exact segments_of_not_mem (h first List.mem_cons_self)
  | cons second more ih =>
    obtain ⟨hfirst, hrest⟩ := List.forall_mem_cons.1 h
    rw [List.intercalate_cons_cons, List.append_assoc, List.singleton_append,
      segments_append_sep hfirst, ih hrest]

theorem split_intercalate {sep : Char} {first : String} {rest : List String}
    (h : ∀ piece ∈ first :: rest, sep ∉ piece.toList) :
    split sep (String.intercalate (String.singleton sep) (first :: rest)) = first :: rest := by
  have hpieces : ∀ piece ∈ (first :: rest).map String.toList, sep ∉ piece :=
    List.forall_mem_map.2 h
  have hsegments : segments sep ([sep].intercalate ((first :: rest).map String.toList)) =
      (first :: rest).map String.toList := segments_intercalate hpieces
  rw [split, String.toList_intercalate, String.toList_singleton, hsegments]
  simp [Function.comp_def]

theorem nat64?_repr (n : Nat) : nat64? n.repr = if n < UInt64.size then some n else none := by
  rw [nat64?, unsigned?_of_digitsValue? (digitsValue?_repr n)]
  by_cases h : n < UInt64.size <;> simp [Option.filter, h]

end Text

namespace Tree

mutual

/-- How many elements the longest list in a tree has. -/
def longest : Tree → Nat
  | str _ | int _ | bool _ | set _ => 0
  | list items => max items.length (longestOf items)
  | map entries => longestIn entries

def longestOf : List Tree → Nat
  | [] => 0
  | t :: rest => max t.longest (longestOf rest)

def longestIn : List (String × Tree) → Nat
  | [] => 0
  | (_, t) :: rest => max t.longest (longestIn rest)

end

theorem longest_le_longestOf {items : List Tree} {t : Tree} (h : t ∈ items) :
    t.longest ≤ longestOf items := by
  induction items with
  | nil => cases h
  | cons first rest ih =>
    rcases List.mem_cons.1 h with rfl | h
    · exact Nat.le_max_left _ _
    · exact (ih h).trans (Nat.le_max_right _ _)

theorem longest_le_longestIn {entries : List (String × Tree)} {e : String × Tree}
    (h : e ∈ entries) : e.2.longest ≤ longestIn entries := by
  induction entries with
  | nil => cases h
  | cons first rest ih =>
    rcases List.mem_cons.1 h with rfl | h
    · exact Nat.le_max_left _ _
    · exact (ih h).trans (Nat.le_max_right _ _)

/-- A tree as memory holds it, whose parts a path can tell apart: no key comes twice in a map, and
the elements of a list are numbered by machine words. -/
structure Traversable (t : Tree) : Prop where
  wellFormed : t.WellFormed
  bounded : t.longest ≤ UInt64.size

theorem Traversable.item {items : List Tree} (h : (list items).Traversable) {t : Tree}
    (ht : t ∈ items) : t.Traversable :=
  ⟨allWellFormed_iff.1 h.wellFormed t ht,
    (longest_le_longestOf ht).trans ((Nat.le_max_right _ _).trans h.bounded)⟩

theorem Traversable.entry {entries : List (String × Tree)} (h : (map entries).Traversable)
    {key : String} {t : Tree} (ht : Entries.get? entries key = some t) : t.Traversable :=
  ⟨wellFormed_of_get? h.wellFormed ht,
    (longest_le_longestIn (Entries.mem_of_get? ht)).trans h.bounded⟩

theorem Traversable.step?_repr {items : List Tree} (h : (list items).Traversable) (i : Nat) :
    (list items).step? i.repr = items[i]? := by
  have hlength : items.length ≤ UInt64.size := (Nat.le_max_left _ _).trans h.bounded
  rw [step?, Text.nat64?_repr]
  split
  · rfl
  · rename_i hi
    rw [List.getElem?_eq_none (by omega), Option.bind_none]

/-- A path of segments without dots, as it is written. -/
theorem lookup?_intercalate {first : String} {rest : List String} (hfirst : first ≠ "")
    (h : ∀ segment ∈ first :: rest, '.' ∉ segment.toList) (t : Tree) :
    t.lookup? (String.intercalate "." (first :: rest)) = t.walk? (first :: rest) := by
  have hne : String.intercalate "." (first :: rest) ≠ "" := by
    cases rest with
    | nil => simpa using hfirst
    | cons second more => simp [String.intercalate_cons_cons, hfirst]
  have hsplit := Text.split_intercalate h
  rw [lookup?_eq_walk? hne]
  exact congrArg (t.walk? ·) hsplit

/-- What a cause says of the place that it is told for. -/
def Cause.Explains : Cause → Option Tree → Prop
  | mismatch wanted found, t => ∃ u, t = some u ∧ u.form = found ∧ found ≠ wanted
  | outOfRange i, t =>
    t = some (.int i) ∧ ¬ (Int32.minValue.toInt ≤ i.toInt ∧ i.toInt ≤ Int32.maxValue.toInt)
  | tooManyBlocks count, t => ∃ items, t = some (.list items) ∧ items.length = count ∧ 2 ≤ count
  | missing, t => t = none
  | missingBlock, t => t = none ∨ t = some (.list [])
  | unnamed, t => ∃ entries, t = some (.map entries) ∧
      Entries.get? entries "name" = none ∧ Entries.get? entries "generate_name" = none

/-- The words for the forms of values. -/
def Form.words : List (Form × String) :=
  [(string, "string"), (int, "int"), (bool, "bool"), (list, "list"), (set, "set"), (map, "map")]

/-- What may be told of a place in a tree by what is there. -/
inductive Tells : String → Option Tree → Prop where
  | mismatch {wanted : Form} {wantedWord foundWord : String} {t : Tree}
      (hwanted : (wanted, wantedWord) ∈ Form.words) (hfound : (t.form, foundWord) ∈ Form.words)
      (hne : t.form ≠ wanted) :
      Tells ("expected " ++ wantedWord ++ ", found " ++ foundWord) (some t)
  | outOfRange {i : Int64} (h : ¬ (-2147483648 ≤ i.toInt ∧ i.toInt ≤ 2147483647)) :
      Tells (toString i.toInt ++ " out of range") (some (int i))
  | tooManyBlocks {items : List Tree} (h : 2 ≤ items.length) :
      Tells ("at most one block allowed, found " ++ toString items.length) (some (list items))
  | missing : Tells "required" none
  | missingBlock {t : Option Tree} (h : t = none ∨ t = some (list [])) :
      Tells "required block missing" t
  | unnamed {entries : List (String × Tree)} (hname : Entries.get? entries "name" = none)
      (hgenerate : Entries.get? entries "generate_name" = none) :
      Tells "one of name or generate_name is required" (some (map entries))

theorem Form.name_mem_words (f : Form) : (f, f.name) ∈ words := by
  cases f <;> decide

/-- A cause that is borne out is told in the words for what is there. -/
theorem Cause.Explains.tells {cause : Cause} {t : Option Tree} (h : cause.Explains t) :
    Tells (Violation.explanation cause) t := by
  cases cause with
  | mismatch wanted found =>
    obtain ⟨u, rfl, rfl, hne⟩ := h
    exact .mismatch wanted.name_mem_words u.form.name_mem_words hne
  | outOfRange i =>
    have hleast : Int32.minValue.toInt = -2147483648 := by decide
    have hgreatest : Int32.maxValue.toInt = 2147483647 := by decide
    rw [Explains, hleast, hgreatest] at h
    obtain ⟨rfl, hrange⟩ := h
    have htold := Tells.outOfRange hrange
    rw [← Text.intText_eq_toString] at htold
    exact htold
  | tooManyBlocks count =>
    obtain ⟨items, rfl, rfl, hcount⟩ := h
    exact .tooManyBlocks hcount
  | missing =>
    cases h
    exact .missing
  | missingBlock => exact .missingBlock h
  | unnamed =>
    obtain ⟨entries, rfl, hname, hgenerate⟩ := h
    exact .unnamed hname hgenerate

namespace Violation

/-- A violation of what is, or is not, at a path is told for a place below it that bears it out. -/
def Blames (v : Violation) (path : List String) (found : Option Tree) : Prop :=
  ∃ rest, v.path = path ++ rest ∧ (∀ segment ∈ rest, '.' ∉ segment.toList) ∧
    v.cause.Explains (found.bind (walk? rest))

theorem blames_here {path : List String} {cause : Cause} {found : Option Tree}
    (h : cause.Explains found) : Blames ⟨path, cause⟩ path found := by
  refine ⟨[], (List.append_nil path).symm, by simp, ?_⟩
  cases found <;> exact h

theorem Blames.outward {v : Violation} {path : List String} {segment : String} {t : Tree}
    (hsegment : '.' ∉ segment.toList) (h : v.Blames (path ++ [segment]) (t.step? segment)) :
    v.Blames path (some t) := by
  obtain ⟨rest, hpath, hrest, hcause⟩ := h
  refine ⟨segment :: rest, ?_, List.forall_mem_cons.2 ⟨hsegment, hrest⟩, hcause⟩
  rw [hpath, List.append_assoc, List.singleton_append]

theorem Blames.outOfEntry {v : Violation} {path : List String} {key : String}
    {entries : List (String × Tree)} (hkey : '.' ∉ key.toList)
    (h : v.Blames (path ++ [key]) (Entries.get? entries key)) :
    v.Blames path (some (map entries)) :=
  Blames.outward hkey h

theorem Blames.outOfItem {v : Violation} {path : List String} {items : List Tree} {i : Nat}
    (ht : (list items).Traversable) (h : v.Blames (path ++ [i.repr]) items[i]?) :
    v.Blames path (some (list items)) :=
  Blames.outward (Text.not_mem_repr rfl i) (ht.step?_repr i ▸ h)

/-- The place that is told starts at the key that is blamed, and is looked up to what bears it
out. -/
theorem Blames.explains {v : Violation} {key : String} {entries : List (String × Tree)}
    (hne : key ≠ "") (hkey : '.' ∉ key.toList) (h : v.Blames [key] (Entries.get? entries key)) :
    (∃ rest, Text.split '.' v.place = key :: rest) ∧
      v.cause.Explains ((map entries).lookup? v.place) := by
  obtain ⟨rest, hpath, hrest, hcause⟩ := h
  have hsegments : ∀ segment ∈ key :: rest, '.' ∉ segment.toList :=
    List.forall_mem_cons.2 ⟨hkey, hrest⟩
  have hplace : v.place = String.intercalate "." (key :: rest) := by simp [place, hpath]
  rw [hplace, lookup?_intercalate hne hsegments]
  exact ⟨⟨rest, Text.split_intercalate hsegments⟩, hcause⟩

end Violation

end Tree

end DesiredState
