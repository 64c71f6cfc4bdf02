import DesiredState.Proofs.Entries
import DesiredState.Proofs.Numeral
import DesiredState.Proofs.Outcome
import DesiredState.Schema.Leaf
import Mathlib.Tactic.Tauto

/-!
Leaves read back.
What a leaf keeps of its value on the way through a tree is `configured`, and
the tree that reading and writing a tree amounts to is `canonical`: a set is
sorted and holds each string once, and a numeral of 32 bits stands for its
number. Documents keep every value as it is.
-/
namespace DesiredState

namespace Tree

theorem mem_insertItem {item x : String} {items : List String} :
    x ∈ insertItem item items ↔ x = item ∨ x ∈ items := by
  induction items with
  | nil => simp [insertItem]
  | cons first rest ih =>
    simp only [insertItem]
    split
    · simp
    · split
      · rename_i heq
        simp [heq]
      · simp only [List.mem_cons, ih]
        tauto

theorem mem_sortedItems {x : String} {items : List String} :
    x ∈ sortedItems items ↔ x ∈ items := by
  induction items with
  | nil => rfl
  | cons item rest ih =>
    change x ∈ insertItem item (sortedItems rest) ↔ _
    rw [mem_insertItem, ih, List.mem_cons]

theorem pairwise_insertItem {item : String} {items : List String}
    (h : items.Pairwise (· < ·)) : (insertItem item items).Pairwise (· < ·) := by
  induction items with
  | nil => simp [insertItem]
  | cons first rest ih =>
    obtain ⟨hfirst, hrest⟩ := List.pairwise_cons.1 h
    simp only [insertItem]
    split
    · rename_i hlt
      refine List.pairwise_cons.2 ⟨fun x hx => ?_, h⟩
      rcases List.mem_cons.1 hx with rfl | hx
      · exact hlt
      · exact String.lt_trans hlt (hfirst x hx)
    · split
      · exact h
      · rename_i hlt hne
        refine List.pairwise_cons.2 ⟨fun x hx => ?_, ih hrest⟩
        rcases mem_insertItem.1 hx with rfl | hx
        · exact Std.lt_of_le_of_ne (String.not_lt.1 hlt) (Ne.symm hne)
        · exact hfirst x hx

/-- Each string occurs once, in increasing order. -/
theorem pairwise_sortedItems (items : List String) : (sortedItems items).Pairwise (· < ·) := by
  induction items with
  | nil => exact List.Pairwise.nil
  | cons item rest ih => exact pairwise_insertItem ih

theorem sortedItems_of_pairwise {items : List String} (h : items.Pairwise (· < ·)) :
    sortedItems items = items := by
  induction items with
  | nil => rfl
  | cons item rest ih =>
    obtain ⟨hitem, hrest⟩ := List.pairwise_cons.1 h
    change insertItem item (sortedItems rest) = _
    rw [ih hrest]
    cases rest with
    | nil => rfl
    | cons second more => simp [insertItem, hitem second List.mem_cons_self]

theorem sortedItems_sortedItems (items : List String) :
    sortedItems (sortedItems items) = sortedItems items :=
  sortedItems_of_pairwise (pairwise_sortedItems items)

end Tree

namespace Json

theorem asInt?_eq_some {v : Json} {i : Int} : v.asInt? = some i ↔ v = int i := by
  cases v with
  | num n => cases n <;> simp [asInt?, int]
  | _ => simp [asInt?, int]

theorem asInt64?_eq_some {v : Json} {i : Int} :
    v.asInt64? = some i ↔ v = int i ∧ Int64.minValue.toInt ≤ i ∧ i ≤ Int64.maxValue.toInt := by
  rw [asInt64?, Option.filter_eq_some_iff, decide_eq_true_eq, asInt?_eq_some]

end Json

namespace Schema

theorem IntOrText.ofText_toText (v : IntOrText) :
    ofText v.toText = match v with
      | .int i => .int i
      | .text s => ofText s := by
  cases v with
  | int i => simp [ofText, toText, Text.int32?_intText]
  | text s => rfl

namespace Leaf

/-- What an expanded object keeps of a leaf. -/
def configured : (l : Leaf) → l.Value → l.Value
  | textSet, items => Tree.sortedItems items
  | intOrText, .text s => IntOrText.ofText s
  | intOrText, .int i => .int i
  | text, v => v
  | int32, v => v
  | int64, v => v
  | flag, v => v
  | texts, v => v
  | textMap, v => v

/-- A numeral of 32 bits in its shortest form; any other text as it is. -/
def plainNumeral (s : String) : String :=
  match Text.int32? s with
  | some i => Text.intText i.toInt
  | none => s

def canonical : Leaf → Tree → Tree
  | textSet, .list items => Tree.setOf (items.filterMap Tree.asString?)
  | intOrText, .str s => .str (plainNumeral s)
  | _, t => t

theorem expandTexts_strings (path : Path) (i : Nat) (items : List String) :
    expandTexts path i (items.map .str) = .ok items := by
  induction items generalizing i with
  | nil => rfl
  | cons s rest ih =>
    simp only [List.map_cons, expandTexts, ih]
    rfl

theorem eq_strings_of_expandTexts {path : Path} {i : Nat} {items : List Tree}
    {texts : List String} (h : expandTexts path i items = .ok texts) :
    items = texts.map .str := by
  induction items generalizing i texts with
  | nil =>
    cases h
    rfl
  | cons t rest ih =>
    cases t with
    | str s =>
      simp only [expandTexts] at h
      obtain ⟨more, hmore, heq⟩ := Outcome.bind_eq_ok.1 h
      cases heq
      rw [List.map_cons, ih hmore]
    | _ => simp [expandTexts, mismatch] at h

theorem expandEntries_texts (path : Path) (entries : List (String × String)) :
    expandEntries path (Entries.map .str entries) = .ok entries := by
  induction entries with
  | nil => rfl
  | cons e rest ih =>
    obtain ⟨k, s⟩ := e
    simp only [Entries.map, List.map_cons, expandEntries] at ih ⊢
    rw [ih]
    rfl

theorem eq_texts_of_expandEntries {path : Path} {entries : List (String × Tree)}
    {texts : List (String × String)} (h : expandEntries path entries = .ok texts) :
    entries = Entries.map .str texts := by
  induction entries generalizing texts with
  | nil =>
    cases h
    rfl
  | cons e rest ih =>
    obtain ⟨k, t⟩ := e
    cases t with
    | str s =>
      simp only [expandEntries] at h
      obtain ⟨more, hmore, heq⟩ := Outcome.bind_eq_ok.1 h
      cases heq
      rw [ih hmore]
      rfl
    | _ => simp [expandEntries, mismatch] at h

theorem textMap_ofList (m : TextMap) : TextMap.ofList m.entries = m := by
  obtain ⟨entries, hsorted⟩ := m
  simp [TextMap.ofList, Entries.ofList_of_sorted hsorted]

theorem expand_text_eq_ok {path : Path} {t : Tree} {s : String} :
    text.expand path t = .ok s ↔ t = .str s := by
  cases t <;> simp [expand, mismatch]

theorem expandInt32_toInt64 (path : Path) (i : Int32) : expandInt32 path i.toInt64 = .ok i := by
  have hrange := Text.int32_bounds i
  rw [expandInt32, Int32.toInt_toInt64, if_pos hrange, Int32.ofInt_toInt]

theorem toInt64_of_expandInt32 {path : Path} {i : Int64} {j : Int32}
    (h : expandInt32 path i = .ok j) : j.toInt64 = i := by
  unfold expandInt32 at h
  split at h
  · rename_i hrange
    cases h
    apply Int64.toInt_inj.1
    rw [Int32.toInt_toInt64, Text.toInt_ofInt_of_bounds hrange]
  · simp at h

/-- A flattened leaf can be read again. -/
theorem expand_flatten_leaf (l : Leaf) (path : Path) (v : l.Value) :
    l.expand path (l.flatten v) = .ok (l.configured v) := by
  cases l with
  | text | int64 | flag => rfl
  | int32 => exact expandInt32_toInt64 path v
  | texts => exact expandTexts_strings path 0 v
  | textSet => rfl
  | textMap =>
    simp only [flatten, expand, expandEntries_texts, configured]
    exact congrArg Except.ok (textMap_ofList v)
  | intOrText =>
    change Except.ok (IntOrText.ofText v.toText) = _
    rw [IntOrText.ofText_toText]
    cases v <;> rfl

theorem configured_configured (l : Leaf) (v : l.Value) :
    l.configured (l.configured v) = l.configured v := by
  cases l with
  | textSet => exact Tree.sortedItems_sortedItems v
  | intOrText =>
    cases v with
    | int i => rfl
    | text s =>
      change configured intOrText (IntOrText.ofText s) = IntOrText.ofText s
      unfold IntOrText.ofText
      split
      · rfl
      · rename_i hs
        simp [configured, IntOrText.ofText, hs]
  | _ => rfl

/-- What was read from a tree holds nothing that an expanded object drops. -/
theorem configured_of_expand {l : Leaf} {path : Path} {t : Tree} {v : l.Value}
    (ht : t.WellFormed) (h : l.expand path t = .ok v) : l.configured v = v := by
  cases l with
  | textSet =>
    cases t with
    | set items =>
      cases h
      exact Tree.sortedItems_of_pairwise ht
    | list items =>
      simp only [expand] at h
      obtain ⟨texts, -, rfl⟩ := Outcome.map_eq_ok.1 h
      exact Tree.sortedItems_sortedItems texts
    | _ => simp [expand, mismatch] at h
  | intOrText =>
    cases t with
    | str s =>
      cases h
      exact configured_configured intOrText (.text s)
    | _ => simp [expand, mismatch] at h
  | _ => rfl

/-- Writing what was read gives the canonical form of the tree. -/
theorem flatten_of_expand {l : Leaf} {path : Path} {t : Tree} {v : l.Value}
    (ht : t.WellFormed) (h : l.expand path t = .ok v) : l.flatten v = l.canonical t := by
  cases l with
  | text | int64 =>
    cases t <;> simp_all [expand, mismatch, flatten, canonical]
  | flag =>
    cases t <;> simp_all [expand, mismatch, flatten, canonical]
  | int32 =>
    cases t with
    | int i =>
      simp only [flatten, canonical]
      rw [toInt64_of_expandInt32 h]
    | _ => simp [expand, mismatch] at h
  | texts =>
    cases t with
    | list items =>
      simp only [flatten, canonical, Tree.strings]
      rw [eq_strings_of_expandTexts h]
    | _ => simp [expand, mismatch] at h
  | textSet =>
    cases t with
    | set items =>
      cases h
      simp only [flatten, canonical, Tree.setOf]
      rw [Tree.sortedItems_of_pairwise ht]
    | list items =>
      simp only [expand] at h
      obtain ⟨texts, htexts, rfl⟩ := Outcome.map_eq_ok.1 h
      have hgiven : items.filterMap Tree.asString? = texts := by
        rw [eq_strings_of_expandTexts htexts, List.filterMap_map]
        exact List.filterMap_some
      simp only [flatten, canonical, Tree.setOf, hgiven, Tree.sortedItems_sortedItems]
    | _ => simp [expand, mismatch] at h
  | textMap =>
    cases t with
    | map entries =>
      simp only [expand] at h
      obtain ⟨texts, htexts, rfl⟩ := Outcome.map_eq_ok.1 h
      have hentries := eq_texts_of_expandEntries htexts
      have hsorted : Entries.Sorted texts := Entries.sorted_of_sorted_map (hentries ▸ ht.1)
      simp only [flatten, canonical, TextMap.ofList, Entries.ofList_of_sorted hsorted, hentries]
    | _ => simp [expand, mismatch] at h
  | intOrText =>
    cases t with
    | str s =>
      cases h
      change Tree.str (IntOrText.ofText s).toText = .str (plainNumeral s)
      cases hs : Text.int32? s with
      | some i => simp [IntOrText.ofText, plainNumeral, hs, IntOrText.toText]
      | none => simp [IntOrText.ofText, plainNumeral, hs, IntOrText.toText]
    | _ => simp [expand, mismatch] at h

theorem decodeTexts_texts (items : List String) :
    decodeTexts (.arr (items.map .str)) = some items := by
  change (items.map Json.str).mapM Json.asString? = some items
  induction items with
  | nil => rfl
  | cons s rest ih => simp [Json.asString?, ih]

theorem decodeEntries_texts (entries : List (String × String)) :
    (Entries.map Json.str entries).mapM decodeEntry = some entries := by
  induction entries with
  | nil => rfl
  | cons e rest ih =>
    unfold Entries.map at *
    simp [decodeEntry, Json.asString?, ih]

theorem eq_texts_of_decodeEntries {members : List (String × Json)}
    {entries : List (String × String)} (h : members.mapM decodeEntry = some entries) :
    members = Entries.map Json.str entries := by
  have heach : ∀ e ∈ members, ∀ f, decodeEntry e = some f → (f.1, Json.str f.2) = e := by
    rintro ⟨k, x⟩ - f hf
    obtain ⟨s, hs, rfl⟩ := Option.map_eq_some_iff.1 hf
    cases x with
    | str t =>
      cases hs
      rfl
    | _ => simp [Json.asString?] at hs
  rw [Entries.map, Outcome.map_eq_of_mapM h heach, List.map_id']

/-- Members that are all texts are the texts under their keys. -/
theorem exists_texts {members : List (String × Json)} (h : ∀ e ∈ members, ∃ s, e.2 = .str s) :
    ∃ entries : List (String × String), members = Entries.map .str entries := by
  induction members with
  | nil => exact ⟨[], rfl⟩
  | cons e rest ih =>
    obtain ⟨k, x⟩ := e
    obtain ⟨⟨s, rfl⟩, hrest⟩ := List.forall_mem_cons.1 h
    obtain ⟨entries, rfl⟩ := ih hrest
    exact ⟨(k, s) :: entries, rfl⟩

theorem asString?_str (s : String) : (Json.str s).asString? = some s := rfl

theorem asInt32?_int (i : Int32) : (Json.int i.toInt).asInt32? = some i := by
  have hrange := Text.int32_bounds i
  simp only [Json.asInt32?, Json.int, Json.asInt?, Option.bind_some, if_pos hrange,
    Int32.ofInt_toInt]

theorem asInt64?_int (i : Int64) : (Json.int i.toInt).asInt64? = some i.toInt := by
  have hrange : Int64.minValue.toInt ≤ i.toInt ∧ i.toInt ≤ Int64.maxValue.toInt :=
    ⟨i.minValue_le_toInt, i.toInt_le⟩
  simp only [Json.asInt64?, Json.int, Json.asInt?, Option.filter_some, hrange]
  rfl

theorem decode_encode_leaf (l : Leaf) (v : l.Value) : l.decode (l.encode v) = some v := by
  cases l with
  | text | flag => rfl
  | int32 => exact asInt32?_int v
  | int64 => simp [decode, encode, asInt64?_int]
  | texts | textSet => exact decodeTexts_texts v
  | textMap =>
    change ((Entries.map Json.str v.entries).mapM decodeEntry).map TextMap.ofList = some v
    rw [decodeEntries_texts, Option.map_some, textMap_ofList]
  | intOrText =>
    cases v with
    | int i =>
      change ((Json.int i.toInt).asInt32?).map IntOrText.int = _
      rw [asInt32?_int, Option.map_some]
    | text s => rfl

end Leaf

end Schema

end DesiredState
