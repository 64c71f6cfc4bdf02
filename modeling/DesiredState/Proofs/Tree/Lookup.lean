import DesiredState.Tree.Path

/-!
Look-ups of dotted paths.
Two paths joined by a dot are followed one after the other, and the empty
segments of either count. The first step of a path is made by its first segment
and the rest does not come back to the top, so a key that is set or dropped at
the top of a map is seen by the paths that start with it and by no others.
-/
namespace DesiredState.Tree

/-- The part of a path before its first dot. -/
def firstSegment (path : String) : String := String.ofList (path.toList.takeWhile (· ≠ '.'))

variable {t u : Tree} {path key : String}

theorem exists_split (path : String) : ∃ rest, Text.split '.' path = firstSegment path :: rest := by
  obtain ⟨others, hsegments⟩ := Text.exists_segments '.' path.toList
  exact ⟨others.map String.ofList, by rw [Text.split, hsegments, List.map_cons, firstSegment]⟩

/-- Where a path leads depends on the tree only through its first step. -/
theorem lookup?_congr (hpath : path ≠ "")
    (h : t.step? (firstSegment path) = u.step? (firstSegment path)) :
    t.lookup? path = u.lookup? path := by
  obtain ⟨rest, hsplit⟩ := exists_split path
  rw [lookup?_eq_walk? hpath, lookup?_eq_walk? hpath, hsplit, walk?, walk?, h]

theorem lookup?_eq_none (hpath : path ≠ "") (h : t.step? (firstSegment path) = none) :
    t.lookup? path = none := by
  obtain ⟨rest, hsplit⟩ := exists_split path
  rw [lookup?_eq_walk? hpath, hsplit, walk?, h, Option.bind_none]

/-- A key without dots is a path of one step. -/
theorem lookup?_key (hne : key ≠ "") (hkey : '.' ∉ key.toList) (t : Tree) :
    t.lookup? key = t.step? key := by
  rw [lookup?_eq_walk? hne, Text.split_of_not_mem hkey, walk?]
  exact Option.bind_fun_some _

theorem lookup?_append {first rest : String} (hfirst : first ≠ "") (hrest : rest ≠ "") (t : Tree) :
    t.lookup? (first ++ "." ++ rest) = (t.lookup? first).bind (·.lookup? rest) := by
  have hjoined : first ++ "." ++ rest ≠ "" := by simp
  have hsplit : Text.split '.' (first ++ "." ++ rest) =
      Text.split '.' first ++ Text.split '.' rest := Text.split_append '.' first rest
  have hbelow : (fun u : Tree => u.lookup? rest) = walk? (Text.split '.' rest) :=
    funext (lookup?_eq_walk? hrest)
  rw [lookup?_eq_walk? hjoined, hsplit, walk?_append, lookup?_eq_walk? hfirst, hbelow]

theorem step?_insert_self (t : Tree) (key : String) (value : Tree) :
    (t.insert key value).step? key = some value := by
  change Entries.get? (Entries.insert key value (t.entries?.getD [])) key = some value
  rw [Entries.get?_insert, if_pos rfl]

theorem step?_insert_of_ne (entries : List (String × Tree)) {segment : String}
    (h : segment ≠ key) (value : Tree) :
    ((map entries).insert key value).step? segment = (map entries).step? segment := by
  change Entries.get? (Entries.insert key value entries) segment = Entries.get? entries segment
  rw [Entries.get?_insert, if_neg h.symm]

theorem step?_erase (entries : List (String × Tree)) (key segment : String) :
    ((map entries).erase key).step? segment =
      if key = segment then none else (map entries).step? segment :=
  Entries.get?_erase key segment entries

theorem lookup?_insert_key (hne : key ≠ "") (hkey : '.' ∉ key.toList) (t value : Tree) :
    (t.insert key value).lookup? key = some value := by
  rw [lookup?_key hne hkey, step?_insert_self]

/-- Below a key that was set, paths are followed in its value. -/
theorem lookup?_insert_below {rest : String} (hne : key ≠ "") (hkey : '.' ∉ key.toList)
    (hrest : rest ≠ "") (t value : Tree) :
    (t.insert key value).lookup? (key ++ "." ++ rest) = value.lookup? rest := by
  rw [lookup?_append hne hrest, lookup?_insert_key hne hkey, Option.bind_some]

theorem lookup?_erase_below (hne : key ≠ "") (hstart : firstSegment path = key)
    (entries : List (String × Tree)) : ((map entries).erase key).lookup? path = none := by
  have hpath : path ≠ "" := by
    intro hempty
    subst hempty
    exact hne hstart.symm
  apply lookup?_eq_none hpath
  rw [step?_erase, if_pos hstart.symm]

/-- A path is followed along its first part and then along the rest. Setting a key at the top of a
tree gives that key, and what is below it, to the value; dropping it from a map leaves nothing that
starts with it. In a map, all paths that start with another segment lead where they led before. -/
theorem lookup?_compositional :
    (∀ (t : Tree) (first rest : String), first ≠ "" → rest ≠ "" →
      t.lookup? (first ++ "." ++ rest) = (t.lookup? first).bind (·.lookup? rest)) ∧
    ∀ key : String, key ≠ "" → '.' ∉ key.toList →
      (∀ t value : Tree, (t.insert key value).lookup? key = some value ∧
        ∀ rest, rest ≠ "" →
          (t.insert key value).lookup? (key ++ "." ++ rest) = value.lookup? rest) ∧
      (∀ entries path, firstSegment path = key →
        ((map entries).erase key).lookup? path = none) ∧
      ∀ entries path, path ≠ "" → firstSegment path ≠ key →
        (∀ value, ((map entries).insert key value).lookup? path = (map entries).lookup? path) ∧
        ((map entries).erase key).lookup? path = (map entries).lookup? path := by
  refine ⟨fun t first rest hfirst hrest => lookup?_append hfirst hrest t, fun key hne hkey => ?_⟩
  refine ⟨fun t value => ?_, fun entries path hstart => lookup?_erase_below hne hstart entries,
    fun entries path hpath hstart => ?_⟩
  · constructor
    · exact lookup?_insert_key hne hkey t value
    · intro rest hrest
      exact lookup?_insert_below hne hkey hrest t value
  · constructor
    · intro value
      exact lookup?_congr hpath (step?_insert_of_ne entries hstart value)
    · apply lookup?_congr hpath
      rw [step?_erase, if_neg hstart.symm]

/-- A map with a block and, under a numeral, an entry that is no element of a list. -/
def numbered : List (String × Tree) :=
  [("0", .str "zero"), ("spec", .block [("ports", .list [.int 80, .int 443])])]

theorem lookup?_compositional_numbered :
    (map numbered).lookup? ("spec.0" ++ "." ++ "ports.1") =
      ((map numbered).lookup? "spec.0").bind (·.lookup? "ports.1") ∧
    (map numbered).lookup? "spec.0.ports.1" = some (.int 443) ∧
    "spec" ≠ "" ∧ '.' ∉ "spec".toList ∧
    ((map numbered).insert "spec" (.list [.bool true])).lookup? "spec" =
      some (.list [.bool true]) ∧
    ((map numbered).insert "spec" (.list [.bool true])).lookup? ("spec" ++ "." ++ "0") =
      some (.bool true) ∧
    firstSegment "spec.0.ports" = "spec" ∧
    ((map numbered).erase "spec").lookup? "spec.0.ports" = none ∧
    firstSegment "0" ≠ "spec" ∧
    ((map numbered).insert "spec" (.bool true)).lookup? "0" = (map numbered).lookup? "0" ∧
    ((map numbered).erase "spec").lookup? "0" = (map numbered).lookup? "0" := by
  obtain ⟨happend, hwrite⟩ := lookup?_compositional
  have hkey : "spec" ≠ "" ∧ '.' ∉ "spec".toList := by decide
  obtain ⟨hinsert, herase, hframe⟩ := hwrite "spec" hkey.1 hkey.2
  have hinside : firstSegment "spec.0.ports" = "spec" := by decide
  have houtside : firstSegment "0" ≠ "spec" := by decide
  obtain ⟨hset, hbelow⟩ := hinsert (map numbered) (.list [.bool true])
  obtain ⟨hinsert', herase'⟩ := hframe numbered "0" (by decide) houtside
  exact ⟨happend _ _ _ (by decide) (by decide), by decide +kernel, hkey.1, hkey.2, hset,
    hbelow "0" (by decide), hinside, herase numbered _ hinside, houtside, hinsert' _, herase'⟩

end DesiredState.Tree
