import DesiredState.Proofs.Kind.Outline
import DesiredState.Proofs.Schema.Fault

/-!
The place of a fault.
A tree that a kind does not accept is refused with a message that names a
place. Unless the root itself is no map, looking that place up in the tree
shows what the message says of it.
-/
namespace DesiredState

open Schema

theorem Kind.keys_fields (k : Kind) : ∀ key ∈ k.fields.keys, key ≠ "" ∧ key ≠ "<root>" := by
  cases k <;> decide +kernel

theorem Kind.undotted_outline (k : Kind) : ∀ r ∈ k.outline, '.' ∉ r.key.toList := by
  cases k <;> decide +kernel

namespace Object

variable {k : Kind} {entries : List (String × Tree)} {v : Tree.Violation}

theorem requireName_eq_error {m : Metadata} (h : requireName m = .error v) :
    m.name?.isSome = false ∧ m.generateName?.isSome = false ∧
      v = ⟨["metadata", "0"], .unnamed⟩ := by
  unfold requireName at h
  split at h
  · rename_i hnone
    cases h
    simpa using hnone
  · cases h

/-- Whether the metadata, their name or the body is at fault, it is told of below a key. -/
theorem blames_of_expandEntries (ht : k.outline.Legible (.map entries))
    (h : expandEntries k entries = .error v) :
    ∃ key ∈ k.fields.keys, '.' ∉ key.toList ∧ v.Blames [key] (Entries.get? entries key) := by
  have hlegible : ((Fields.cons Kind.metadataField (.block Schema.metadata) .nil).outline ++
      k.body.outline).Legible (.map entries) := by
    rw [← Fields.outline_cons]
    exact k.outline_fields ▸ ht
  have hmetadata := hlegible.mono (List.subset_append_left _ _)
  have hbody := hlegible.mono (List.subset_append_right _ _)
  unfold expandEntries at h
  rcases Outcome.bind_eq_error.1 h with hfirst | ⟨⟨m, _⟩, hfirst, h⟩
  · obtain ⟨key, hkey, hv⟩ := Fields.blames_of_expand _ hmetadata hfirst
    exact ⟨key, List.mem_cons.2 (Or.inl (List.mem_singleton.1 hkey)), hv⟩
  · rcases Outcome.bind_eq_error.1 h with hname | ⟨_, -, h⟩
    · obtain ⟨given, hgiven, hname?, hgenerate?⟩ := metadata_of_expand hfirst
      obtain ⟨hnone, hnone', rfl⟩ := requireName_eq_error hname
      have hblock : (Tree.block given).Traversable := ht.traversable.entry hgiven
      have hunnamed : Tree.Cause.unnamed.Explains (some (.map given)) := by
        refine ⟨given, rfl, ?_, ?_⟩
        · simpa [Entries.contains, hnone] using hname?
        · simpa [Entries.contains, hnone'] using hgenerate?
      refine ⟨"metadata", List.mem_cons_self, by decide, ?_⟩
      rw [hgiven]
      exact Tree.Violation.Blames.outOfItem (i := 0) hblock
        (Tree.Violation.blames_here hunnamed)
    · obtain ⟨key, hkey, hv⟩ := k.body.blames_of_expand hbody (Outcome.return_eq_error.1 h)
      exact ⟨key, List.mem_cons_of_mem _ hkey, hv⟩

/-- The message that refuses a tree names a place and tells what is wrong there, if no key of a
string map has a dot and no list is longer than a machine word counts, as none in memory is. The
place is the root only if that is no map; for any other one, the words told are those for what is
found by looking the place up in the tree. -/
theorem expand_error_located {t : Tree} {e : Error} (ht : t.WellFormed)
    (hlists : t.longest ≤ UInt64.size) (hkeys : ∀ key ∈ k.outline.textKeys t, '.' ∉ key.toList)
    (h : expand k t = .error e) :
    ∃ (fault : Tree.Violation) (told : String), e = .validation (.tree fault) ∧
      e.message = "validation: " ++ (fault.place ++ ": " ++ told) ∧
      (fault.place = "<root>" ∧ t.form ≠ .map ∧
          (∃ word, (t.form, word) ∈ Tree.Form.words ∧ told = "expected map, found " ++ word) ∨
        fault.place ≠ "<root>" ∧ Tree.Tells told (t.lookup? fault.place)) := by
  obtain ⟨v, hv, rfl⟩ := Outcome.mapError_eq_error.1 h
  refine ⟨v, Tree.Violation.explanation v.cause, rfl, rfl, ?_⟩
  cases t with
  | map entries =>
    have hlegible : k.outline.Legible (.map entries) := ⟨⟨ht, hlists⟩, k.undotted_outline, hkeys⟩
    obtain ⟨key, hkey, hdot, hblames⟩ := blames_of_expandEntries hlegible hv
    obtain ⟨hempty, hroot⟩ := k.keys_fields key hkey
    obtain ⟨⟨rest, hsplit⟩, hexplains⟩ := hblames.explains hempty hdot
    refine Or.inr ⟨fun hplace => hroot ?_, hexplains.tells⟩
    have hsingle : Text.split '.' "<root>" = ["<root>"] := by decide +kernel
    rw [hplace, hsingle] at hsplit
    exact (List.cons.inj hsplit).1.symm
  | _ =>
    cases hv
    exact Or.inl ⟨rfl, by simp [Tree.form], _, Tree.Form.name_mem_words _, rfl⟩

/-- A role whose second rule has a number among its verbs. -/
def numbered : Tree := .map [
  ("metadata", .block [("labels", .map [("app", .str "reader")]), ("name", .str "reader")]),
  ("rule", .list [
    .map [("verbs", .set ["get", "list"])],
    .map [("verbs", .list [.str "watch", .int 7])]])]

theorem expand_error_located_verb :
    numbered.WellFormed ∧ numbered.longest ≤ UInt64.size ∧
    (∀ key ∈ (Kind.outline .role).textKeys numbered, '.' ∉ key.toList) ∧
    ∃ (fault : Tree.Violation) (told : String),
      expand .role numbered = .error (.validation (.tree fault)) ∧
      fault.message = "rule.1.verbs.1: expected string, found int" ∧
      fault.message = fault.place ++ ": " ++ told ∧
      fault.place ≠ "<root>" ∧ Tree.Tells told (numbered.lookup? fault.place) := by
  have ht : numbered.WellFormed := by decide +kernel
  have hlists : numbered.longest ≤ UInt64.size := by decide +kernel
  have hkeys : ∀ key ∈ (Kind.outline .role).textKeys numbered, '.' ∉ key.toList := by
    decide +kernel
  obtain ⟨fault, hfault, hmessage⟩ : ∃ fault : Tree.Violation,
      expand .role numbered = .error (.validation (.tree fault)) ∧
      fault.message = "rule.1.verbs.1: expected string, found int" :=
    ⟨_, rfl, by decide +kernel⟩
  refine ⟨ht, hlists, hkeys, fault, ?_⟩
  obtain ⟨v, told, hv, htold, hplace⟩ := expand_error_located ht hlists hkeys hfault
  cases hv
  have hmap : numbered.form = .map := rfl
  rcases hplace with ⟨-, hne, -⟩ | ⟨hroot, htells⟩
  · exact absurd hmap hne
  · exact ⟨told, hfault, hmessage, (String.append_right_inj "validation: ").1 htold, hroot, htells⟩

end Object

end DesiredState
