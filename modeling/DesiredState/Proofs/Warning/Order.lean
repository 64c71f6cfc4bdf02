import DesiredState.Warning

/-!
The order in which warnings are told.
Warnings are told newest first, and those without a time last. Those of one time
keep the order they came in, so the warnings that came have one such order; the
most recent ones are its first.
-/
namespace DesiredState

namespace Warning

/-- A warning may be told before another one: it was not seen earlier, where one without a time
counts as seen before all others. -/
def Precedes (a b : Warning) : Prop :=
  ∀ t, b.lastSeen? = some t → ∃ s, a.lastSeen? = some s ∧ s.before t = false

theorem newer_eq_false_iff {a b : Warning} : b.newer a = false ↔ a.Precedes b := by
  unfold newer Precedes
  cases b.lastSeen? with
  | none => simp
  | some t => cases a.lastSeen? <;> simp

theorem precedes_trans {a b c : Warning} (hab : a.Precedes b) (hbc : b.Precedes c) :
    a.Precedes c := by
  intro u hu
  obtain ⟨t, ht, htu⟩ := hbc u hu
  obtain ⟨s, hs, hst⟩ := hab t ht
  refine ⟨s, hs, ?_⟩
  simp only [Timestamp.before, decide_eq_false_iff_not] at hst htu ⊢
  omega

theorem precedes_total (a b : Warning) : a.Precedes b ∨ b.Precedes a := by
  unfold Precedes
  cases ha : a.lastSeen? with
  | none => exact .inr nofun
  | some s =>
    cases hb : b.lastSeen? with
    | none => exact .inl nofun
    | some t =>
      simp only [Option.some.injEq, forall_eq', exists_eq_left', Timestamp.before,
        decide_eq_false_iff_not]
      omega

/-- Warnings of one time may be told in any order. -/
theorem precedes_of_lastSeen?_eq {a b : Warning} (h : a.lastSeen? = b.lastSeen?) :
    a.Precedes b := by
  intro t ht
  refine ⟨t, h.trans ht, ?_⟩
  simp [Timestamp.before]

/-- The order in which warnings that came are told. -/
structure Ranks (told came : List Warning) : Prop where
  perm : told.Perm came
  newest : told.Pairwise Precedes
  /-- Those of one time, and those without any, are told as they came. -/
  steady : ∀ time?, told.filter (·.lastSeen? = time?) = came.filter (·.lastSeen? = time?)

theorem ranks_newestFirst (warnings : List Warning) : Ranks (newestFirst warnings) warnings := by
  have hle : ∀ a b : Warning, (!b.newer a) = true ↔ a.Precedes b := by
    intro a b
    rw [Bool.not_eq_true', newer_eq_false_iff]
  have htrans : ∀ a b c : Warning, (!b.newer a) = true → (!c.newer b) = true →
      (!c.newer a) = true := by
    intro a b c hab hbc
    rw [hle] at hab hbc ⊢
    exact precedes_trans hab hbc
  have htotal : ∀ a b : Warning, ((!b.newer a) || !a.newer b) = true := by
    intro a b
    rw [Bool.or_eq_true, hle, hle]
    exact precedes_total a b
  have hperm := List.mergeSort_perm warnings fun a b => !b.newer a
  refine ⟨hperm, ?_, fun time? => ?_⟩
  · exact (List.pairwise_mergeSort htrans htotal warnings).imp fun h => (hle _ _).1 h
  · -- those of one time are in order already, so sorting keeps them as they are
    have hsorted : (warnings.filter (·.lastSeen? = time?)).Pairwise fun a b => !b.newer a := by
      rw [List.pairwise_filter]
      refine List.pairwise_of_forall fun a b ha hb => (hle a b).2 (precedes_of_lastSeen?_eq ?_)
      rw [of_decide_eq_true ha, of_decide_eq_true hb]
    have hkept : (warnings.filter (·.lastSeen? = time?)).Sublist
        ((newestFirst warnings).filter (·.lastSeen? = time?)) := by
      simpa [newestFirst] using
        (List.sublist_mergeSort htrans htotal hsorted List.filter_sublist).filter
          (·.lastSeen? = time?)
    exact (hkept.eq_of_length (hperm.filter _).length_eq.symm).symm

/-- The warnings that are told are the first in the order of those that came. -/
theorem exists_ranks_recent (warnings : List Warning) (limit : Nat) :
    ∃ told omitted, Ranks (told ++ omitted) warnings ∧
      told.length = min limit warnings.length ∧
      (∀ a ∈ told, ∀ b ∈ omitted, a.Precedes b) ∧
      recent warnings limit = told.map line := by
  have hranks := ranks_newestFirst warnings
  have hlength : ((newestFirst warnings).take limit).length = min limit warnings.length := by
    rw [List.length_take, hranks.perm.length_eq]
  rw [← List.take_append_drop limit (newestFirst warnings)] at hranks
  exact ⟨_, _, hranks, hlength, (List.pairwise_append.1 hranks.newest).2.2, rfl⟩

/-- A report tells each warning on a line of its own, after a tab and the time if there is one. -/
theorem report_lines {told : List Warning} (h : told ≠ []) :
    report (told.map line) = "\n\nMost recent warning events:" ++
      String.join (told.map fun w =>
        "\n\t" ++ (w.lastSeen?.elim "" (·.shortText ++ " ") ++ w.reason ++ ": " ++ w.message)) := by
  have hline : ∀ w : Warning, w.line =
      w.lastSeen?.elim "" (·.shortText ++ " ") ++ w.reason ++ ": " ++ w.message := by
    intro w
    unfold line
    cases w.lastSeen? with
    | none => simp [String.append_assoc]
    | some t => simp [String.append_assoc]
  have hlines : (told.map line).isEmpty = false := by simpa using h
  rw [report, hlines, if_neg Bool.false_ne_true, List.map_map]
  simp only [Function.comp_def, hline]

end Warning

end DesiredState
