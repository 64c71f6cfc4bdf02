import DesiredState.Proofs.Json.Pointer
import DesiredState.Warning

/-!
The lines of a report.
A warning is told on one line if its reason and its message have none but one:
what stands around them never breaks a line. Then a report has a line for each
warning after its header, and the lines can be read back from it.
-/
namespace DesiredState

namespace Text

/-- The characters that end a line. -/
def lineBreaks : List Char :=
  ['\n', '\u000b', '\u000c', '\r', '\u0085', '\u2028', '\u2029']

/-- A text has no line break. -/
def OneLine (text : String) : Prop := ∀ c ∈ lineBreaks, c ∉ text.toList

instance (text : String) : Decidable (OneLine text) :=
  List.decidableBAll (fun c => c ∉ text.toList) lineBreaks

theorem oneLine_append {a b : String} : OneLine (a ++ b) ↔ OneLine a ∧ OneLine b := by
  simp only [OneLine, String.toList_append, List.mem_append, not_or, forall_and]

theorem OneLine.newline_not_mem {text : String} (h : OneLine text) : '\n' ∉ text.toList :=
  h '\n' (by decide)

theorem oneLine_repr (n : Nat) : OneLine n.repr := by
  have hdigit : lineBreaks.any Char.isDigit = false := by decide
  intro c hc hmem
  exact List.any_eq_false.1 hdigit c hc (isDigit_of_mem_repr hmem)

/-- What pieces without a separator are cut from, each with a separator before it. -/
theorem segments_flatMap {sep : Char} {first : List Char} {pieces : List (List Char)}
    (hfirst : sep ∉ first) (hpieces : ∀ piece ∈ pieces, sep ∉ piece) :
    segments sep (first ++ pieces.flatMap (sep :: ·)) = first :: pieces := by
  induction pieces generalizing first with
  | nil => simp [segments_of_not_mem hfirst]
  | cons piece rest ih =>
    obtain ⟨hpiece, hrest⟩ := List.forall_mem_cons.1 hpieces
    rw [List.flatMap_cons, List.cons_append, segments_append_sep hfirst, ih hpiece hrest]

end Text

open Text

namespace Timestamp

theorem oneLine_padded (width n : Nat) : OneLine (padded width n) := by
  have hzero : '0' ∉ lineBreaks := by decide
  refine oneLine_append.2 ⟨fun c hc hmem => ?_, oneLine_repr n⟩
  rw [String.toList_ofList] at hmem
  exact hzero (List.eq_of_mem_replicate hmem ▸ hc)

theorem oneLine_yearText (year : Int) : OneLine (yearText year) := by
  unfold yearText
  split
  · exact oneLine_padded 4 _
  · refine oneLine_append.2 ⟨?_, oneLine_padded 4 _⟩
    split <;> decide

theorem oneLine_shortText (t : Timestamp) : OneLine t.shortText := by
  have hmarks : OneLine "-" ∧ OneLine "T" ∧ OneLine ":" ∧ OneLine "Z" := by decide
  simp only [shortText, secondsText, oneLine_append, oneLine_padded, oneLine_yearText, hmarks,
    and_self]

end Timestamp

namespace Warning

theorem oneLine_line (w : Warning) : OneLine w.line ↔ OneLine w.reason ∧ OneLine w.message := by
  have hmarks : OneLine ": " ∧ OneLine " " := by decide
  unfold line
  cases w.lastSeen? with
  | none => simp only [oneLine_append, hmarks, and_true]
  | some t => simp only [oneLine_append, hmarks, t.oneLine_shortText, and_true, true_and]

theorem length_recent (warnings : List Warning) (limit : Nat) :
    (recent warnings limit).length = min limit warnings.length := by
  rw [recent, List.length_map, List.length_take, newestFirst, List.length_mergeSort]

/-- The line that a report begins with. -/
def header : String := "Most recent warning events:"

/-- The lines of a report that tells of some warnings. -/
def reportLines (lines : List String) : List String := "" :: header :: lines.map ("\t" ++ ·)

theorem toList_report {lines : List String} (h : lines ≠ []) :
    (report lines).toList =
      [] ++ ((reportLines lines).map String.toList).flatMap ('\n' :: ·) := by
  have hheader : "\n\nMost recent warning events:".toList = '\n' :: '\n' :: header.toList := by
    decide
  simp [report, h, reportLines, hheader, String.toList_join, List.flatMap_map, Function.comp_def]

/-- Where every warning is told on one line, nothing but the lines of a report breaks it. -/
theorem split_report {lines : List String} (hne : lines ≠ []) (h : ∀ line ∈ lines, OneLine line) :
    Text.split '\n' (report lines) = "" :: reportLines lines := by
  have hpieces : ∀ piece ∈ (reportLines lines).map String.toList, '\n' ∉ piece := by
    simp only [reportLines, List.map_cons, List.map_map, List.forall_mem_cons, List.forall_mem_map]
    refine ⟨by decide, by decide, fun line hline => ?_⟩
    simpa using (h line hline).newline_not_mem
  rw [Text.split, toList_report hne, segments_flatMap List.not_mem_nil hpieces]
  simp [Function.comp_def]

/-- The lines that a report tells of: what follows the header, without the tabs. -/
def linesOf (report : String) : List String :=
  ((Text.split '\n' report).drop 3).map fun line => String.ofList (line.toList.drop 1)

theorem linesOf_report {lines : List String} (h : ∀ line ∈ lines, OneLine line) :
    linesOf (report lines) = lines := by
  by_cases hne : lines = []
  · subst hne
    rfl
  · rw [linesOf, split_report hne h]
    simp [reportLines, Function.comp_def]

/-- As many warnings are told as there are, up to the limit. They are told on one line each exactly
if their reasons and messages have no line break; then the report, which is empty without warnings,
has one header and one line with a tab for each of them, and they are read back from it. -/
theorem linesOf_report_recent (warnings : List Warning) (limit : Nat) :
    let lines := recent warnings limit
    lines.length = min limit warnings.length ∧
    ((∀ line ∈ lines, OneLine line) ↔
      ∀ w ∈ (newestFirst warnings).take limit, OneLine w.reason ∧ OneLine w.message) ∧
    ((∀ line ∈ lines, OneLine line) →
      (lines = [] → report lines = "") ∧
      (lines ≠ [] → Text.split '\n' (report lines) =
        "" :: "" :: "Most recent warning events:" :: lines.map ("\t" ++ ·)) ∧
      linesOf (report lines) = lines) := by
  intro lines
  refine ⟨length_recent warnings limit, ?_, fun hlines => ⟨fun hnil => ?_, fun hne => ?_, ?_⟩⟩
  · simp only [lines, recent, List.forall_mem_map, oneLine_line]
  · rw [hnil]
    rfl
  · exact split_report hne hlines
  · exact linesOf_report hlines

/-- Two warnings on a deployment that does not get on. -/
def stalled : List Warning :=
  [⟨"BackOff", "pulling", none, none⟩, ⟨"Failed", "no such image", none, none⟩]

theorem recent_stalled : recent stalled 3 = ["BackOff: pulling", "Failed: no such image"] := by
  have hsorted : newestFirst stalled = stalled := List.mergeSort_of_pairwise (by decide)
  rw [recent, hsorted]
  decide

theorem linesOf_report_recent_stalled :
    (∀ line ∈ recent stalled 3, OneLine line) ∧
    linesOf (report ["BackOff: pulling", "Failed: no such image"]) =
      ["BackOff: pulling", "Failed: no such image"] := by
  obtain ⟨-, -, hread⟩ := linesOf_report_recent stalled 3
  rw [recent_stalled] at hread ⊢
  have hlines : ∀ line ∈ ["BackOff: pulling", "Failed: no such image"], OneLine line := by decide
  exact ⟨hlines, (hread hlines).2.2⟩

/-- A message with a line break is told on two lines, and the report cannot tell it from two
warnings. -/
theorem report_torn :
    let torn : List Warning := [⟨"BackOff", "pulling\n\tFailed: no such image", none, none⟩]
    recent torn 3 = ["BackOff: pulling\n\tFailed: no such image"] ∧
    (∃ line ∈ recent torn 3, ¬ OneLine line) ∧
    report (recent torn 3) = report (recent stalled 3) ∧ recent torn 3 ≠ recent stalled 3 := by
  intro torn
  have htorn : recent torn 3 = ["BackOff: pulling\n\tFailed: no such image"] := by
    have hsorted : newestFirst torn = torn := List.mergeSort_singleton _
    rw [recent, hsorted]
    decide
  rw [htorn, recent_stalled]
  decide

end Warning

end DesiredState
