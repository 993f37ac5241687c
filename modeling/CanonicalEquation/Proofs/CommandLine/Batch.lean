import CanonicalEquation.CommandLine.Batch
import CanonicalEquation.Proofs.Report

/-!
# Batch use is line for line

The file of reports has one report for each line of the file that is read, in
the same order.  Only the empty file is an exception: it has no lines, but a
line feed is written all the same, and that is one line.
-/

namespace CanonicalEquation
namespace CommandLine

/-! ## The files of a folder -/

@[simp] theorem Folder.run_lookup?
    (folder : Folder)
    (path : String) :
    ((files.lookup? path).run folder).run = (folder.lookup? path, folder) := rfl

@[simp] theorem Folder.run_write
    (folder : Folder)
    (path : String)
    (names : List String)
    (content : String) :
    ((files.write path names content).run folder).run =
      match folder.write path names content with
      | .ok written => (.ok (), written)
      | .error error => (.error error.reason, folder) := rfl

theorem Folder.find?_write
    {folder written : Folder}
    {path content : String}
    {names : List String}
    (writes : folder.write path names content = .ok written) :
    written.find? names = some (.text content) := by
  unfold Folder.write at writes
  split at writes
  · cases writes
  · split at writes
    · cases writes
    · split at writes
      · cases writes
      · cases writes
        simp [Folder.find?]

namespace Batch

/-- A run in a folder, by what the path leads to and how the reports are
written. -/
theorem run_eq
    (order : PowerOrder)
    (path : String)
    (folder : Folder) :
    run order path folder =
      match folder.lookup? path with
      | some (names, .text content) =>
          match folder.write (reportPath path) (reportNames names) (reports order content) with
          | .ok written => (.success (savedMessage path), written)
          | .error error => (.failure error.reason, folder)
      | some (_, .binary _) => (.failure notTextReason, folder)
      | _ => (.failure (missingReason path), folder) := by
  unfold run report
  rw [StateT.run_bind, Id.run_bind, Folder.run_lookup?]
  cases folder.lookup? path with
  | none => rfl
  | some found =>
      obtain ⟨names, entry⟩ := found
      cases entry with
      | text content =>
          simp only [StateT.run_bind, Id.run_bind, Folder.run_write]
          cases folder.write (reportPath path) (reportNames names) (reports order content) <;> rfl
      | binary _ => rfl
      | folder => rfl

/-- A run that succeeds has read a text and written the reports on it. -/
theorem exists_of_run_success
    {order : PowerOrder}
    {path : String}
    {folder : Folder}
    (succeeds : (run order path folder).1.code = 0) :
    ∃ names content, folder.lookup? path = some (names, .text content) ∧
      (run order path folder).2.find? (reportNames names) =
        some (.text (reports order content)) := by
  rw [run_eq] at succeeds ⊢
  split at succeeds
  next names content found =>
    refine ⟨names, content, found, ?_⟩
    cases writes : folder.write (reportPath path) (reportNames names) (reports order content) with
    | error error =>
        rw [writes] at succeeds
        cases succeeds
    | ok written => exact Folder.find?_write writes
  · cases succeeds
  · cases succeeds

/-! ## The lines of the reports -/

/-- The reports on a text that is not empty are written as one line each. -/
theorem lines_reports
    (order : PowerOrder)
    {content : String}
    (nonempty : content ≠ "") :
    Text.lines (reports order content) = Report.ofLines order (Text.lines content) := by
  unfold reports
  apply Text.lines_intercalate
  · rw [Report.ofLines, Ne, List.map_eq_nil_iff, Text.lines_eq_nil_iff]
    exact nonempty
  · exact List.forall_mem_map.mpr fun line member =>
      Report.isLine_ofLine order (Text.lineFeed_notMem_of_mem_lines member)

/-- The reports on the empty text are written as one empty line. -/
theorem lines_reports_empty (order : PowerOrder) : Text.lines (reports order "") = [""] := by
  rw [reports, Text.lines_eq_nil_iff.mpr rfl, Report.ofLines, List.map_nil]
  decide

/-- Where batch use succeeds, the lines of the file that it has written are the
reports on the lines of the file that it has read, exactly if that is not empty.
For the empty file it has written one empty line. -/
theorem lines_of_written_file
    (order : PowerOrder)
    (path : String)
    (folder : Folder)
    (succeeds : (run order path folder).1.code = 0) :
    ∃ names content written,
      folder.lookup? path = some (names, .text content) ∧
      (run order path folder).2.find? (reportNames names) = some (.text written) ∧
      Text.lines written =
        (if content = "" then [""] else Report.ofLines order (Text.lines content)) ∧
      (Text.lines written = Report.ofLines order (Text.lines content) ↔ content ≠ "") := by
  obtain ⟨names, content, found, saved⟩ := exists_of_run_success succeeds
  refine ⟨names, content, reports order content, found, saved, ?_⟩
  by_cases empty : content = ""
  · have noReports : Report.ofLines order (Text.lines "") = [] := by
      rw [Text.lines_eq_nil_iff.mpr rfl]
      rfl
    subst empty
    rw [lines_reports_empty, if_pos rfl, noReports]
    exact ⟨rfl, iff_of_false (List.cons_ne_nil "" []) (not_not_intro rfl)⟩
  · rw [lines_reports order empty, if_neg empty]
    exact ⟨rfl, iff_of_true rfl empty⟩

/-- Batch use of an empty file, which has no lines, writes one line. -/
theorem lines_of_written_file_empty :
    (run .textual "e" ⟨[(["e"], .text "")]⟩).1.code = 0 ∧
      Report.ofLines .textual (Text.lines "") = [] ∧
      ∃ written,
        (run .textual "e" ⟨[(["e"], .text "")]⟩).2.find? ["e.out"] = some (.text written) ∧
        Text.lines written = [""] := by
  have succeeds : (run .textual "e" ⟨[(["e"], .text "")]⟩).1.code = 0 := by decide
  have holds : Folder.lookup? ⟨[(["e"], .text "")]⟩ "e" = some (["e"], .text "") := by rfl
  refine ⟨succeeds, by decide, ?_⟩
  obtain ⟨names, content, written, found, saved, lines, _⟩ :=
    lines_of_written_file .textual "e" ⟨[(["e"], .text "")]⟩ succeeds
  rw [holds] at found
  cases found
  exact ⟨written, saved, lines⟩

end Batch
end CommandLine
end CanonicalEquation
