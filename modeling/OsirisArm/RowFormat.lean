import OsirisArm.Confirmation
import OsirisArm.Filter
import OsirisArm.SearchRows

/-! # The format of a row

A row has sixteen fields: a timing and the five columns of each of its three instructions. Whoever
splits a line of this form finds the instructions again, by their UIDs and by their texts.
-/

namespace OsirisArm
open Library

/-- The fifteen fields behind the timing. -/
def ResultRow.columns (row : ResultRow) : List Text :=
  row.measurement.columns ++ (row.trigger.columns ++ row.reset.columns)

/-- The line is a row of these instructions with a timing of a trigger test. -/
structure RowLine (row : ResultRow) (line : Text) : Prop where
  noNewline : '\n' ∉ line
  fields : ∃ timing : ℤ, -5000 ≤ timing ∧ timing ≤ 5000 ∧
    splitString line ';' = printInt timing :: row.columns

/-- The instructions of the row are in the list. -/
structure RowOf (codeGenerator : CodeGenerator) (row : ResultRow) : Prop where
  measurement_mem : row.measurement ∈ codeGenerator.instructionList
  trigger_mem : row.trigger ∈ codeGenerator.instructionList
  reset_mem : row.reset ∈ codeGenerator.instructionList

variable {codeGenerator : CodeGenerator} {row : ResultRow} {line : Text}

theorem RowOf.csvLine_fields (h : RowOf codeGenerator row) :
    splitString row.csvLine ';' = printInt row.timing :: row.columns := by
  have hmeasurement := codeGenerator.plain _ h.measurement_mem
  have htrigger := codeGenerator.plain _ h.trigger_mem
  have hreset := codeGenerator.plain _ h.reset_mem
  have hline : row.csvLine = printInt row.timing ++ ';' :: (row.measurement.getCSVRepresentation ++
      ';' :: (row.trigger.getCSVRepresentation ++ ';' :: row.reset.getCSVRepresentation)) := by
    simp [ResultRow.csvLine]
  rw [hline, splitString_append, splitString_append, splitString_append,
    splitString_of_not_mem (printInt_no_delimiter row.timing).1, hmeasurement.splitString_csv,
    htrigger.splitString_csv, hreset.splitString_csv]
  rfl

theorem RowOf.csvLine_no_newline (h : RowOf codeGenerator row) : '\n' ∉ row.csvLine := by
  have hmeasurement := (codeGenerator.plain _ h.measurement_mem).csv_no_newline
  have htrigger := (codeGenerator.plain _ h.trigger_mem).csv_no_newline
  have hreset := (codeGenerator.plain _ h.reset_mem).csv_no_newline
  have htiming := (printInt_no_delimiter row.timing).2
  simp [ResultRow.csvLine, hmeasurement, htrigger, hreset, htiming]

theorem RowOf.rowLine (h : RowOf codeGenerator row)
    (htiming : -5000 ≤ row.timing ∧ row.timing ≤ 5000) : RowLine row row.csvLine :=
  ⟨h.csvLine_no_newline, row.timing, htiming.1, htiming.2, h.csvLine_fields⟩

theorem RowLine.confirmed (h : RowLine row line) {result : ℤ}
    (hresult : -5000 ≤ result ∧ result ≤ 5000) :
    RowLine row (ConfirmOutput.row line result).text := by
  obtain ⟨hnewline, timing, -, -, hfields⟩ := h
  have hdelimiter : ';' ∈ line := by
    by_contra hnone
    rw [splitString_of_not_mem hnone] at hfields
    simp [ResultRow.columns, X86Instruction.columns] at hfields
  refine ⟨text_no_newline (.inr ⟨line, result, hnewline, rfl⟩), result, hresult.1, hresult.2, ?_⟩
  rw [splitString_confirmed hdelimiter, hfields, List.tail_cons]

/-- The line is read as the row by everyone who reads a result file. -/
structure ReadAs (codeGenerator : CodeGenerator) (row : ResultRow) (line : Text) : Prop where
  fields : (splitString line ';').length = 16
  timing : ∃ timing : ℤ, (splitString line ';').getD 0 [] = printInt timing ∧
    stoi 10 ((splitString line ';').getD 0 []) = .ok timing
  measurement : ∃ uid, stoll 16 ((splitString line ';').getD 1 []) = .ok uid ∧
    codeGenerator.createInstructionFromUID uid = .ok row.measurement
  trigger : ∃ uid, stoll 16 ((splitString line ';').getD 6 []) = .ok uid ∧
    codeGenerator.createInstructionFromUID uid = .ok row.trigger
  reset : ∃ uid, stoll 16 ((splitString line ';').getD 11 []) = .ok uid ∧
    codeGenerator.createInstructionFromUID uid = .ok row.reset
  data : ∃ timing : ℤ, resultLineData line = .ok {
    timing := timing
    measurementSequence := row.measurement.assemblyCode
    measurementCategory := row.measurement.category
    measurementExtension := row.measurement.extension
    measurementIsaSet := row.measurement.isaSet
    triggerSequence := row.trigger.assemblyCode
    triggerCategory := row.trigger.category
    triggerExtension := row.trigger.extension
    triggerIsaSet := row.trigger.isaSet
    resetSequence := row.reset.assemblyCode
    resetCategory := row.reset.category
    resetExtension := row.reset.extension
    resetIsaSet := row.reset.isaSet }

theorem RowLine.readAs (h : RowLine row line) (hrow : RowOf codeGenerator row) :
    ReadAs codeGenerator row line := by
  obtain ⟨-, timing, hlow, hhigh, hfields⟩ := h
  have hstoi : stoi 10 (printInt timing) = .ok timing :=
    stoi_printInt ⟨by rw [intMin]; omega, by rw [intMax]; omega⟩
  constructor
  · rw [hfields]
    rfl
  · rw [hfields]
    exact ⟨timing, rfl, hstoi⟩
  · rw [hfields]
    exact ⟨_, CodeGenerator.stoll_uid hrow.measurement_mem,
      CodeGenerator.createInstructionFromUID_mem hrow.measurement_mem⟩
  · rw [hfields]
    exact ⟨_, CodeGenerator.stoll_uid hrow.trigger_mem,
      CodeGenerator.createInstructionFromUID_mem hrow.trigger_mem⟩
  · rw [hfields]
    exact ⟨_, CodeGenerator.stoll_uid hrow.reset_mem,
      CodeGenerator.createInstructionFromUID_mem hrow.reset_mem⟩
  · refine ⟨timing, ?_⟩
    simp only [resultLineData, hfields]
    rw [if_neg (by simp [ResultRow.columns, X86Instruction.columns])]
    change (stoi 10 (printInt timing) >>= _) = _
    rw [hstoi]
    rfl

theorem RowLine.timing_range (h : RowLine row line) {data : ResultLineData}
    (hdata : resultLineData line = .ok data) : -5000 ≤ data.timing ∧ data.timing ≤ 5000 := by
  obtain ⟨-, timing, hlow, hhigh, hfields⟩ := h
  obtain ⟨-, htiming⟩ := resultLineData_ok hdata
  have hrange : intMin ≤ timing ∧ timing ≤ intMax := by
    unfold intMin intMax
    omega
  rw [hfields, List.getD_cons_zero, stoi_printInt hrange] at htiming
  cases htiming
  exact ⟨hlow, hhigh⟩

/-- A row of the list as the confirmation stage sees its line. -/
def RowOf.confirmRow (h : RowOf codeGenerator row) : ConfirmRow codeGenerator where
  line := row.csvLine
  measurement := row.measurement
  trigger := row.trigger
  reset := row.reset
  measurement_mem := h.measurement_mem
  trigger_mem := h.trigger_mem
  reset_mem := h.reset_mem
  fields := by
    rw [h.csvLine_fields]
    rfl
  measurementUid := by
    rw [h.csvLine_fields]
    exact CodeGenerator.stoll_uid h.measurement_mem
  triggerUid := by
    rw [h.csvLine_fields]
    exact CodeGenerator.stoll_uid h.trigger_mem
  resetUid := by
    rw [h.csvLine_fields]
    exact CodeGenerator.stoll_uid h.reset_mem
  noNewline := h.csvLine_no_newline

theorem RowAccepted.rowOf {σ : Type} {api : ExecutorApi σ} {speculation : Bool}
    (h : RowAccepted api codeGenerator speculation row) : RowOf codeGenerator row :=
  ⟨h.measurement_mem, h.trigger_mem, h.reset_mem⟩

/-- The result file of a search is read back as its header and its rows. -/
theorem readLines_resultFile {rows : List ResultRow}
    (h : ∀ row ∈ rows, RowOf codeGenerator row) :
    readLines (resultFile rows) = headerline :: rows.map ResultRow.csvLine := by
  apply readLines_fileText
  intro line hline
  rcases List.mem_cons.mp hline with rfl | hline
  · exact headerline_no_newline
  · obtain ⟨row, hrow, rfl⟩ := List.mem_map.mp hline
    exact (h row hrow).csvLine_no_newline

end OsirisArm
