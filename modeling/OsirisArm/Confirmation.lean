import OsirisArm.Confirm
import Mathlib.Data.List.Perm.Subperm

/-! # Confirmation conserves rows

The rows of the output file are the tested rows of the input file in shuffled order, each with the
timing of its own test. A test ends the stage early exactly if the code of its row does not fit on
a page. Over chained rounds rows only disappear.
-/

namespace OsirisArm
open Library Library.Emission

theorem lineWithoutTiming_append {timing rest : Text} (h : ';' ∉ timing) :
    lineWithoutTiming (timing ++ ';' :: rest) = rest := by
  have hpass : ∀ c ∈ timing, (decide (c ≠ ';')) = true := by
    intro c hc
    simpa using fun he : c = ';' => h (he ▸ hc)
  rw [lineWithoutTiming, if_pos (by simp), List.dropWhile_append_of_pos hpass]
  rfl

theorem printInt_no_delimiter (n : ℤ) : ';' ∉ printInt n ∧ '\n' ∉ printInt n :=
  ⟨fun h => (printInt_plain h).1 rfl, fun h => (printInt_plain h).2 rfl⟩

theorem mem_of_mem_lineWithoutTiming {line : Text} {c : Char} (h : c ∈ lineWithoutTiming line) :
    c ∈ line := by
  unfold lineWithoutTiming at h
  split at h
  · exact (List.dropWhile_sublist _).subset (List.mem_of_mem_drop h)
  · exact h

theorem line_eq_timing_append {line : Text} (h : ';' ∈ line) :
    ∃ timing, ';' ∉ timing ∧ line = timing ++ ';' :: lineWithoutTiming line := by
  obtain ⟨timing, rest, hline, htiming⟩ := List.eq_append_cons_of_mem h
  refine ⟨timing, htiming, ?_⟩
  rw [hline, lineWithoutTiming_append htiming]

theorem splitString_timing_append {timing rest : Text} (h : ';' ∉ timing) :
    splitString (timing ++ ';' :: rest) ';' = timing :: splitString rest ';' := by
  rw [splitString_append, splitString_of_not_mem h, List.singleton_append]

theorem splitString_confirmed {line : Text} (h : ';' ∈ line) (result : ℤ) :
    splitString (ConfirmOutput.row line result).text ';' =
      printInt result :: (splitString line ';').tail := by
  obtain ⟨timing, htiming, hline⟩ := line_eq_timing_append h
  conv_rhs => rw [hline, splitString_timing_append htiming, List.tail_cons]
  exact splitString_timing_append (printInt_no_delimiter result).1

theorem lineWithoutTiming_confirmed (line : Text) (result : ℤ) :
    lineWithoutTiming (ConfirmOutput.row line result).text = lineWithoutTiming line :=
  lineWithoutTiming_append (printInt_no_delimiter result).1

/-- The rows of a result file without their timings. -/
def rowsWithoutTiming (content : Text) : List Text :=
  (readLines content).tail.map lineWithoutTiming

/-- A line of a result file whose UIDs are those of three instructions of the list. -/
structure ConfirmRow (codeGenerator : CodeGenerator) where
  line : Text
  measurement : X86Instruction
  trigger : X86Instruction
  reset : X86Instruction
  measurement_mem : measurement ∈ codeGenerator.instructionList
  trigger_mem : trigger ∈ codeGenerator.instructionList
  reset_mem : reset ∈ codeGenerator.instructionList
  fields : (splitString line ';').length = 16
  measurementUid :
    stoll 16 ((splitString line ';').getD 1 []) = .ok measurement.instructionUid
  triggerUid : stoll 16 ((splitString line ';').getD 6 []) = .ok trigger.instructionUid
  resetUid : stoll 16 ((splitString line ';').getD 11 []) = .ok reset.instructionUid
  noNewline : '\n' ∉ line

namespace ConfirmRow
variable {codeGenerator : CodeGenerator}

def input (row : ConfirmRow codeGenerator) : ConfirmInput :=
  ⟨row.measurement.instructionUid, row.trigger.instructionUid, row.reset.instructionUid,
    row.line⟩

/-- The trigger or the measurement is a sleep. -/
def skipped (row : ConfirmRow codeGenerator) : Bool :=
  row.trigger.isSleep || row.measurement.isSleep

def resetAmount (row : ConfirmRow codeGenerator) : ℕ := if row.reset.isSleep then 1 else 100

/-- The code of the row fits on the pages. -/
def Fits (row : ConfirmRow codeGenerator) : Prop :=
  Executor.SpeculationFits row.trigger.byteRepresentation row.measurement.byteRepresentation
    row.reset.byteRepresentation row.resetAmount

def test {σ : Type} (api : ExecutorApi σ) (row : ConfirmRow codeGenerator) (s : σ) :
    Except Stop (ℤ × σ) :=
  confirmTriple api row.measurement row.trigger row.reset s

/-- The output of a tested row. -/
def output (tested : ConfirmRow codeGenerator × ℤ) : ConfirmOutput := .row tested.1.line tested.2

theorem confirmInput_line (row : ConfirmRow codeGenerator) :
    confirmInput row.line = .ok row.input := by
  simp only [confirmInput, row.fields, row.measurementUid, row.triggerUid, row.resetUid]
  rfl

theorem confirmInputs_lines (rows : List (ConfirmRow codeGenerator)) :
    confirmInputs (rows.map line) = .ok (rows.map input) := by
  induction rows with
  | nil => rfl
  | cons row rows ih =>
    rw [List.map_cons, confirmInputs, confirmInput_line, ih]
    rfl

theorem confirmRound_input {σ : Type} (api : ExecutorApi σ) (row : ConfirmRow codeGenerator)
    (s : σ) : confirmRound api codeGenerator row.input s =
      if row.skipped then .pure s
      else (Emission.lift (row.test api s)).bind fun tested =>
        .write [output (row, tested.1)] tested.2 := by
  have hinstructions : row.input.instructions codeGenerator =
      .ok (row.measurement, row.trigger, row.reset) := by
    simp only [ConfirmInput.instructions, input,
      CodeGenerator.createInstructionFromUID_mem row.measurement_mem,
      CodeGenerator.createInstructionFromUID_mem row.trigger_mem,
      CodeGenerator.createInstructionFromUID_mem row.reset_mem]
    rfl
  rw [confirmRound, hinstructions, lift_ok_bind]
  rfl

end ConfirmRow

/-- The stage tests the rows that are not skipped, in an order that is a permutation of theirs. -/
theorem confirmResultsOfFuzzer_rows {σ : Type} (api : ExecutorApi σ)
    {codeGenerator : CodeGenerator} (shuffle : Shuffle) (rows : List (ConfirmRow codeGenerator))
    (s : σ) :
    ∃ order : List (ConfirmRow codeGenerator),
      order.Perm (rows.filter fun row => !row.skipped) ∧
        confirmResultsOfFuzzer api codeGenerator shuffle
          (headerline :: rows.map ConfirmRow.line) s =
            ⟨.header :: (trials (ConfirmRow.test api) order s).written.map ConfirmRow.output,
              (trials (ConfirmRow.test api) order s).outcome⟩ := by
  obtain ⟨shuffled, hperm, hinputs⟩ := exists_perm_of_map
    (shuffle.perm (rows.map ConfirmRow.input))
  refine ⟨shuffled.filter fun row => !row.skipped, hperm.filter _, ?_⟩
  have hloop : Emission.forEach (confirmRound api codeGenerator)
      (shuffle.order (rows.map ConfirmRow.input)) s =
        (trials (ConfirmRow.test api) (shuffled.filter fun row => !row.skipped) s).mapWritten
          ConfirmRow.output := by
    rw [hinputs, Emission.forEach_map]
    apply forEach_skip
    · intro row _ s hskipped
      rw [ConfirmRow.confirmRound_input, if_pos hskipped]
    · intro row _ s htested
      rw [ConfirmRow.confirmRound_input, if_neg (by simp [htested])]
  rw [confirmResultsOfFuzzer, if_neg (not_not.mpr rfl), bind_ok (s := ()) rfl,
    ConfirmRow.confirmInputs_lines, lift_ok_bind, hloop]
  rfl

theorem confirmInputs_map_line {lines : List Text} {inputs : List ConfirmInput}
    (h : confirmInputs lines = .ok inputs) : inputs.map ConfirmInput.line = lines := by
  induction lines generalizing inputs with
  | nil =>
    cases h
    rfl
  | cons line lines ih =>
    obtain ⟨input, hinput, h⟩ := except_bind_ok h
    obtain ⟨rest, hrest, h⟩ := except_bind_ok h
    cases h
    obtain ⟨_, -, hinput⟩ := except_bind_ok hinput
    obtain ⟨_, -, hinput⟩ := except_bind_ok hinput
    obtain ⟨_, -, hinput⟩ := except_bind_ok hinput
    obtain ⟨_, -, hinput⟩ := except_bind_ok hinput
    cases hinput
    rw [List.map_cons, ih hrest]

/-- A test of the confirmation stage can give this result. -/
def TestGives {σ : Type} (api : ExecutorApi σ) (result : ℤ) : Prop :=
  ∃ (measurement trigger reset : X86Instruction) (before after : σ),
    confirmTriple api measurement trigger reset before = .ok (result, after)

theorem confirmRound_written {σ : Type} (api : ExecutorApi σ) (codeGenerator : CodeGenerator)
    (input : ConfirmInput) (s : σ) :
    (confirmRound api codeGenerator input s).written = [] ∨
      ∃ result, TestGives api result ∧
        (confirmRound api codeGenerator input s).written = [.row input.line result] := by
  unfold confirmRound
  cases input.instructions codeGenerator with
  | error e => exact .inl rfl
  | ok instructions =>
    obtain ⟨measurement, trigger, reset⟩ := instructions
    rw [lift_ok_bind]
    dsimp only
    by_cases hskip : (trigger.isSleep || measurement.isSleep) = true
    · rw [if_pos hskip]
      exact .inl rfl
    · rw [if_neg hskip]
      cases htested : confirmTriple api measurement trigger reset s with
      | error e => exact .inl rfl
      | ok tested =>
        exact .inr ⟨tested.1, ⟨measurement, trigger, reset, s, tested.2, htested⟩, rfl⟩

theorem confirmRounds_rows {σ : Type} {api : ExecutorApi σ} {codeGenerator : CodeGenerator}
    {inputs : List ConfirmInput} {s : σ} {output : ConfirmOutput}
    (h : output ∈ (Emission.forEach (confirmRound api codeGenerator) inputs s).written) :
    ∃ input ∈ inputs, ∃ result, TestGives api result ∧ output = .row input.line result := by
  revert output
  apply forEach_writes
  intro input hinput s output houtput
  rcases confirmRound_written api codeGenerator input s with hnone | ⟨result, hresult, hone⟩
  · rw [hnone] at houtput
    cases houtput
  · rw [hone] at houtput
    exact ⟨input, hinput, result, hresult, List.mem_singleton.mp houtput⟩

theorem confirmRounds_sublist {σ : Type} (api : ExecutorApi σ) (codeGenerator : CodeGenerator)
    (inputs : List ConfirmInput) (s : σ) :
    ((Emission.forEach (confirmRound api codeGenerator) inputs s).written.map
      fun output => lineWithoutTiming output.text).Sublist
        (inputs.map fun input => lineWithoutTiming input.line) := by
  apply forEach_sublist
  intro input _ s
  rcases confirmRound_written api codeGenerator input s with hnone | ⟨result, -, hone⟩
  · rw [hnone]
    exact List.nil_sublist _
  · rw [hone, List.map_singleton, lineWithoutTiming_confirmed]

theorem confirmResultsOfFuzzer_subperm {σ : Type} (api : ExecutorApi σ)
    (codeGenerator : CodeGenerator) (shuffle : Shuffle) (inputLines : List Text) (s : σ) :
    (confirmResultsOfFuzzer api codeGenerator shuffle inputLines s).written = [] ∨
      ∃ outputs, (confirmResultsOfFuzzer api codeGenerator shuffle inputLines s).written =
        .header :: outputs ∧ (∀ output ∈ outputs, ∃ line ∈ inputLines.tail, ∃ result,
          TestGives api result ∧ output = .row line result) ∧
        (outputs.map fun output => lineWithoutTiming output.text).Subperm
          (inputLines.tail.map lineWithoutTiming) := by
  cases inputLines with
  | nil => exact .inl rfl
  | cons header lines =>
    rw [confirmResultsOfFuzzer]
    by_cases hheader : header ≠ headerline
    · rw [if_pos hheader]
      exact .inl rfl
    · rw [if_neg hheader, bind_ok (s := ()) rfl]
      right
      cases hinputs : confirmInputs lines with
      | error e => exact ⟨[], rfl, by simp, List.nil_subperm⟩
      | ok inputs =>
        rw [lift_ok_bind]
        have hlines := confirmInputs_map_line hinputs
        have hperm := shuffle.perm inputs
        refine ⟨_, rfl, fun output houtput => ?_, ?_⟩
        · obtain ⟨input, hinput, result, hresult, rfl⟩ := confirmRounds_rows houtput
          have hmem : input.line ∈ inputs.map ConfirmInput.line :=
            List.mem_map_of_mem (hperm.mem_iff.mp hinput)
          rw [hlines] at hmem
          exact ⟨input.line, hmem, result, hresult, rfl⟩
        · have hshuffled := hperm.map fun input => lineWithoutTiming input.line
          have hsame : inputs.map (fun input => lineWithoutTiming input.line) =
              lines.map lineWithoutTiming := by
            rw [← hlines, List.map_map]
            rfl
          rw [hsame] at hshuffled
          exact (confirmRounds_sublist api codeGenerator _ s).subperm.trans hshuffled.subperm

theorem text_no_newline {output : ConfirmOutput}
    (h : output = .header ∨ ∃ line result, '\n' ∉ line ∧ output = .row line result) :
    '\n' ∉ output.text := by
  rcases h with rfl | ⟨line, result, hline, rfl⟩
  · exact headerline_no_newline
  · intro hmem
    rcases List.mem_append.mp hmem with hresult | hrest
    · exact (printInt_no_delimiter result).2 hresult
    · rcases List.mem_cons.mp hrest with hdelimiter | hrest
      · cases hdelimiter
      · exact hline (mem_of_mem_lineWithoutTiming hrest)

/-- The files of the stage are read back as they were written. -/
theorem readLines_outputs {σ : Type} (api : ExecutorApi σ) (codeGenerator : CodeGenerator)
    (shuffle : Shuffle) (content : Text) (s : σ) :
    let run := confirmResultsOfFuzzer api codeGenerator shuffle (readLines content) s
    readLines (confirmedFile run.written) = run.written.map ConfirmOutput.text ∧
      readLines (cleanedFile run.written) =
        (run.written.filter ConfirmOutput.cleaned).map ConfirmOutput.text := by
  intro run
  have hplain : ∀ output ∈ run.written, '\n' ∉ output.text := by
    intro output houtput
    apply text_no_newline
    rcases confirmResultsOfFuzzer_subperm api codeGenerator shuffle (readLines content) s with
      hempty | ⟨outputs, hwritten, hrows, -⟩
    · rw [show run.written = [] from hempty] at houtput
      cases houtput
    · rw [show run.written = .header :: outputs from hwritten] at houtput
      rcases List.mem_cons.mp houtput with rfl | houtput
      · exact .inl rfl
      · obtain ⟨line, hline, result, -, rfl⟩ := hrows output houtput
        exact .inr ⟨line, result, readLines_no_newline (List.mem_of_mem_tail hline), rfl⟩
  constructor
  · apply readLines_fileText
    intro line hline
    obtain ⟨output, houtput, rfl⟩ := List.mem_map.mp hline
    exact hplain output houtput
  · apply readLines_fileText
    intro line hline
    obtain ⟨output, houtput, rfl⟩ := List.mem_map.mp hline
    exact hplain output (List.mem_of_mem_filter houtput)

/-- Confirmation rounds, each on the cleaned file of the one before. -/
inductive ConfirmChain (codeGenerator : CodeGenerator) (first : Text) : Text → Prop
  | start : ConfirmChain codeGenerator first first
  | round {content : Text} (rounds : ConfirmChain codeGenerator first content)
      (shuffle : Shuffle) (executor : Executor) :
      ConfirmChain codeGenerator first (cleanedFile (confirmResultsOfFuzzer Executor.api
        codeGenerator shuffle (readLines content) executor).written)

/-- One round keeps every row at most as often as it was there. -/
theorem rowsWithoutTiming_cleaned {σ : Type} (api : ExecutorApi σ) (codeGenerator : CodeGenerator)
    (shuffle : Shuffle) (content : Text) (s : σ) :
    (rowsWithoutTiming (cleanedFile (confirmResultsOfFuzzer api codeGenerator shuffle
      (readLines content) s).written)).Subperm (rowsWithoutTiming content) := by
  rw [rowsWithoutTiming, (readLines_outputs api codeGenerator shuffle content s).2]
  rcases confirmResultsOfFuzzer_subperm api codeGenerator shuffle (readLines content) s with
    hempty | ⟨outputs, hwritten, -, hsubperm⟩
  · rw [hempty]
    exact List.nil_subperm
  · rw [hwritten, List.filter_cons_of_pos rfl, List.map_cons, List.tail_cons, List.map_map]
    exact (List.filter_sublist.map _).subperm.trans hsubperm

theorem ConfirmChain.subperm {codeGenerator : CodeGenerator} {first last : Text}
    (h : ConfirmChain codeGenerator first last) :
    (rowsWithoutTiming last).Subperm (rowsWithoutTiming first) := by
  induction h with
  | start => exact List.Subperm.refl _
  | round _ shuffle executor ih =>
    exact (rowsWithoutTiming_cleaned _ codeGenerator shuffle _ executor).trans ih

namespace ConfirmRow
variable {codeGenerator : CodeGenerator}

/-- The executor has measured this difference for the triple of the row, -1 if a run faulted. -/
def Measured (row : ConfirmRow codeGenerator) (timing : ℤ) : Prop :=
  ∃ (before after : Executor) (error : ℤ),
    before.testTriggerSequence row.trigger.byteRepresentation row.measurement.byteRepresentation
      row.reset.byteRepresentation true 200 row.resetAmount = .ok (⟨error, timing⟩, after) ∧
        (error ≠ 0 → timing = -1)

theorem measured_of_test {row : ConfirmRow codeGenerator} {timing : ℤ} {before after : Executor}
    (h : row.test Executor.api before = .ok (timing, after)) : row.Measured timing := by
  obtain ⟨⟨result, s⟩, hresult, h⟩ := except_bind_ok h
  cases h
  exact ⟨before, after, result.error, hresult, Executor.testTriggerSequence_fault hresult⟩

theorem resetAmount_le (row : ConfirmRow codeGenerator) : row.resetAmount ≤ 100 := by
  unfold resetAmount
  split <;> omega

/-- The test of a row returns exactly if its code fits. -/
theorem test_ok_iff (row : ConfirmRow codeGenerator) (executor : Executor) :
    (∃ result, row.test Executor.api executor = .ok result) ↔ row.Fits := by
  unfold Fits
  rw [← Executor.testTriggerSequence_speculation_iff row.resetAmount_le 200 executor]
  constructor
  · rintro ⟨result, h⟩
    obtain ⟨tested, htested, -⟩ := except_bind_ok h
    exact ⟨tested, htested⟩
  · rintro ⟨⟨result, after⟩, h⟩
    refine ⟨(result.cyclesDifference, after), ?_⟩
    change (executor.testTriggerSequence _ _ _ true 200 row.resetAmount >>= _) = _
    rw [h]
    rfl

end ConfirmRow

/-- The line of a confirmed row in the output files. -/
def confirmedLine {codeGenerator : CodeGenerator} (tested : ConfirmRow codeGenerator × ℤ) : Text :=
  printInt tested.2 ++ ';' :: lineWithoutTiming tested.1.line

theorem outputs_text {codeGenerator : CodeGenerator}
    (confirmed : List (ConfirmRow codeGenerator × ℤ)) :
    (ConfirmOutput.header :: confirmed.map ConfirmRow.output).map ConfirmOutput.text =
      headerline :: confirmed.map confirmedLine := by
  rw [List.map_cons, List.map_map]
  rfl

theorem cleanedOutputs_text {codeGenerator : CodeGenerator}
    (confirmed : List (ConfirmRow codeGenerator × ℤ)) :
    ((ConfirmOutput.header :: confirmed.map ConfirmRow.output).filter ConfirmOutput.cleaned).map
        ConfirmOutput.text =
      headerline :: (confirmed.filter fun p => 50 < p.2.natAbs).map confirmedLine := by
  rw [List.filter_cons_of_pos rfl, List.map_cons, List.filter_map, List.map_map]
  rfl

theorem rowsWithoutTiming_of_confirmed {codeGenerator : CodeGenerator} {content : Text}
    {confirmed : List (ConfirmRow codeGenerator × ℤ)}
    (h : readLines content = headerline :: confirmed.map confirmedLine) :
    rowsWithoutTiming content =
      (confirmed.map Prod.fst).map fun row => lineWithoutTiming row.line := by
  rw [rowsWithoutTiming, h, List.tail_cons, List.map_map, List.map_map]
  apply List.map_congr_left
  intro p _
  exact lineWithoutTiming_confirmed p.1.line p.2

/-- The stage ends exactly if the code of every tested row fits. -/
theorem trials_ok_iff {codeGenerator : CodeGenerator} (order : List (ConfirmRow codeGenerator))
    (executor : Executor) :
    (∃ after, (trials (ConfirmRow.test Executor.api) order executor).outcome = .ok after) ↔
      ∀ row ∈ order, row.Fits := by
  constructor
  · rintro ⟨after, hafter⟩ row hrow
    obtain ⟨_, htested⟩ := trials_tested (ConfirmRow.test Executor.api) order executor
    rw [← trials_all hafter] at hrow
    obtain ⟨⟨row, timing⟩, hmem, rfl⟩ := List.mem_map.mp hrow
    obtain ⟨before, after, htest⟩ := htested.mem hmem
    exact (row.test_ok_iff before).mp ⟨_, htest⟩
  · intro hfits
    exact trials_total (fun row hrow executor => (row.test_ok_iff executor).mpr (hfits row hrow))
      executor

/-- Whatever the shuffle and the executor do, the output rows are tested rows with the timings of
their tests and the cleaned rows are those with a large timing. The run ends exactly if the code of
all tested rows fits, and then every tested row is in the output. Chained rounds only lose rows. -/
theorem confirmation_conserves {codeGenerator : CodeGenerator} {content : Text}
    {rows : List (ConfirmRow codeGenerator)}
    (hcontent : readLines content = headerline :: rows.map ConfirmRow.line)
    (shuffle : Shuffle) (executor : Executor) :
    let run := confirmResultsOfFuzzer Executor.api codeGenerator shuffle (readLines content)
      executor
    let testedRows := rows.filter fun row => !row.skipped
    ∃ confirmed : List (ConfirmRow codeGenerator × ℤ),
      readLines (confirmedFile run.written) = headerline :: confirmed.map confirmedLine ∧
      readLines (cleanedFile run.written) =
        headerline :: (confirmed.filter fun p => 50 < p.2.natAbs).map confirmedLine ∧
      (∃ after, Tested (ConfirmRow.test Executor.api) executor confirmed after) ∧
      (∀ p ∈ confirmed, p.1.Measured p.2) ∧
      (confirmed.map Prod.fst).Subperm testedRows ∧
      ((∃ after, run.outcome = .ok after) ↔ ∀ row ∈ testedRows, row.Fits) ∧
      ((∀ row ∈ testedRows, row.Fits) → (rowsWithoutTiming (confirmedFile run.written)).Perm
        (testedRows.map fun row => lineWithoutTiming row.line)) ∧
      ∀ last, ConfirmChain codeGenerator content last →
        (rowsWithoutTiming last).Subperm (rowsWithoutTiming content) := by
  intro run testedRows
  obtain ⟨order, hperm, hrun⟩ := confirmResultsOfFuzzer_rows Executor.api shuffle rows executor
  rw [← hcontent] at hrun
  change run = _ at hrun
  obtain ⟨houtput, hcleaned⟩ := readLines_outputs Executor.api codeGenerator shuffle content
    executor
  change readLines (confirmedFile run.written) = run.written.map _ at houtput
  change readLines (cleanedFile run.written) = (run.written.filter _).map _ at hcleaned
  obtain ⟨after, htested⟩ := trials_tested (ConfirmRow.test Executor.api) order executor
  have hends := trials_ok_iff order executor
  have hfits : (∀ row ∈ order, row.Fits) ↔ ∀ row ∈ testedRows, row.Fits :=
    ⟨fun h row hrow => h row (hperm.mem_iff.mpr hrow), fun h row hrow =>
      h row (hperm.mem_iff.mp hrow)⟩
  rw [hfits] at hends
  have hprefix := trials_initial (ConfirmRow.test Executor.api) order executor
  have hall (after : Executor)
      (h : (trials (ConfirmRow.test Executor.api) order executor).outcome = .ok after) :
      (trials (ConfirmRow.test Executor.api) order executor).written.map Prod.fst = order :=
    trials_all h
  rw [hrun] at houtput hcleaned ⊢
  generalize trials (ConfirmRow.test Executor.api) order executor = tests at *
  rw [outputs_text] at houtput
  rw [cleanedOutputs_text] at hcleaned
  refine ⟨tests.written, houtput, hcleaned, ⟨after, htested⟩, ?_, ?_, hends, ?_,
    fun last h => h.subperm⟩
  · rintro ⟨row, timing⟩ hmem
    obtain ⟨before, after, htest⟩ := htested.mem hmem
    exact ConfirmRow.measured_of_test htest
  · exact hprefix.sublist.subperm.trans hperm.subperm
  · intro hall_fit
    obtain ⟨after, hafter⟩ := hends.mpr hall_fit
    rw [rowsWithoutTiming_of_confirmed houtput, hall after hafter]
    exact hperm.map _

/-- A NOP and a sequence of ten NOPs. -/
def nopAndLongReset : CodeGenerator :=
  .ofEntries [(instNop, "NOP".toList), ((List.replicate 10 instNop).flatten, "NOPS".toList)]
    (by decide) (by decide)

def shortResetRow : ConfirmRow nopAndLongReset where
  line := "60;0;NOP;GENERAL;BASE;A64;0;NOP;GENERAL;BASE;A64;0;NOP;GENERAL;BASE;A64".toList
  measurement := instructionAt 0 (instNop, "NOP".toList)
  trigger := instructionAt 0 (instNop, "NOP".toList)
  reset := instructionAt 0 (instNop, "NOP".toList)
  measurement_mem := List.mem_cons_self
  trigger_mem := List.mem_cons_self
  reset_mem := List.mem_cons_self
  fields := rfl
  measurementUid := rfl
  triggerUid := rfl
  resetUid := rfl
  noNewline := by decide

def longResetRow : ConfirmRow nopAndLongReset where
  line := "60;0;NOP;GENERAL;BASE;A64;0;NOP;GENERAL;BASE;A64;1;NOPS;GENERAL;BASE;A64".toList
  measurement := instructionAt 0 (instNop, "NOP".toList)
  trigger := instructionAt 0 (instNop, "NOP".toList)
  reset := instructionAt 1 ((List.replicate 10 instNop).flatten, "NOPS".toList)
  measurement_mem := List.mem_cons_self
  trigger_mem := List.mem_cons_self
  reset_mem := List.mem_cons_of_mem _ List.mem_cons_self
  fields := rfl
  measurementUid := rfl
  triggerUid := rfl
  resetUid := rfl
  noNewline := by decide

def longTriggerRow : ConfirmRow nopAndLongReset where
  line := "-70;0;NOP;GENERAL;BASE;A64;1;NOPS;GENERAL;BASE;A64;0;NOP;GENERAL;BASE;A64".toList
  measurement := instructionAt 0 (instNop, "NOP".toList)
  trigger := instructionAt 1 ((List.replicate 10 instNop).flatten, "NOPS".toList)
  reset := instructionAt 0 (instNop, "NOP".toList)
  measurement_mem := List.mem_cons_self
  trigger_mem := List.mem_cons_of_mem _ List.mem_cons_self
  reset_mem := List.mem_cons_self
  fields := rfl
  measurementUid := rfl
  triggerUid := rfl
  resetUid := rfl
  noNewline := by decide

/-- The result file with these rows. -/
def confirmRowsFile {codeGenerator : CodeGenerator} (rows : List (ConfirmRow codeGenerator)) :
    Text :=
  fileText (headerline :: rows.map ConfirmRow.line)

theorem readLines_confirmRowsFile {codeGenerator : CodeGenerator}
    (rows : List (ConfirmRow codeGenerator)) :
    readLines (confirmRowsFile rows) = headerline :: rows.map ConfirmRow.line := by
  apply readLines_fileText
  intro line hline
  rcases List.mem_cons.mp hline with rfl | hline
  · exact headerline_no_newline
  · obtain ⟨row, -, rfl⟩ := List.mem_map.mp hline
    exact row.noNewline

def reversing : Shuffle := ⟨List.reverse, List.reverse_perm⟩

def quietExecutor : Executor := .start fun _ => .completed 100

/-- Confirming rows with a short reset sequence gives the rows back. -/
theorem confirmation_conserves_short : (rowsWithoutTiming (confirmedFile (confirmResultsOfFuzzer
    Executor.api nopAndLongReset reversing
      (readLines (confirmRowsFile [shortResetRow, longTriggerRow])) quietExecutor).written)).Perm
        [lineWithoutTiming shortResetRow.line, lineWithoutTiming longTriggerRow.line] := by
  obtain ⟨_, -, -, -, -, -, -, hperm, -⟩ := confirmation_conserves
    (readLines_confirmRowsFile [shortResetRow, longTriggerRow]) reversing quietExecutor
  apply hperm
  intro row hrow
  rcases List.mem_pair.mp (List.mem_of_mem_filter hrow) with rfl | rfl
  · exact ⟨by decide, by decide⟩
  · exact ⟨by decide, by decide⟩

/-- Hundred copies of the long reset sequence do not fit on a page, so the row is lost. -/
theorem not_confirmation_conserves_long :
    readLines (confirmRowsFile [longResetRow]) = headerline :: [longResetRow].map ConfirmRow.line ∧
      ¬ (rowsWithoutTiming (confirmedFile (confirmResultsOfFuzzer Executor.api nopAndLongReset
        reversing (readLines (confirmRowsFile [longResetRow])) quietExecutor).written)).Perm
          (([longResetRow].filter fun row => !row.skipped).map
            fun row => lineWithoutTiming row.line) := by
  refine ⟨readLines_confirmRowsFile [longResetRow], fun hperm => ?_⟩
  have hcontent := readLines_confirmRowsFile [longResetRow]
  obtain ⟨order, horder, hrun⟩ := confirmResultsOfFuzzer_rows Executor.api reversing
    [longResetRow] quietExecutor
  have hone : order = [longResetRow] := List.perm_singleton.mp horder
  have hfull : ¬ longResetRow.Fits := by
    rintro ⟨-, hfits⟩
    exact absurd hfits (by decide)
  have hstop : ∃ e, longResetRow.test Executor.api quietExecutor = .error e := by
    cases h : longResetRow.test Executor.api quietExecutor with
    | error e => exact ⟨e, rfl⟩
    | ok result => exact absurd ((longResetRow.test_ok_iff quietExecutor).mp ⟨result, h⟩) hfull
  obtain ⟨e, he⟩ := hstop
  rw [hone, trials_cons_error he] at hrun
  rw [rowsWithoutTiming, (readLines_outputs Executor.api nopAndLongReset reversing _ _).1,
    hcontent, hrun] at hperm
  exact absurd hperm.length_eq Nat.zero_ne_one

end OsirisArm
