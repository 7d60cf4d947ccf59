import OsirisArm.UndisturbedConfirmation

/-! # Confirming with repeatable tests

If a test of a row always gives the same timing, then the shuffles leave no trace but the order of
the rows, and what one confirmation has kept the next ones keep.
-/

namespace OsirisArm
open Library Library.Emission
open scoped List

/-- A timing for each instruction triple. -/
abbrev TripleTimings := X86Instruction → X86Instruction → X86Instruction → ℤ

section
variable {σ : Type} {api : ExecutorApi σ} {codeGenerator : CodeGenerator} {timings : TripleTimings}

namespace ConfirmRow

def timing (timings : TripleTimings) (row : ConfirmRow codeGenerator) : ℤ :=
  timings row.measurement row.trigger row.reset

/-- The test of the row, if it is not skipped, has its timing in every state. -/
def Repeatable (api : ExecutorApi σ) (timings : TripleTimings) (row : ConfirmRow codeGenerator) :
    Prop :=
  row.skipped = false → ∀ s, ∃ s', row.test api s = .ok (row.timing timings, s')

def confirms (timings : TripleTimings) (row : ConfirmRow codeGenerator) : Bool :=
  !row.skipped && decide (50 < (row.timing timings).natAbs)

/-- The row as a confirmation writes it. -/
def confirmed (timings : TripleTimings) (row : ConfirmRow codeGenerator) :
    ConfirmRow codeGenerator := row.retimed (row.timing timings)

theorem Repeatable.confirmed {row : ConfirmRow codeGenerator} (h : row.Repeatable api timings) :
    (row.confirmed timings).Repeatable api timings := h

theorem line_confirmed_confirmed (row : ConfirmRow codeGenerator) :
    ((row.confirmed timings).confirmed timings).line = (row.confirmed timings).line := by
  have hrest : lineWithoutTiming (row.confirmed timings).line = lineWithoutTiming row.line :=
    row.retimed_rest (row.timing timings)
  change printInt _ ++ ';' :: lineWithoutTiming (row.confirmed timings).line = _
  rw [hrest]
  rfl

end ConfirmRow

/-- Confirmations on any executor, each of the cleaned file of the one before. -/
def confirmRoundsBy (api : ExecutorApi σ) (codeGenerator : CodeGenerator) :
    List (Shuffle × σ) → Text → Text
  | [], content => content
  | (shuffle, s) :: rounds, content =>
    confirmRoundsBy api codeGenerator rounds (cleanedFile (confirmResultsOfFuzzer api
      codeGenerator shuffle (readLines content) s).written)

variable {content : Text} {rows : List (ConfirmRow codeGenerator)}

theorem exists_left (hcontent : readLines content = headerline :: rows.map ConfirmRow.line)
    (hrepeatable : ∀ row ∈ rows, row.Repeatable api timings) (shuffle : Shuffle) (s : σ) :
    ∃ left : List (ConfirmRow codeGenerator),
      readLines (cleanedFile (confirmResultsOfFuzzer api codeGenerator shuffle
        (readLines content) s).written) = headerline :: left.map ConfirmRow.line ∧
      left ~ (rows.filter fun row => row.confirms timings).map fun row =>
        row.confirmed timings := by
  obtain ⟨order, hperm, hrun⟩ := confirmResultsOfFuzzer_rows api shuffle rows s
  have htrials : (trials (ConfirmRow.test api) order s).written =
      order.map fun row => (row, row.timing timings) := by
    apply trials_repeatable
    intro row hrow
    obtain ⟨hmem, hawake⟩ := List.mem_filter.mp (hperm.mem_iff.mp hrow)
    exact hrepeatable row hmem (by simpa using hawake)
  rw [htrials, ← hcontent] at hrun
  refine ⟨leftRows (order.map fun row => (row, row.timing timings)), ?_, ?_⟩
  · rw [(readLines_outputs api codeGenerator shuffle content s).2, hrun, cleanedOutputs_text,
      leftRows_line]
  · rw [leftRows, List.filter_map, List.map_map]
    have hlarge := (hperm.filter fun row => decide (50 < (row.timing timings).natAbs)).map
      fun row => row.confirmed timings
    rw [List.filter_filter] at hlarge
    refine hlarge.trans (List.Perm.of_eq ?_)
    congr 1
    apply List.filter_congr
    intro row _
    exact Bool.and_comm _ _

/-- After any number of confirmations, in any orders and on any states, the rows are those with a
timing over 50, each with this timing. -/
theorem confirmRoundsBy_settles
    (hcontent : readLines content = headerline :: rows.map ConfirmRow.line)
    (hrepeatable : ∀ row ∈ rows, row.Repeatable api timings) (shuffle : Shuffle) (s : σ)
    (rounds : List (Shuffle × σ)) :
    ∃ lines, readLines (confirmRoundsBy api codeGenerator ((shuffle, s) :: rounds) content) =
        headerline :: lines ∧
      lines ~ (rows.filter fun row => row.confirms timings).map fun row =>
        (row.confirmed timings).line := by
  induction rounds generalizing content rows shuffle s with
  | nil =>
    obtain ⟨left, hleft, hperm⟩ := exists_left hcontent hrepeatable shuffle s
    have hlines := hperm.map ConfirmRow.line
    rw [List.map_map] at hlines
    exact ⟨left.map ConfirmRow.line, hleft, hlines⟩
  | cons round rounds ih =>
    obtain ⟨left, hleft, hperm⟩ := exists_left hcontent hrepeatable shuffle s
    have hrepeatable' : ∀ row ∈ left, row.Repeatable api timings := by
      intro row hrow
      obtain ⟨original, horiginal, rfl⟩ := List.mem_map.mp (hperm.mem_iff.mp hrow)
      exact (hrepeatable original (List.mem_filter.mp horiginal).1).confirmed
    obtain ⟨lines, hread, hlines⟩ := ih hleft hrepeatable' round.1 round.2
    refine ⟨lines, hread, hlines.trans ?_⟩
    -- every row that is left is kept again, with the same line
    have hagain := (hperm.filter fun row => row.confirms timings).map fun row =>
      (row.confirmed timings).line
    have hkept : ∀ row ∈ (rows.filter fun row => row.confirms timings).map fun row =>
        row.confirmed timings, row.confirms timings = true := by
      intro row hrow
      obtain ⟨original, horiginal, rfl⟩ := List.mem_map.mp hrow
      exact (List.mem_filter.mp horiginal).2
    rw [List.filter_eq_self.mpr hkept, List.map_map] at hagain
    refine hagain.trans (List.Perm.of_eq ?_)
    exact List.map_congr_left fun row _ => row.line_confirmed_confirmed

end

end OsirisArm
