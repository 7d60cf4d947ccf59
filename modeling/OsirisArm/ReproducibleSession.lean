import OsirisArm.AssembledSearch
import OsirisArm.RepeatableConfirmation
import OsirisArm.UndisturbedPipeline

/-! # Sessions that are reproducible

A session is a search and one or more confirmations of its result file. If the executor gives each
test the same result in every state, then two sessions on the same instructions end with the same
rows, whatever the order of the instruction list, the states they start from, the shuffles and the
numbers of confirmations.
-/

namespace OsirisArm
open Library Library.Emission
open scoped List

section
variable {σ : Type} {api : ExecutorApi σ} {codeGenerator codeGenerator' : CodeGenerator}
  {search : Search} {speculation : Bool}

theorem Search.triple_mem_of_rows {s : σ} {row : ResultRow}
    (h : row ∈ search.rows api codeGenerator speculation s) :
    row.triple ∈ search.triples codeGenerator := by
  rw [search.rows_eq] at h
  obtain ⟨tested, htested, haccepted⟩ := List.mem_filterMap.mp h
  have hmem : tested.1 ∈ search.triples codeGenerator :=
    (trials_initial (search.test api speculation) (search.triples codeGenerator) s).subset
      (List.mem_map_of_mem htested)
  obtain ⟨timing, -, rfl⟩ := Option.map_eq_some_iff.mp haccepted
  exact hmem

/-- The rows of a result file that the confirmations keep, with their new timings. -/
def confirmedRows (timings : TripleFields → ℤ) (rows : List ResultRow) : List ResultRow :=
  (rows.filter fun row =>
    !row.triple.skipped && decide (50 < (timings row.triple.fields).natAbs)).map fun row =>
      { row with timing := timings row.triple.fields }

/-- Without UIDs it depends on the rows without UIDs only which rows are kept. -/
theorem confirmedRows_fields (timings : TripleFields → ℤ) (rows : List ResultRow) :
    (confirmedRows timings rows).map ResultRow.fields =
      ((rows.map ResultRow.fields).filter fun fields =>
        !(InstructionTriple.ofFields fields.2).skipped &&
          decide (50 < (timings fields.2).natAbs)).map fun fields =>
            (timings fields.2, fields.2) := by
  rw [confirmedRows, List.filter_map, List.map_map, List.map_map]
  rfl

def confirmTimings (timings : TripleFields → ℤ) : TripleTimings :=
  fun measurement trigger reset => timings (measurement.fields, trigger.fields, reset.fields)

theorem RowOf.confirmed_line {row : ResultRow} (h : RowOf codeGenerator row)
    (timings : TripleFields → ℤ) : (h.confirmRow.confirmed (confirmTimings timings)).line =
      { row with timing := timings row.triple.fields : ResultRow }.csvLine := by
  have hline : { row with timing := timings row.triple.fields : ResultRow }.csvLine =
      printInt (timings row.triple.fields) ++ ';' :: row.triple.rest := by
    simp [ResultRow.csvLine, InstructionTriple.rest, ResultRow.triple]
  have hrest : lineWithoutTiming h.confirmRow.line = row.triple.rest := h.confirmRow_rest
  change printInt _ ++ ';' :: lineWithoutTiming h.confirmRow.line = _
  rw [hline, hrest]
  rfl

theorem confirmRows_confirmed {rows : List ResultRow} (h : ∀ row ∈ rows, RowOf codeGenerator row)
    (timings : TripleFields → ℤ) :
    ((confirmRows rows h).filter fun row => row.confirms (confirmTimings timings)).map
        (fun row => (row.confirmed (confirmTimings timings)).line) =
      (confirmedRows timings rows).map ResultRow.csvLine := by
  induction rows with
  | nil => rfl
  | cons row rows ih =>
    have hrow := h row List.mem_cons_self
    have hrest := ih fun other hother => h other (List.mem_cons_of_mem row hother)
    have hconfirms : hrow.confirmRow.confirms (confirmTimings timings) =
        (!row.triple.skipped && decide (50 < (timings row.triple.fields).natAbs)) := rfl
    rw [confirmedRows] at hrest ⊢
    change (List.filter _ (hrow.confirmRow :: confirmRows rows _)).map _ = _
    rw [List.filter_cons, List.filter_cons, hconfirms]
    cases !row.triple.skipped && decide (50 < (timings row.triple.fields).natAbs) with
    | true =>
      rw [if_pos rfl, if_pos rfl, List.map_cons, List.map_cons, List.map_cons,
        hrow.confirmed_line, hrest]
    | false => exact hrest

theorem exists_confirmed_lines {rows : List ResultRow} {timings : TripleFields → ℤ}
    (hrows : ∀ row ∈ rows, RowOf codeGenerator row)
    (hconfirm : ∀ row ∈ rows, row.triple.skipped = false → ∀ s, ∃ s',
      confirmTriple api row.measurement row.trigger row.reset s =
        .ok (timings row.triple.fields, s'))
    (round : Shuffle × σ) (rounds : List (Shuffle × σ)) :
    ∃ lines, readLines (confirmRoundsBy api codeGenerator (round :: rounds) (resultFile rows)) =
        headerline :: lines ∧
      lines ~ (confirmedRows timings rows).map ResultRow.csvLine := by
  have hcontent : readLines (resultFile rows) =
      headerline :: (confirmRows rows hrows).map ConfirmRow.line := by
    rw [readLines_resultFile hrows, confirmRows_line]
  have hrepeatable : ∀ row ∈ confirmRows rows hrows,
      row.Repeatable api (confirmTimings timings) := by
    intro confirmRow hmem hawake
    obtain ⟨row, hrow, rfl⟩ := List.mem_pmap.mp hmem
    exact hconfirm row hrow hawake
  obtain ⟨lines, hread, hlines⟩ :=
    confirmRoundsBy_settles hcontent hrepeatable round.1 round.2 rounds
  rw [confirmRows_confirmed] at hlines
  exact ⟨lines, hread, hlines⟩

/-- Two sessions on the same instructions end with the same rows, up to their order and the UIDs in
them: those with a timing over 50. -/
theorem session_reproducible {results : InstructionTriple → Search.TripleTests}
    {timings : TripleFields → ℤ}
    (hperm : codeGenerator.instructionList.map X86Instruction.fields ~
      codeGenerator'.instructionList.map X86Instruction.fields)
    (hrepeatable : search.Repeatable api codeGenerator speculation results)
    (hconfirm : ∀ triple ∈ search.triples codeGenerator, triple.skipped = false → ∀ s, ∃ s',
      confirmTriple api triple.measurement triple.trigger triple.reset s =
        .ok (timings triple.fields, s'))
    (s s' : σ) (round round' : Shuffle × σ) (rounds rounds' : List (Shuffle × σ)) :
    let rows := search.rows api codeGenerator speculation s
    let rows' := search.rows api codeGenerator' speculation s'
    ∃ lines lines',
      readLines (confirmRoundsBy api codeGenerator (round :: rounds) (resultFile rows)) =
        headerline :: lines ∧
      readLines (confirmRoundsBy api codeGenerator' (round' :: rounds') (resultFile rows')) =
        headerline :: lines' ∧
      lines ~ (confirmedRows timings rows).map ResultRow.csvLine ∧
      lines' ~ (confirmedRows timings rows').map ResultRow.csvLine ∧
      (confirmedRows timings rows).map ResultRow.fields ~
        (confirmedRows timings rows').map ResultRow.fields := by
  intro rows rows'
  have hsame : rows.map ResultRow.fields ~ rows'.map ResultRow.fields :=
    hrepeatable.rows_perm hperm s s'
  have htests : ∀ row ∈ rows, row.triple.skipped = false → ∀ s, ∃ s',
      confirmTriple api row.measurement row.trigger row.reset s =
        .ok (timings row.triple.fields, s') :=
    fun row hrow => hconfirm row.triple (Search.triple_mem_of_rows hrow)
  have htests' : ∀ row ∈ rows', row.triple.skipped = false → ∀ s, ∃ s',
      confirmTriple api row.measurement row.trigger row.reset s =
        .ok (timings row.triple.fields, s') := by
    intro row hrow hawake t
    obtain ⟨original, horiginal, hfields⟩ :=
      List.mem_map.mp (hsame.mem_iff.mpr (List.mem_map_of_mem hrow))
    have htriple : original.triple.fields = row.triple.fields := congrArg Prod.snd hfields
    -- a test depends on the bytes and texts only, and these are the same
    have hskipped : (InstructionTriple.ofFields original.triple.fields).skipped = false := by
      rw [htriple]
      exact hawake
    have htest := htests original horiginal hskipped t
    change ∃ t', confirmTriple api (X86Instruction.ofFields original.triple.fields.1)
      (.ofFields original.triple.fields.2.1) (.ofFields original.triple.fields.2.2) t = _ at htest
    rw [htriple] at htest
    exact htest
  obtain ⟨lines, hread, hlines⟩ := exists_confirmed_lines
    (fun row hrow => (Search.rows_accepted hrow).rowOf) htests round rounds
  obtain ⟨lines', hread', hlines'⟩ := exists_confirmed_lines
    (fun row hrow => (Search.rows_accepted hrow).rowOf) htests' round' rounds'
  refine ⟨lines, lines', hread, hread', hlines, hlines', ?_⟩
  rw [confirmedRows_fields, confirmedRows_fields]
  exact (hsame.filter _).map _

end

def udfAndNop : CodeGenerator :=
  .ofEntries [(instUdf, "UDF".toList), (instNop, "NOP".toList)] (by decide) (by decide)

def udfTimings (fields : TripleFields) : ℤ :=
  (udfResult fields.2.1.1 fields.1.1 fields.2.2.1).cyclesDifference

/-- One session confirms once, the other one twice. -/
theorem session_reproducible_udf : ∃ lines lines',
    readLines (confirmRoundsBy udfApi nopAndUdf [(reversing, ())]
      (resultFile ((Search.withoutAssumptions 50).rows udfApi nopAndUdf false ()))) =
        headerline :: lines ∧
    readLines (confirmRoundsBy udfApi udfAndNop [(reversing, ()), (reversing, ())]
      (resultFile ((Search.withoutAssumptions 50).rows udfApi udfAndNop false ()))) =
        headerline :: lines' ∧
    lines.length = lines'.length := by
  have hperm : nopAndUdf.instructionList.map X86Instruction.fields ~
      udfAndNop.instructionList.map X86Instruction.fields := .swap _ _ _
  have hconfirm : ∀ triple ∈ (Search.withoutAssumptions 50).triples nopAndUdf,
      triple.skipped = false → ∀ s, ∃ s',
        confirmTriple udfApi triple.measurement triple.trigger triple.reset s =
          .ok (udfTimings triple.fields, s') := fun _ _ _ _ => ⟨(), rfl⟩
  obtain ⟨lines, lines', hread, hread', hlines, hlines', hfields⟩ :=
    session_reproducible hperm (repeatable_udf (.withoutAssumptions 50) nopAndUdf false) hconfirm
      () () (reversing, ()) (reversing, ()) [] [(reversing, ())]
  have hlength := hfields.length_eq
  rw [List.length_map, List.length_map] at hlength
  refine ⟨lines, lines', hread, hread', ?_⟩
  rw [hlines.length_eq, hlines'.length_eq, List.length_map, List.length_map, hlength]

end OsirisArm
