import OsirisArm.SleepRows
import OsirisArm.UndisturbedConfirmation
import OsirisArm.UndisturbedSearch

/-! # From true effects to confirmed rows

A search and any number of confirmations in which all tests are undisturbed: the rows that are left
at the end lie between those of the triples with a clear effect in both kinds of tests and those of
the triples that can be taken for such. The order in which the rows are confirmed and the disturbed
runs do not matter.
-/

namespace OsirisArm
open Library
open scoped List

namespace InstructionTriple

def skipped (triple : InstructionTriple) : Bool :=
  triple.trigger.isSleep || triple.measurement.isSleep

/-- The row of the triple without its timing. -/
def rest (triple : InstructionTriple) : Text :=
  triple.measurement.getCSVRepresentation ++ ';' :: (triple.trigger.getCSVRepresentation ++
    ';' :: triple.reset.getCSVRepresentation)

/-- There is room for the triple on the pages of a confirmation. -/
def ConfirmFits (triple : InstructionTriple) : Prop :=
  Executor.SpeculationFits triple.trigger.byteRepresentation triple.measurement.byteRepresentation
    triple.reset.byteRepresentation (if triple.reset.isSleep then 1 else 100)

section
variable (trueTimes : TrueTimes) (slack : ℕ) (triple : InstructionTriple)

def confirmTimes : PageTimes := trueTimes triple.measurement triple.trigger triple.reset

/-- The confirmation cannot miss the effect. -/
def Large : Prop :=
  triple.skipped = false ∧ 50 + 2 * slack < (triple.confirmTimes trueTimes).triggerDifference.natAbs

/-- The confirmation can take the triple for one with an effect. -/
def Possible : Prop :=
  triple.skipped = false ∧ 50 < (triple.confirmTimes trueTimes).triggerDifference.natAbs + 2 * slack

instance : Decidable (triple.Large trueTimes slack) := inferInstanceAs (Decidable (_ ∧ _))

instance : Decidable (triple.Possible trueTimes slack) := inferInstanceAs (Decidable (_ ∧ _))

end
end InstructionTriple

section
variable {codeGenerator : CodeGenerator} {rows : List ResultRow}

theorem RowOf.confirmRow_rest {row : ResultRow} (h : RowOf codeGenerator row) :
    h.confirmRow.rest = row.triple.rest := by
  have hline : row.csvLine = printInt row.timing ++ ';' :: row.triple.rest := by
    simp [ResultRow.csvLine, InstructionTriple.rest, ResultRow.triple]
  change lineWithoutTiming row.csvLine = row.triple.rest
  rw [hline, lineWithoutTiming_append (printInt_no_delimiter row.timing).1]

/-- A condition on the instructions picks the same rows for the confirmation and in the search. -/
theorem confirmRows_filter (h : ∀ row ∈ rows, RowOf codeGenerator row)
    {p : ConfirmRow codeGenerator → Bool} {q : InstructionTriple → Bool}
    (hpq : ∀ {row} (hrow : RowOf codeGenerator row), p hrow.confirmRow = q row.triple) :
    ((confirmRows rows h).filter p).map ConfirmRow.rest =
      ((rows.map ResultRow.triple).filter q).map InstructionTriple.rest := by
  induction rows with
  | nil => rfl
  | cons row rows ih =>
    have hrow := h row List.mem_cons_self
    have hrest := ih fun other hother => h other (List.mem_cons_of_mem row hother)
    change (List.filter p (hrow.confirmRow :: confirmRows rows _)).map ConfirmRow.rest =
      (List.filter q (row.triple :: rows.map ResultRow.triple)).map InstructionTriple.rest
    rw [List.filter_cons, List.filter_cons, hpq hrow]
    cases q row.triple with
    | true =>
      rw [if_pos rfl, if_pos rfl, List.map_cons, List.map_cons, hrow.confirmRow_rest, hrest]
    | false => exact hrest

theorem confirmRows_times (h : ∀ row ∈ rows, RowOf codeGenerator row) (trueTimes : TrueTimes) :
    (confirmRows rows h).map (ConfirmRow.times trueTimes) =
      (rows.map ResultRow.triple).map (InstructionTriple.confirmTimes trueTimes) := by
  rw [confirmRows, List.map_pmap, List.map_map]
  exact List.pmap_eq_map (f := fun row => row.triple.confirmTimes trueTimes) h

/-- The confirmation of these rows in reverse order is undisturbed if the cycles of its tests are
ahead. -/
theorem undisturbedRound_reversing {trueTimes : TrueTimes} {executor : Executor}
    (hrows : ∀ row ∈ rows, RowOf codeGenerator row)
    (hawake : ∀ row ∈ rows, row.triple.skipped = false)
    (hretained : ∀ row ∈ rows, (row.triple.confirmTimes trueTimes).Retained 1)
    (h : executor.Observes executor.runNo ((rows.map ResultRow.triple).reverse.flatMap
      fun triple => (triple.confirmTimes trueTimes).cycles 120 80)) :
    UndisturbedRound codeGenerator trueTimes 1 reversing (resultFile rows) executor := by
  have hcycles : (confirmRows rows hrows).reverse.flatMap (fun row =>
      (row.times trueTimes).cycles 120 80) = (rows.map ResultRow.triple).reverse.flatMap
        fun triple => (triple.confirmTimes trueTimes).cycles 120 80 := by
    rw [← List.flatMap_map (ConfirmRow.times trueTimes), List.map_reverse, confirmRows_times,
      ← List.map_reverse, List.flatMap_map]
  intro inputs hinputs
  rw [readLines_resultFile hrows, List.tail_cons, ← confirmRows_line hrows,
    ConfirmRow.confirmInputs_lines] at hinputs
  obtain rfl := Except.ok.inj hinputs
  change Emission.Along _ _ (List.reverse _) _
  rw [← List.map_reverse]
  apply undisturbed_confirmRows
  · intro confirmRow hmem
    obtain ⟨row, hrow, rfl⟩ := List.mem_pmap.mp (List.mem_reverse.mp hmem)
    exact hawake row hrow
  · intro confirmRow hmem
    obtain ⟨row, hrow, rfl⟩ := List.mem_pmap.mp (List.mem_reverse.mp hmem)
    exact hretained row hrow
  · rw [hcycles]
    exact h

end

section
variable {codeGenerator : CodeGenerator} {search : Search} {speculation : Bool}
  {times : InstructionTriple → TripleTimes} {trueTimes : TrueTimes} {slack : ℕ}
  {executor : Executor}

/-- All tests of the triples of a search have room and exact medians. -/
structure Testable (codeGenerator : CodeGenerator) (search : Search)
    (times : InstructionTriple → TripleTimes) (trueTimes : TrueTimes) (slack : ℕ) : Prop where
  retained : ∀ triple ∈ search.triples codeGenerator,
    (times triple).trigger.Retained slack ∧ (times triple).reset.Exact slack
  fits : ∀ triple ∈ search.triples codeGenerator, search.Fits triple
  confirmRetained : ∀ triple ∈ search.triples codeGenerator, triple.skipped = false →
    (triple.confirmTimes trueTimes).Retained slack
  confirmFits : ∀ triple ∈ search.triples codeGenerator, triple.skipped = false →
    triple.ConfirmFits

theorem UndisturbedSearch.confirmable
    (hsearch : UndisturbedSearch codeGenerator search speculation times slack executor)
    (h : Testable codeGenerator search times trueTimes slack)
    (hrows : ∀ row ∈ search.rows Executor.api codeGenerator speculation executor,
      RowOf codeGenerator row) :
    Confirmable trueTimes slack
      (resultFile (search.rows Executor.api codeGenerator speculation executor))
      (confirmRows _ hrows) := by
  have htriple : ∀ row ∈ search.rows Executor.api codeGenerator speculation executor,
      row.triple ∈ search.triples codeGenerator := by
    intro row hrow
    obtain ⟨-, hpossible⟩ := hsearch.rows_between h.retained h.fits
    exact (List.mem_filter.mp (hpossible.subset (List.mem_map_of_mem hrow))).1
  refine ⟨?_, ?_, ?_⟩
  · rw [readLines_resultFile hrows, confirmRows_line]
  · intro confirmRow hmem hawake
    obtain ⟨row, hrow, rfl⟩ := List.mem_pmap.mp hmem
    exact h.confirmFits row.triple (htriple row hrow) hawake
  · intro confirmRow hmem hawake
    obtain ⟨row, hrow, rfl⟩ := List.mem_pmap.mp hmem
    exact h.confirmRetained row.triple (htriple row hrow) hawake

/-- The rows that are left when the result file of a search has been confirmed one or more times. -/
theorem confirmedSearch_byTrueDifference (h : Testable codeGenerator search times trueTimes slack)
    (hsearch : UndisturbedSearch codeGenerator search speculation times slack executor)
    (shuffle : Shuffle) (confirmExecutor : Executor) (rounds : List (Shuffle × Executor))
    (hrounds : UndisturbedRounds codeGenerator trueTimes slack
      ((shuffle, confirmExecutor) :: rounds)
      (resultFile (search.rows Executor.api codeGenerator speculation executor))) :
    let left := rowsWithoutTiming (confirmRounds codeGenerator
      ((shuffle, confirmExecutor) :: rounds)
      (resultFile (search.rows Executor.api codeGenerator speculation executor)))
    ((search.triples codeGenerator).filter fun triple =>
        search.Clear times slack triple ∧ triple.Large trueTimes slack).map
          InstructionTriple.rest <+~ left ∧
      left <+~ ((search.triples codeGenerator).filter fun triple =>
        search.Possible times slack triple ∧ triple.Possible trueTimes slack).map
          InstructionTriple.rest := by
  intro left
  have hrows : ∀ row ∈ search.rows Executor.api codeGenerator speculation executor,
      RowOf codeGenerator row := fun row hrow => (Search.rows_accepted hrow).rowOf
  have hconfirmable := hsearch.confirmable h hrows
  obtain ⟨hclear, hpossible⟩ := hsearch.rows_between h.retained h.fits
  obtain ⟨first, hfirst, -, hmaybe⟩ := hconfirmable.round hrounds.1
  have hlow := (hconfirmable.rounds hrounds).1
  have hhigh := (hfirst.rounds hrounds.2).2.trans hmaybe
  rw [confirmRows_filter hrows (q := fun triple => triple.Large trueTimes slack)
    fun _ => rfl] at hlow
  rw [confirmRows_filter hrows (q := fun triple => triple.Possible trueTimes slack)
    fun _ => rfl] at hhigh
  constructor
  · have hboth := hclear.filter fun triple => triple.Large trueTimes slack
    rw [List.filter_filter] at hboth
    simp only [Bool.decide_and, Bool.and_comm] at hboth ⊢
    exact (hboth.map _).subperm.trans hlow
  · have hboth := hpossible.filter fun triple => triple.Possible trueTimes slack
    rw [List.filter_filter] at hboth
    simp only [Bool.decide_and, Bool.and_comm] at hboth ⊢
    exact hhigh.trans (hboth.map _).subperm

end

/-- In the confirmation the effect of the ISB is small if it is the reset as well. -/
def isbConfirmTimes : TrueTimes := fun _ _ reset =>
  if reset.byteRepresentation = instNop then ⟨100, 200⟩ else ⟨100, 130⟩

theorem isbConfirmTimes_retained (triple : InstructionTriple) :
    (triple.confirmTimes isbConfirmTimes).Retained 1 := by
  unfold InstructionTriple.confirmTimes isbConfirmTimes
  split_ifs
  · decide
  · decide

theorem testable_isb :
    Testable twoInstructions (.withoutAssumptions 50) isbTimes isbConfirmTimes 1 where
  retained triple _ := isbTimes_retained triple
  fits := twoInstructions_fits
  confirmRetained triple _ _ := isbConfirmTimes_retained triple
  confirmFits := by
    unfold InstructionTriple.ConfirmFits Executor.SpeculationFits
    decide

/-- Eighty of two hundred runs of each page are disturbed; the rows come in reverse order. -/
def disturbedConfirmation : Executor :=
  executorOf (isbTriples.reverse.flatMap fun triple =>
    (triple.confirmTimes isbConfirmTimes).cycles 120 80)

theorem disturbedSearch_triples : ((Search.withoutAssumptions 50).rows Executor.api twoInstructions
    false disturbedSearch).map ResultRow.triple = isbTriples := by
  obtain ⟨hclear, hpossible⟩ :=
    undisturbedSearch_isb.rows_between testable_isb.retained testable_isb.fits
  rw [isbTriples_effect.1] at hclear
  rw [isbTriples_effect.2] at hpossible
  exact (hclear.antisymm hpossible).symm

theorem undisturbedRound_isb : UndisturbedRound twoInstructions isbConfirmTimes 1 reversing
    (resultFile ((Search.withoutAssumptions 50).rows Executor.api twoInstructions false
      disturbedSearch)) disturbedConfirmation := by
  have hall : ∀ triple ∈ isbTriples, triple.skipped = false := by decide
  rw [← disturbedSearch_triples, List.forall_mem_map] at hall
  apply undisturbedRound_reversing fun row hrow => (Search.rows_accepted hrow).rowOf
  · exact hall
  · intro row _
    exact isbConfirmTimes_retained row.triple
  · rw [disturbedSearch_triples]
    exact observes_executorOf _

theorem confirmedSearch_byTrueDifference_isb :
    (rowsWithoutTiming (confirmRounds twoInstructions [(reversing, disturbedConfirmation)]
      (resultFile ((Search.withoutAssumptions 50).rows Executor.api twoInstructions false
        disturbedSearch)))).Perm
          [(isbTriple (instructionAt 0 (instNop, "NOP".toList))).rest] := by
  obtain ⟨hlarge, hpossible⟩ := confirmedSearch_byTrueDifference testable_isb undisturbedSearch_isb
    reversing disturbedConfirmation [] ⟨undisturbedRound_isb, trivial⟩
  exact hpossible.antisymm hlarge

end OsirisArm
