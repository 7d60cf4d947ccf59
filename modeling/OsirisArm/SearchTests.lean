import OsirisArm.SearchRows
import OsirisArm.Library.Trials

/-! # Both searches as lists of tests

A search tests instruction triples one after the other and writes a row for each accepted one. The
two searches differ in their triples, in their thresholds and in the number of resets; the stream
for the instruction file of a trigger changes nothing.
-/

namespace OsirisArm
open Library Library.Emission

structure InstructionTriple where
  measurement : X86Instruction
  trigger : X86Instruction
  reset : X86Instruction
  deriving DecidableEq

namespace Search

def thresholds : Search → ℤ × ℤ
  | .withoutAssumptions threshold => (-threshold, threshold)
  | .triggerEqualsMeasurement negativeThreshold positiveThreshold =>
    (negativeThreshold, positiveThreshold)

def resetExecutionsAmount : Search → ℕ
  | .withoutAssumptions _ => resetExecutionsAmountWithoutAssumptions
  | .triggerEqualsMeasurement _ _ => resetExecutionsAmountTriggerEqualsMeasurement

/-- The triples in the order of their tests. -/
def triples (codeGenerator : CodeGenerator) : Search → List InstructionTriple
  | .withoutAssumptions _ =>
    codeGenerator.instructionList.flatMap fun measurement =>
      codeGenerator.instructionList.flatMap fun trigger =>
        if trigger.isSleep then []
        else codeGenerator.instructionList.map fun reset => ⟨measurement, trigger, reset⟩
  | .triggerEqualsMeasurement _ _ =>
    codeGenerator.instructionList.flatMap fun trigger =>
      if trigger.isSleep then []
      else codeGenerator.instructionList.map fun reset => ⟨trigger, trigger, reset⟩

/-- How often the reset instruction of a triple is executed. -/
def amount (search : Search) (triple : InstructionTriple) : ℕ :=
  if triple.reset.isSleep then 1 else search.resetExecutionsAmount

theorem amount_le (search : Search) (triple : InstructionTriple) : search.amount triple ≤ 100 := by
  unfold amount resetExecutionsAmount
  split
  · decide
  · cases search with
    | withoutAssumptions =>
      change resetExecutionsAmountWithoutAssumptions ≤ 100
      decide
    | triggerEqualsMeasurement =>
      change resetExecutionsAmountTriggerEqualsMeasurement ≤ 100
      decide

section
variable {σ : Type} (search : Search) (api : ExecutorApi σ) (speculation : Bool)

def test (triple : InstructionTriple) : σ → Except Stop (Option ℤ × σ) :=
  testTriple api speculation search.thresholds.1 search.thresholds.2 search.resetExecutionsAmount
    triple.measurement triple.trigger triple.reset

/-- The row of a tested triple, if it is accepted. -/
def acceptedRow (tested : InstructionTriple × Option ℤ) : Option ResultRow :=
  tested.2.map fun timing =>
    ⟨timing, tested.1.measurement, tested.1.trigger, tested.1.reset⟩

def round (triple : InstructionTriple) (s : σ) : Emission ResultRow Stop σ :=
  (lift (search.test api speculation triple s)).bind fun tested =>
    write (acceptedRow (triple, tested.1)).toList tested.2

theorem round_eq (triple : InstructionTriple) (s : σ) : search.round api speculation triple s =
    (lift (search.test api speculation triple s)).bind fun tested =>
      write (acceptedRow (triple, tested.1)).toList tested.2 := rfl

theorem round_outcome (triple : InstructionTriple) (s : σ) :
    (search.round api speculation triple s).outcome =
      (search.test api speculation triple s).map Prod.snd := by
  rw [round_eq]
  cases search.test api speculation triple s with
  | error stop => rfl
  | ok tested => rfl

end

end Search

section
variable {σ : Type} {api : ExecutorApi σ} {codeGenerator : CodeGenerator} {speculation : Bool}

theorem searchTriple_round (threshold : ℤ) (triple : InstructionTriple) (s : σ) :
    searchTriple api speculation threshold triple.measurement triple.trigger triple.reset s =
      (Search.withoutAssumptions threshold).round api speculation triple s := by
  have htest : (Search.withoutAssumptions threshold).test api speculation triple s =
      testTriple api speculation (-threshold) threshold resetExecutionsAmountWithoutAssumptions
        triple.measurement triple.trigger triple.reset s := rfl
  rw [searchTriple, Search.round, htest]
  cases testTriple api speculation (-threshold) threshold resetExecutionsAmountWithoutAssumptions
    triple.measurement triple.trigger triple.reset s with
  | error stop => rfl
  | ok tested =>
    obtain ⟨_ | timing, t⟩ := tested
    · rfl
    · rfl

theorem findAndOutputTriggerpairsWithoutAssumptions_rounds (threshold : ℤ) :
    findAndOutputTriggerpairsWithoutAssumptions api codeGenerator speculation threshold =
      forEach ((Search.withoutAssumptions threshold).round api speculation)
        ((Search.withoutAssumptions threshold).triples codeGenerator) := by
  have hpair (measurement trigger : X86Instruction) :
      searchPair api codeGenerator speculation threshold measurement trigger =
        forEach ((Search.withoutAssumptions threshold).round api speculation)
          (if trigger.isSleep then []
          else codeGenerator.instructionList.map fun reset =>
            ⟨measurement, trigger, reset⟩) := by
    funext s
    unfold searchPair
    split
    · rfl
    · rw [codeGenerator.forEachInstruction_eq, forEach_map]
      congr 1
      funext reset s
      exact searchTriple_round threshold ⟨measurement, trigger, reset⟩ s
  have hmeasurement (measurement : X86Instruction) :
      searchPair api codeGenerator speculation threshold measurement = fun trigger =>
        forEach ((Search.withoutAssumptions threshold).round api speculation)
          (if trigger.isSleep then []
          else codeGenerator.instructionList.map fun reset => ⟨measurement, trigger, reset⟩) :=
    funext (hpair measurement)
  rw [findAndOutputTriggerpairsWithoutAssumptions, codeGenerator.forEachInstruction_eq]
  simp only [codeGenerator.forEachInstruction_eq, hmeasurement, forEach_flatMap]
  rfl

/-- The rows of the result file. -/
def SearchOutput.row? : SearchOutput → Option ResultRow
  | .csvRow row => some row
  | .instructionFile _ _ => none

theorem csvRows_eq (outputs : List SearchOutput) :
    csvRows outputs = outputs.filterMap SearchOutput.row? := by
  unfold csvRows
  congr 1

section
variable (negativeThreshold positiveThreshold : ℤ)

theorem searchReset_round (trigger reset : X86Instruction) (state : σ × List ReportLine) :
    (searchReset api speculation negativeThreshold positiveThreshold trigger reset
      state).project SearchOutput.row? Prod.fst =
        (Search.triggerEqualsMeasurement negativeThreshold positiveThreshold).round api speculation
          ⟨trigger, trigger, reset⟩ state.1 := by
  have htest : (Search.triggerEqualsMeasurement negativeThreshold positiveThreshold).test api
      speculation ⟨trigger, trigger, reset⟩ state.1 =
        testTriple api speculation negativeThreshold positiveThreshold
          resetExecutionsAmountTriggerEqualsMeasurement trigger trigger reset state.1 := rfl
  rw [searchReset, Search.round, htest]
  cases testTriple api speculation negativeThreshold positiveThreshold
    resetExecutionsAmountTriggerEqualsMeasurement trigger trigger reset state.1 with
  | error stop => rfl
  | ok tested =>
    obtain ⟨_ | timing, t⟩ := tested
    · rfl
    · rfl

/-- Writing the instruction file at the end of a trigger does not change the rows either. -/
theorem searchTrigger_rounds (trigger : X86Instruction) (s : σ) :
    (searchTrigger api codeGenerator speculation negativeThreshold positiveThreshold trigger
      s).project SearchOutput.row? id =
        forEach ((Search.triggerEqualsMeasurement negativeThreshold positiveThreshold).round api
          speculation) (if trigger.isSleep then []
            else codeGenerator.instructionList.map fun reset => ⟨trigger, trigger, reset⟩) s := by
  unfold searchTrigger
  split
  · rfl
  · rw [codeGenerator.forEachInstruction_eq, forEach_map]
    have hloop : (forEach (searchReset api speculation negativeThreshold positiveThreshold trigger)
        codeGenerator.instructionList (s, [])).project SearchOutput.row? Prod.fst =
          forEach (fun reset => (Search.triggerEqualsMeasurement negativeThreshold
            positiveThreshold).round api speculation ⟨trigger, trigger, reset⟩)
              codeGenerator.instructionList s :=
      forEach_project (fun reset _ state =>
        searchReset_round negativeThreshold positiveThreshold trigger reset state) (s, [])
    have hfile (state : σ × List ReportLine) :
        (if state.2 = [] then Emission.pure state.1
          else .write [.instructionFile trigger state.2] state.1 : Emission SearchOutput Stop
            σ).project SearchOutput.row? id = Emission.pure state.1 := by
      split
      · rfl
      · rfl
    rw [project_bind hfile, hloop]
    exact bind_pure _

theorem findAndOutputTriggerpairsWithTriggerEqualsMeasurement_rounds (s : σ) :
    (findAndOutputTriggerpairsWithTriggerEqualsMeasurement api codeGenerator speculation
      negativeThreshold positiveThreshold s).project SearchOutput.row? id =
        forEach ((Search.triggerEqualsMeasurement negativeThreshold positiveThreshold).round api
          speculation) ((Search.triggerEqualsMeasurement negativeThreshold
            positiveThreshold).triples codeGenerator) s := by
  rw [findAndOutputTriggerpairsWithTriggerEqualsMeasurement, codeGenerator.forEachInstruction_eq,
    Search.triples, ← forEach_flatMap]
  exact forEach_project (fun trigger _ t =>
    searchTrigger_rounds negativeThreshold positiveThreshold trigger t) s

end

/-- Both searches write the rows of the accepted triples, in the order of the tests. -/
theorem Search.rows_eq (search : Search) (s : σ) :
    search.rows api codeGenerator speculation s =
      (trials (search.test api speculation) (search.triples codeGenerator) s).written.filterMap
        acceptedRow := by
  have hloop : forEach (search.round api speculation) (search.triples codeGenerator) s =
      ⟨(trials (search.test api speculation) (search.triples codeGenerator) s).written.flatMap
        fun tested => (acceptedRow tested).toList,
        (trials (search.test api speculation) (search.triples codeGenerator) s).outcome⟩ :=
    forEach_trials (fun triple _ t => search.round_eq api speculation triple t) s
  have hrounds : (forEach (search.round api speculation) (search.triples codeGenerator)
      s).written = (trials (search.test api speculation) (search.triples codeGenerator)
        s).written.filterMap acceptedRow := by
    rw [List.filterMap_eq_flatMap_toList, hloop]
  rw [← hrounds]
  cases search with
  | withoutAssumptions threshold =>
    rw [Search.rows, findAndOutputTriggerpairsWithoutAssumptions_rounds]
  | triggerEqualsMeasurement negativeThreshold positiveThreshold =>
    rw [Search.rows, csvRows_eq,
      ← findAndOutputTriggerpairsWithTriggerEqualsMeasurement_rounds]
    rfl

namespace Search

/-- The result of the trigger test of a triple and of its reset test. -/
abbrev TripleTests := TestResult × TestResult

/-- Every triple has results that its tests give in every state. -/
def Repeatable (search : Search) (api : ExecutorApi σ) (codeGenerator : CodeGenerator)
    (speculation : Bool) (results : InstructionTriple → TripleTests) : Prop :=
  ∀ triple ∈ search.triples codeGenerator, ∀ s,
    (∃ s', api.testTriggerSequence triple.trigger.byteRepresentation
      triple.measurement.byteRepresentation triple.reset.byteRepresentation speculation iterationsNo
      (search.amount triple) s = .ok ((results triple).1, s')) ∧
    ∃ s', api.testResetSequence triple.trigger.byteRepresentation
      triple.measurement.byteRepresentation triple.reset.byteRepresentation iterationsNo
      (search.amount triple) s = .ok ((results triple).2, s')

/-- The difference of a triple with these results, if it is accepted. -/
def timing (search : Search) (results : TripleTests) : Option ℤ :=
  if results.1.error = 0 ∧ (results.1.cyclesDifference < search.thresholds.1 ∨
      results.1.cyclesDifference > search.thresholds.2) then
    if results.2.error = 0 ∧ -20 < results.2.cyclesDifference ∧
        results.2.cyclesDifference < 20 then some results.1.cyclesDifference
    else none
  else none

variable {search : Search} {results : InstructionTriple → TripleTests}

theorem Repeatable.test (h : search.Repeatable api codeGenerator speculation results)
    {triple : InstructionTriple} (htriple : triple ∈ search.triples codeGenerator) (s : σ) :
    ∃ s', search.test api speculation triple s = .ok (search.timing (results triple), s') := by
  obtain ⟨⟨t, htriggered⟩, -⟩ := h triple htriple s
  obtain ⟨-, u, hresetted⟩ := h triple htriple t
  simp only [amount] at htriggered hresetted
  unfold Search.test testTriple timing
  simp only [htriggered]
  change ∃ s', (if _ ∧ _ then _ else _) = _
  split
  · rw [hresetted]
    change ∃ s', (if _ ∧ _ then _ else _) = _
    split
    · exact ⟨u, rfl⟩
    · exact ⟨u, rfl⟩
  · exact ⟨t, rfl⟩

theorem Repeatable.rows (h : search.Repeatable api codeGenerator speculation results) (s : σ) :
    search.rows api codeGenerator speculation s =
      (search.triples codeGenerator).filterMap fun triple =>
        acceptedRow (triple, search.timing (results triple)) := by
  rw [search.rows_eq, trials_repeatable (fun _ htriple => h.test htriple) s, List.filterMap_map]
  rfl

end Search

end

end OsirisArm
