import OsirisArm.CodeGenerator
import OsirisArm.Executor
import OsirisArm.Library.Emission

/-! # The searches

Both searches test triples of a measurement, a trigger and a reset instruction and write a row for
every accepted triple. The search with equal trigger and measurement also collects the accepted
resets of a trigger and writes them to a file named after the trigger.
-/

namespace OsirisArm
open Library

/-- Sleeps are only valid reset sequences. -/
def X86Instruction.isSleep (i : X86Instruction) : Bool :=
  i.assemblyCode = "busy-sleep".toList || i.assemblyCode = "short-busy-sleep".toList ||
    i.assemblyCode = "sleep-syscall".toList

def iterationsNo : ℕ := 10
def resetExecutionsAmountWithoutAssumptions : ℕ := 1
def resetExecutionsAmountTriggerEqualsMeasurement : ℕ := 50

/-- The first line of every result file. -/
def headerline : Text :=
  "timing;".toList ++ "measurement-uid;measurement-sequence;measurement-category;".toList ++
    "measurement-extension;measurement-isa-set;".toList ++
    "trigger-uid;trigger-sequence;trigger-category;trigger-extension;".toList ++
    "trigger-isa-set;".toList ++
    "reset-uid;reset-sequence;reset-category;reset-extension;".toList ++
    "reset-isa-set".toList

theorem headerline_no_newline : '\n' ∉ headerline := by decide +kernel

/-- A row of a search. -/
structure ResultRow where
  timing : ℤ
  measurement : X86Instruction
  trigger : X86Instruction
  reset : X86Instruction
  deriving DecidableEq

def ResultRow.csvLine (row : ResultRow) : Text :=
  printInt row.timing ++ ';' :: row.measurement.getCSVRepresentation ++
    ';' :: row.trigger.getCSVRepresentation ++ ';' :: row.reset.getCSVRepresentation

/-- A line of an instruction file: the reset bytes and the timing. -/
structure ReportLine where
  reset : Bytes
  timing : ℤ
  deriving DecidableEq

def ReportLine.text (line : ReportLine) : Text :=
  base64Encode line.reset ++ ';' :: printInt line.timing

/-- What the search with equal trigger and measurement writes. -/
inductive SearchOutput where
  | csvRow (row : ResultRow)
  | instructionFile (trigger : X86Instruction) (lines : List ReportLine)
  deriving DecidableEq

/-- The loop over all indices of the instruction list. -/
def CodeGenerator.forEachInstruction {ω τ : Type} (codeGenerator : CodeGenerator)
    (body : X86Instruction → τ → Emission ω Stop τ) : τ → Emission ω Stop τ :=
  Emission.forEach (fun instructionIdx s =>
      (Emission.lift (codeGenerator.createInstructionFromIndex instructionIdx)).bind
        fun instruction => body instruction s)
    (List.range codeGenerator.getNumberOfInstructions)

theorem CodeGenerator.forEachInstruction_eq {ω τ : Type} (codeGenerator : CodeGenerator)
    (body : X86Instruction → τ → Emission ω Stop τ) :
    codeGenerator.forEachInstruction body =
      Emission.forEach body codeGenerator.instructionList := by
  apply Emission.forEach_range
  intro idx hidx s
  rw [CodeGenerator.createInstructionFromIndex_getElem hidx]
  rfl

section Searches
variable {σ : Type} (api : ExecutorApi σ) (codeGenerator : CodeGenerator)
  (executeTriggerOnlyInSpeculation : Bool)

/-- The two tests of a triple; `some` difference when the triple is accepted. Sleeps are executed
once. -/
def testTriple (negativeThreshold positiveThreshold : ℤ) (resetExecutionsAmount : ℕ)
    (measurement trigger reset : X86Instruction) (s : σ) : Except Stop (Option ℤ × σ) := do
  let resetExecutionsAmount := if reset.isSleep then 1 else resetExecutionsAmount
  let (result, s) ← api.testTriggerSequence trigger.byteRepresentation
    measurement.byteRepresentation reset.byteRepresentation executeTriggerOnlyInSpeculation
    iterationsNo resetExecutionsAmount s
  if result.error = 0 ∧ (result.cyclesDifference < negativeThreshold ∨
      result.cyclesDifference > positiveThreshold) then
    let (resetTest, s) ← api.testResetSequence trigger.byteRepresentation
      measurement.byteRepresentation reset.byteRepresentation iterationsNo resetExecutionsAmount s
    if resetTest.error = 0 ∧ -20 < resetTest.cyclesDifference ∧
        resetTest.cyclesDifference < 20 then
      return (some result.cyclesDifference, s)
    else return (none, s)
  else return (none, s)

/-- One triple of the search without assumptions. -/
def searchTriple (thresholdInCycles : ℤ) (measurement trigger reset : X86Instruction) (s : σ) :
    Emission ResultRow Stop σ :=
  (Emission.lift (testTriple api executeTriggerOnlyInSpeculation (-thresholdInCycles)
    thresholdInCycles resetExecutionsAmountWithoutAssumptions measurement trigger reset s)).bind
      fun tested =>
        match tested with
        | (some result, s) => .write [⟨result, measurement, trigger, reset⟩] s
        | (none, s) => .pure s

/-- The rounds of one measurement and one trigger. -/
def searchPair (thresholdInCycles : ℤ) (measurement trigger : X86Instruction) (s : σ) :
    Emission ResultRow Stop σ :=
  if trigger.isSleep then .pure s
  else
    codeGenerator.forEachInstruction
      (searchTriple api executeTriggerOnlyInSpeculation thresholdInCycles measurement trigger) s

def findAndOutputTriggerpairsWithoutAssumptions (thresholdInCycles : ℤ) :
    σ → Emission ResultRow Stop σ :=
  codeGenerator.forEachInstruction fun measurement =>
    codeGenerator.forEachInstruction
      (searchPair api codeGenerator executeTriggerOnlyInSpeculation thresholdInCycles measurement)

/-- One reset instruction of a trigger; the stream collects the lines of its instruction file. -/
def searchReset (negativeThreshold positiveThreshold : ℤ) (trigger reset : X86Instruction)
    (state : σ × List ReportLine) : Emission SearchOutput Stop (σ × List ReportLine) :=
  (Emission.lift (testTriple api executeTriggerOnlyInSpeculation negativeThreshold
    positiveThreshold resetExecutionsAmountTriggerEqualsMeasurement trigger trigger reset
      state.1)).bind fun tested =>
    match tested with
    | (some result, s) =>
      .write [.csvRow ⟨result, trigger, trigger, reset⟩]
        (s, state.2 ++ [⟨reset.byteRepresentation, result⟩])
    | (none, s) => .pure (s, state.2)

def searchTrigger (negativeThreshold positiveThreshold : ℤ) (trigger : X86Instruction) (s : σ) :
    Emission SearchOutput Stop σ :=
  if trigger.isSleep then .pure s
  else
    (codeGenerator.forEachInstruction (searchReset api executeTriggerOnlyInSpeculation
      negativeThreshold positiveThreshold trigger) (s, [])).bind fun state =>
        if state.2 = [] then .pure state.1
        else .write [.instructionFile trigger state.2] state.1

def findAndOutputTriggerpairsWithTriggerEqualsMeasurement
    (negativeThreshold positiveThreshold : ℤ) : σ → Emission SearchOutput Stop σ :=
  codeGenerator.forEachInstruction
    (searchTrigger api codeGenerator executeTriggerOnlyInSpeculation negativeThreshold
      positiveThreshold)

end Searches

/-- The rows of the result file. -/
def csvRows (outputs : List SearchOutput) : List ResultRow :=
  outputs.filterMap fun output =>
    match output with
    | .csvRow row => some row
    | .instructionFile _ _ => none

/-- The text of the result file of a search. -/
def resultFile (rows : List ResultRow) : Text :=
  fileText (headerline :: rows.map ResultRow.csvLine)

end OsirisArm
