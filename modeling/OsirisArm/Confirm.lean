import OsirisArm.Core
import OsirisArm.Files
import OsirisArm.Library.Trials

/-! # The confirmation stage

Every row of a result file is tested again with more runs, in random order and with the trigger
executed only transiently. The row is written with its new timing to the output file and, if the
timing is large, to the cleaned file as well.
-/

namespace OsirisArm
open Library

/-- A row as it waits in `inputs`. -/
structure ConfirmInput where
  measurementUid : BitVec 64
  triggerUid : BitVec 64
  resetUid : BitVec 64
  line : Text

/-- The order `std::shuffle` leaves the inputs in. -/
structure Shuffle where
  order : List ConfirmInput → List ConfirmInput
  perm : ∀ inputs, (order inputs).Perm inputs

/-- What goes to the output stream. -/
inductive ConfirmOutput where
  | header
  | row (line : Text) (result : ℤ)

def lineWithoutTiming (line : Text) : Text :=
  if ';' ∈ line then (line.dropWhile (· ≠ ';')).drop 1 else line

def ConfirmOutput.text : ConfirmOutput → Text
  | .header => headerline
  | .row line result => printInt result ++ ';' :: lineWithoutTiming line

/-- What goes to the stream of the cleaned file as well. -/
def ConfirmOutput.cleaned : ConfirmOutput → Bool
  | .header => true
  | .row _ result => 50 < result.natAbs

def confirmInput (line : Text) : Except Stop ConfirmInput := do
  let lineSplitted := splitString line ';'
  assert (lineSplitted.length = 16)
  let measurementUid ← stoll 16 (lineSplitted.getD 1 [])
  let triggerUid ← stoll 16 (lineSplitted.getD 6 [])
  let resetUid ← stoll 16 (lineSplitted.getD 11 [])
  return ⟨measurementUid, triggerUid, resetUid, line⟩

def confirmInputs : List Text → Except Stop (List ConfirmInput)
  | [] => .ok []
  | line :: lines => do
    let input ← confirmInput line
    let inputs ← confirmInputs lines
    return input :: inputs

section Stage
variable {σ : Type} (api : ExecutorApi σ) (codeGenerator : CodeGenerator)

/-- The test of one triple; a faulted run leaves -1. -/
def confirmTriple (measurement trigger reset : X86Instruction) (s : σ) : Except Stop (ℤ × σ) := do
  let resetAmount := if reset.isSleep then 1 else 100
  let (result, s) ← api.testTriggerSequence trigger.byteRepresentation
    measurement.byteRepresentation reset.byteRepresentation true 200 resetAmount s
  return (result.cyclesDifference, s)

/-- The measurement, the trigger and the reset instruction of an input. -/
def ConfirmInput.instructions (codeGenerator : CodeGenerator) (input : ConfirmInput) :
    Except Stop (X86Instruction × X86Instruction × X86Instruction) := do
  let measurement ← codeGenerator.createInstructionFromUID input.measurementUid
  let trigger ← codeGenerator.createInstructionFromUID input.triggerUid
  let reset ← codeGenerator.createInstructionFromUID input.resetUid
  return (measurement, trigger, reset)

/-- One round of the loop; a row with a sleep as trigger or measurement is skipped. -/
def confirmRound (input : ConfirmInput) (s : σ) : Emission ConfirmOutput Stop σ :=
  (Emission.lift (input.instructions codeGenerator)).bind fun (measurement, trigger, reset) =>
    if trigger.isSleep || measurement.isSleep then .pure s
    else
      (Emission.lift (confirmTriple api measurement trigger reset s)).bind fun tested =>
        .write [.row input.line tested.1] tested.2

def confirmResultsOfFuzzer (shuffle : Shuffle) (inputLines : List Text) (s : σ) :
    Emission ConfirmOutput Stop σ :=
  match inputLines with
  | [] => .lift (.error (.exit 0))
  | header :: lines =>
    if header ≠ headerline then .lift (.error (.exit 0))
    else
      (Emission.write [.header] ()).bind fun _ =>
        (Emission.lift (confirmInputs lines)).bind fun inputs =>
          Emission.forEach (confirmRound api codeGenerator) (shuffle.order inputs) s

end Stage

/-- The text of the output file. -/
def confirmedFile (outputs : List ConfirmOutput) : Text :=
  fileText (outputs.map ConfirmOutput.text)

/-- The text of the cleaned file. -/
def cleanedFile (outputs : List ConfirmOutput) : Text :=
  fileText ((outputs.filter ConfirmOutput.cleaned).map ConfirmOutput.text)

def cleanedFilename (outputFile : Text) : Text :=
  cutFileEnding outputFile ++ "_cleaned.csv".toList

/-- The stage on files: both output files are created before the first line is read. -/
def confirmFile {σ : Type} (api : ExecutorApi σ) (codeGenerator : CodeGenerator)
    (shuffle : Shuffle) (inputFile outputFile : Text) (files : Files) (s : σ) :
    Files × Except Stop σ :=
  let files := Function.update (Function.update files outputFile (some []))
    (cleanedFilename outputFile) (some [])
  let confirmed := confirmResultsOfFuzzer api codeGenerator shuffle
    (readLines ((files inputFile).getD [])) s
  (Function.update (Function.update files outputFile (some (confirmedFile confirmed.written)))
    (cleanedFilename outputFile) (some (cleanedFile confirmed.written)), confirmed.outcome)

theorem cleanedFilename_ne (outputFile : Text) : cleanedFilename outputFile ≠ outputFile :=
  append_ne_filename (by decide)

/-- A stage whose input is none of its outputs reads the input as it was. -/
theorem confirmFile_eq {σ : Type} {api : ExecutorApi σ} {codeGenerator : CodeGenerator}
    {shuffle : Shuffle} {inputFile outputFile content : Text} {files : Files} {s : σ}
    (hcontent : files inputFile = some content) (hcleaned : inputFile ≠ cleanedFilename outputFile)
    (houtput : inputFile ≠ outputFile) :
    let confirmed := confirmResultsOfFuzzer api codeGenerator shuffle (readLines content) s
    let after := confirmFile api codeGenerator shuffle inputFile outputFile files s
    after.1 outputFile = some (confirmedFile confirmed.written) ∧
      after.1 (cleanedFilename outputFile) = some (cleanedFile confirmed.written) ∧
        after.2 = confirmed.outcome := by
  intro confirmed after
  have hread : (Function.update (Function.update files outputFile (some []))
      (cleanedFilename outputFile) (some [])) inputFile = some content := by
    rw [Function.update_of_ne hcleaned, Function.update_of_ne houtput, hcontent]
  simp only [after, confirmed, confirmFile, hread, Option.getD_some]
  refine ⟨?_, ?_, trivial⟩
  · rw [Function.update_of_ne (cleanedFilename_ne outputFile).symm, Function.update_self]
  · rw [Function.update_self]

end OsirisArm
