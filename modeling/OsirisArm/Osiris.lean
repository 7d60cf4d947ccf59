import OsirisArm.Cleanup
import OsirisArm.CommandLine
import OsirisArm.FilterCommand
import OsirisArm.Pipeline
import OsirisArm.ReportFormatting

/-! # The program

One run of the program does one thing: it confirms the rows of a result file, filters a result file,
cleans the instruction file or searches. If several options ask for different things, the first of
these counts. The paths are those of the working directory.
-/

namespace OsirisArm
open Library

def kInstructionFile : Text := "../arm-Instructions/instructions_arm.b64".toList
def kInstructionFileCleaned : Text := "../arm-Instructions/instructions_arm_cleaned.b64".toList
def kOutputCSVNoAssumptions : Text := "./measure_trigger_pairs.csv".toList
def kOutputCSVTriggerEqualsMeasurement : Text := "./triggerpairs.csv".toList

/-- The files, and the two folders of the search with equal trigger and measurement. -/
structure WorkingDirectory where
  files : Files
  outputFolderTriggerEqualsMeasurement : Folder
  outputFolderFormattedTriggerEqualsMeasurement : Folder

/-- What a run of the program does not decide itself: whether it is started and bound to its CPU,
whether the executor gets its device and its memory, what the page runs do, the order of the
shuffled rows and the order in which the output folder is read. -/
structure Launch where
  started : Bool
  executorConstructed : Bool
  tape : ℕ → PageRun
  shuffle : Shuffle
  directoryOrder : (outputs : List SearchOutput) →
    { entries : List (Text × Text) // Lists (outputFolder outputs) entries }

section
variable (sha256 : Sha256) (disassemble : Bytes → List DisasmInstruction) (launch : Launch)

/-- `ConfirmResultsOfFuzzer` from the opening of its files on. The executor and the instruction list
are created behind the check of the header. -/
def confirmStage (inputFile outputFile : Text) (files : Files) : Files × Except Stop Unit :=
  let written (outputs : List ConfirmOutput) : Files :=
    Function.update (Function.update files outputFile (some (confirmedFile outputs)))
      (cleanedFilename outputFile) (some (cleanedFile outputs))
  if (readLines ((written [] inputFile).getD [])).head? ≠ some headerline then
    (written [], .error (.exit 0))
  else if launch.executorConstructed = false then (written [.header], .error (.exit 1))
  else
    match CodeGenerator.load sha256 (written [.header] kInstructionFileCleaned) with
    | .error stop => (written [.header], .error stop)
    | .ok codeGenerator =>
      let confirmed := confirmFile Executor.api codeGenerator launch.shuffle inputFile outputFile
        files (.start launch.tape)
      (confirmed.1, confirmed.2.map fun _ => ())

/-- The instruction list and the executor of `Core`. -/
def core (instructionsFilename : Text) (files : Files) : Except Stop (CodeGenerator × Executor) :=
  match CodeGenerator.load sha256 (files instructionsFilename) with
  | .error stop => .error stop
  | .ok codeGenerator =>
    if launch.executorConstructed then .ok (codeGenerator, .start launch.tape)
    else .error (.exit 1)

def cleanupStage (files : Files) : Files × Except Stop Unit :=
  match core sha256 launch kInstructionFile files with
  | .error stop => (files, .error stop)
  | .ok (codeGenerator, executor) =>
    let cleaned := outputNonFaultingInstructions Executor.api codeGenerator kInstructionFileCleaned
      executor files
    (cleaned.1, cleaned.2.map fun _ => ())

/-- Of the formatted folder nothing is known if formatting it is undefined. -/
def fuzzingStage (all speculationTrigger : Bool) (directory : WorkingDirectory) :
    WorkingDirectory × Except Stop Unit :=
  match core sha256 launch kInstructionFileCleaned directory.files with
  | .error stop => (directory, .error stop)
  | .ok (codeGenerator, executor) =>
    if all then
      let search := findAndOutputTriggerpairsWithoutAssumptions Executor.api codeGenerator
        speculationTrigger 50 executor
      ({ directory with
        files := Function.update directory.files kOutputCSVNoAssumptions
          (some (resultFile search.written)) }, search.outcome.map fun _ => ())
    else
      let search := findAndOutputTriggerpairsWithTriggerEqualsMeasurement Executor.api codeGenerator
        speculationTrigger (-50) 50 executor
      let searched : WorkingDirectory := { directory with
        files := Function.update directory.files kOutputCSVTriggerEqualsMeasurement
          (some (resultFile (csvRows search.written)))
        outputFolderTriggerEqualsMeasurement := outputFolder search.written }
      match search.outcome with
      | .error stop => (searched, .error stop)
      | .ok _ =>
        match formatTriggerPairOutput disassemble (launch.directoryOrder search.written).1 0
            fun _ => none with
        | .error stop => (searched, .error stop)
        | .ok formatted =>
          ({ searched with outputFolderFormattedTriggerEqualsMeasurement := formatted }, .ok ())

def dispatch (arguments : CommandLineArguments) (directory : WorkingDirectory) :
    WorkingDirectory × Except Stop Unit :=
  if arguments.confirm then
    if arguments.filenameConfirmInput = [] ∨ arguments.filenameConfirmOutput = [] then
      (directory, .error .assertion)
    else
      let confirmed := confirmStage sha256 launch arguments.filenameConfirmInput
        arguments.filenameConfirmOutput directory.files
      ({ directory with files := confirmed.1 }, confirmed.2)
  else if arguments.filter then
    let filtered := filterStage arguments.filenameFilter directory.files
    ({ directory with files := filtered.1 }, filtered.2)
  else if arguments.cleanup then
    let cleaned := cleanupStage sha256 launch directory.files
    ({ directory with files := cleaned.1 }, cleaned.2)
  else
    fuzzingStage sha256 disassemble launch arguments.all arguments.speculationTrigger directory

/-- `main` with the arguments behind the name of the program. -/
def main (argv : List Text) (directory : WorkingDirectory) :
    WorkingDirectory × Except Stop Unit :=
  if launch.started = false then (directory, .error (.exit 1))
  else
    match parseArguments argv with
    | .error stop => (directory, .error stop)
    | .ok arguments => dispatch sha256 disassemble launch arguments directory

end

end OsirisArm
