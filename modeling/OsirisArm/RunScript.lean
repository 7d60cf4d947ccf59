import OsirisArm.ExhaustiveSearch
import OsirisArm.FilterMerging
import OsirisArm.Osiris
import Mathlib.Data.List.Induction

/-! # The script

The script cleans the instruction file, searches, confirms the results twice and filters what is
left, each with a run of the program of its own and whatever the runs before returned. Between the
runs there are only files.
-/

namespace OsirisArm
open Library Library.Emission

structure RunArguments where
  all : Bool := false
  speculation : Bool := false
  filterCache : Bool := false

def RunArguments.take (arguments : RunArguments) (word : Text) : RunArguments :=
  if word = "--all".toList then { arguments with all := true }
  else if word = "--speculation".toList then { arguments with speculation := true }
  else if word = "--filter-cache".toList then { arguments with filterCache := true }
  else arguments

/-- A CPU number and up to three options; further words are not read. -/
def parseRunArguments : List Text → Except Stop RunArguments
  | [] => .error (.exit 1)
  | cpuNo :: words =>
    if cpuNo = [] then .error (.exit 1)
    else if cpuNo.all Char.isDigit then .ok ((words.take 3).foldl RunArguments.take {})
    else .error (.exit 1)

namespace RunArguments
variable (arguments : RunArguments)

def outputBaseFilename : Text :=
  if arguments.all then "measure_trigger_pairs".toList else "triggerpairs".toList

/-- A file of the working directory whose name begins with that of the results. -/
def output (ending : String) : Text :=
  "./".toList ++ arguments.outputBaseFilename ++ ending.toList

def searchCommand : List Text :=
  (if arguments.all then ["--all".toList] else []) ++
    if arguments.speculation then ["--speculation".toList] else []

/-- The argument lists in the order of the runs. -/
def commands : List (List Text) :=
  [["--cleanup".toList], arguments.searchCommand] ++
    (if arguments.filterCache then
      [["--filter".toList, arguments.output ".csv"],
        ["--confirm".toList, arguments.output "_nocache.csv",
          arguments.output "_confirmed_iter1.csv"]]
    else
      [["--confirm".toList, arguments.output ".csv", arguments.output "_confirmed_iter1.csv"]]) ++
    [["--confirm".toList, arguments.output "_confirmed_iter1_cleaned.csv",
        arguments.output "_confirmed_iter2.csv"],
      ["--filter".toList, arguments.output "_confirmed_iter2_cleaned.csv"]]

end RunArguments

/-- The two numbers the script prints at its end. -/
structure Printed where
  beforeConfirmation : ℤ
  afterConfirmation : ℤ
  deriving DecidableEq

/-- `wc -l` counts line feeds; without the file there is nothing to count. -/
def lineCount (file : Option Text) : ℤ := ((file.getD []).count '\n' : ℕ)

section
variable (sha256 : Sha256) (disassemble : Bytes → List DisasmInstruction)

/-- The runs one after the other, each with its own circumstances. -/
def runCommands : List (List Text) → (ℕ → Launch) → WorkingDirectory → WorkingDirectory
  | [], _, directory => directory
  | argv :: commands, launches, directory =>
    runCommands commands (fun i => launches (i + 1))
      (main sha256 disassemble (launches 0) argv directory).1

def runScript (argv : List Text) (launches : ℕ → Launch) (directory : WorkingDirectory) :
    Except Stop (WorkingDirectory × Printed) := do
  let arguments ← parseRunArguments argv
  let after := runCommands sha256 disassemble arguments.commands launches directory
  return (after, ⟨lineCount (after.files (arguments.output ".csv")) - 1,
    lineCount (after.files (arguments.output "_confirmed_iter2_cleaned.csv")) - 1⟩)

end

/-- The cache filter on the instructions of a row. -/
def ResultRow.hasCacheSequence (row : ResultRow) : Bool :=
  isCacheSequence row.measurement.assemblyCode || isCacheSequence row.trigger.assemblyCode ||
    isCacheSequence row.reset.assemblyCode

/-- The lines are rows of the search, each of them at most as often. -/
structure DerivedFrom (rows : List ResultRow) (parsed : List ParsedLine) : Prop where
  rowLine : ∀ p ∈ parsed, ∃ row ∈ rows, RowLine row p.line
  subperm : (parsed.map fun p => lineWithoutTiming p.line).Subperm
    (rows.map fun row => lineWithoutTiming row.csvLine)

/-- The rows of a search as the stages need them. -/
structure TestedRows (codeGenerator : CodeGenerator) (rows : List ResultRow) : Prop where
  rowOf : ∀ row ∈ rows, RowOf codeGenerator row
  timing : ∀ row ∈ rows, -5000 ≤ row.timing ∧ row.timing ≤ 5000

section
variable {codeGenerator : CodeGenerator} {rows : List ResultRow} {parsed : List ParsedLine}

theorem TestedRows.filter (h : TestedRows codeGenerator rows) (p : ResultRow → Bool) :
    TestedRows codeGenerator (rows.filter p) :=
  ⟨fun row hrow => h.rowOf row (List.mem_of_mem_filter hrow),
    fun row hrow => h.timing row (List.mem_of_mem_filter hrow)⟩

theorem TestedRows.rowLine (h : TestedRows codeGenerator rows) :
    ∀ row ∈ rows, RowLine row row.csvLine :=
  fun row hrow => (h.rowOf row hrow).rowLine (h.timing row hrow)

theorem TestedRows.exists_parsed (h : TestedRows codeGenerator rows) {lines : List Text}
    (hlines : ∀ line ∈ lines, ∃ row ∈ rows, RowLine row line) :
    ∃ parsed : List ParsedLine, parsed.map ParsedLine.line = lines := by
  refine ⟨lines.filterMap parsedLine, map_line_filterMap fun line hline => ?_⟩
  obtain ⟨row, hrow, hformat⟩ := hlines line hline
  obtain ⟨timing, hdata⟩ := (hformat.readAs (h.rowOf row hrow)).data
  exact ⟨⟨line, _, hdata, hformat.noNewline⟩, parsedLine_line ⟨line, _, hdata, hformat.noNewline⟩,
    rfl⟩

theorem derivedFrom_of_lines (h : TestedRows codeGenerator rows)
    (hlines : parsed.map ParsedLine.line = rows.map ResultRow.csvLine) :
    DerivedFrom rows parsed := by
  constructor
  · intro p hp
    obtain ⟨row, hrow, hline⟩ := List.mem_map.1 (hlines ▸ List.mem_map_of_mem hp)
    exact ⟨row, hrow, hline ▸ h.rowLine row hrow⟩
  · have hmap := congrArg (List.map lineWithoutTiming) hlines
    rw [List.map_map, List.map_map] at hmap
    exact List.Perm.subperm (.of_eq hmap)

theorem TestedRows.resultFile_parsed (h : TestedRows codeGenerator rows) :
    ∃ parsed : List ParsedLine, resultFile rows = fileText (resultLines parsed) ∧
      parsed.map ParsedLine.line = rows.map ResultRow.csvLine := by
  have hlines : ∀ line ∈ rows.map ResultRow.csvLine, ∃ row ∈ rows, RowLine row line := by
    intro line hline
    obtain ⟨row, hrow, rfl⟩ := List.mem_map.1 hline
    exact ⟨row, hrow, h.rowLine row hrow⟩
  obtain ⟨parsed, hparsed⟩ := h.exists_parsed hlines
  exact ⟨parsed, by rw [resultFile, resultLines, hparsed], hparsed⟩

theorem timing_of_confirmed {line : Text} {result : ℤ} {data : ResultLineData}
    (hresult : -5000 ≤ result ∧ result ≤ 5000)
    (hdata : resultLineData (ConfirmOutput.row line result).text = .ok data) :
    data.timing = result := by
  obtain ⟨-, htiming⟩ := resultLineData_ok hdata
  have hfirst : (splitString (ConfirmOutput.row line result).text ';').getD 0 [] =
      printInt result := by
    rw [ConfirmOutput.text, splitString_timing_append (printInt_no_delimiter result).1]
    rfl
  have hrange : intMin ≤ result ∧ result ≤ intMax := by
    unfold intMin intMax
    omega
  rw [hfirst, stoi_printInt hrange] at htiming
  exact (Except.ok.inj htiming).symm

/-- A confirmation round keeps rows of the search that have a large timing. -/
theorem DerivedFrom.confirmed (h : DerivedFrom rows parsed) (hrows : TestedRows codeGenerator rows)
    (confirming : CodeGenerator) (shuffle : Shuffle) (executor : Executor) :
    ∃ confirmed : List ParsedLine, cleanedFile (confirmResultsOfFuzzer Executor.api confirming
        shuffle (readLines (fileText (resultLines parsed))) executor).written =
          fileText (resultLines confirmed) ∧
      DerivedFrom rows confirmed ∧ ∀ p ∈ confirmed, 50 < p.weight := by
  have hcontent := readLines_resultLines parsed
  have hwellFormed : WellFormed rows (fileText (resultLines parsed)) := by
    refine ⟨_, hcontent, fun line hline => ?_⟩
    obtain ⟨p, hp, rfl⟩ := List.mem_map.1 hline
    exact h.rowLine p hp
  obtain ⟨outputs, hwritten, hformat⟩ := hwellFormed.confirm confirming shuffle executor
  have hlines : ∀ line ∈ (outputs.filter ConfirmOutput.cleaned).map ConfirmOutput.text,
      ∃ row ∈ rows, RowLine row line := by
    intro line hline
    obtain ⟨output, houtput, rfl⟩ := List.mem_map.1 hline
    exact hformat output (List.mem_of_mem_filter houtput)
  obtain ⟨confirmed, hconfirmed⟩ := hrows.exists_parsed hlines
  have htext : cleanedFile (confirmResultsOfFuzzer Executor.api confirming shuffle
      (readLines (fileText (resultLines parsed))) executor).written =
        fileText (resultLines confirmed) := by
    rw [hwritten, cleanedFile, List.filter_cons_of_pos rfl, List.map_cons, resultLines, hconfirmed]
    rfl
  refine ⟨confirmed, htext, ⟨?_, ?_⟩, ?_⟩
  · intro p hp
    obtain ⟨output, houtput, hline⟩ := List.mem_map.1 (hconfirmed ▸ List.mem_map_of_mem hp)
    exact hline ▸ hformat output (List.mem_of_mem_filter houtput)
  · have hsubperm := rowsWithoutTiming_cleaned Executor.api confirming shuffle
      (fileText (resultLines parsed)) executor
    rw [htext, rowsWithoutTiming, rowsWithoutTiming, hcontent, readLines_resultLines, resultLines,
      resultLines, List.tail_cons, List.tail_cons, List.map_map, List.map_map] at hsubperm
    exact hsubperm.trans h.subperm
  · intro p hp
    obtain ⟨output, houtput, hline⟩ := List.mem_map.1 (hconfirmed ▸ List.mem_map_of_mem hp)
    rcases confirmResultsOfFuzzer_subperm Executor.api confirming shuffle
      (readLines (fileText (resultLines parsed))) executor with hempty | ⟨outputs', hwritten',
        houtputs, -⟩
    · rw [hwritten] at hempty
      cases hempty
    · obtain rfl : outputs = outputs' := (List.cons.inj (hwritten.symm.trans hwritten')).2
      obtain ⟨line, -, result, hresult, rfl⟩ := houtputs output (List.mem_of_mem_filter houtput)
      have hdata := p.parsed
      rw [← hline] at hdata
      rw [ParsedLine.weight, timing_of_confirmed hresult.range hdata]
      simpa [ConfirmOutput.cleaned] using (List.mem_filter.1 houtput).2

theorem RowLine.hasCacheSequence {row : ResultRow} {line : Text} {data : ResultLineData}
    (h : RowLine row line) (hrow : RowOf codeGenerator row)
    (hdata : resultLineData line = .ok data) :
    filterFunctionRemoveAllCacheSequences data = row.hasCacheSequence := by
  obtain ⟨timing, hread⟩ := (h.readAs hrow).data
  rw [hdata] at hread
  cases hread
  rfl

/-- Lists with the same images have the same images behind filters that agree on these. -/
theorem map_filter_congr {α β γ : Type} {f : α → γ} {g : β → γ} {p : α → Bool} {q : β → Bool}
    {l : List α} {l' : List β} (h : l.map f = l'.map g)
    (hpq : ∀ a ∈ l, ∀ b ∈ l', f a = g b → p a = q b) :
    (l.filter p).map f = (l'.filter q).map g := by
  induction l generalizing l' with
  | nil =>
    rw [List.map_nil, eq_comm, List.map_eq_nil_iff] at h
    rw [h]
    rfl
  | cons a l ih =>
    cases l' with
    | nil => cases h
    | cons b l' =>
      obtain ⟨hab, hrest⟩ := List.cons.inj h
      have htail := ih hrest fun a ha b hb =>
        hpq a (List.mem_cons_of_mem _ ha) b (List.mem_cons_of_mem _ hb)
      rw [List.filter_cons, List.filter_cons,
        hpq a List.mem_cons_self b List.mem_cons_self hab]
      cases q b
      · exact htail
      · simpa [hab] using htail

/-- The rows of the result file without cache instructions are those of the search. -/
theorem TestedRows.derivedFrom_withoutCache (h : TestedRows codeGenerator rows)
    (hlines : parsed.map ParsedLine.line = rows.map ResultRow.csvLine) :
    DerivedFrom (rows.filter fun row => !row.hasCacheSequence) (withoutCache parsed) := by
  refine derivedFrom_of_lines (h.filter _) (map_filter_congr hlines fun p _ row hrow hline => ?_)
  have hdata := p.parsed
  rw [hline] at hdata
  rw [(h.rowLine row hrow).hasCacheSequence (h.rowOf row hrow) hdata]

theorem derivedFrom_nil (rows : List ResultRow) : DerivedFrom rows [] :=
  ⟨fun _ hp => absurd hp List.not_mem_nil, List.nil_subperm⟩

/-- Derived rows can be filtered, if there are not too many rows. -/
theorem DerivedFrom.countable (h : DerivedFrom rows parsed) (hcount : rows.length < 2 ^ 31) :
    Countable parsed := by
  constructor
  · have hlength := h.subperm.length_le
    rw [List.length_map, List.length_map] at hlength
    omega
  · intro p hp
    obtain ⟨row, -, hformat⟩ := h.rowLine p hp
    have htiming := hformat.timing_range p.parsed
    rw [intMin]
    omega

end

section
variable {sha256 : Sha256} {launch : Launch} {inputFile outputFile file : Text} {files : Files}

theorem confirmStage_other (houtput : file ≠ outputFile)
    (hcleaned : file ≠ cleanedFilename outputFile) :
    (confirmStage sha256 launch inputFile outputFile files).1 file = files file := by
  simp only [confirmStage]
  split
  · simp [houtput, hcleaned]
  split
  · simp [houtput, hcleaned]
  split
  · simp [houtput, hcleaned]
  · simp [houtput, hcleaned, confirmFile]

/-- The cleaned file of a confirmation, however it ends. -/
theorem confirmStage_cleaned (sha256 : Sha256) (launch : Launch) {codeGenerator : CodeGenerator}
    {rows : List ResultRow} {parsed : List ParsedLine} (h : DerivedFrom rows parsed)
    (hrows : TestedRows codeGenerator rows)
    (hinput : files inputFile = some (fileText (resultLines parsed)))
    (houtput : inputFile ≠ outputFile) (hcleaned : inputFile ≠ cleanedFilename outputFile) :
    ∃ confirmed : List ParsedLine,
      (confirmStage sha256 launch inputFile outputFile files).1 (cleanedFilename outputFile) =
        some (fileText (resultLines confirmed)) ∧
      DerivedFrom rows confirmed ∧ ∀ p ∈ confirmed, 50 < p.weight := by
  -- what is left if the stage ends behind the header
  have hnone : ∀ p ∈ ([] : List ParsedLine), 50 < p.weight := fun _ hp =>
    absurd hp List.not_mem_nil
  simp only [confirmStage]
  split
  · next hheader =>
    rw [Function.update_of_ne hcleaned, Function.update_of_ne houtput, hinput, Option.getD_some,
      readLines_resultLines] at hheader
    exact absurd rfl hheader
  split
  · exact ⟨[], Function.update_self .., derivedFrom_nil rows, hnone⟩
  split
  · exact ⟨[], Function.update_self .., derivedFrom_nil rows, hnone⟩
  · next confirming _ =>
    obtain ⟨confirmed, htext, hconfirmed⟩ :=
      h.confirmed hrows confirming launch.shuffle (.start launch.tape)
    refine ⟨confirmed, ?_, hconfirmed⟩
    rw [(confirmFile_eq hinput hcleaned houtput).2.1, htext]

theorem applyFiltersOnFile_other {inputFilename outputFilename : Text}
    {resultFilter : ResultFilter} (h : file ≠ outputFilename) :
    (applyFiltersOnFile inputFilename outputFilename resultFilter files).1 file = files file := by
  unfold applyFiltersOnFile
  split
  · rfl
  · simp [h]

/-- The second and the third stage of a filter run have files of their own. -/
theorem filterStage_first (hname : inputFile ≠ [])
    (hsecond : file ≠ cutFileEnding inputFile ++ "_nocache_filtered_by_all.csv".toList)
    (hthird : file ≠ filteredFilename inputFile) :
    (filterStage inputFile files).1 file =
      (applyFiltersOnFile inputFile (cutFileEnding inputFile ++ "_nocache.csv".toList)
        (ResultFilter.fresh.enableFilter .removeAllCacheSequences) files).1 file := by
  simp only [filterStage, if_neg hname]
  split
  · next hrun => rw [hrun]
  · next files1 after1 hrun =>
    rw [hrun]
    have hfile1 : (applyFiltersOnFile (cutFileEnding inputFile ++ "_nocache.csv".toList)
        (cutFileEnding inputFile ++ "_nocache_filtered_by_all.csv".toList)
          (after1.clearAllFilters.enableFilter .uniquePropertyTuples) files1).1 file =
            files1 file := applyFiltersOnFile_other hsecond
    split
    · next hrun2 => rwa [hrun2] at hfile1
    · next files2 after2 hrun2 =>
      rw [hrun2] at hfile1
      have hfile2 : (applyFiltersOnFile
          (cutFileEnding inputFile ++ "_nocache_filtered_by_all.csv".toList)
          (filteredFilename inputFile)
            (after2.clearAllFilters.enableFilter .measurementTriggerExtensionPairs) files2).1 file =
              files2 file := applyFiltersOnFile_other hthird
      rw [filteredFilename] at hfile2
      split
      · next hrun3 =>
        rw [hrun3] at hfile2
        exact hfile2.trans hfile1
      · next hrun3 =>
        rw [hrun3] at hfile2
        exact hfile2.trans hfile1

theorem filterStage_other (hname : inputFile ≠ [])
    (hfirst : file ≠ cutFileEnding inputFile ++ "_nocache.csv".toList)
    (hsecond : file ≠ cutFileEnding inputFile ++ "_nocache_filtered_by_all.csv".toList)
    (hthird : file ≠ filteredFilename inputFile) :
    (filterStage inputFile files).1 file = files file := by
  rw [filterStage_first hname hsecond hthird, applyFiltersOnFile_other hfirst]

/-- The first file of a filter run has the rows without cache instructions. -/
theorem filterStage_nocache {parsed : List ParsedLine} (hname : inputFile ≠ [])
    (hinput : files inputFile = some (fileText (resultLines parsed))) (hparsed : Countable parsed) :
    (filterStage inputFile files).1 (cutFileEnding inputFile ++ "_nocache.csv".toList) =
      some (fileText (resultLines (withoutCache parsed))) := by
  have hsecond : cutFileEnding inputFile ++ "_nocache.csv".toList ≠
      cutFileEnding inputFile ++ "_nocache_filtered_by_all.csv".toList :=
    fun h => absurd (List.append_cancel_left h) (by decide)
  have hthird : cutFileEnding inputFile ++ "_nocache.csv".toList ≠ filteredFilename inputFile :=
    fun h => absurd (List.append_cancel_left h) (by decide)
  have hfirst : inputFile ≠ cutFileEnding inputFile ++ "_nocache.csv".toList :=
    (append_ne_filename (by decide)).symm
  obtain ⟨after, hrun, -⟩ := applyFiltersOnFile_stage hfirst hinput
    (readLines_resultLines parsed) hparsed
    (ResultFilter.activeFilters_enable_fresh .removeAllCacheSequences) (fun κ hκ => by cases hκ)
  rw [filterStage_first hname hsecond hthird, hrun, ← stageRows_removeAllCacheSequences]
  exact Function.update_self ..

end

section
variable {sha256 : Sha256} {disassemble : Bytes → List DisasmInstruction} {launch : Launch}
  {directory : WorkingDirectory}

theorem main_confirm (hstarted : launch.started = true) (arguments : RunArguments)
    (ending ending' : String) :
    (main sha256 disassemble launch ["--confirm".toList, arguments.output ending,
      arguments.output ending'] directory).1 = { directory with
        files := (confirmStage sha256 launch (arguments.output ending) (arguments.output ending')
          directory.files).1 } := by
  have harguments : parseArguments ["--confirm".toList, arguments.output ending,
      arguments.output ending'] = .ok { ({} : CommandLineArguments) with
        confirm := true
        filenameConfirmInput := arguments.output ending
        filenameConfirmOutput := arguments.output ending' } := rfl
  rw [main, hstarted, harguments]
  rfl

theorem main_filter (hstarted : launch.started = true) (arguments : RunArguments)
    (ending : String) :
    (main sha256 disassemble launch ["--filter".toList, arguments.output ending] directory).1 =
      { directory with files := (filterStage (arguments.output ending) directory.files).1 } := by
  have harguments : parseArguments ["--filter".toList, arguments.output ending] =
      .ok { ({} : CommandLineArguments) with
        filter := true
        filenameFilter := arguments.output ending } := rfl
  rw [main, hstarted, harguments]
  rfl

def RunArguments.search (arguments : RunArguments) : Search :=
  if arguments.all then .withoutAssumptions 50 else .triggerEqualsMeasurement (-50) 50

/-- The search writes its rows, however it ends. -/
theorem fuzzingStage_files (arguments : RunArguments) {codeGenerator : CodeGenerator}
    {executor : Executor} (hcore : core sha256 launch kInstructionFileCleaned directory.files =
      .ok (codeGenerator, executor)) :
    (fuzzingStage sha256 disassemble launch arguments.all arguments.speculation directory).1.files =
      Function.update directory.files (arguments.output ".csv") (some (resultFile
        (arguments.search.rows Executor.api codeGenerator arguments.speculation executor))) := by
  obtain ⟨all, speculation, filterCache⟩ := arguments
  cases all with
  | true =>
    simp only [fuzzingStage, hcore]
    rfl
  | false =>
    simp only [fuzzingStage, hcore, Bool.false_eq_true, if_false]
    split
    · rfl
    · split <;> rfl

theorem main_search (hstarted : launch.started = true) (arguments : RunArguments) :
    (main sha256 disassemble launch arguments.searchCommand directory).1 =
      (fuzzingStage sha256 disassemble launch arguments.all arguments.speculation directory).1 := by
  have harguments : parseArguments arguments.searchCommand =
      .ok { ({} : CommandLineArguments) with
        all := arguments.all
        speculationTrigger := arguments.speculation } := by
    obtain ⟨all, speculation, filterCache⟩ := arguments
    cases all <;> cases speculation <;> rfl
  rw [main, hstarted, harguments]
  rfl

end

namespace RunArguments
variable (arguments : RunArguments)

theorem output_ne {ending ending' : String} (h : ending.toList ≠ ending'.toList) :
    arguments.output ending ≠ arguments.output ending' :=
  fun heq => h (List.append_cancel_left heq)

theorem output_ne_nil (ending : String) : arguments.output ending ≠ [] := List.cons_ne_nil _ _

theorem cleanedFilename_first : cleanedFilename (arguments.output "_confirmed_iter1.csv") =
    arguments.output "_confirmed_iter1_cleaned.csv" := by
  obtain ⟨all, speculation, filterCache⟩ := arguments
  cases all <;> rfl

theorem cleanedFilename_second : cleanedFilename (arguments.output "_confirmed_iter2.csv") =
    arguments.output "_confirmed_iter2_cleaned.csv" := by
  obtain ⟨all, speculation, filterCache⟩ := arguments
  cases all <;> rfl

theorem cutFileEnding_results (ending : String) :
    cutFileEnding (arguments.output ".csv") ++ ending.toList = arguments.output ending := by
  obtain ⟨all, speculation, filterCache⟩ := arguments
  cases all <;> rfl

theorem cutFileEnding_confirmed (rest : Text) :
    cutFileEnding (arguments.output "_confirmed_iter2_cleaned.csv") ++ rest =
      "./".toList ++ arguments.outputBaseFilename ++
        ("_confirmed_iter2_cleaned".toList ++ rest) := by
  obtain ⟨all, speculation, filterCache⟩ := arguments
  cases all <;> rfl

/-- The files of the last filter run are none of those before. -/
theorem ne_cutFileEnding_confirmed {ending : String} {rest : Text}
    (h : ending.toList ≠ "_confirmed_iter2_cleaned".toList ++ rest) :
    arguments.output ending ≠
      cutFileEnding (arguments.output "_confirmed_iter2_cleaned.csv") ++ rest := by
  rw [arguments.cutFileEnding_confirmed]
  exact fun heq => h (List.append_cancel_left heq)

end RunArguments

section
variable (sha256 : Sha256) (disassemble : Bytes → List DisasmInstruction)
  {launches : ℕ → Launch} {directory : WorkingDirectory} {codeGenerator : CodeGenerator}
  {rows : List ResultRow} {parsed : List ParsedLine}

/-- What the confirmations and the last filter run leave of rows that are read from one of the files
before. -/
theorem runCommands_confirmations (arguments : RunArguments)
    (hstarted : ∀ i, (launches i).started = true) (hderived : DerivedFrom rows parsed)
    (hrows : TestedRows codeGenerator rows) (hcount : rows.length < 2 ^ 31) {ending : String}
    (hending : ending = ".csv" ∨ ending = "_nocache.csv")
    (hinput : directory.files (arguments.output ending) = some (fileText (resultLines parsed))) :
    let after := runCommands sha256 disassemble
      [["--confirm".toList, arguments.output ending, arguments.output "_confirmed_iter1.csv"],
        ["--confirm".toList, arguments.output "_confirmed_iter1_cleaned.csv",
          arguments.output "_confirmed_iter2.csv"],
        ["--filter".toList, arguments.output "_confirmed_iter2_cleaned.csv"]] launches directory
    after.files (arguments.output ".csv") = directory.files (arguments.output ".csv") ∧
      ∃ confirmed : List ParsedLine, DerivedFrom rows confirmed ∧
        (∀ p ∈ confirmed, 50 < p.weight) ∧
        after.files (arguments.output "_confirmed_iter2_cleaned.csv") =
          some (fileText (resultLines confirmed)) ∧
        after.files (filteredFilename (arguments.output "_confirmed_iter2_cleaned.csv")) =
          some (fileText (resultLines (stagedRows confirmed))) := by
  intro after
  let files1 := (confirmStage sha256 (launches 0) (arguments.output ending)
    (arguments.output "_confirmed_iter1.csv") directory.files).1
  let files2 := (confirmStage sha256 (launches 1) (arguments.output "_confirmed_iter1_cleaned.csv")
    (arguments.output "_confirmed_iter2.csv") files1).1
  have hafter : after.files =
      (filterStage (arguments.output "_confirmed_iter2_cleaned.csv") files2).1 := by
    simp only [after, runCommands]
    rw [main_confirm (hstarted 0), main_confirm (hstarted 1), main_filter (hstarted 2)]
  have hfiles1 {ending' : String} (h : ending'.toList ≠ "_confirmed_iter1.csv".toList ∧
      ending'.toList ≠ "_confirmed_iter1_cleaned.csv".toList) :
      files1 (arguments.output ending') = directory.files (arguments.output ending') := by
    refine confirmStage_other (arguments.output_ne h.1) ?_
    rw [arguments.cleanedFilename_first]
    exact arguments.output_ne h.2
  have hfiles2 {ending' : String} (h : ending'.toList ≠ "_confirmed_iter2.csv".toList ∧
      ending'.toList ≠ "_confirmed_iter2_cleaned.csv".toList) :
      files2 (arguments.output ending') = files1 (arguments.output ending') := by
    refine confirmStage_other (arguments.output_ne h.1) ?_
    rw [arguments.cleanedFilename_second]
    exact arguments.output_ne h.2
  -- the last filter run leaves the result file and its own input
  have hfilter {ending' : String} (h : ending' = ".csv" ∨
      ending' = "_confirmed_iter2_cleaned.csv") :
      after.files (arguments.output ending') = files2 (arguments.output ending') := by
    rw [hafter]
    refine filterStage_other (arguments.output_ne_nil _) ?_ ?_ ?_
    all_goals
      apply arguments.ne_cutFileEnding_confirmed
      rcases h with rfl | rfl <;> decide
  -- the first confirmation reads the given file, the second its cleaned rows
  have houtput1 : arguments.output ending ≠ arguments.output "_confirmed_iter1.csv" :=
    arguments.output_ne (by rcases hending with rfl | rfl <;> decide)
  have hcleaned1 : arguments.output ending ≠
      cleanedFilename (arguments.output "_confirmed_iter1.csv") := by
    rw [arguments.cleanedFilename_first]
    exact arguments.output_ne (by rcases hending with rfl | rfl <;> decide)
  obtain ⟨confirmed1, hfile1, hderived1, -⟩ := confirmStage_cleaned sha256 (launches 0) hderived
    hrows hinput houtput1 hcleaned1
  rw [arguments.cleanedFilename_first] at hfile1
  have houtput2 : arguments.output "_confirmed_iter1_cleaned.csv" ≠
      arguments.output "_confirmed_iter2.csv" := arguments.output_ne (by decide)
  have hcleaned2 : arguments.output "_confirmed_iter1_cleaned.csv" ≠
      cleanedFilename (arguments.output "_confirmed_iter2.csv") := by
    rw [arguments.cleanedFilename_second]
    exact arguments.output_ne (by decide)
  obtain ⟨confirmed2, hfile2, hderived2, hlarge⟩ := confirmStage_cleaned sha256 (launches 1)
    hderived1 hrows hfile1 houtput2 hcleaned2
  rw [arguments.cleanedFilename_second] at hfile2
  refine ⟨?_, confirmed2, hderived2, hlarge, ?_, ?_⟩
  · rw [hfilter (.inl rfl), hfiles2 (by decide), hfiles1 (by decide)]
  · rw [hfilter (.inr rfl)]
    exact hfile2
  · obtain ⟨files3, hrun⟩ := filterStage_run (arguments.output_ne_nil _) hfile2
      (readLines_resultLines _) (hderived2.countable hcount)
    rw [hafter, hrun]
    exact Function.update_self ..

theorem lineCount_fileText {lines : List Text} (h : ∀ line ∈ lines, '\n' ∉ line) :
    lineCount (some (fileText lines)) = lines.length := by
  rw [lineCount, Option.getD_some]
  norm_cast
  induction lines with
  | nil => rfl
  | cons line lines ih =>
    have hline : line.count '\n' = 0 := List.count_eq_zero.2 (h line List.mem_cons_self)
    rw [fileText_cons, List.count_append, hline, List.count_cons_self,
      ih fun l hl => h l (List.mem_cons_of_mem line hl), List.length_cons, Nat.zero_add]

theorem lineCount_header {α : Type} {rows : List α} {text : α → Text}
    (h : ∀ line ∈ rows.map text, '\n' ∉ line) :
    lineCount (some (fileText (headerline :: rows.map text))) - 1 = rows.length := by
  rw [lineCount_fileText (List.forall_mem_cons.2 ⟨headerline_no_newline, h⟩), List.length_cons,
    List.length_map]
  omega

def RunArguments.candidates (arguments : RunArguments) (rows : List ResultRow) : List ResultRow :=
  if arguments.filterCache then rows.filter fun row => !row.hasCacheSequence else rows

theorem runCommands_searched (arguments : RunArguments)
    (hstarted : ∀ i, (launches i).started = true) (hrows : TestedRows codeGenerator rows)
    (hcount : rows.length < 2 ^ 31)
    (hresults : directory.files (arguments.output ".csv") = some (resultFile rows)) :
    let after := runCommands sha256 disassemble (arguments.commands.drop 2) launches directory
    after.files (arguments.output ".csv") = some (resultFile rows) ∧
      ∃ confirmed : List ParsedLine, DerivedFrom (arguments.candidates rows) confirmed ∧
        (∀ p ∈ confirmed, 50 < p.weight) ∧
        after.files (arguments.output "_confirmed_iter2_cleaned.csv") =
          some (fileText (resultLines confirmed)) ∧
        after.files (filteredFilename (arguments.output "_confirmed_iter2_cleaned.csv")) =
          some (fileText (resultLines (stagedRows confirmed))) := by
  obtain ⟨parsed, htext, hlines⟩ := hrows.resultFile_parsed
  have hparsed := derivedFrom_of_lines hrows hlines
  rw [← hresults]
  rw [htext] at hresults
  cases hfilter : arguments.filterCache with
  | false =>
    have hcandidates : arguments.candidates rows = rows := by
      simp [RunArguments.candidates, hfilter]
    have hcommands : arguments.commands.drop 2 =
        [["--confirm".toList, arguments.output ".csv", arguments.output "_confirmed_iter1.csv"],
          ["--confirm".toList, arguments.output "_confirmed_iter1_cleaned.csv",
            arguments.output "_confirmed_iter2.csv"],
          ["--filter".toList, arguments.output "_confirmed_iter2_cleaned.csv"]] := by
      simp [RunArguments.commands, hfilter]
    rw [hcandidates, hcommands]
    exact runCommands_confirmations sha256 disassemble arguments hstarted hparsed hrows hcount
      (.inl rfl) hresults
  | true =>
    have hcandidates : arguments.candidates rows =
        rows.filter fun row => !row.hasCacheSequence := by
      simp [RunArguments.candidates, hfilter]
    have hcommands : arguments.commands.drop 2 =
        ["--filter".toList, arguments.output ".csv"] ::
        [["--confirm".toList, arguments.output "_nocache.csv",
            arguments.output "_confirmed_iter1.csv"],
          ["--confirm".toList, arguments.output "_confirmed_iter1_cleaned.csv",
            arguments.output "_confirmed_iter2.csv"],
          ["--filter".toList, arguments.output "_confirmed_iter2_cleaned.csv"]] := by
      simp [RunArguments.commands, hfilter]
    rw [hcandidates, hcommands, runCommands, main_filter (hstarted 0)]
    have hnocache := filterStage_nocache (arguments.output_ne_nil _) hresults
      (hparsed.countable hcount)
    rw [arguments.cutFileEnding_results] at hnocache
    have hkept : (filterStage (arguments.output ".csv") directory.files).1
        (arguments.output ".csv") = directory.files (arguments.output ".csv") := by
      have hname (ending : String) (h : ".csv".toList ≠ ending.toList) : arguments.output ".csv" ≠
          cutFileEnding (arguments.output ".csv") ++ ending.toList := by
        rw [arguments.cutFileEnding_results]
        exact arguments.output_ne h
      exact filterStage_other (arguments.output_ne_nil _) (hname "_nocache.csv" (by decide))
        (hname "_nocache_filtered_by_all.csv" (by decide))
        (hname "_nocache_filtered_by_all_mt_extensionpair.csv" (by decide))
    have hcandidatesCount : (rows.filter fun row => !row.hasCacheSequence).length < 2 ^ 31 :=
      (List.length_filter_le _ rows).trans_lt hcount
    let filtered : WorkingDirectory := { directory with
      files := (filterStage (arguments.output ".csv") directory.files).1 }
    have hinput : filtered.files (arguments.output "_nocache.csv") =
      some (fileText (resultLines (withoutCache parsed))) := hnocache
    obtain ⟨hafter, hconfirmed⟩ := runCommands_confirmations sha256 disassemble arguments
      (fun i => hstarted (i + 1)) (hrows.derivedFrom_withoutCache hlines) (hrows.filter _)
      hcandidatesCount (.inr rfl) hinput
    exact ⟨hafter.trans hkept, hconfirmed⟩

/-- Whatever was in the directory before and however the runs end, if all runs are started and the
search gets its instruction list and its executor: the script keeps the result file of the search,
confirms rows of it and filters these, and prints how many rows there were and how many are left. -/
theorem runScript_results {argv : List Text} {arguments : RunArguments} {executor : Executor}
    (hargv : parseRunArguments argv = .ok arguments)
    (hstarted : ∀ i, (launches i).started = true)
    (hcore : core sha256 (launches 1) kInstructionFileCleaned
      (main sha256 disassemble (launches 0) ["--cleanup".toList] directory).1.files =
        .ok (codeGenerator, executor))
    (hcount : (arguments.search.rows Executor.api codeGenerator arguments.speculation
      executor).length < 2 ^ 31) :
    let rows := arguments.search.rows Executor.api codeGenerator arguments.speculation executor
    ∃ (after : WorkingDirectory) (confirmed : List ParsedLine),
      runScript sha256 disassemble argv launches directory =
        .ok (after, ⟨rows.length, confirmed.length⟩) ∧
      after.files (arguments.output ".csv") = some (resultFile rows) ∧
      after.files (arguments.output "_confirmed_iter2_cleaned.csv") =
        some (fileText (resultLines confirmed)) ∧
      after.files (filteredFilename (arguments.output "_confirmed_iter2_cleaned.csv")) =
        some (fileText (resultLines (stagedRows confirmed))) ∧
      DerivedFrom (arguments.candidates rows) confirmed ∧ (∀ p ∈ confirmed, 50 < p.weight) ∧
      confirmed.length ≤ rows.length := by
  intro rows
  have hrows : TestedRows codeGenerator rows :=
    ⟨fun row hrow => (Search.rows_accepted hrow).rowOf,
      fun row hrow => (Search.rows_accepted hrow).timing_range⟩
  let searched := (main sha256 disassemble (launches 1) arguments.searchCommand
    (main sha256 disassemble (launches 0) ["--cleanup".toList] directory).1).1
  have hresults : searched.files (arguments.output ".csv") = some (resultFile rows) := by
    simp only [searched]
    rw [main_search (hstarted 1), fuzzingStage_files arguments hcore]
    exact Function.update_self ..
  have hcommands : runCommands sha256 disassemble arguments.commands launches directory =
      runCommands sha256 disassemble (arguments.commands.drop 2) (fun i => launches (i + 2))
        searched := rfl
  obtain ⟨hkept, confirmed, hderived, hlarge, hconfirmed, hfiltered⟩ :=
    runCommands_searched sha256 disassemble arguments (fun i => hstarted (i + 2)) hrows hcount
      hresults
  rw [← hcommands] at hkept hconfirmed hfiltered
  have hbefore : lineCount (some (resultFile rows)) - 1 = rows.length :=
    lineCount_header fun line hline => by
      obtain ⟨row, hrow, rfl⟩ := List.mem_map.1 hline
      exact (hrows.rowLine row hrow).noNewline
  have hafter : lineCount (some (fileText (resultLines confirmed))) - 1 = confirmed.length :=
    lineCount_header fun line hline => by
      obtain ⟨p, -, rfl⟩ := List.mem_map.1 hline
      exact p.noNewline
  have hcandidates : (arguments.candidates rows).length ≤ rows.length := by
    unfold RunArguments.candidates
    split
    · exact List.length_filter_le _ rows
    · exact le_rfl
  have hlength := hderived.subperm.length_le
  rw [List.length_map, List.length_map] at hlength
  refine ⟨_, confirmed, ?_, hkept, hconfirmed, hfiltered, hderived, hlarge,
    hlength.trans hcandidates⟩
  rw [runScript, hargv, ← hbefore, ← hafter, ← hkept, ← hconfirmed]
  rfl

end

def listed (entries : List (Text × Text)) : SearchOutput → List (Text × Text)
  | .csvRow _ => entries
  | .instructionFile trigger lines =>
    match openedFile (base64Encode trigger.byteRepresentation) with
    | none => entries
    | some file => entries.filter (·.1 ≠ file) ++ [(file, fileText (lines.map ReportLine.text))]

/-- The files of the output folder in the order of their last writing. -/
def listing (outputs : List SearchOutput) : List (Text × Text) := outputs.foldl listed []

theorem Lists.update {folder : Folder} {entries : List (Text × Text)} (h : Lists folder entries)
    (file text : Text) : Lists (Function.update folder file (some text))
      (entries.filter (·.1 ≠ file) ++ [(file, text)]) := by
  constructor
  · rw [List.map_append, List.nodup_append]
    refine ⟨h.nodup.sublist (List.filter_sublist.map _), List.nodup_singleton _, ?_⟩
    intro name hname other hother heq
    obtain ⟨entry, hentry, rfl⟩ := List.mem_map.1 hname
    rw [List.map_singleton, List.mem_singleton] at hother
    exact absurd (heq.trans hother) (by simpa using (List.mem_filter.1 hentry).2)
  · intro name content
    by_cases hname : name = file
    · subst hname
      simp [eq_comm]
    · simp [hname, h.mem]

theorem Lists.listed {folder : Folder} {entries : List (Text × Text)} (h : Lists folder entries)
    (output : SearchOutput) : Lists (folder.write output) (listed entries output) := by
  cases output with
  | csvRow row => exact h
  | instructionFile trigger lines =>
    cases hfile : openedFile (base64Encode trigger.byteRepresentation) with
    | none =>
      simpa only [Folder.write, Folder.writeInstructionFile, OsirisArm.listed, hfile] using h
    | some file =>
      simpa only [Folder.write, Folder.writeInstructionFile, OsirisArm.listed, hfile] using
        h.update file _

theorem lists_listing (outputs : List SearchOutput) :
    Lists (outputFolder outputs) (listing outputs) := by
  induction outputs using List.reverseRecOn with
  | nil => exact ⟨List.nodup_nil, fun _ _ => by simp [outputFolder, listing]⟩
  | append_singleton outputs output ih =>
    rw [outputFolder, listing, List.foldl_append, List.foldl_append]
    exact ih.listed output

/-- A run whose page runs alternate between two cycle counts. -/
def sampleLaunch : Launch where
  started := true
  executorConstructed := true
  tape := alternatingTape
  shuffle := reversing
  directoryOrder := fun outputs => ⟨listing outputs, lists_listing outputs⟩

def sampleDigest : Sha256 := fun _ => ⟨List.replicate 32 0, rfl⟩

/-- A cleaned instruction file is left from before, and nothing else. -/
def sampleDirectory : WorkingDirectory where
  files := Function.update (fun _ => none) kInstructionFileCleaned (some (fileText
    (instructionFileHeader :: twoInstructions.instructionList.map X86Instruction.fileLine)))
  outputFolderTriggerEqualsMeasurement := fun _ => none
  outputFolderFormattedTriggerEqualsMeasurement := fun _ => none

theorem runScript_results_two : ∃ (after : WorkingDirectory) (before confirmed : ℕ),
    runScript sampleDigest (fun _ => []) ["0".toList, "--all".toList] (fun _ => sampleLaunch)
      sampleDirectory = .ok (after, ⟨before, confirmed⟩) ∧ 0 < before ∧ confirmed ≤ before := by
  have hplain : ∀ i ∈ twoInstructions.instructionList,
      i.Plain ∧ i.byteRepresentation.length ≤ 200 :=
    fun i hi => ⟨twoInstructions.plain i hi, by revert i; decide⟩
  obtain ⟨loaded, hload, hfields⟩ := CodeGenerator.load_fileLines sampleDigest
    twoInstructions.length_le hplain
  have hcore : core sampleDigest sampleLaunch kInstructionFileCleaned
      (main sampleDigest (fun _ => []) sampleLaunch ["--cleanup".toList] sampleDirectory).1.files =
        .ok (loaded, .start alternatingTape) := by
    have hcleaned : (main sampleDigest (fun _ => []) sampleLaunch ["--cleanup".toList]
        sampleDirectory).1.files kInstructionFileCleaned = some (fileText (instructionFileHeader ::
          twoInstructions.instructionList.map X86Instruction.fileLine)) := rfl
    rw [core, hcleaned, hload]
    rfl
  have hlength : loaded.instructionList.length = 2 := by
    have h := congrArg List.length hfields
    rwa [List.length_map, List.length_map] at h
  have hshort : ∀ i ∈ loaded.instructionList, i.byteRepresentation.length ≤ 4 := by
    intro i hi
    have hmem := List.mem_map_of_mem (f := X86Instruction.fields) hi
    rw [hfields] at hmem
    obtain ⟨j, hj, hsame⟩ := List.mem_map.mp hmem
    have hlengths : ∀ j ∈ twoInstructions.instructionList, j.byteRepresentation.length ≤ 4 := by
      decide
    have hbytes : j.byteRepresentation = i.byteRepresentation := congrArg Prod.fst hsame
    rw [← hbytes]
    exact hlengths j hj
  obtain ⟨nop, hnop, hname⟩ : ∃ i ∈ loaded.instructionList, i.assemblyCode = "NOP".toList := by
    have hmem : (instructionAt 0 (instNop, "NOP".toList)).fields ∈
        twoInstructions.instructionList.map X86Instruction.fields := List.mem_cons_self
    rw [← hfields] at hmem
    obtain ⟨i, hi, hsame⟩ := List.mem_map.mp hmem
    exact ⟨i, hi, congrArg (fun fields => fields.2.1) hsame⟩
  have hawake : nop.isSleep = false := by
    rw [X86Instruction.isSleep, hname]
    decide
  have hrow := (alternatingTape_accepts hshort false).mem_rows onTape_start hnop hnop hawake hnop
  have hcount : ((Search.withoutAssumptions 50).rows Executor.api loaded false
      (.start alternatingTape)).length < 2 ^ 31 := by
    have h := length_rows_le loaded false 50 (.start alternatingTape)
    rw [hlength] at h
    omega
  have hstarted : ∀ run : ℕ, (Function.const ℕ sampleLaunch run).started = true := fun _ => rfl
  have hargv : parseRunArguments ["0".toList, "--all".toList] =
      .ok ⟨true, false, false⟩ := rfl
  obtain ⟨after, confirmed, hrun, -, -, -, -, -, hle⟩ :=
    runScript_results sampleDigest (fun _ => []) hargv hstarted hcore hcount
  exact ⟨after, _, confirmed.length, hrun, List.length_pos_of_mem hrow, hle⟩

end OsirisArm
