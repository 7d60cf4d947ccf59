import OsirisArm.Core
import OsirisArm.Files
import OsirisArm.Library.Trials

/-! # Cleaning the instruction file

Every instruction is run once as trigger, measurement and reset. Those that do not fault are written
to a new instruction file, which loads as the sublist of these instructions. Their UIDs change with
the hash of the file and with their indices.
-/

namespace OsirisArm
open Library Library.Emission

/-- The five columns of an instruction in an instruction file. -/
def X86Instruction.fileColumns (i : X86Instruction) : List Text :=
  [base64Encode i.byteRepresentation, i.assemblyCode, i.category, i.extension, i.isaSet]

def X86Instruction.fileLine (i : X86Instruction) : Text := [';'].intercalate i.fileColumns

/-- The bytes and the texts of an instruction, without its UID. -/
def X86Instruction.fields (i : X86Instruction) : Bytes × Text × Text × Text × Text :=
  (i.byteRepresentation, i.assemblyCode, i.category, i.extension, i.isaSet)

theorem map_fileLine_congr {instructions instructions' : List X86Instruction}
    (h : instructions.map X86Instruction.fields = instructions'.map X86Instruction.fields) :
    instructions.map X86Instruction.fileLine = instructions'.map X86Instruction.fileLine := by
  let line (fields : Bytes × Text × Text × Text × Text) : Text := [';'].intercalate
    [base64Encode fields.1, fields.2.1, fields.2.2.1, fields.2.2.2.1, fields.2.2.2.2]
  calc instructions.map X86Instruction.fileLine
      = (instructions.map X86Instruction.fields).map line := by
        rw [List.map_map]
        rfl
    _ = instructions'.map X86Instruction.fileLine := by
        rw [h, List.map_map]
        rfl

theorem exists_bytes_eq {instructions instructions' : List X86Instruction}
    (h : instructions.map X86Instruction.fields = instructions'.map X86Instruction.fields)
    {i : X86Instruction} (hi : i ∈ instructions) :
    ∃ j ∈ instructions', j.byteRepresentation = i.byteRepresentation := by
  have hmem : i.fields ∈ instructions.map X86Instruction.fields := List.mem_map_of_mem hi
  rw [h] at hmem
  obtain ⟨j, hj, hsame⟩ := List.mem_map.mp hmem
  exact ⟨j, hj, congrArg Prod.fst hsame⟩

theorem X86Instruction.Plain.fileColumns {i : X86Instruction} (h : i.Plain) :
    ∀ column ∈ i.fileColumns, ';' ∉ column ∧ '\n' ∉ column := by
  intro column hcolumn
  rcases List.mem_cons.mp hcolumn with rfl | hcolumn
  · exact ⟨fun hc => (base64Encode_plain hc).1 rfl, fun hc => (base64Encode_plain hc).2 rfl⟩
  · exact h column hcolumn

theorem X86Instruction.Plain.fileLine_no_newline {i : X86Instruction} (h : i.Plain) :
    '\n' ∉ i.fileLine :=
  intercalate_no_newline fun column hcolumn => (h.fileColumns column hcolumn).2

/-- A line of an instruction is read back, with the UID of its place. -/
theorem parseInstruction_fileLine {hash : Text} (hdigest : IsDigest hash) {idx : ℕ}
    (hidx : idx ≤ 65535) {i : X86Instruction} (hplain : i.Plain)
    (hshort : i.byteRepresentation.length ≤ 200) :
    ∃ loaded, parseInstruction hash idx i.fileLine = .ok loaded ∧ loaded.fields = i.fields := by
  obtain ⟨tail, -, -, huid⟩ := exists_generateInstructionUID hdigest hidx
  have hsplit : splitString i.fileLine ';' = i.fileColumns :=
    splitString_intercalate (fun column hcolumn => (hplain.fileColumns column hcolumn).1)
      (List.cons_ne_nil _ _)
  have hdecode : base64Decode (base64Encode i.byteRepresentation) = i.byteRepresentation := by
    apply base64Decode_encode
    rw [base64Encode_length]
    omega
  rw [parseInstruction, hsplit, X86Instruction.fileColumns]
  simp only [huid, hdecode]
  exact ⟨_, rfl, rfl⟩

theorem parseInstructions_fileLines {hash : Text} (hdigest : IsDigest hash) (start : ℕ)
    {instructions : List X86Instruction} (hcount : start + instructions.length ≤ 65536)
    (hwritable : ∀ i ∈ instructions, i.Plain ∧ i.byteRepresentation.length ≤ 200) :
    ∃ list, parseInstructions hash start (instructions.map X86Instruction.fileLine) = .ok list ∧
      list.map X86Instruction.fields = instructions.map X86Instruction.fields := by
  induction instructions generalizing start with
  | nil => exact ⟨[], rfl, rfl⟩
  | cons i rest ih =>
    rw [List.length_cons] at hcount
    obtain ⟨hplain, hshort⟩ := hwritable i List.mem_cons_self
    obtain ⟨loaded, hline, hfields⟩ :=
      parseInstruction_fileLine hdigest (by omega : start ≤ 65535) hplain hshort
    obtain ⟨list, hlines, hlist⟩ := ih (start + 1) (by omega)
      fun j hj => hwritable j (List.mem_cons_of_mem i hj)
    refine ⟨loaded :: list, ?_, by rw [List.map_cons, hfields, hlist, List.map_cons]⟩
    rw [List.map_cons, parseInstructions, hline]
    change (parseInstructions hash (start + 1) _ >>= _) = _
    rw [hlines]
    rfl

/-- A file with the header and lines that can be parsed is loaded. -/
theorem CodeGenerator.load_lines {sha256 : Sha256} {content : Text} {lines : List Text}
    {list : List X86Instruction} (hcontent : readLines content = instructionFileHeader :: lines)
    (hlist : parseInstructions (calculateFileHashSHA256 sha256 (some content)) 0 lines =
      .ok list) :
    ∃ codeGenerator, CodeGenerator.load sha256 (some content) = .ok codeGenerator ∧
      codeGenerator.instructionList = list := by
  unfold CodeGenerator.load
  simp only
  split
  · next hnil =>
    rw [hcontent] at hnil
    cases hnil
  · next header lines' hlines =>
    rw [hcontent] at hlines
    obtain ⟨rfl, rfl⟩ := List.cons.inj hlines
    rw [if_neg (not_not.mpr rfl)]
    split
    · next hstop =>
      rw [hlist] at hstop
      cases hstop
    · next list' hlist' =>
      rw [hlist] at hlist'
      exact ⟨_, rfl, (Except.ok.inj hlist').symm⟩

theorem CodeGenerator.load_fileLines (sha256 : Sha256) {instructions : List X86Instruction}
    (hcount : instructions.length ≤ 65536)
    (hwritable : ∀ i ∈ instructions, i.Plain ∧ i.byteRepresentation.length ≤ 200) :
    ∃ loaded, CodeGenerator.load sha256
        (some (fileText (instructionFileHeader :: instructions.map X86Instruction.fileLine))) =
          .ok loaded ∧
      loaded.instructionList.map X86Instruction.fields =
        instructions.map X86Instruction.fields := by
  have hlines : ∀ line ∈ instructionFileHeader :: instructions.map X86Instruction.fileLine,
      '\n' ∉ line := by
    rw [List.forall_mem_cons]
    refine ⟨by decide, fun line hline => ?_⟩
    obtain ⟨i, hi, rfl⟩ := List.mem_map.mp hline
    exact (hwritable i hi).1.fileLine_no_newline
  have hdigest : IsDigest (calculateFileHashSHA256 sha256 (some (fileText
      (instructionFileHeader :: instructions.map X86Instruction.fileLine)))) :=
    ⟨_, (sha256 _).2, rfl⟩
  obtain ⟨list, hparse, hfields⟩ := parseInstructions_fileLines hdigest 0 (by omega) hwritable
  obtain ⟨loaded, hload, rfl⟩ := CodeGenerator.load_lines (readLines_fileText hlines) hparse
  exact ⟨loaded, hload, hfields⟩

/-- The list of a loaded file has at most one instruction for each index of two bytes. -/
theorem CodeGenerator.length_le (codeGenerator : CodeGenerator) :
    codeGenerator.instructionList.length ≤ 65536 := by
  by_contra hlong
  have huid := codeGenerator.uids 65536 (by omega)
  have hidx := (generateInstructionUID_ok codeGenerator.isDigest huid).1
  omega

section
variable {σ : Type} (api : ExecutorApi σ) (codeGenerator : CodeGenerator)

/-- One run of an instruction as trigger, measurement and reset. -/
def testFault (instruction : X86Instruction) : σ → Except Stop (TestResult × σ) :=
  api.testTriggerSequence instruction.byteRepresentation instruction.byteRepresentation
    instruction.byteRepresentation false 1 1

/-- The indices that are collected; they are lost if the executor stops. -/
def findNonFaultingInstructions : σ → Emission ℕ Stop σ :=
  forEach (fun instructionIdx s =>
      (lift (codeGenerator.createInstructionFromIndex instructionIdx)).bind
        fun measurementSequence => (lift (testFault api measurementSequence s)).bind fun result =>
          write (if result.1.error = 0 then [instructionIdx] else []) result.2)
    (List.range codeGenerator.getNumberOfInstructions)

/-- The lines of the cleaned file. -/
def writeInstructions (instructionIndexes : List ℕ) : Emission Text Stop Unit :=
  (write [instructionFileHeader] ()).bind <|
    forEach (fun instructionIdx _ =>
        (lift (codeGenerator.createInstructionFromIndex instructionIdx)).bind fun instruction =>
          write [instruction.fileLine] ())
      instructionIndexes

/-- The file is created after all tests; without a non-faulting instruction it stays empty. -/
def outputNonFaultingInstructions (outputFilename : Text) (s : σ) (files : Files) :
    Files × Except Stop σ :=
  let nonFaultingInstructions := findNonFaultingInstructions api codeGenerator s
  match nonFaultingInstructions.outcome with
  | .error stop => (files, .error stop)
  | .ok s =>
    if nonFaultingInstructions.written = [] then
      (Function.update files outputFilename (some []), .ok s)
    else
      let output := writeInstructions codeGenerator nonFaultingInstructions.written
      (Function.update files outputFilename (some (fileText output.written)),
        output.outcome.map fun _ => s)

/-- The test of the instruction at a place of the list. -/
def testPlace (place : Fin codeGenerator.instructionList.length) :
    σ → Except Stop (TestResult × σ) := testFault api codeGenerator.instructionList[place]

/-- The tests of all instructions, each with its result. -/
def faultTests (s : σ) : Emission (Fin codeGenerator.instructionList.length × TestResult) Stop σ :=
  trials (testPlace api codeGenerator) (List.finRange codeGenerator.instructionList.length) s

/-- The places of the instructions whose test returned without an error. -/
def nonFaultingPlaces (s : σ) : List (Fin codeGenerator.instructionList.length) :=
  ((faultTests api codeGenerator s).written.filter fun test => test.2.error = 0).map Prod.fst

/-- The instructions whose test returned without an error. -/
def nonFaulting (s : σ) : List X86Instruction :=
  (nonFaultingPlaces api codeGenerator s).map fun idx => codeGenerator.instructionList[idx]

variable {api codeGenerator}

theorem flatMap_collected {n : ℕ} (tests : List (Fin n × TestResult)) :
    (tests.flatMap fun test => if test.2.error = 0 then [test.1.val] else []) =
      ((tests.filter fun test => test.2.error = 0).map Prod.fst).map Fin.val := by
  induction tests with
  | nil => rfl
  | cons test tests ih =>
    rw [List.flatMap_cons, ih]
    by_cases herror : test.2.error = 0
    · rw [if_pos herror, List.filter_cons_of_pos (by simpa using herror)]
      rfl
    · rw [if_neg herror, List.filter_cons_of_neg (by simpa using herror)]
      rfl

theorem findNonFaultingInstructions_eq (s : σ) :
    findNonFaultingInstructions api codeGenerator s =
      ⟨(nonFaultingPlaces api codeGenerator s).map Fin.val,
        (faultTests api codeGenerator s).outcome⟩ := by
  have hrange : List.range codeGenerator.getNumberOfInstructions =
      (List.finRange codeGenerator.instructionList.length).map Fin.val :=
    List.map_coe_finRange_eq_range.symm
  rw [findNonFaultingInstructions, hrange, forEach_map, nonFaultingPlaces, ← flatMap_collected]
  apply forEach_trials
  intro idx _ s
  rw [CodeGenerator.createInstructionFromIndex_getElem idx.isLt]
  rfl

theorem writeInstructions_eq (places : List (Fin codeGenerator.instructionList.length)) :
    writeInstructions codeGenerator (places.map Fin.val) =
      ⟨instructionFileHeader ::
        (places.map fun idx => codeGenerator.instructionList[idx]).map X86Instruction.fileLine,
        .ok ()⟩ := by
  have hrounds : forEach (fun instructionIdx _ =>
      (lift (codeGenerator.createInstructionFromIndex instructionIdx)).bind fun instruction =>
        write [instruction.fileLine] ()) (places.map Fin.val) () =
      (⟨(places.map fun idx => codeGenerator.instructionList[idx]).map X86Instruction.fileLine,
        .ok ()⟩ : Emission Text Stop Unit) := by
    induction places with
    | nil => rfl
    | cons idx places ih =>
      rw [List.map_cons, forEach, CodeGenerator.createInstructionFromIndex_getElem idx.isLt,
        lift_ok_bind, bind_ok (s := ()) rfl, ih]
      rfl
  rw [writeInstructions, bind_ok (s := ()) rfl, hrounds]
  rfl

/-- The text of a cleaned file. -/
def cleanedText (lines : List Text) : Text :=
  if lines = [] then [] else fileText (instructionFileHeader :: lines)

/-- The file that is written when the executor has returned from all tests. -/
theorem outputNonFaultingInstructions_returned {s after : σ}
    (h : (faultTests api codeGenerator s).outcome = .ok after) (outputFilename : Text)
    (files : Files) :
    outputNonFaultingInstructions api codeGenerator outputFilename s files =
      (Function.update files outputFilename
        (some (cleanedText ((nonFaulting api codeGenerator s).map X86Instruction.fileLine))),
        .ok after) := by
  rw [outputNonFaultingInstructions, findNonFaultingInstructions_eq]
  simp only [h, cleanedText, nonFaulting, List.map_eq_nil_iff, writeInstructions_eq]
  split
  · rfl
  · rfl

theorem outputNonFaultingInstructions_ok {outputFilename : Text} {s after : σ}
    {files cleaned : Files}
    (h : outputNonFaultingInstructions api codeGenerator outputFilename s files =
      (cleaned, .ok after)) :
    (faultTests api codeGenerator s).outcome = .ok after ∧ cleaned outputFilename =
      some (cleanedText ((nonFaulting api codeGenerator s).map X86Instruction.fileLine)) := by
  cases houtcome : (faultTests api codeGenerator s).outcome with
  | error stop =>
    rw [outputNonFaultingInstructions, findNonFaultingInstructions_eq, houtcome] at h
    cases h
  | ok last =>
    rw [outputNonFaultingInstructions_returned houtcome] at h
    cases h
    exact ⟨rfl, Function.update_self _ _ _⟩

theorem nonFaulting_sublist {s after : σ}
    (h : (faultTests api codeGenerator s).outcome = .ok after) :
    (nonFaulting api codeGenerator s).Sublist codeGenerator.instructionList := by
  have hall := trials_all h
  have hplaces : (nonFaultingPlaces api codeGenerator s).Sublist
      (List.finRange codeGenerator.instructionList.length) := by
    rw [← hall]
    exact List.filter_sublist.map Prod.fst
  have hlist : (nonFaulting api codeGenerator s).Sublist ((List.finRange _).map fun idx =>
      codeGenerator.instructionList[idx]) := hplaces.map _
  have hsame : ((List.finRange _).map fun idx => codeGenerator.instructionList[idx]) =
      codeGenerator.instructionList := List.map_getElem_finRange _
  rwa [hsame] at hlist

/-- The tests of a run fault exactly for the bytes of this kind. -/
def FaultsBy (faults : Bytes → Prop) (api : ExecutorApi σ) (codeGenerator : CodeGenerator)
    (s : σ) : Prop :=
  ∀ test ∈ (faultTests api codeGenerator s).written, test.2.error ≠ 0 ↔
    faults codeGenerator.instructionList[test.1].byteRepresentation

theorem FaultsBy.not_faults {faults : Bytes → Prop} {s : σ}
    (h : FaultsBy faults api codeGenerator s) {i : X86Instruction}
    (hi : i ∈ nonFaulting api codeGenerator s) : ¬ faults i.byteRepresentation := by
  obtain ⟨idx, hidx, rfl⟩ := List.mem_map.mp hi
  obtain ⟨test, htest, rfl⟩ := List.mem_map.mp hidx
  obtain ⟨hmem, herror⟩ := List.mem_filter.mp htest
  rw [← h test hmem, not_not]
  exact of_decide_eq_true herror

theorem FaultsBy.nonFaulting_eq {faults : Bytes → Prop} {s after : σ}
    (h : FaultsBy faults api codeGenerator s)
    (hout : (faultTests api codeGenerator s).outcome = .ok after)
    (hnone : ∀ i ∈ codeGenerator.instructionList, ¬ faults i.byteRepresentation) :
    nonFaulting api codeGenerator s = codeGenerator.instructionList := by
  have hkept : (faultTests api codeGenerator s).written.filter (fun test => test.2.error = 0) =
      (faultTests api codeGenerator s).written := by
    rw [List.filter_eq_self]
    intro test htest
    rw [decide_eq_true_eq]
    by_contra herror
    exact hnone _ (List.getElem_mem test.1.isLt) ((h test htest).mp herror)
  have hall : (faultTests api codeGenerator s).written.map Prod.fst = List.finRange _ :=
    trials_all hout
  rw [nonFaulting, nonFaultingPlaces, hkept, hall]
  exact List.map_getElem_finRange codeGenerator.instructionList

end

section
variable {codeGenerator : CodeGenerator} {executor after : Executor}

theorem nonFaulting_tested {i : X86Instruction}
    (hi : i ∈ nonFaulting Executor.api codeGenerator executor) :
    ∃ (before : Executor) (result : TestResult × Executor),
      before.testTriggerSequence i.byteRepresentation i.byteRepresentation i.byteRepresentation
        false 1 1 = .ok result := by
  obtain ⟨idx, hidx, rfl⟩ := List.mem_map.mp hi
  obtain ⟨⟨idx, result⟩, htest, rfl⟩ := List.mem_map.mp hidx
  obtain ⟨hmem, -⟩ := List.mem_filter.mp htest
  obtain ⟨last, htested⟩ := trials_tested (testPlace Executor.api codeGenerator)
    (List.finRange codeGenerator.instructionList.length) executor
  obtain ⟨before, later, hreturned⟩ := htested.mem hmem
  exact ⟨before, (result, later), hreturned⟩

theorem nonFaulting_writable (h : (faultTests Executor.api codeGenerator executor).outcome =
      .ok after) {i : X86Instruction} (hi : i ∈ nonFaulting Executor.api codeGenerator executor) :
    i.Plain ∧ i.byteRepresentation.length ≤ 200 := by
  obtain ⟨before, result, htested⟩ := nonFaulting_tested hi
  exact ⟨codeGenerator.plain i ((nonFaulting_sublist h).subset hi),
    Executor.testTriggerSequence_short htested⟩

/-- Instructions with the bytes of non-faulting ones can be tested in every state. -/
theorem faultTests_again {reloaded : CodeGenerator}
    (h : ∀ i ∈ reloaded.instructionList, ∃ j ∈ nonFaulting Executor.api codeGenerator executor,
      j.byteRepresentation = i.byteRepresentation) (executor' : Executor) :
    ∃ after', (faultTests Executor.api reloaded executor').outcome = .ok after' := by
  apply trials_total
  intro idx _ state
  obtain ⟨j, hj, hbytes⟩ := h _ (List.getElem_mem idx.isLt)
  obtain ⟨before, ⟨result, later⟩, hreturned⟩ := nonFaulting_tested hj
  obtain ⟨pages, hpages, -⟩ := Executor.testTriggerSequence_ok hreturned
  have hagain := Executor.testTriggerSequence_of_pages
    (Executor.testTriggerSequence_short hreturned) hpages 1 state
  rw [hbytes] at hagain
  exact ⟨_, hagain⟩

/-- The file that is written when some instruction does not fault loads as the list of these
instructions. If it depends on the bytes whether an instruction faults, cleaning the loaded list
writes the same file. -/
theorem outputNonFaultingInstructions_loadable (sha256 : Sha256) {outputFilename : Text}
    {files cleaned : Files}
    (h : outputNonFaultingInstructions Executor.api codeGenerator outputFilename executor files =
      (cleaned, .ok after))
    (hsome : nonFaulting Executor.api codeGenerator executor ≠ []) :
    (nonFaulting Executor.api codeGenerator executor).Sublist codeGenerator.instructionList ∧
    ∃ reloaded, CodeGenerator.load sha256 (cleaned outputFilename) = .ok reloaded ∧
      reloaded.instructionList.map X86Instruction.fields =
        (nonFaulting Executor.api codeGenerator executor).map X86Instruction.fields ∧
      ∀ faults, FaultsBy faults Executor.api codeGenerator executor →
        ∀ executor' outputFilename' files', FaultsBy faults Executor.api reloaded executor' →
          ∃ cleaned' after',
            outputNonFaultingInstructions Executor.api reloaded outputFilename' executor' files' =
              (cleaned', .ok after') ∧
            cleaned' outputFilename' = cleaned outputFilename := by
  obtain ⟨hreturned, hwritten⟩ := outputNonFaultingInstructions_ok h
  have hsublist := nonFaulting_sublist hreturned
  obtain ⟨reloaded, hload, hfields⟩ := CodeGenerator.load_fileLines sha256
    (hsublist.length_le.trans codeGenerator.length_le) fun i hi => nonFaulting_writable hreturned hi
  have hbytes (i : X86Instruction) (hi : i ∈ reloaded.instructionList) :
      ∃ j ∈ nonFaulting Executor.api codeGenerator executor,
        j.byteRepresentation = i.byteRepresentation := exists_bytes_eq hfields hi
  refine ⟨hsublist, reloaded, ?_, hfields, ?_⟩
  · rw [hwritten, cleanedText, if_neg (by simpa using hsome), hload]
  · intro faults hfaults executor' outputFilename' files' hfaults'
    obtain ⟨after', hreturned'⟩ := faultTests_again hbytes executor'
    have hnone : ∀ i ∈ reloaded.instructionList, ¬ faults i.byteRepresentation := by
      intro i hi
      obtain ⟨j, hj, hsame⟩ := hbytes i hi
      rw [← hsame]
      exact hfaults.not_faults hj
    have hkept := hfaults'.nonFaulting_eq hreturned' hnone
    refine ⟨_, after', outputNonFaultingInstructions_returned hreturned' outputFilename' files', ?_⟩
    rw [Function.update_self, hwritten, hkept, map_fileLine_congr hfields]

end

/-- The two runs of the first test complete, and then a run faults. -/
def faultingTape (n : ℕ) : PageRun := if n < 2 then .completed 100 else .raised .sigill

theorem testPlace_pages (place : Fin twoInstructions.instructionList.length)
    (executor : Executor) : ∃ pages : CodePage × CodePage,
      testPlace Executor.api twoInstructions place executor =
        .ok ((executor.withCodePages pages.1 pages.2).comparePages
          Executor.triggerDifference 1) := by
  have hlength : ∀ place : Fin twoInstructions.instructionList.length,
      twoInstructions.instructionList[place].byteRepresentation.length = 4 := by decide
  obtain ⟨pages, hpages⟩ := Executor.exists_triggerPages
    twoInstructions.instructionList[place].byteRepresentation
    twoInstructions.instructionList[place].byteRepresentation
    twoInstructions.instructionList[place].byteRepresentation false
    (by decide : 1 ≤ 100) (by rw [hlength]; decide)
  exact ⟨pages, Executor.testTriggerSequence_of_pages (by rw [hlength]; decide) hpages 1 executor⟩

/-- The test of the NOP returns without an error, that of the ISB does not. -/
theorem testPlaces_two : ∃ middle after,
    testPlace Executor.api twoInstructions ⟨0, by decide⟩ (.start faultingTape) =
        .ok (⟨0, 0⟩, middle) ∧
      testPlace Executor.api twoInstructions ⟨1, by decide⟩ middle = .ok (⟨1, -1⟩, after) := by
  obtain ⟨pages, hnop⟩ := testPlace_pages ⟨0, by decide⟩ (.start faultingTape)
  obtain ⟨middle, htape, hrunNo, hcompared⟩ : ∃ middle : Executor,
      middle.tape = faultingTape ∧ middle.runNo = 2 ∧
      ((Executor.start faultingTape).withCodePages pages.1 pages.2).comparePages
        Executor.triggerDifference 1 = (⟨0, 0⟩, middle) := ⟨_, rfl, rfl, rfl⟩
  obtain ⟨pages', hisb⟩ := testPlace_pages ⟨1, by decide⟩ middle
  have hfault : ∃ after, (middle.withCodePages pages'.1 pages'.2).comparePages
      Executor.triggerDifference 1 = (⟨1, -1⟩, after) := by
    obtain ⟨executionCodePages, faultCounters, tape, runNo⟩ := middle
    obtain rfl : tape = faultingTape := htape
    obtain rfl : runNo = 2 := hrunNo
    exact ⟨_, rfl⟩
  obtain ⟨after, hafter⟩ := hfault
  rw [hcompared] at hnop
  rw [hafter] at hisb
  exact ⟨middle, after, hnop, hisb⟩

theorem faultTests_two : ∃ after,
    faultTests Executor.api twoInstructions (.start faultingTape) =
      ⟨[(⟨0, by decide⟩, ⟨0, 0⟩), (⟨1, by decide⟩, ⟨1, -1⟩)], .ok after⟩ := by
  obtain ⟨middle, after, hnop, hisb⟩ := testPlaces_two
  have hplaces : List.finRange twoInstructions.instructionList.length =
      [⟨0, by decide⟩, ⟨1, by decide⟩] := rfl
  refine ⟨after, ?_⟩
  rw [faultTests, hplaces, trials_cons_ok hnop, trials_cons_ok hisb]
  rfl

theorem nonFaulting_two : ∃ after,
    (faultTests Executor.api twoInstructions (.start faultingTape)).outcome = .ok after ∧
      nonFaulting Executor.api twoInstructions (.start faultingTape) ≠ [] := by
  obtain ⟨after, htests⟩ := faultTests_two
  refine ⟨after, by rw [htests], ?_⟩
  rw [nonFaulting, nonFaultingPlaces, htests]
  simp

theorem outputNonFaultingInstructions_loadable_nop : ∃ cleaned after,
    outputNonFaultingInstructions Executor.api twoInstructions "cleaned.b64".toList
      (.start faultingTape) (fun _ => none) = (cleaned, .ok after) ∧
    (nonFaulting Executor.api twoInstructions (.start faultingTape)).Sublist
      twoInstructions.instructionList ∧
    ∃ reloaded, CodeGenerator.load (fun _ => ⟨List.replicate 32 0, rfl⟩)
        (cleaned "cleaned.b64".toList) = .ok reloaded ∧
      reloaded.instructionList.map X86Instruction.fields =
        (nonFaulting Executor.api twoInstructions (.start faultingTape)).map
          X86Instruction.fields ∧
      ∀ faults, FaultsBy faults Executor.api twoInstructions (.start faultingTape) →
        ∀ executor' outputFilename' files', FaultsBy faults Executor.api reloaded executor' →
          ∃ cleaned' after',
            outputNonFaultingInstructions Executor.api reloaded outputFilename' executor' files' =
              (cleaned', .ok after') ∧
            cleaned' outputFilename' = cleaned "cleaned.b64".toList := by
  obtain ⟨after, hreturned, hsome⟩ := nonFaulting_two
  have hrun := outputNonFaultingInstructions_returned hreturned "cleaned.b64".toList fun _ => none
  exact ⟨_, after, hrun, outputNonFaultingInstructions_loadable _ hrun hsome⟩

end OsirisArm
