import OsirisArm.AssemblerStage
import OsirisArm.Cleanup

/-! # From the assembler to the fuzzer

The file that the assembler stage writes is the instruction file of the fuzzer. In every
interleaving of the workers it loads as a permutation of the assembled instructions, unless there
are more of them than indices.
-/

namespace OsirisArm
open Library Library.Emission
open scoped List

/-- The instruction of a successful result, without a UID. -/
def assembledInstruction (assembled : AssemblyInstruction × Option Bytes) : Option X86Instruction :=
  assembled.2.map fun asmBytes => ⟨0, asmBytes, assembled.1.assemblyCode, assembled.1.category,
    assembled.1.extension, assembled.1.isaSet⟩

/-- No field contains the delimiter or is more than one line. -/
def AssemblyInstruction.Plain (i : AssemblyInstruction) : Prop :=
  ∀ text ∈ [i.assemblyCode, i.category, i.extension, i.isaSet], ';' ∉ text ∧ '\n' ∉ text

theorem AssemblyInstruction.Plain.undelimited {i : AssemblyInstruction} (h : i.Plain) :
    i.Undelimited :=
  ⟨(h i.assemblyCode (by simp)).1, (h i.category (by simp)).1, (h i.extension (by simp)).1,
    (h i.isaSet (by simp)).1⟩

theorem csvLine_eq (assembled : AssemblyInstruction × Option Bytes) :
    csvLine assembled = (assembledInstruction assembled).map X86Instruction.fileLine := by
  obtain ⟨assemblyInstruction, _ | asmBytes⟩ := assembled <;> rfl

/-- An instruction with plain fields, short enough for an `int` to count its encoding. -/
structure Loadable (i : X86Instruction) : Prop where
  plain : i.Plain
  short : (base64Encode i.byteRepresentation).length < 2 ^ 31

section
variable {hash : Text}

theorem splitString_fileLine {i : X86Instruction} (h : i.Plain) :
    splitString i.fileLine ';' = i.fileColumns :=
  splitString_intercalate (fun column hcolumn => (h.fileColumns column hcolumn).1)
    (List.cons_ne_nil _ _)

theorem Loadable.parseInstruction_ok {i : X86Instruction} (h : Loadable i)
    (hdigest : IsDigest hash) {idx : ℕ} (hidx : idx ≤ 65535) :
    ∃ loaded, parseInstruction hash idx i.fileLine = .ok loaded ∧ loaded.fields = i.fields := by
  obtain ⟨tail, -, -, huid⟩ := exists_generateInstructionUID hdigest hidx
  rw [parseInstruction, splitString_fileLine h.plain, X86Instruction.fileColumns]
  simp only [huid, base64Decode_encode h.short]
  exact ⟨_, rfl, rfl⟩

/-- The assertion of the UID stops the list at the first place without one. -/
theorem Loadable.parseInstruction_stop {i : X86Instruction} (h : Loadable i)
    (hdigest : IsDigest hash) {idx : ℕ} (hidx : 65535 < idx) :
    parseInstruction hash idx i.fileLine = .error .assertion := by
  have hne : (!hash.isEmpty) = true := by simpa using hdigest.ne_nil
  rw [parseInstruction, splitString_fileLine h.plain, X86Instruction.fileColumns]
  simp only [generateInstructionUID, hne, assert_true]
  rw [decide_eq_false (by omega)]
  rfl

/-- The lines of instructions are read back if each of them has an index. -/
theorem parseInstructions_loadable (hdigest : IsDigest hash) (start : ℕ)
    {instructions : List X86Instruction} (hcount : start + instructions.length ≤ 65536)
    (hloadable : ∀ i ∈ instructions, Loadable i) :
    ∃ list, parseInstructions hash start (instructions.map X86Instruction.fileLine) = .ok list ∧
      list.map X86Instruction.fields = instructions.map X86Instruction.fields := by
  induction instructions generalizing start with
  | nil => exact ⟨[], rfl, rfl⟩
  | cons i rest ih =>
    rw [List.length_cons] at hcount
    obtain ⟨loaded, hline, hfields⟩ :=
      (hloadable i List.mem_cons_self).parseInstruction_ok hdigest (by omega : start ≤ 65535)
    obtain ⟨list, hlines, hlist⟩ := ih (start + 1) (by omega)
      fun j hj => hloadable j (List.mem_cons_of_mem i hj)
    refine ⟨loaded :: list, ?_, by rw [List.map_cons, hfields, hlist, List.map_cons]⟩
    rw [List.map_cons, parseInstructions, hline]
    change (parseInstructions hash (start + 1) _ >>= _) = _
    rw [hlines]
    rfl

theorem parseInstructions_stop (hdigest : IsDigest hash) {start : ℕ} (hstart : start ≤ 65536)
    {instructions : List X86Instruction} (hcount : 65536 < start + instructions.length)
    (hloadable : ∀ i ∈ instructions, Loadable i) :
    parseInstructions hash start (instructions.map X86Instruction.fileLine) =
      .error .assertion := by
  induction instructions generalizing start with
  | nil => exact absurd hcount (by simpa using hstart)
  | cons i rest ih =>
    have hi := hloadable i List.mem_cons_self
    rw [List.map_cons, parseInstructions]
    rcases Nat.lt_or_ge 65535 start with hlast | hidx
    · rw [hi.parseInstruction_stop hdigest hlast]
      rfl
    · obtain ⟨loaded, hline, -⟩ := hi.parseInstruction_ok hdigest hidx
      rw [List.length_cons] at hcount
      rw [hline]
      change (parseInstructions hash (start + 1) _ >>= _) = _
      rw [ih (by omega) (by omega) fun j hj => hloadable j (List.mem_cons_of_mem i hj)]
      rfl

end

theorem CodeGenerator.load_stop {sha256 : Sha256} {content : Text} {lines : List Text}
    {stop : Stop} (hcontent : readLines content = instructionFileHeader :: lines)
    (hlines : parseInstructions (calculateFileHashSHA256 sha256 (some content)) 0 lines =
      .error stop) :
    CodeGenerator.load sha256 (some content) = .error stop := by
  unfold CodeGenerator.load
  simp only
  split
  · next hnil =>
    rw [hcontent] at hnil
    cases hnil
  · next header rest hcons =>
    rw [hcontent] at hcons
    obtain ⟨rfl, rfl⟩ := List.cons.inj hcons
    rw [if_neg (not_not_intro rfl)]
    split
    · next stop' hparsed =>
      rw [hlines] at hparsed
      cases hparsed
      rfl
    · next list hparsed =>
      rw [hlines] at hparsed
      cases hparsed

theorem isDigest_calculateFileHash (sha256 : Sha256) (content : Text) :
    IsDigest (calculateFileHashSHA256 sha256 (some content)) :=
  ⟨_, (sha256 content).2, rfl⟩

section
variable {assembled : List X86Instruction} (hloadable : ∀ i ∈ assembled, Loadable i)
include hloadable

theorem readLines_assembled :
    readLines (fileText (headerLine :: assembled.map X86Instruction.fileLine)) =
      instructionFileHeader :: assembled.map X86Instruction.fileLine := by
  refine readLines_fileText ?_
  rw [List.forall_mem_cons]
  refine ⟨by decide, fun line hline => ?_⟩
  obtain ⟨i, hi, rfl⟩ := List.mem_map.mp hline
  exact (hloadable i hi).plain.fileLine_no_newline

theorem load_assembled (sha256 : Sha256) (hcount : assembled.length ≤ 65536) :
    ∃ codeGenerator, CodeGenerator.load sha256
        (some (fileText (headerLine :: assembled.map X86Instruction.fileLine))) =
          .ok codeGenerator ∧
      codeGenerator.instructionList.map X86Instruction.fields =
        assembled.map X86Instruction.fields := by
  obtain ⟨list, hlist, hfields⟩ :=
    parseInstructions_loadable (isDigest_calculateFileHash sha256 _) 0 (by omega) hloadable
  obtain ⟨codeGenerator, hload, rfl⟩ :=
    CodeGenerator.load_lines (readLines_assembled hloadable) hlist
  exact ⟨codeGenerator, hload, hfields⟩

theorem load_assembled_stop (sha256 : Sha256) (hcount : 65536 < assembled.length) :
    CodeGenerator.load sha256
      (some (fileText (headerLine :: assembled.map X86Instruction.fileLine))) =
        .error .assertion :=
  CodeGenerator.load_stop (readLines_assembled hloadable) <|
    parseInstructions_stop (isDigest_calculateFileHash sha256 _) (Nat.zero_le _) (by omega)
      hloadable

end

section
variable {asm : Text → Option Bytes → Prop} {instructions : List AssemblyInstruction}
  {workers : ℕ} {trace : List StageEvent} {final : StageState}

theorem exists_of_assembled
    (hrun : PoolRun (assemblerStage asm) (stageStart instructions workers) trace final)
    (hcomplete : StageComplete instructions trace final) {i : X86Instruction}
    (hi : i ∈ (worked trace).filterMap assembledInstruction) :
    asm i.assemblyCode (some i.byteRepresentation) ∧ ∃ j ∈ instructions,
      i = ⟨0, i.byteRepresentation, j.assemblyCode, j.category, j.extension, j.isaSet⟩ := by
  obtain ⟨⟨j, asmBytes⟩, hworked, hassembled⟩ := List.mem_filterMap.mp hi
  obtain ⟨bytes, rfl, rfl⟩ := Option.map_eq_some_iff.mp hassembled
  refine ⟨hrun.possible _ hworked, j, ?_, rfl⟩
  exact hcomplete.assembled.mem_iff.mp (List.mem_map_of_mem (f := Prod.fst) hworked)

theorem loadable_assembled
    (hbytes : ∀ code asmBytes, asm code (some asmBytes) →
      asmBytes ≠ [] ∧ (base64Encode asmBytes).length < 2 ^ 31)
    (hplain : ∀ i ∈ instructions, i.Plain)
    (hrun : PoolRun (assemblerStage asm) (stageStart instructions workers) trace final)
    (hcomplete : StageComplete instructions trace final) :
    ∀ i ∈ (worked trace).filterMap assembledInstruction, Loadable i := by
  intro i hi
  obtain ⟨hasm, j, hj, hfields⟩ := exists_of_assembled hrun hcomplete hi
  refine ⟨?_, (hbytes _ _ hasm).2⟩
  rw [hfields]
  exact hplain j hj

theorem exists_assembled
    (hbytes : ∀ code asmBytes, asm code (some asmBytes) →
      asmBytes ≠ [] ∧ (base64Encode asmBytes).length < 2 ^ 31)
    (hplain : ∀ i ∈ instructions, i.Plain)
    (hrun : PoolRun (assemblerStage asm) (stageStart instructions workers) trace final)
    (hcomplete : StageComplete instructions trace final) :
    ∃ writer assembled, final.reader = .ok writer ∧
      writer.file = fileText (headerLine :: assembled.map X86Instruction.fileLine) ∧
      assembled ~ (worked trace).filterMap assembledInstruction ∧
      (∀ i ∈ assembled, Loadable i) ∧ writer.instructionsWritten = assembled.length := by
  obtain ⟨writer, lines, hwriter, hfile, hlines, hwritten⟩ := hcomplete.file
  have hmap : lines ~
      ((worked trace).filterMap assembledInstruction).map X86Instruction.fileLine := by
    rw [List.map_filterMap]
    exact hlines.trans (List.Perm.of_eq (List.filterMap_congr fun w _ => csvLine_eq w))
  obtain ⟨assembled, hperm, rfl⟩ := exists_perm_of_map hmap
  have hloadable : ∀ i ∈ assembled, Loadable i := fun i hi =>
    loadable_assembled hbytes hplain hrun hcomplete i (hperm.mem_iff.mp hi)
  refine ⟨writer, assembled, hwriter, hfile, hperm, hloadable, ?_⟩
  rw [hwritten, hperm.length_eq, List.length_filterMap_eq_countP]
  exact List.countP_congr fun w _ => by simp [assembledInstruction]

end

/-- However the workers interleave, the written file loads as the assembled instructions in some
order, each with bytes that `asm` returned for its own text. With more of them than indices, the
assertion of the UID stops the fuzzer. -/
theorem assembledFile_loads (asm : Text → Option Bytes → Prop)
    (hbytes : ∀ code asmBytes, asm code (some asmBytes) →
      asmBytes ≠ [] ∧ (base64Encode asmBytes).length < 2 ^ 31)
    (instructions : List AssemblyInstruction) (hplain : ∀ i ∈ instructions, i.Plain)
    (workers : ℕ) (trace : List StageEvent) (final : StageState)
    (hrun : PoolRun (assemblerStage asm) (stageStart instructions workers) trace final)
    (hended : LoopEnded final) (sha256 : Sha256) :
    (worked trace).map Prod.fst ~ instructions ∧
    ∃ writer, final.reader = .ok writer ∧
      (writer.instructionsWritten ≤ 65536 → ∃ codeGenerator,
        CodeGenerator.load sha256 (some writer.file) = .ok codeGenerator ∧
        codeGenerator.instructionList.map X86Instruction.fields ~
          ((worked trace).filterMap assembledInstruction).map X86Instruction.fields ∧
        ∀ i ∈ codeGenerator.instructionList, asm i.assemblyCode (some i.byteRepresentation)) ∧
      (65536 < writer.instructionsWritten →
        CodeGenerator.load sha256 (some writer.file) = .error .assertion) := by
  have hcomplete := stage_complete (fun code asmBytes h => (hbytes code asmBytes h).1)
    (fun i hi => (hplain i hi).undelimited) hrun hended
  obtain ⟨writer, assembled, hwriter, hfile, hperm, hloadable, hcount⟩ :=
    exists_assembled hbytes hplain hrun hcomplete
  refine ⟨hcomplete.assembled, writer, hwriter, fun hfew => ?_, fun hmany => ?_⟩
  · obtain ⟨codeGenerator, hload, hfields⟩ :=
      load_assembled hloadable sha256 (hcount ▸ hfew)
    refine ⟨codeGenerator, hfile ▸ hload, hfields ▸ hperm.map _, fun i hi => ?_⟩
    obtain ⟨j, hj, hsame⟩ := List.mem_map.mp (hfields ▸ List.mem_map_of_mem hi)
    have hbytesEq : j.byteRepresentation = i.byteRepresentation := congrArg Prod.fst hsame
    have hcodeEq : j.assemblyCode = i.assemblyCode := congrArg (fun fields => fields.2.1) hsame
    rw [← hbytesEq, ← hcodeEq]
    exact (exists_of_assembled hrun hcomplete (hperm.mem_iff.mp hj)).1
  · rw [hfile]
    exact load_assembled_stop hloadable sha256 (hcount ▸ hmany)

def assembleHint (code : Text) : Option Bytes :=
  if code = "NOP ".toList then some [0x1f, 0x20, 0x03, 0xd5]
  else if code = "YIELD ".toList then some [0x3f, 0x20, 0x03, 0xd5]
  else none

theorem assembleHint_bytes (code : Text) (asmBytes : Bytes)
    (h : assembleHint code = some asmBytes) :
    asmBytes ≠ [] ∧ (base64Encode asmBytes).length < 2 ^ 31 := by
  unfold assembleHint at h
  split at h
  · rw [← Option.some.inj h]
    decide
  · split at h
    · rw [← Option.some.inj h]
      decide
    · cases h

theorem hints_plain : ∀ i ∈ [hint "NOP ", hint "YIELD "], i.Plain := by
  simp only [List.forall_mem_cons, AssemblyInstruction.Plain]
  exact ⟨by decide, by decide, by simp⟩

/-- The runs that assemble two hints. -/
abbrev HintRun (workers : ℕ) : List StageEvent → StageState → Prop :=
  PoolRun (assemblerStage fun code asmBytes => asmBytes = assembleHint code)
    (stageStart [hint "NOP ", hint "YIELD "] workers)

theorem loopEnded_hints {workers : ℕ} {trace : List StageEvent} {final : StageState}
    (hrun : HintRun workers trace final) (hdrained : final.Drained) : LoopEnded final :=
  (loopEnded_iff (fun code asmBytes h => (assembleHint_bytes code asmBytes h.symm).1)
    (fun i hi => (hints_plain i hi).undelimited) hrun).mpr hdrained

/-- The second of two workers assembles the second hint before the first one is done. -/
theorem hintRun_overtaking : ∃ trace final, HintRun 2 trace final ∧ LoopEnded final ∧
    worked trace = [(hint "YIELD ", some [0x3f, 0x20, 0x03, 0xd5]),
      (hint "NOP ", some [0x1f, 0x20, 0x03, 0xd5])] ∧ (received trace).length = 2 := by
  have hstart : HintRun 2 [] (stageStart [hint "NOP ", hint "YIELD "] 2) := .start
  have hrun := hstart
    |>.step (.get [] [hint "YIELD "] [] [.idle] (hint "NOP ") [] _)
    |>.step (.get [] [] [.holding (hint "NOP ")] [] (hint "YIELD ") [] _)
    |>.step (.work [] [.holding (hint "NOP ")] [] (hint "YIELD ")
      (some [0x3f, 0x20, 0x03, 0xd5]) [] _ rfl)
    |>.step (.put [] [.holding (hint "NOP ")] [] _ [] _)
    |>.step (.receive [] [.holding (hint "NOP "), .idle] [] [] _ _ ⟨_, rfl, by decide⟩)
    |>.step (.work [] [] [.idle] (hint "NOP ") (some [0x1f, 0x20, 0x03, 0xd5]) [] _ rfl)
    |>.step (.put [] [] [.idle] _ [] _)
    |>.step (.receive [] [.idle, .idle] [] [] _ _ ⟨_, rfl, by decide⟩)
  exact ⟨_, _, hrun, loopEnded_hints hrun ⟨rfl, by simp, rfl⟩, rfl, rfl⟩

/-- Two workers and two instructions. -/
theorem assembledFile_loads_nop : ∃ trace final writer codeGenerator, HintRun 2 trace final ∧
    final.reader = .ok writer ∧
    CodeGenerator.load (fun _ => ⟨List.replicate 32 0, rfl⟩) (some writer.file) =
      .ok codeGenerator ∧
    codeGenerator.instructionList.map X86Instruction.fields ~
      [([0x3f, 0x20, 0x03, 0xd5], "YIELD ".toList, "Hint".toList, "ARMv8".toList, "A64".toList),
        ([0x1f, 0x20, 0x03, 0xd5], "NOP ".toList, "Hint".toList, "ARMv8".toList,
          "A64".toList)] := by
  obtain ⟨trace, final, hrun, hended, hworked, hreceived⟩ := hintRun_overtaking
  have hreader := writer_of_run (fun code asmBytes h => (assembleHint_bytes code asmBytes h.symm).1)
    (fun i hi => (hints_plain i hi).undelimited) hrun
  obtain ⟨-, writer, hwriter, hload, -⟩ := assembledFile_loads _
    (fun code asmBytes h => assembleHint_bytes code asmBytes h.symm) _ hints_plain 2 _ _ hrun
    hended fun _ => ⟨List.replicate 32 0, rfl⟩
  obtain rfl := Except.ok.inj (hreader.symm.trans hwriter)
  have hfew : ((received trace).filterMap messageLine).length ≤ 65536 :=
    (List.length_filterMap_le _ _).trans (hreceived.trans_le (by decide))
  obtain ⟨codeGenerator, hloaded, hfields, -⟩ := hload hfew
  rw [hworked] at hfields
  exact ⟨_, _, _, codeGenerator, hrun, hwriter, hloaded, hfields⟩

end OsirisArm
