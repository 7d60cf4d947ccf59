import OsirisArm.AssembledList
import OsirisArm.CleanedSearch

/-! # Searching an assembled list

The workers of the assembler stage race, so two of its runs write the same lines in different
orders. A search finds the same with either file, up to the order of its rows and the UIDs in them.
-/

namespace OsirisArm
open Library Library.Emission
open scoped List

namespace Search

theorem resetTriples_perm {list list' : List InstructionFields} (h : list ~ list')
    (measurement trigger : InstructionFields) :
    resetTriples list measurement trigger ~ resetTriples list' measurement trigger := by
  unfold resetTriples
  split
  · exact .refl []
  · exact h.map _

theorem fieldTriples_perm (search : Search) {list list' : List InstructionFields}
    (h : list ~ list') : search.fieldTriples list ~ search.fieldTriples list' := by
  cases search with
  | withoutAssumptions threshold =>
    exact h.flatMap fun measurement _ =>
      h.flatMap fun trigger _ => resetTriples_perm h measurement trigger
  | triggerEqualsMeasurement negativeThreshold positiveThreshold =>
    exact h.flatMap fun trigger _ => resetTriples_perm h trigger trigger

theorem Repeatable.rows_perm {σ : Type} {search : Search} {api : ExecutorApi σ}
    {speculation : Bool} {results : InstructionTriple → TripleTests}
    {codeGenerator codeGenerator' : CodeGenerator}
    (h : search.Repeatable api codeGenerator speculation results)
    (hperm : codeGenerator.instructionList.map X86Instruction.fields ~
      codeGenerator'.instructionList.map X86Instruction.fields) (s s' : σ) :
    (search.rows api codeGenerator speculation s).map ResultRow.fields ~
      (search.rows api codeGenerator' speculation s').map ResultRow.fields := by
  have htriples := search.fieldTriples_perm hperm
  have htests := h.test_fields s codeGenerator fun _ hfields => hfields
  have htests' := h.test_fields s codeGenerator' fun fields hfields => htriples.mem_iff.mpr hfields
  rw [rows_fields htests, rows_fields htests']
  exact htriples.filterMap _

end Search

/-- The instructions that can be assembled. -/
def assembledInstructions (assemble : Text → Option Bytes)
    (instructions : List AssemblyInstruction) : List X86Instruction :=
  instructions.filterMap fun i => assembledInstruction (i, assemble i.assemblyCode)

section
variable {assemble : Text → Option Bytes} {instructions : List AssemblyInstruction}

theorem worked_perm {workers : ℕ} {trace : List StageEvent} {final : StageState}
    (hrun : PoolRun (assemblerStage fun code asmBytes => asmBytes = assemble code)
      (stageStart instructions workers) trace final)
    (hcomplete : StageComplete instructions trace final) :
    (worked trace).filterMap assembledInstruction ~
      assembledInstructions assemble instructions := by
  rw [worked_of_function hrun, List.filterMap_map]
  exact hcomplete.assembled.filterMap _

variable (hbytes : ∀ code asmBytes, assemble code = some asmBytes →
    asmBytes ≠ [] ∧ (base64Encode asmBytes).length < 2 ^ 31)
  (hplain : ∀ i ∈ instructions, i.Plain)
  (hfew : (assembledInstructions assemble instructions).length ≤ 65536)
include hbytes hplain hfew

/-- A run of the stage that has ended leaves a file that loads. -/
theorem exists_loaded {workers : ℕ} {trace : List StageEvent} {final : StageState}
    (hrun : PoolRun (assemblerStage fun code asmBytes => asmBytes = assemble code)
      (stageStart instructions workers) trace final) (hended : LoopEnded final)
    (sha256 : Sha256) :
    ∃ writer codeGenerator, final.reader = .ok writer ∧
      CodeGenerator.load sha256 (some writer.file) = .ok codeGenerator ∧
      codeGenerator.instructionList.map X86Instruction.fields ~
        (assembledInstructions assemble instructions).map X86Instruction.fields := by
  have hreturned (code : Text) (asmBytes : Bytes) (h : some asmBytes = assemble code) :
      asmBytes ≠ [] ∧ (base64Encode asmBytes).length < 2 ^ 31 := hbytes code asmBytes h.symm
  have hcomplete := stage_complete (fun code asmBytes h => (hreturned code asmBytes h).1)
    (fun i hi => (hplain i hi).undelimited) hrun hended
  obtain ⟨writer, assembled, hwriter, hfile, hworked, hloadable, -⟩ :=
    exists_assembled hreturned hplain hrun hcomplete
  have hperm := hworked.trans (worked_perm hrun hcomplete)
  obtain ⟨codeGenerator, hload, hfields⟩ :=
    load_assembled hloadable sha256 (hperm.length_eq ▸ hfew)
  exact ⟨writer, codeGenerator, hwriter, hfile ▸ hload, hfields ▸ hperm.map _⟩

/-- However the workers of two runs of the assembler stage interleave, and however many there are,
either file loads and a search finds the same with both, up to order and UIDs. -/
theorem assembledSearch_interleavings {workers workers' : ℕ} {trace trace' : List StageEvent}
    {final final' : StageState}
    (hrun : PoolRun (assemblerStage fun code asmBytes => asmBytes = assemble code)
      (stageStart instructions workers) trace final) (hended : LoopEnded final)
    (hrun' : PoolRun (assemblerStage fun code asmBytes => asmBytes = assemble code)
      (stageStart instructions workers') trace' final') (hended' : LoopEnded final')
    (sha256 : Sha256) :
    ∃ writer writer' codeGenerator codeGenerator',
      final.reader = .ok writer ∧ final'.reader = .ok writer' ∧
      CodeGenerator.load sha256 (some writer.file) = .ok codeGenerator ∧
      CodeGenerator.load sha256 (some writer'.file) = .ok codeGenerator' ∧
      ∀ {σ : Type} (search : Search) (api : ExecutorApi σ) speculation results,
        search.Repeatable api codeGenerator speculation results → ∀ s s',
          (search.rows api codeGenerator speculation s).map ResultRow.fields ~
            (search.rows api codeGenerator' speculation s').map ResultRow.fields := by
  obtain ⟨writer, codeGenerator, hwriter, hload, hfields⟩ :=
    exists_loaded hbytes hplain hfew hrun hended sha256
  obtain ⟨writer', codeGenerator', hwriter', hload', hfields'⟩ :=
    exists_loaded hbytes hplain hfew hrun' hended' sha256
  refine ⟨writer, writer', codeGenerator, codeGenerator', hwriter, hwriter', hload, hload', ?_⟩
  intro σ search api speculation results hrepeatable s s'
  exact hrepeatable.rows_perm (hfields.trans hfields'.symm) s s'

end

/-- One worker assembles the first instruction first, of two the second one may be faster. -/
theorem assembledSearch_interleavings_hints :
    ∃ trace trace' final final' writer writer' codeGenerator codeGenerator',
      HintRun 1 trace final ∧ HintRun 2 trace' final' ∧
      final.reader = .ok writer ∧ final'.reader = .ok writer' ∧
      CodeGenerator.load (fun _ => ⟨List.replicate 32 0, rfl⟩) (some writer.file) =
        .ok codeGenerator ∧
      CodeGenerator.load (fun _ => ⟨List.replicate 32 0, rfl⟩) (some writer'.file) =
        .ok codeGenerator' ∧
      ((Search.withoutAssumptions 50).rows udfApi codeGenerator false ()).map ResultRow.fields ~
        ((Search.withoutAssumptions 50).rows udfApi codeGenerator' false ()).map
          ResultRow.fields := by
  have hstart : HintRun 1 [] (stageStart [hint "NOP ", hint "YIELD "] 1) := .start
  have hrun := hstart
    |>.step (.get [] [hint "YIELD "] [] [] (hint "NOP ") [] _)
    |>.step (.work [hint "YIELD "] [] [] (hint "NOP ") (some [0x1f, 0x20, 0x03, 0xd5]) [] _ rfl)
    |>.step (.put [hint "YIELD "] [] [] _ [] _)
    |>.step (.receive [hint "YIELD "] [.idle] [] [] _ _ ⟨_, rfl, by decide⟩)
    |>.step (.get [] [] [] [] (hint "YIELD ") [] _)
    |>.step (.work [] [] [] (hint "YIELD ") (some [0x3f, 0x20, 0x03, 0xd5]) [] _ rfl)
    |>.step (.put [] [] [] _ [] _)
    |>.step (.receive [] [.idle] [] [] _ _ ⟨_, rfl, by decide⟩)
  have hended := loopEnded_hints hrun ⟨rfl, by simp, rfl⟩
  obtain ⟨_, _, hrun', hended', -⟩ := hintRun_overtaking
  obtain ⟨writer, writer', codeGenerator, codeGenerator', hwriter, hwriter', hload, hload',
    hrows⟩ := assembledSearch_interleavings assembleHint_bytes hints_plain (by decide) hrun hended
      hrun' hended' fun _ => ⟨List.replicate 32 0, rfl⟩
  exact ⟨_, _, _, _, writer, writer', codeGenerator, codeGenerator', hrun, hrun', hwriter, hwriter',
    hload, hload', hrows _ udfApi false _ (repeatable_udf _ codeGenerator false) () ()⟩

end OsirisArm
