import OsirisArm.AssemblerStage
import OsirisArm.Library.CrashingPool

/-! # Workers of the assembler that die

A worker expects only `PwnlibException`. With any other exception, of `asm` or of the error log, its
process ends and the main process waits for one message more than it gets.
-/

namespace OsirisArm
open Library
open scoped List

/-- The process of a worker can end with an exception for an instruction with one of these texts. -/
abbrev StageRun (asm : Text → Option Bytes → Prop) (dies : Text → Prop)
    (instructions : List AssemblyInstruction) (workers : ℕ) :=
  CrashRun (assemblerStage asm) (fun i : AssemblyInstruction => dies i.getAssemblyCode)
    (stageStart instructions workers)

/-- The main process waits forever. The file has the lines of all instructions that were assembled,
and an instruction is left in the queue only if all workers have died. -/
structure StageHangs (instructions : List AssemblyInstruction) (workers : ℕ)
    (trace : List StageEvent) (lost : List AssemblyInstruction) (final : StageState) : Prop where
  lost_ne_nil : lost ≠ []
  accounted : final.input ++ lost ++ (worked trace).map Prod.fst ~ instructions
  taken : final.input = [] ∨ lost.length = workers
  file : ∃ writer lines, final.reader = .ok writer ∧
    writer.remaining = final.input.length + lost.length ∧
    writer.file = fileText (headerLine :: lines) ∧
    lines ~ (worked trace).filterMap csvLine

section
variable {asm : Text → Option Bytes → Prop} {dies : Text → Prop}
  {instructions : List AssemblyInstruction} {workers : ℕ} {trace : List StageEvent}
  {lost : List AssemblyInstruction} {final : StageState}
  (hrun : StageRun asm dies instructions workers trace lost final)

include hrun

/-- At every moment the file has lines of assembled instructions, each at most once. -/
theorem lines_of_crashRun :
    ∃ pending, (received trace).filterMap messageLine ++ pending ~
      (worked trace).filterMap csvLine := by
  refine ⟨(final.finished ++ final.output).filterMap messageLine, ?_⟩
  have hmessages := (List.perm_append_comm.trans hrun.messages).filterMap messageLine
  rw [List.filterMap_append, List.filterMap_map] at hmessages
  refine hmessages.trans (List.Perm.of_eq ?_)
  exact List.filterMap_congr fun w _ => messageLine_workerMessage w

variable (hbytes : ∀ code asmBytes, asm code (some asmBytes) → asmBytes ≠ [])
  (hfields : ∀ i ∈ instructions, i.Undelimited)
include hbytes hfields

theorem writer_of_crashRun :
    final.reader = .ok ⟨instructions.length - (received trace).length,
      fileText (headerLine :: (received trace).filterMap messageLine),
      ((received trace).filterMap messageLine).length⟩ := by
  obtain ⟨workers', -, hdelayed⟩ := hrun.delayed
  have hwriter := writer_of_run hbytes hfields hdelayed
  exact hwriter

theorem loopEnded_crashRun_iff : LoopEnded final ↔ lost = [] ∧ final.Drained := by
  have hwriter := writer_of_crashRun hrun hbytes hfields
  have hlength := hrun.received_length
  rw [Pool.drained_iff, ← List.length_eq_zero_iff]
  constructor
  · rintro ⟨writer, hreader, hremaining⟩
    obtain rfl := Except.ok.inj (hwriter.symm.trans hreader)
    simp only at hremaining
    omega
  · rintro ⟨hlost, hunanswered⟩
    exact ⟨_, hwriter, by simp only; omega⟩

theorem stage_complete_of_crashRun (hended : LoopEnded final) :
    StageComplete instructions trace final := by
  obtain ⟨rfl, hdrained⟩ := (loopEnded_crashRun_iff hrun hbytes hfields).mp hended
  obtain ⟨workers', hworkers, hdelayed⟩ := hrun.delayed
  have hcomplete := stage_complete hbytes hfields hdelayed hended
  exact ⟨hcomplete.assembled, hcomplete.messages, hcomplete.number, hcomplete.file, hdrained⟩

theorem loopEnded_or_hangs (hworkers : 0 < workers)
    (htotal : ∀ code, (∃ asmBytes, asm code asmBytes) ∨ dies code)
    (hstuck : final.Stuck (assemblerStage asm) fun i => dies i.getAssemblyCode) :
    LoopEnded final ∨ StageHangs instructions workers trace lost final := by
  rw [or_iff_not_imp_left]
  intro hrunning
  have hwriter := writer_of_crashRun hrun hbytes hfields
  have hremaining : 0 < instructions.length - (received trace).length := by
    rw [Nat.pos_iff_ne_zero]
    exact fun h => hrunning ⟨_, hwriter, h⟩
  obtain ⟨houtput, hidle, hinput⟩ :=
    hstuck.idle (fun i => htotal i.getAssemblyCode) ⟨_, hwriter, hremaining⟩
  have hheld := Pool.held_of_idle hidle
  have hfinished := Pool.finished_of_idle hidle
  have hleft : instructions.length - (received trace).length =
      final.input.length + lost.length := by
    have hlength := hrun.received_length
    rw [Pool.unanswered, hheld, hfinished, houtput] at hlength
    simp only [List.length_nil] at hlength
    omega
  have halive := hrun.workers_length
  rw [stageStart, Pool.start, List.length_replicate] at halive
  have htaken : final.input = [] ∨ lost.length = workers := by
    refine hinput.imp_right fun hdead => ?_
    rw [hdead, List.length_nil, Nat.zero_add] at halive
    exact halive
  refine ⟨?_, ?_, htaken, _, _, hwriter, hleft, rfl, ?_⟩
  · rintro rfl
    rw [hleft] at hremaining
    rcases htaken with h | h
    · rw [h] at hremaining
      exact absurd hremaining (lt_irrefl 0)
    · exact absurd h hworkers.ne
  · have hjobs := hrun.jobs
    rwa [hheld, List.append_nil] at hjobs
  · have hmessages := hrun.messages.filterMap messageLine
    rw [hfinished, houtput, List.nil_append, List.nil_append, List.filterMap_map] at hmessages
    refine hmessages.trans (List.Perm.of_eq ?_)
    exact List.filterMap_congr fun w _ => messageLine_workerMessage w

end

/-- In every interleaving in which workers may die, no instruction is written twice or invented, and
the loop of the main process ends exactly if no instruction is lost with its worker; otherwise the
main process waits forever after finitely many steps. -/
theorem assemblerStage_workersDie (asm : Text → Option Bytes → Prop) (dies : Text → Prop)
    (hbytes : ∀ code asmBytes, asm code (some asmBytes) → asmBytes ≠ [])
    (htotal : ∀ code, (∃ asmBytes, asm code asmBytes) ∨ dies code)
    (instructions : List AssemblyInstruction) (hfields : ∀ i ∈ instructions, i.Undelimited)
    (workers : ℕ) (hworkers : 0 < workers) (trace : List StageEvent)
    (lost : List AssemblyInstruction) (final : StageState)
    (hrun : StageRun asm dies instructions workers trace lost final) :
    trace.length + 3 * lost.length ≤ 4 * instructions.length ∧
      final.input ++ final.held ++ lost ++ (worked trace).map Prod.fst ~ instructions ∧
      (∃ writer lines pending, final.reader = .ok writer ∧
        writer.file = fileText (headerLine :: lines) ∧
        lines ++ pending ~ (worked trace).filterMap csvLine) ∧
      (LoopEnded final ↔ lost = [] ∧ final.Drained) ∧
      (LoopEnded final → StageComplete instructions trace final) ∧
      (final.Stuck (assemblerStage asm) (fun i => dies i.getAssemblyCode) →
        LoopEnded final ∨ StageHangs instructions workers trace lost final) := by
  obtain ⟨pending, hlines⟩ := lines_of_crashRun hrun
  exact ⟨hrun.length_le, hrun.jobs,
    ⟨_, _, pending, writer_of_crashRun hrun hbytes hfields, rfl, hlines⟩,
    loopEnded_crashRun_iff hrun hbytes hfields, stage_complete_of_crashRun hrun hbytes hfields,
    loopEnded_or_hangs hrun hbytes hfields hworkers htotal⟩

/-- One of two workers dies, and the main process waits for it. -/
theorem assemblerStage_workersDie_hangs : ∃ trace lost final,
    StageRun AssemblesNop (fun code => code = "NPO ".toList) [hint "NPO ", hint "NOP "] 2 trace
      lost final ∧
    StageHangs [hint "NPO ", hint "NOP "] 2 trace lost final := by
  have hfields : ∀ i ∈ [hint "NPO ", hint "NOP "], i.Undelimited := by
    simp only [List.forall_mem_cons, AssemblyInstruction.Undelimited]
    exact ⟨by decide, by decide, by simp⟩
  have hstart : StageRun AssemblesNop (fun code => code = "NPO ".toList)
    [hint "NPO ", hint "NOP "] 2 [] [] (stageStart [hint "NPO ", hint "NOP "] 2) := .start
  have hrun := hstart
    |>.step (.get [] [hint "NOP "] [] [.idle] (hint "NPO ") [] _)
    |>.crash _ [] [.idle] (hint "NPO ") [] _ rfl
    |>.step (.get [] [] [] [] (hint "NOP ") [] _)
    |>.step (.work [] [] [] (hint "NOP ") (some [0x1f, 0x20, 0x03, 0xd5]) [] _ rfl)
    |>.step (.put [] [] [] _ [] _)
    |>.step (.receive [] [.idle] [] [] _ _ ⟨_, rfl, by decide⟩)
  obtain ⟨-, -, -, hended, -, hstuck⟩ := assemblerStage_workersDie AssemblesNop
    (fun code => code = "NPO ".toList) AssemblesNop.ne_nil
    (fun code => .inl ⟨assembleNop code, rfl⟩) _ hfields 2 (by decide) _ _ _ hrun
  refine ⟨_, _, _, hrun, (hstuck (Pool.Drained.stuck ⟨rfl, by simp, rfl⟩)).resolve_left ?_⟩
  rw [hended]
  rintro ⟨hlost, -⟩
  cases hlost

end OsirisArm
