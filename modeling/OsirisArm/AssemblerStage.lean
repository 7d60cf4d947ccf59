import OsirisArm.Base64
import OsirisArm.ParseOperands
import OsirisArm.Library.WorkerPool

/-! # The assembler stage

Several worker processes assemble the instructions of the input queue, the main process writes a
CSV file from the messages of the output queue, one for each instruction. What `asm` makes of an
instruction text is open: it returns bytes or raises `PwnlibException`, and need not do the same
twice.
-/

namespace OsirisArm
open Library
open scoped List

/-- The encoded fields are kept as texts. -/
structure AssemblyInstruction where
  base64ByteRepresentation : Text := []
  assemblyCode : Text
  category : Text
  extension : Text
  isaSet : Text
  deriving DecidableEq

def pythonAssert (condition : Bool) : Except PythonError Unit :=
  if condition then .ok () else .error .assertionError

namespace AssemblyInstruction

def getAssemblyCode (assemblyInstruction : AssemblyInstruction) : Text :=
  assemblyInstruction.assemblyCode

def setBase64EncodedByteRepresentation (assemblyInstruction : AssemblyInstruction)
    (byteRepresentation : Text) : AssemblyInstruction :=
  { assemblyInstruction with base64ByteRepresentation := byteRepresentation }

def getCsvRepresentation (assemblyInstruction : AssemblyInstruction) (delim : Char) :
    Except PythonError Text := do
  pythonAssert (assemblyInstruction.base64ByteRepresentation ≠ [])
  pythonAssert (delim ∉ assemblyInstruction.assemblyCode)
  pythonAssert (delim ∉ assemblyInstruction.category)
  pythonAssert (delim ∉ assemblyInstruction.extension)
  pythonAssert (delim ∉ assemblyInstruction.isaSet)
  return assemblyInstruction.base64ByteRepresentation ++ [delim] ++
    assemblyInstruction.assemblyCode ++ [delim] ++ assemblyInstruction.category ++ [delim] ++
    assemblyInstruction.extension ++ [delim] ++ assemblyInstruction.isaSet

end AssemblyInstruction

/-- What a worker puts into the output queue: whether it succeeded, and the instruction. -/
abbrev WorkerMessage := Bool × Option AssemblyInstruction

/-- The message for an instruction, from the bytes of `asm`, or `none` if it raised. -/
def workerMessage (assemblyInstruction : AssemblyInstruction) (asmBytes : Option Bytes) :
    WorkerMessage :=
  match asmBytes with
  | some asmBytes =>
    (true, some (assemblyInstruction.setBase64EncodedByteRepresentation (base64Encode asmBytes)))
  | none => (false, none)

def headerLine : Text := "byte_representation;assembly_code;category;extension;isa_set".toList

/-- The loop of the main process: the rounds that are left, the file and the counter. -/
structure Writer where
  remaining : ℕ
  file : Text
  instructionsWritten : ℕ

def Writer.start (instructions : ℕ) : Writer := ⟨instructions, headerLine ++ "\n".toList, 0⟩

/-- One round of the loop, with the message it got. -/
def Writer.round (writer : Writer) : WorkerMessage → Except PythonError Writer
  | (true, some assemblyInstruction) => do
    let line ← assemblyInstruction.getCsvRepresentation ';'
    return ⟨writer.remaining - 1, writer.file ++ (line ++ "\n".toList),
      writer.instructionsWritten + 1⟩
  | (true, none) => .error .attributeError
  | (false, _) => .ok { writer with remaining := writer.remaining - 1 }

/-- The workers and the main process. An exception in the main process ends it. -/
def assemblerStage (asm : Text → Option Bytes → Prop) :
    PoolProgram AssemblyInstruction (Option Bytes) WorkerMessage (Except PythonError Writer) where
  possible assemblyInstruction asmBytes := asm assemblyInstruction.getAssemblyCode asmBytes
  answer := workerMessage
  waiting writer := ∃ running, writer = .ok running ∧ 0 < running.remaining
  read writer message := writer >>= fun running => running.round message

abbrev StageState := Pool AssemblyInstruction WorkerMessage (Except PythonError Writer)
abbrev StageEvent := PoolEvent AssemblyInstruction (Option Bytes) WorkerMessage

def stageStart (instructions : List AssemblyInstruction) (workers : ℕ) : StageState :=
  Pool.start instructions workers (.ok (Writer.start instructions.length))

/-- No field of the instruction contains the delimiter. -/
def AssemblyInstruction.Undelimited (assemblyInstruction : AssemblyInstruction) : Prop :=
  ';' ∉ assemblyInstruction.assemblyCode ∧ ';' ∉ assemblyInstruction.category ∧
    ';' ∉ assemblyInstruction.extension ∧ ';' ∉ assemblyInstruction.isaSet

/-- The line of an instruction that was assembled. -/
def csvLine (assembled : AssemblyInstruction × Option Bytes) : Option Text :=
  assembled.2.map fun asmBytes => [';'].intercalate [base64Encode asmBytes,
    assembled.1.assemblyCode, assembled.1.category, assembled.1.extension, assembled.1.isaSet]

def LoopEnded (stage : StageState) : Prop :=
  ∃ writer, stage.reader = .ok writer ∧ writer.remaining = 0

/-- Every instruction was assembled once and answered once, and the file has one line for each
success. -/
structure StageComplete (instructions : List AssemblyInstruction) (trace : List StageEvent)
    (final : StageState) : Prop where
  assembled : (worked trace).map Prod.fst ~ instructions
  messages : received trace ~ (worked trace).map fun w => workerMessage w.1 w.2
  number : (received trace).length = instructions.length
  file : ∃ writer lines, final.reader = .ok writer ∧
    writer.file = fileText (headerLine :: lines) ∧
    lines ~ (worked trace).filterMap csvLine ∧
    writer.instructionsWritten = (worked trace).countP fun w => w.2.isSome
  drained : final.Drained

section
variable {upper : Text → Text}

end

theorem base64Encode_ne_nil {asmBytes : Bytes} (h : asmBytes ≠ []) :
    base64Encode asmBytes ≠ [] := by
  intro hnil
  have hlength := base64Encode_length asmBytes
  rw [hnil, List.length_nil] at hlength
  have hpos := List.length_pos_of_ne_nil h
  omega

theorem getCsvRepresentation_of_undelimited {assemblyInstruction : AssemblyInstruction}
    {asmBytes : Bytes} (hbytes : asmBytes ≠ []) (hfields : assemblyInstruction.Undelimited) :
    (assemblyInstruction.setBase64EncodedByteRepresentation
        (base64Encode asmBytes)).getCsvRepresentation ';' =
      .ok ([';'].intercalate [base64Encode asmBytes, assemblyInstruction.assemblyCode,
        assemblyInstruction.category, assemblyInstruction.extension,
        assemblyInstruction.isaSet]) := by
  obtain ⟨hcode, hcategory, hextension, hisaSet⟩ := hfields
  simp [AssemblyInstruction.getCsvRepresentation, pythonAssert,
    AssemblyInstruction.setBase64EncodedByteRepresentation, base64Encode_ne_nil hbytes, hcode,
    hcategory, hextension, hisaSet, List.intercalate]
  rfl

/-- The line that is written for a message. -/
def messageLine : WorkerMessage → Option Text
  | (true, some assemblyInstruction) =>
    some ([';'].intercalate [assemblyInstruction.base64ByteRepresentation,
      assemblyInstruction.assemblyCode, assemblyInstruction.category,
      assemblyInstruction.extension, assemblyInstruction.isaSet])
  | _ => none

theorem messageLine_workerMessage (assembled : AssemblyInstruction × Option Bytes) :
    messageLine (workerMessage assembled.1 assembled.2) = csvLine assembled := by
  obtain ⟨assemblyInstruction, _ | asmBytes⟩ := assembled <;> rfl

/-- The message of an instruction that can be written. -/
def Writable (message : WorkerMessage) : Prop :=
  ∃ assembled : AssemblyInstruction × Option Bytes, assembled.1.Undelimited ∧
    (∀ asmBytes, assembled.2 = some asmBytes → asmBytes ≠ []) ∧
    workerMessage assembled.1 assembled.2 = message

theorem Writer.round_of_writable (writer : Writer) {message : WorkerMessage}
    (h : Writable message) :
    writer.round message = .ok ⟨writer.remaining - 1,
      writer.file ++ fileText (messageLine message).toList,
      writer.instructionsWritten + (messageLine message).toList.length⟩ := by
  obtain ⟨⟨assemblyInstruction, asmBytes⟩, hfields, hbytes, rfl⟩ := h
  cases asmBytes with
  | none => simp [workerMessage, messageLine, Writer.round, fileText]
  | some asmBytes =>
    have hline := getCsvRepresentation_of_undelimited (hbytes asmBytes rfl) hfields
    simp only [workerMessage, Writer.round, hline]
    simp [messageLine, AssemblyInstruction.setBase64EncodedByteRepresentation, fileText]

/-- The loop of the main process, by induction on the messages. -/
theorem writer_rounds (asm : Text → Option Bytes → Prop) (messages : List WorkerMessage)
    (hwritable : ∀ message ∈ messages, Writable message) (writer : Writer) :
    messages.foldl (assemblerStage asm).read (.ok writer) = .ok
      ⟨writer.remaining - messages.length,
        writer.file ++ fileText (messages.filterMap messageLine),
        writer.instructionsWritten + (messages.filterMap messageLine).length⟩ := by
  induction messages generalizing writer with
  | nil => simp [fileText]
  | cons message messages ih =>
    rw [List.forall_mem_cons] at hwritable
    have hround : (assemblerStage asm).read (.ok writer) message = writer.round message := rfl
    rw [List.foldl_cons, hround, writer.round_of_writable hwritable.1, ih hwritable.2]
    cases hline : messageLine message with
    | none => simp [hline, Nat.sub_sub, Nat.add_comm, fileText]
    | some line => simp [hline, Nat.sub_sub, Nat.add_comm, Nat.add_left_comm, fileText]

section
variable {asm : Text → Option Bytes → Prop} {instructions : List AssemblyInstruction}
  {workers : ℕ} {trace : List StageEvent} {final : StageState}

theorem received_writable (hbytes : ∀ code asmBytes, asm code (some asmBytes) → asmBytes ≠ [])
    (hfields : ∀ i ∈ instructions, i.Undelimited)
    (hrun : PoolRun (assemblerStage asm) (stageStart instructions workers) trace final) :
    ∀ message ∈ received trace, Writable message := by
  intro message hmessage
  obtain ⟨i, hi, asmBytes, hpossible, rfl⟩ := hrun.exists_of_received hmessage
  refine ⟨(i, asmBytes), hfields i hi, ?_, rfl⟩
  rintro asmBytes rfl
  exact hbytes i.getAssemblyCode asmBytes hpossible

/-- The main process is never stopped by an assertion. -/
theorem writer_of_run (hbytes : ∀ code asmBytes, asm code (some asmBytes) → asmBytes ≠ [])
    (hfields : ∀ i ∈ instructions, i.Undelimited)
    (hrun : PoolRun (assemblerStage asm) (stageStart instructions workers) trace final) :
    final.reader = .ok ⟨instructions.length - (received trace).length,
      fileText (headerLine :: (received trace).filterMap messageLine),
      ((received trace).filterMap messageLine).length⟩ := by
  rw [hrun.reader]
  refine (writer_rounds asm _ (received_writable hbytes hfields hrun) _).trans ?_
  simp [Writer.start, fileText]

/-- The loop has ended exactly if every instruction was answered and every answer received. -/
theorem loopEnded_iff (hbytes : ∀ code asmBytes, asm code (some asmBytes) → asmBytes ≠ [])
    (hfields : ∀ i ∈ instructions, i.Undelimited)
    (hrun : PoolRun (assemblerStage asm) (stageStart instructions workers) trace final) :
    LoopEnded final ↔ final.Drained := by
  have hwriter := writer_of_run hbytes hfields hrun
  have hlength := hrun.received_length
  rw [Pool.drained_iff]
  constructor
  · rintro ⟨writer, hreader, hremaining⟩
    rw [hwriter] at hreader
    obtain rfl := Except.ok.inj hreader
    simp only at hremaining
    omega
  · intro h
    exact ⟨_, hwriter, by simp only; omega⟩

/-- Until the loop has ended there is always a worker or the main process that can go on. -/
theorem stage_progress (hbytes : ∀ code asmBytes, asm code (some asmBytes) → asmBytes ≠ [])
    (htotal : ∀ code, ∃ asmBytes, asm code asmBytes)
    (hfields : ∀ i ∈ instructions, i.Undelimited) (hworkers : 0 < workers)
    (hrun : PoolRun (assemblerStage asm) (stageStart instructions workers) trace final) :
    LoopEnded final ∨ ∃ event next, PoolStep (assemblerStage asm) final event next := by
  rw [or_iff_not_imp_left]
  intro hrunning
  have hdrained : ¬ final.Drained := fun h =>
    hrunning ((loopEnded_iff hbytes hfields hrun).mpr h)
  have hlength := hrun.workers_length
  have hwriter := writer_of_run hbytes hfields hrun
  have hremaining : 0 < instructions.length - (received trace).length := by
    rw [Nat.pos_iff_ne_zero]
    exact fun h => hrunning ⟨_, hwriter, h⟩
  refine Pool.exists_step ?_ (fun i => htotal i.getAssemblyCode) ⟨_, hwriter, hremaining⟩ hdrained
  rw [← List.length_pos_iff, hlength, stageStart, Pool.start, List.length_replicate]
  exact hworkers

theorem stage_complete (hbytes : ∀ code asmBytes, asm code (some asmBytes) → asmBytes ≠ [])
    (hfields : ∀ i ∈ instructions, i.Undelimited)
    (hrun : PoolRun (assemblerStage asm) (stageStart instructions workers) trace final)
    (hended : LoopEnded final) : StageComplete instructions trace final := by
  have hdrained := (loopEnded_iff hbytes hfields hrun).mp hended
  obtain ⟨hassembled, hmessages⟩ := hrun.complete hdrained
  have hlines : (received trace).filterMap messageLine ~ (worked trace).filterMap csvLine := by
    refine (hmessages.filterMap messageLine).trans (List.Perm.of_eq ?_)
    rw [List.filterMap_map]
    exact List.filterMap_congr fun w _ => messageLine_workerMessage w
  have hnumber := hrun.received_length
  rw [Pool.drained_iff.mp hdrained, Nat.add_zero] at hnumber
  refine ⟨hassembled, hmessages, hnumber,
    ⟨_, _, writer_of_run hbytes hfields hrun, rfl, hlines, ?_⟩, hdrained⟩
  rw [hlines.length_eq, List.length_filterMap_eq_countP]
  exact List.countP_congr fun w _ => by simp [csvLine]

end

/-- If `asm` always does the same, then so do the workers. -/
theorem worked_of_function {assemble : Text → Option Bytes}
    {instructions : List AssemblyInstruction} {workers : ℕ} {trace : List StageEvent}
    {final : StageState}
    (hrun : PoolRun (assemblerStage fun code asmBytes => asmBytes = assemble code)
      (stageStart instructions workers) trace final) :
    worked trace = ((worked trace).map Prod.fst).map fun i => (i, assemble i.assemblyCode) := by
  rw [List.map_map]
  refine (List.map_id _).symm.trans (List.map_congr_left ?_)
  intro w hw
  exact Prod.ext rfl (hrun.possible w hw)

/-- In every interleaving the main process gets one message for each instruction and the file one
line for each instruction that was assembled, and every interleaving gets there. -/
theorem assemblerStage_conserves (asm : Text → Option Bytes → Prop)
    (hbytes : ∀ code asmBytes, asm code (some asmBytes) → asmBytes ≠ [])
    (htotal : ∀ code, ∃ asmBytes, asm code asmBytes) (instructions : List AssemblyInstruction)
    (hfields : ∀ i ∈ instructions, i.Undelimited) (workers : ℕ) (hworkers : 0 < workers)
    (trace : List StageEvent) (final : StageState)
    (hrun : PoolRun (assemblerStage asm) (stageStart instructions workers) trace final) :
    trace.length ≤ 4 * instructions.length ∧
      (received trace).length ≤ instructions.length ∧
      (LoopEnded final ∨ ∃ event next, PoolStep (assemblerStage asm) final event next) ∧
      (LoopEnded final → StageComplete instructions trace final) := by
  refine ⟨hrun.length_le, ?_, stage_progress hbytes htotal hfields hworkers hrun,
    stage_complete hbytes hfields hrun⟩
  have hnumber := hrun.received_length
  omega

def hint (assemblyCode : String) : AssemblyInstruction where
  assemblyCode := assemblyCode.toList
  category := "Hint".toList
  extension := "ARMv8".toList
  isaSet := "A64".toList

/-- An assembler that knows one instruction. -/
def assembleNop (code : Text) : Option Bytes :=
  if code = "NOP ".toList then some [0x1f, 0x20, 0x03, 0xd5] else none

def AssemblesNop (code : Text) (asmBytes : Option Bytes) : Prop := asmBytes = assembleNop code

theorem AssemblesNop.ne_nil (code : Text) (asmBytes : Bytes)
    (h : AssemblesNop code (some asmBytes)) : asmBytes ≠ [] := by
  rw [AssemblesNop, assembleNop] at h
  split at h
  · rw [Option.some.inj h]
    exact List.cons_ne_nil _ _
  · cases h

theorem assemblerStage_conserves_nop :
    ∃ trace final, LoopEnded final ∧
      StageComplete [hint "NOP ", hint "NPO "] trace final := by
  have hfields : ∀ i ∈ [hint "NOP ", hint "NPO "], i.Undelimited := by
    simp only [List.forall_mem_cons, AssemblyInstruction.Undelimited]
    exact ⟨by decide, by decide, by simp⟩
  have hstart : PoolRun (assemblerStage AssemblesNop) (stageStart [hint "NOP ", hint "NPO "] 2) []
    (stageStart [hint "NOP ", hint "NPO "] 2) := .start
  have hrun := hstart
    |>.step (.get [] [hint "NPO "] [] [.idle] (hint "NOP ") [] _)
    |>.step (.get [] [] [.holding (hint "NOP ")] [] (hint "NPO ") [] _)
    |>.step (.work [] [.holding (hint "NOP ")] [] (hint "NPO ") none [] _ rfl)
    |>.step (.put [] [.holding (hint "NOP ")] [] (false, none) [] _)
    |>.step (.work [] [] [.idle] (hint "NOP ") (some [0x1f, 0x20, 0x03, 0xd5]) [_] _ rfl)
    |>.step (.put [] [] [.idle] _ [(false, none)] _)
    |>.step (.receive [] [.idle, .idle] [(false, none)] [] _ _ ⟨_, rfl, by decide⟩)
    |>.step (.receive [] [.idle, .idle] [] [] (false, none) _ ⟨_, rfl, by decide⟩)
  have hended := (loopEnded_iff AssemblesNop.ne_nil hfields hrun).mpr ⟨rfl, by simp, rfl⟩
  have hstage := assemblerStage_conserves AssemblesNop AssemblesNop.ne_nil
    (fun code => ⟨assembleNop code, rfl⟩) _ hfields 2 (by decide) _ _ hrun
  exact ⟨_, _, hended, hstage.2.2.2 hended⟩

end OsirisArm
