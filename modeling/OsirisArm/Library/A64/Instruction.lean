import OsirisArm.Library.A64.Machine

/-! # A64 instructions

A decoder and the semantics of a part of the A64 instruction set: the pre- and post-indexed
transfers of register pairs and Q registers, moves and additions, the cycle counter, barriers and
RET. Words with unpredictable behaviour are not decoded.
-/

namespace OsirisArm.Library.A64

/-- Instructions with their operands; `n` is the base register and may be the stack pointer. -/
inductive Instruction where
  | stpPre (t t2 n : Reg) (offset : BitVec 64)
  | ldpPost (t t2 n : Reg) (offset : BitVec 64)
  | strQPre (t n : Reg) (offset : BitVec 64)
  | ldrQPost (t n : Reg) (offset : BitVec 64)
  | addImmediate (d n : Reg) (immediate : BitVec 64)
  | subImmediate (d n : Reg) (immediate : BitVec 64)
  | movz (d : Reg) (immediate : BitVec 64)
  | orrImmediate (d n : Reg) (immediate : BitVec 64)
  | orrRegister (d n m : Reg)
  | subRegister (d n m : Reg)
  | mrsPmcr (t : Reg)
  | msrPmcr (t : Reg)
  | mrsPmccntr (t : Reg)
  | barrier
  | nop
  | ret (n : Reg)
  deriving DecidableEq

namespace Word
variable (w : Word)

def reg (lo : ℕ) : Reg := (w.extractLsb' lo 5).toFin

/-- The signed offset of a pair transfer, in units of eight bytes. -/
def offset7 : BitVec 64 := (w.extractLsb' 15 7).signExtend 64 <<< 3

/-- The signed offset of a single transfer. -/
def offset9 : BitVec 64 := (w.extractLsb' 12 9).signExtend 64

/-- The immediate of an addition, with its optional shift. -/
def immediate12 : BitVec 64 :=
  (w.extractLsb' 10 12).setWidth 64 <<< (if w.getLsbD 22 then 12 else 0)

/-- The immediate of a wide move, with its shift. -/
def immediate16 : BitVec 64 :=
  (w.extractLsb' 5 16).setWidth 64 <<< (16 * (w.extractLsb' 21 2).toNat)

/-- The immediate of a 64-bit logical instruction with N = 1: a run of ones, rotated. -/
def bitmask : BitVec 64 :=
  (BitVec.allOnes 64 >>> (63 - (w.extractLsb' 10 6).toNat)).rotateRight
    (w.extractLsb' 16 6).toNat

/-- The base register is written back and must not be transferred at the same time. -/
def transfers (registers : List Reg) : Bool := w.reg 5 = 31 || w.reg 5 ∉ registers

end Word

def decode (w : Word) : Option Instruction :=
  if w &&& 0xFFC00000 = 0xA9800000 then
    if w.transfers [w.reg 0, w.reg 10] then
      some (.stpPre (w.reg 0) (w.reg 10) (w.reg 5) w.offset7)
    else none
  else if w &&& 0xFFC00000 = 0xA8C00000 then
    if w.transfers [w.reg 0, w.reg 10] && w.reg 0 ≠ w.reg 10 then
      some (.ldpPost (w.reg 0) (w.reg 10) (w.reg 5) w.offset7)
    else none
  else if w &&& 0xFFE00C00 = 0x3C800C00 then some (.strQPre (w.reg 0) (w.reg 5) w.offset9)
  else if w &&& 0xFFE00C00 = 0x3CC00400 then some (.ldrQPost (w.reg 0) (w.reg 5) w.offset9)
  else if w &&& 0xFF800000 = 0x91000000 then
    some (.addImmediate (w.reg 0) (w.reg 5) w.immediate12)
  else if w &&& 0xFF800000 = 0xD1000000 then
    some (.subImmediate (w.reg 0) (w.reg 5) w.immediate12)
  else if w &&& 0xFF800000 = 0xD2800000 then some (.movz (w.reg 0) w.immediate16)
  else if w &&& 0xFFC00000 = 0xB2400000 then
    if w.extractLsb' 10 6 = 63 then none else some (.orrImmediate (w.reg 0) (w.reg 5) w.bitmask)
  else if w &&& 0xFFE0FC00 = 0xAA000000 then some (.orrRegister (w.reg 0) (w.reg 5) (w.reg 16))
  else if w &&& 0xFFE0FC00 = 0xCB000000 then some (.subRegister (w.reg 0) (w.reg 5) (w.reg 16))
  else if w &&& 0xFFFFFFE0 = 0xD53B9C00 then some (.mrsPmcr (w.reg 0))
  else if w &&& 0xFFFFFFE0 = 0xD51B9C00 then some (.msrPmcr (w.reg 0))
  else if w &&& 0xFFFFFFE0 = 0xD53B9D00 then some (.mrsPmccntr (w.reg 0))
  else if w = 0xD5033FBF ∨ w = 0xD5033F9F ∨ w = 0xD5033FDF then some .barrier
  else if w = 0xD503201F then some .nop
  else if w &&& 0xFFFFFC1F = 0xD65F0000 then some (.ret (w.reg 5))
  else none

/-- A transfer through the stack pointer needs it to be aligned. -/
def State.Aligned (s : State) (n : Reg) : Prop := n = 31 → s.sp.toNat % 16 = 0

instance (s : State) (n : Reg) : Decidable (s.Aligned n) := inferInstanceAs (Decidable (_ → _))

/-- The effect of an instruction; `none` is a stack alignment fault. -/
def Instruction.exec (i : Instruction) (s : State) : Option State :=
  match i with
  | .stpPre t t2 n offset =>
    if s.Aligned n then
      some ((s.store (s.r n + offset) (s.z t2 ++ s.z t)).set n (s.r n + offset)).next
    else none
  | .ldpPost t t2 n offset =>
    if s.Aligned n then
      let slot := s.mem.readSlot (s.r n)
      some (((s.setZ t (slot.extractLsb' 0 64)).setZ t2 (slot.extractLsb' 64 64)).set n
        (s.r n + offset)).next
    else none
  | .strQPre t n offset =>
    if s.Aligned n then some ((s.store (s.r n + offset) (s.q t)).set n (s.r n + offset)).next
    else none
  | .ldrQPost t n offset =>
    if s.Aligned n then
      some ((s.setQ t (s.mem.readSlot (s.r n))).set n (s.r n + offset)).next
    else none
  | .addImmediate d n immediate => some (s.set d (s.r n + immediate)).next
  | .subImmediate d n immediate => some (s.set d (s.r n - immediate)).next
  | .movz d immediate => some (s.setZ d immediate).next
  | .orrImmediate d n immediate => some (s.set d (s.z n ||| immediate)).next
  | .orrRegister d n m => some (s.setZ d (s.z n ||| s.z m)).next
  | .subRegister d n m => some (s.setZ d (s.z n - s.z m)).next
  | .mrsPmcr t => some (s.setZ t s.pmcr).next
  | .msrPmcr t => some { s with pmcr := s.z t }.next
  | .mrsPmccntr t => some ({ s with cycles := fun n => s.cycles (n + 1) }.setZ t (s.cycles 0)).next
  | .barrier => some s.next
  | .nop => some s.next
  | .ret n => some { s with pc := s.z n }

/-- Execute the instructions one after the other. -/
def execAll (instructions : List Instruction) (s : State) : Option State :=
  instructions.foldlM (fun s i => i.exec s) s

theorem execAll_cons {i : Instruction} {s t : State} (h : i.exec s = some t)
    (instructions : List Instruction) : execAll (i :: instructions) s = execAll instructions t := by
  rw [execAll, List.foldlM_cons, h]
  rfl

theorem execAll_append {first : List Instruction} {s t : State} (h : execAll first s = some t)
    (second : List Instruction) : execAll (first ++ second) s = execAll second t := by
  rw [execAll, List.foldlM_append]
  change (execAll first s >>= _) = _
  rw [h]
  rfl

/-- An architecture gives every word an effect, the decoded ones that of their instruction. -/
structure Architecture where
  step : Word → State → Option State
  agrees : ∀ {w i}, decode w = some i → step w = i.exec

namespace Architecture

/-- An architecture on which all other words fault. -/
def ofDecode : Architecture where
  step w s := (decode w).bind fun i => i.exec s
  agrees h := by simp [h]

variable (arch : Architecture)

/-- Execute the words one after the other. -/
def run (words : List Word) (s : State) : Option State := words.foldlM (fun s w => arch.step w s) s

@[simp] theorem run_nil (s : State) : arch.run [] s = some s := rfl

theorem run_cons (w : Word) (words : List Word) (s : State) :
    arch.run (w :: words) s = (arch.step w s).bind (arch.run words) := rfl

theorem run_append (first second : List Word) (s : State) :
    arch.run (first ++ second) s = (arch.run first s).bind (arch.run second) := by
  induction first generalizing s with
  | nil => rfl
  | cons w words ih =>
    rw [List.cons_append, run_cons, run_cons]
    cases arch.step w s with
    | none => rfl
    | some t => exact ih t

theorem run_decoded {w : Word} {i : Instruction} (h : decode w = some i) (words : List Word)
    (s : State) : arch.run (w :: words) s = (i.exec s).bind (arch.run words) := by
  rw [run_cons, arch.agrees h]

theorem run_eq_execAll {words : List Word} {instructions : List Instruction}
    (h : words.map decode = instructions.map some) (s : State) :
    arch.run words s = execAll instructions s := by
  induction words generalizing instructions s with
  | nil =>
    obtain rfl := List.map_eq_nil_iff.mp h.symm
    rfl
  | cons w words ih =>
    cases instructions with
    | nil => cases h
    | cons i instructions =>
      obtain ⟨hfirst, hrest⟩ := List.cons.inj h
      rw [arch.run_decoded hfirst, execAll, List.foldlM_cons]
      cases i.exec s with
      | none => rfl
      | some t => exact ih hrest t

end Architecture

end OsirisArm.Library.A64
