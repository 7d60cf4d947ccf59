import Mathlib.Data.BitVec
import Mathlib.Data.List.Basic

/-! # The kernel module for the cycle counter

Loading the module gives user mode access to the cycle counter of every CPU, unloading takes it
back. Both write the control register of the performance monitors through a mask of its six lowest
bits, which cuts off the bit for the long counter.
-/

namespace OsirisArm

/-- The registers of a CPU that the module reads and writes. -/
structure PmuRegisters where
  pmcr : BitVec 64
  pmuserenr : BitVec 64
  pmcntenset : BitVec 64
  pmintenset : BitVec 64

def armv8PmcrMask : BitVec 32 := 0x3f
def armv8PmcrE : BitVec 32 := 1 <<< 0
def armv8PmcrLC : BitVec 32 := 1 <<< 6
def armv8PmintensetOverflow : BitVec 32 := 1 <<< 31

def armv8pmuPmcrRead (registers : PmuRegisters) : BitVec 32 := registers.pmcr.setWidth 32

def armv8pmuPmcrWrite (val : BitVec 32) (registers : PmuRegisters) : PmuRegisters :=
  { registers with pmcr := (val &&& armv8PmcrMask).setWidth 64 }

/-- A one that is written to an enable register sets its bit, a zero leaves it. The masks that clear
the divider and the overflow interrupt have the type `int`. -/
def enableCpuCounters (registers : PmuRegisters) : PmuRegisters :=
  let registers := { registers with pmuserenr := 0xf }
  let registers := { registers with
    pmcntenset := registers.pmcntenset ||| ((1 <<< 31 : BitVec 32).setWidth 64) }
  let val := registers.pmintenset &&& (~~~armv8PmintensetOverflow).signExtend 64
  let registers := { registers with pmintenset := registers.pmintenset ||| val }
  armv8pmuPmcrWrite
    (armv8pmuPmcrRead registers ||| armv8PmcrE ||| (armv8PmcrLC &&& ~~~(1 <<< 3 : BitVec 32)))
    registers

def disableCpuCounters (registers : PmuRegisters) : PmuRegisters :=
  { armv8pmuPmcrWrite (armv8pmuPmcrRead registers ||| ~~~armv8PmcrE) registers with
    pmuserenr := 0 }

/-- Loading and unloading the module, which calls these functions on every CPU. -/
def init (cpus : List PmuRegisters) : List PmuRegisters := cpus.map enableCpuCounters
def fini (cpus : List PmuRegisters) : List PmuRegisters := cpus.map disableCpuCounters

inductive PmuCall where
  | enable
  | disable
  deriving DecidableEq

def PmuCall.run : PmuCall → PmuRegisters → PmuRegisters
  | .enable => enableCpuCounters
  | .disable => disableCpuCounters

/-- The calls of these functions on one CPU. -/
def runCalls (calls : List PmuCall) (registers : PmuRegisters) : PmuRegisters :=
  calls.foldl (fun registers call => call.run registers) registers

namespace PmuRegisters

/-- The bits E, D and LC of the control register. -/
def enabled (registers : PmuRegisters) : Bool := registers.pmcr.getLsbD 0
def divided (registers : PmuRegisters) : Bool := registers.pmcr.getLsbD 3
def longCounter (registers : PmuRegisters) : Bool := registers.pmcr.getLsbD 6

end PmuRegisters

/-- What a call should leave in the control register. -/
def PmuCall.Configures : PmuCall → PmuRegisters → Prop
  | .enable, registers =>
    registers.enabled = true ∧ registers.longCounter = true ∧ registers.divided = false
  | .disable, registers => registers.enabled = false

/-- After every call of the sequence the register is configured as this call should. -/
def AlwaysConfigured (calls : List PmuCall) (registers : PmuRegisters) : Prop :=
  ∀ before call after, calls = before ++ call :: after →
    call.Configures (runCalls (before ++ [call]) registers)

section
variable (registers : PmuRegisters)

theorem getLsbD_armv8pmuPmcrWrite (val : BitVec 32) (i : ℕ) :
    (armv8pmuPmcrWrite val registers).pmcr.getLsbD i = (decide (i < 6) && val.getLsbD i) := by
  have hmask : armv8PmcrMask.getLsbD i = decide (i < 6) := Nat.testBit_two_pow_sub_one 6 i
  simp only [armv8pmuPmcrWrite, BitVec.getLsbD_setWidth, BitVec.getLsbD_and, hmask]
  by_cases hi : i < 6
  · simp [hi, show i < 64 by omega]
  · simp [hi]

/-- Enabling sets E; the other bits stay as they were, as far as they pass the mask. -/
theorem getLsbD_enableCpuCounters (i : ℕ) :
    (enableCpuCounters registers).pmcr.getLsbD i =
      (decide (i < 6) && (registers.pmcr.getLsbD i || decide (i = 0))) := by
  rw [enableCpuCounters, getLsbD_armv8pmuPmcrWrite, BitVec.or_assoc]
  by_cases hi : i < 6
  · have hbits : (armv8PmcrE ||| (armv8PmcrLC &&& ~~~(1 <<< 3 : BitVec 32))).getLsbD i =
        decide (i = 0) := (by decide : ∀ i < 6,
      (armv8PmcrE ||| (armv8PmcrLC &&& ~~~(1 <<< 3 : BitVec 32))).getLsbD i = decide (i = 0)) i hi
    rw [BitVec.getLsbD_or, hbits, armv8pmuPmcrRead, BitVec.getLsbD_setWidth,
      decide_eq_true (by omega : i < 32), Bool.true_and]
  · rw [decide_eq_false hi, Bool.false_and, Bool.false_and]

/-- Disabling keeps E and sets the other bits that pass the mask. -/
theorem getLsbD_disableCpuCounters (i : ℕ) :
    (disableCpuCounters registers).pmcr.getLsbD i =
      (decide (i < 6) && (registers.pmcr.getLsbD i || decide (i ≠ 0))) := by
  change (armv8pmuPmcrWrite _ registers).pmcr.getLsbD i = _
  rw [getLsbD_armv8pmuPmcrWrite]
  by_cases hi : i < 6
  · have hbits : (~~~armv8PmcrE).getLsbD i = decide (i ≠ 0) :=
      (by decide : ∀ i < 6, (~~~armv8PmcrE).getLsbD i = decide (i ≠ 0)) i hi
    rw [BitVec.getLsbD_or, hbits, armv8pmuPmcrRead, BitVec.getLsbD_setWidth,
      decide_eq_true (by omega : i < 32), Bool.true_and]
  · rw [decide_eq_false hi, Bool.false_and, Bool.false_and]

@[simp] theorem enabled_enableCpuCounters : (enableCpuCounters registers).enabled = true := by
  rw [PmuRegisters.enabled, getLsbD_enableCpuCounters]
  exact Bool.or_true _

@[simp] theorem longCounter_enableCpuCounters :
    (enableCpuCounters registers).longCounter = false := by
  rw [PmuRegisters.longCounter, getLsbD_enableCpuCounters]
  rfl

@[simp] theorem divided_enableCpuCounters :
    (enableCpuCounters registers).divided = registers.divided := by
  rw [PmuRegisters.divided, getLsbD_enableCpuCounters]
  exact Bool.or_false _

@[simp] theorem enabled_disableCpuCounters :
    (disableCpuCounters registers).enabled = registers.enabled := by
  rw [PmuRegisters.enabled, getLsbD_disableCpuCounters]
  exact Bool.or_false _

end

/-- The long counter is never on after a call that enables the counters. -/
theorem not_configures_enable (registers : PmuRegisters) :
    ¬ PmuCall.enable.Configures (enableCpuCounters registers) := by
  rintro ⟨-, hlong, -⟩
  rw [longCounter_enableCpuCounters] at hlong
  cases hlong

theorem runCalls_concat (calls : List PmuCall) (call : PmuCall) (registers : PmuRegisters) :
    runCalls (calls ++ [call]) registers = call.run (runCalls calls registers) := by
  rw [runCalls, List.foldl_append]
  rfl

theorem enabled_runCalls {calls : List PmuCall} (h : PmuCall.enable ∉ calls)
    (registers : PmuRegisters) : (runCalls calls registers).enabled = registers.enabled := by
  induction calls generalizing registers with
  | nil => rfl
  | cons call rest ih =>
    rw [List.mem_cons, not_or] at h
    cases call with
    | enable => exact absurd rfl h.1
    | disable => exact (ih h.2 _).trans (enabled_disableCpuCounters registers)

/-- The register is configured after every call exactly if no call enables the counters and none of
them found the counters enabled. -/
theorem alwaysConfigured_iff (calls : List PmuCall) (registers : PmuRegisters) :
    AlwaysConfigured calls registers ↔
      PmuCall.enable ∉ calls ∧ (calls = [] ∨ registers.enabled = false) := by
  constructor
  · intro h
    have hnone : PmuCall.enable ∉ calls := by
      intro hmem
      obtain ⟨before, after, hcalls⟩ := List.append_of_mem hmem
      have hconfigured := h before .enable after hcalls
      rw [runCalls_concat] at hconfigured
      exact not_configures_enable _ hconfigured
    refine ⟨hnone, ?_⟩
    cases calls with
    | nil => exact .inl rfl
    | cons call rest =>
      right
      cases call with
      | enable => exact absurd List.mem_cons_self hnone
      | disable =>
        have hfirst : (disableCpuCounters registers).enabled = false := h [] .disable rest rfl
        rwa [enabled_disableCpuCounters] at hfirst
  · rintro ⟨hnone, hstart⟩ before call after rfl
    have hoff : registers.enabled = false := hstart.resolve_left (by simp)
    cases call with
    | enable => exact absurd (by simp) hnone
    | disable =>
      have hbefore : PmuCall.enable ∉ before := fun hmem => hnone (List.mem_append_left _ hmem)
      rw [runCalls_concat]
      change (disableCpuCounters _).enabled = false
      rw [enabled_disableCpuCounters, enabled_runCalls hbefore, hoff]

/-- Loading the module on a CPU whose registers are all zero. -/
theorem enable_not_alwaysConfigured : ¬ AlwaysConfigured [.enable] ⟨0, 0, 0, 0⟩ := by
  intro h
  exact not_configures_enable _ (h [] .enable [] rfl)

end OsirisArm
