import Mathlib.Algebra.Group.Pi.Basic
import Mathlib.Algebra.Ring.Nat
import Mathlib.Data.BitVec
import Mathlib.Order.Fin.Basic

/-! # The state of an A64 machine

The registers, the memory and the system registers that user code can see. Register 31 of the
register file is the stack pointer; instructions for which this number means the zero register use
their own accessors. Memory is little-endian and accessed in slots of sixteen bytes.
-/

namespace OsirisArm.Library.A64

abbrev Word := BitVec 32
abbrev Reg := Fin 32
abbrev Memory := BitVec 64 → BitVec 8

/-- Register numbers are numerals. -/
instance neZero_registers : NeZero 32 := ⟨by decide⟩

structure State where
  r : Reg → BitVec 64
  q : Reg → BitVec 128
  mem : Memory
  pc : BitVec 64
  pmcr : BitVec 64
  cycles : ℕ → BitVec 64

namespace Memory

/-- The number stored in the bytes from `address` on. -/
def read (mem : Memory) : BitVec 64 → (bytes : ℕ) → BitVec (8 * bytes)
  | _, 0 => 0
  | address, bytes + 1 => read mem (address + 1) bytes ++ mem address

/-- Store a slot of sixteen bytes. -/
def write (mem : Memory) (address : BitVec 64) (value : BitVec 128) : Memory := fun a =>
  if (a - address).toNat < 16 then value.extractLsb' (8 * (a - address).toNat) 8 else mem a

def readSlot (mem : Memory) (address : BitVec 64) : BitVec 128 := read mem address 16

theorem add_ofNat_succ (address : BitVec 64) (i : ℕ) :
    address + BitVec.ofNat 64 (i + 1) = address + 1 + BitVec.ofNat 64 i := by
  rw [BitVec.ofNat_add, BitVec.add_comm (BitVec.ofNat 64 i), ← BitVec.add_assoc]
  rfl

theorem read_congr {mem mem' : Memory} {address : BitVec 64} {bytes : ℕ}
    (h : ∀ i < bytes, mem (address + BitVec.ofNat 64 i) = mem' (address + BitVec.ofNat 64 i)) :
    read mem address bytes = read mem' address bytes := by
  induction bytes generalizing address with
  | zero => rfl
  | succ n ih =>
    have hfirst := h 0 (by omega)
    rw [BitVec.add_zero] at hfirst
    have hrest : read mem (address + 1) n = read mem' (address + 1) n := by
      apply ih
      intro i hi
      have hnext := h (i + 1) (by omega)
      rwa [add_ofNat_succ] at hnext
    rw [read, read, hfirst, hrest]

theorem write_apply (mem : Memory) (address : BitVec 64) (value : BitVec 128) {i : ℕ}
    (h : i < 16) :
    mem.write address value (address + BitVec.ofNat 64 i) = value.extractLsb' (8 * i) 8 := by
  have hoffset : (address + BitVec.ofNat 64 i - address).toNat = i := by
    rw [BitVec.add_comm, BitVec.add_sub_cancel, BitVec.toNat_ofNat, Nat.mod_eq_of_lt (by omega)]
  rw [write, hoffset, if_pos h]

theorem readSlot_write (mem : Memory) (address : BitVec 64) (value : BitVec 128) :
    (mem.write address value).readSlot address = value := by
  have hpart (n k : ℕ) (hn : k + n ≤ 16) :
      (mem.write address value).read (address + BitVec.ofNat 64 k) n =
        value.extractLsb' (8 * k) (8 * n) := by
    induction n generalizing k with
    | zero => exact BitVec.eq_of_zero_length rfl
    | succ n ih =>
      have hrest := ih (k + 1) (by omega)
      rw [add_ofNat_succ, BitVec.add_assoc, BitVec.add_comm 1, ← BitVec.add_assoc] at hrest
      rw [read, write_apply mem address value (by omega), hrest]
      exact BitVec.extractLsb'_append_extractLsb'_eq_extractLsb' (by omega)
  have hwhole := hpart 16 0 le_rfl
  rw [BitVec.add_zero] at hwhole
  rw [readSlot, hwhole]
  exact BitVec.extractLsb'_eq_self

end Memory

namespace State
variable (s : State)

def sp : BitVec 64 := s.r 31

/-- A register operand for which number 31 is the zero register. -/
def z (n : Reg) : BitVec 64 := if n = 31 then 0 else s.r n

def set (n : Reg) (value : BitVec 64) : State := { s with r := Function.update s.r n value }

/-- Writing the zero register has no effect. -/
def setZ (n : Reg) (value : BitVec 64) : State := if n = 31 then s else s.set n value

def setQ (n : Reg) (value : BitVec 128) : State := { s with q := Function.update s.q n value }

def store (address : BitVec 64) (value : BitVec 128) : State :=
  { s with mem := s.mem.write address value }

/-- Go on with the next word. -/
def next : State := { s with pc := s.pc + 4 }

@[simp] theorem set_r (n : Reg) (v : BitVec 64) : (s.set n v).r = Function.update s.r n v := rfl
@[simp] theorem set_q (n : Reg) (v : BitVec 64) : (s.set n v).q = s.q := rfl
@[simp] theorem set_mem (n : Reg) (v : BitVec 64) : (s.set n v).mem = s.mem := rfl
@[simp] theorem set_pc (n : Reg) (v : BitVec 64) : (s.set n v).pc = s.pc := rfl
@[simp] theorem set_cycles (n : Reg) (v : BitVec 64) : (s.set n v).cycles = s.cycles := rfl
@[simp] theorem setQ_r (n : Reg) (v : BitVec 128) : (s.setQ n v).r = s.r := rfl
@[simp] theorem setQ_q (n : Reg) (v : BitVec 128) : (s.setQ n v).q = Function.update s.q n v := rfl
@[simp] theorem setQ_mem (n : Reg) (v : BitVec 128) : (s.setQ n v).mem = s.mem := rfl
@[simp] theorem setQ_pc (n : Reg) (v : BitVec 128) : (s.setQ n v).pc = s.pc := rfl
@[simp] theorem store_r (a : BitVec 64) (v : BitVec 128) : (s.store a v).r = s.r := rfl
@[simp] theorem store_q (a : BitVec 64) (v : BitVec 128) : (s.store a v).q = s.q := rfl
@[simp] theorem store_mem (a : BitVec 64) (v : BitVec 128) :
    (s.store a v).mem = s.mem.write a v := rfl
@[simp] theorem store_pc (a : BitVec 64) (v : BitVec 128) : (s.store a v).pc = s.pc := rfl
@[simp] theorem next_r : s.next.r = s.r := rfl
@[simp] theorem next_q : s.next.q = s.q := rfl
@[simp] theorem next_mem : s.next.mem = s.mem := rfl
@[simp] theorem next_cycles : s.next.cycles = s.cycles := rfl
@[simp] theorem next_pc : s.next.pc = s.pc + 4 := rfl

theorem setZ_of_ne {n : Reg} (h : n ≠ 31) (v : BitVec 64) : s.setZ n v = s.set n v := if_neg h

theorem z_of_ne {n : Reg} (h : n ≠ 31) : s.z n = s.r n := if_neg h

@[simp] theorem setZ_q (n : Reg) (v : BitVec 64) : (s.setZ n v).q = s.q := by
  unfold setZ
  split <;> rfl

@[simp] theorem setZ_mem (n : Reg) (v : BitVec 64) : (s.setZ n v).mem = s.mem := by
  unfold setZ
  split <;> rfl

@[simp] theorem setZ_pc (n : Reg) (v : BitVec 64) : (s.setZ n v).pc = s.pc := by
  unfold setZ
  split <;> rfl

end State

end OsirisArm.Library.A64
