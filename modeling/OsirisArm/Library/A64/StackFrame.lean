import OsirisArm.Library.A64.Instruction

/-! # Register frames on the stack

A frame is a list of slots of sixteen bytes, each with a pair of X registers or one Q register.
Pushing the slots one after the other and popping them in the opposite order restores the registers
and the stack pointer, whatever happened to the registers in between.
-/

namespace OsirisArm.Library.A64

/-- The contents of sixteen bytes of a frame. -/
inductive Slot where
  | pair (t t2 : Reg)
  | quad (t : Reg)
  deriving DecidableEq

namespace Slot

def value (slot : Slot) (s : State) : BitVec 128 :=
  match slot with
  | .pair t t2 => s.z t2 ++ s.z t
  | .quad t => s.q t

/-- The X registers of a slot. -/
def xs : Slot → List Reg
  | .pair t t2 => [t, t2]
  | .quad _ => []

/-- The Q registers of a slot. -/
def qs : Slot → List Reg
  | .pair _ _ => []
  | .quad t => [t]

def push : Slot → Instruction
  | .pair t t2 => .stpPre t t2 31 (-16)
  | .quad t => .strQPre t 31 (-16)

def pop : Slot → Instruction
  | .pair t t2 => .ldpPost t t2 31 16
  | .quad t => .ldrQPost t 31 16

end Slot

/-- The slots hold the registers of `origin`, from `address` upwards. -/
def Saved (origin : State) (mem : Memory) : BitVec 64 → List Slot → Prop
  | _, [] => True
  | address, slot :: slots =>
    mem.readSlot address = slot.value origin ∧ Saved origin mem (address + 16) slots

theorem Saved.congr {origin : State} {mem mem' : Memory} {address : BitVec 64}
    {slots : List Slot} (h : Saved origin mem address slots)
    (hsame : ∀ i < 16 * slots.length,
      mem' (address + BitVec.ofNat 64 i) = mem (address + BitVec.ofNat 64 i)) :
    Saved origin mem' address slots := by
  induction slots generalizing address with
  | nil => trivial
  | cons slot slots ih =>
    rw [List.length_cons] at hsame
    have hfirst : mem'.readSlot address = mem.readSlot address :=
      Memory.read_congr fun i hi => hsame i (by omega)
    refine ⟨hfirst.trans h.1, ih h.2 ?_⟩
    intro i hi
    have hnext := hsame (16 + i) (by omega)
    rwa [BitVec.ofNat_add, ← BitVec.add_assoc] at hnext

theorem Saved.write {origin : State} {mem : Memory} {address : BitVec 64} {slots : List Slot}
    (h : Saved origin mem address slots) (hroom : 16 * (slots.length + 1) ≤ 2 ^ 64)
    (value : BitVec 128) : Saved origin (mem.write (address + -16) value) address slots := by
  apply h.congr
  intro i hi
  have hoffset : address + BitVec.ofNat 64 i - (address + -16) = BitVec.ofNat 64 (16 + i) := by
    rw [BitVec.ofNat_add]
    bv_omega
  rw [Memory.write, hoffset, BitVec.toNat_ofNat, Nat.mod_eq_of_lt (by omega), if_neg (by omega)]

/-- The registers agree except for the stack pointer. -/
def SameRegisters (s t : State) : Prop := (∀ n ≠ 31, s.r n = t.r n) ∧ s.q = t.q

theorem Slot.value_congr {slot : Slot} {s t : State} (h : SameRegisters s t) :
    slot.value s = slot.value t := by
  have hz (n : Reg) : s.z n = t.z n := by
    unfold State.z
    split
    · rfl
    · next hn => exact h.1 n hn
  cases slot with
  | pair t t2 => rw [value, value, hz t, hz t2]
  | quad t => rw [value, value, h.2]

theorem exec_stpPre {t t2 n : Reg} {s : State} (h : s.Aligned n) (offset : BitVec 64) :
    (Instruction.stpPre t t2 n offset).exec s =
      some ((s.store (s.r n + offset) (s.z t2 ++ s.z t)).set n (s.r n + offset)).next := if_pos h

theorem exec_strQPre {t n : Reg} {s : State} (h : s.Aligned n) (offset : BitVec 64) :
    (Instruction.strQPre t n offset).exec s =
      some ((s.store (s.r n + offset) (s.q t)).set n (s.r n + offset)).next := if_pos h

/-- The state after a slot is stored and the stack pointer moved down to it. -/
def pushed (s : State) (sp : BitVec 64) (value : BitVec 128) : State :=
  ((s.store sp value).set 31 sp).next

theorem sameRegisters_pushed (s : State) (sp : BitVec 64) (value : BitVec 128) :
    SameRegisters (pushed s sp value) s := by
  constructor
  · intro n hn
    simp [pushed, hn]
  · simp [pushed]

theorem sp_pushed (s : State) (sp : BitVec 64) (value : BitVec 128) :
    (pushed s sp value).sp = sp := by
  simp [pushed, State.sp]

theorem mem_pushed (s : State) (sp : BitVec 64) (value : BitVec 128) :
    (pushed s sp value).mem = s.mem.write sp value := rfl

theorem pc_pushed (s : State) (sp : BitVec 64) (value : BitVec 128) :
    (pushed s sp value).pc = s.pc + 4 := rfl

theorem Slot.exec_push (slot : Slot) {s : State} (haligned : s.sp.toNat % 16 = 0) :
    slot.push.exec s = some (pushed s (s.sp + -16) (slot.value s)) := by
  have hok : s.Aligned 31 := fun _ => haligned
  cases slot with
  | pair t t2 => exact exec_stpPre hok (-16)
  | quad t => exact exec_strQPre hok (-16)

theorem aligned_push {sp : BitVec 64} (h : sp.toNat % 16 = 0) : (sp + -16).toNat % 16 = 0 := by
  bv_omega

theorem aligned_pop {sp : BitVec 64} (h : sp.toNat % 16 = 0) : (sp + 16).toNat % 16 = 0 := by
  bv_omega

theorem exec_pushes {origin : State} {slots frame : List Slot} {s : State}
    (haligned : s.sp.toNat % 16 = 0) (hsame : SameRegisters s origin)
    (hsaved : Saved origin s.mem s.sp frame)
    (hroom : 16 * (slots.length + frame.length) ≤ 2 ^ 64) :
    ∃ t, execAll (slots.map Slot.push) s = some t ∧ t.sp.toNat % 16 = 0 ∧
      SameRegisters t origin ∧ t.sp = s.sp - BitVec.ofNat 64 (16 * slots.length) ∧
      Saved origin t.mem t.sp (slots.reverse ++ frame) ∧
      t.pc = s.pc + BitVec.ofNat 64 (4 * slots.length) := by
  induction slots generalizing s frame with
  | nil => exact ⟨s, rfl, haligned, hsame, by simp, hsaved, by simp⟩
  | cons slot slots ih =>
    rw [List.length_cons] at hroom
    have hexec := slot.exec_push haligned
    set u := pushed s (s.sp + -16) (slot.value s) with hu
    have hsp : u.sp = s.sp + -16 := sp_pushed ..
    have hmem : u.mem = s.mem.write (s.sp + -16) (slot.value s) := mem_pushed ..
    have hpc : u.pc = s.pc + 4 := pc_pushed ..
    have hregisters : SameRegisters u s := sameRegisters_pushed ..
    have hsameu : SameRegisters u origin :=
      ⟨fun n hn => (hregisters.1 n hn).trans (hsame.1 n hn), hregisters.2.trans hsame.2⟩
    have hsavedu : Saved origin u.mem u.sp (slot :: frame) := by
      rw [hmem, hsp]
      refine ⟨?_, ?_⟩
      · rw [Memory.readSlot_write, Slot.value_congr hsame]
      · have hup : s.sp + -16 + 16 = s.sp := by bv_omega
        rw [hup]
        exact hsaved.write (by omega) _
    obtain ⟨t, hrest, halignedt, hsamet, hspt, hsavedt, hpct⟩ :=
      ih (by rw [hsp]; exact aligned_push haligned) hsameu hsavedu
        (by rw [List.length_cons]; omega)
    refine ⟨t, ?_, halignedt, hsamet, ?_, ?_, ?_⟩
    · rw [List.map_cons, execAll_cons hexec, hrest]
    · rw [hspt, hsp, List.length_cons, Nat.mul_add, BitVec.ofNat_add]
      bv_omega
    · rw [List.reverse_cons, List.append_assoc]
      exact hsavedt
    · rw [hpct, hpc, List.length_cons, Nat.mul_add, BitVec.ofNat_add]
      bv_omega

theorem lower_append (high low : BitVec 64) :
    (high ++ low : BitVec 128).extractLsb' 0 64 = low := BitVec.extractLsb'_append_eq_right

theorem upper_append (high low : BitVec 64) :
    (high ++ low : BitVec 128).extractLsb' 64 64 = high := BitVec.extractLsb'_append_eq_left

/-- The registers in `xs` and `qs` are those of `origin`, the others those of `s`. -/
structure Restored (origin s t : State) (xs qs : List Reg) : Prop where
  r : ∀ n ≠ 31, t.r n = if n ∈ xs then origin.r n else s.r n
  q : ∀ n, t.q n = if n ∈ qs then origin.q n else s.q n

theorem Restored.refl (origin s : State) : Restored origin s s [] [] :=
  ⟨fun _ _ => rfl, fun _ => rfl⟩

theorem Restored.trans {origin s t u : State} {xs xs' qs qs' : List Reg}
    (h : Restored origin s t xs qs) (h' : Restored origin t u xs' qs') :
    Restored origin s u (xs ++ xs') (qs ++ qs') := by
  constructor
  · intro n hn
    rw [h'.r n hn, h.r n hn]
    by_cases hx : n ∈ xs <;> by_cases hx' : n ∈ xs' <;> simp [hx, hx']
  · intro n
    rw [h'.q n, h.q n]
    by_cases hq : n ∈ qs <;> by_cases hq' : n ∈ qs' <;> simp [hq, hq']

/-- One pop of a slot that holds registers of `origin`. -/
theorem Slot.exec_pop (slot : Slot) {origin s : State} (hgeneral : 31 ∉ slot.xs)
    (haligned : s.sp.toNat % 16 = 0) (hvalue : s.mem.readSlot s.sp = slot.value origin) :
    ∃ t, slot.pop.exec s = some t ∧ Restored origin s t slot.xs slot.qs ∧ t.sp = s.sp + 16 ∧
      t.mem = s.mem ∧ t.pc = s.pc + 4 := by
  have hok : s.Aligned 31 := fun _ => haligned
  rw [State.sp] at hvalue
  cases slot with
  | pair t t2 =>
    have ht : t ≠ 31 := fun h => hgeneral (by simp [xs, h])
    have ht2 : t2 ≠ 31 := fun h => hgeneral (by simp [xs, h])
    refine ⟨_, if_pos hok, ⟨?_, ?_⟩, ?_, ?_, ?_⟩
    · intro n hn
      have hlow : (s.mem.readSlot (s.r 31)).extractLsb' 0 64 = origin.r t := by
        rw [hvalue, value, lower_append, State.z_of_ne _ ht]
      have hhigh : (s.mem.readSlot (s.r 31)).extractLsb' 64 64 = origin.r t2 := by
        rw [hvalue, value, upper_append, State.z_of_ne _ ht2]
      rw [hlow, hhigh, State.setZ_of_ne _ ht, State.setZ_of_ne _ ht2]
      simp only [State.next_r, State.set_r, Function.update_of_ne hn, xs, List.mem_cons,
        List.not_mem_nil, or_false, Function.update_apply]
      by_cases h2 : n = t2
      · simp [h2]
      · by_cases h : n = t
        · simp [h, (h ▸ h2 : ¬ t = t2)]
        · simp [h, h2]
    · intro n
      simp [qs]
    · simp [State.sp]
    · simp
    · simp
  | quad t =>
    refine ⟨_, if_pos hok, ⟨?_, ?_⟩, ?_, rfl, rfl⟩
    · intro n hn
      simp [xs, hn]
    · intro n
      rw [hvalue]
      by_cases h : n = t <;> simp [qs, h, value]
    · simp [State.sp]

/-- Popping the slots of a frame restores their registers and leaves the others alone. -/
theorem exec_pops {origin : State} {slots : List Slot} {s : State}
    (hgeneral : ∀ slot ∈ slots, 31 ∉ slot.xs) (haligned : s.sp.toNat % 16 = 0)
    (hsaved : Saved origin s.mem s.sp slots) :
    ∃ t, execAll (slots.map Slot.pop) s = some t ∧
      Restored origin s t (slots.flatMap Slot.xs) (slots.flatMap Slot.qs) ∧
      t.sp = s.sp + BitVec.ofNat 64 (16 * slots.length) ∧ t.mem = s.mem ∧
      t.pc = s.pc + BitVec.ofNat 64 (4 * slots.length) := by
  induction slots generalizing s with
  | nil => exact ⟨s, rfl, Restored.refl origin s, by simp, rfl, by simp⟩
  | cons slot slots ih =>
    rw [List.forall_mem_cons] at hgeneral
    obtain ⟨hfirst, hrest⟩ := hsaved
    obtain ⟨u, hexec, hrestored, hsp, hmem, hpc⟩ := slot.exec_pop hgeneral.1 haligned hfirst
    have halignedu : u.sp.toNat % 16 = 0 := by
      rw [hsp]
      exact aligned_pop haligned
    have hsavedu : Saved origin u.mem u.sp slots := by
      rw [hmem, hsp]
      exact hrest
    obtain ⟨t, hexect, hrestoredt, hspt, hmemt, hpct⟩ := ih hgeneral.2 halignedu hsavedu
    refine ⟨t, ?_, ?_, ?_, hmemt.trans hmem, ?_⟩
    · rw [List.map_cons, execAll_cons hexec, hexect]
    · rw [List.flatMap_cons, List.flatMap_cons]
      exact hrestored.trans hrestoredt
    · rw [hspt, hsp, List.length_cons, Nat.mul_add, BitVec.ofNat_add]
      bv_omega
    · rw [hpct, hpc, List.length_cons, Nat.mul_add, BitVec.ofNat_add]
      bv_omega

end OsirisArm.Library.A64
