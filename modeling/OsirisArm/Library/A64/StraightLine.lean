import OsirisArm.Library.A64.Instruction

/-! # Straight-line code

What an instruction leaves alone, and code that is fetched word by word from a fixed place in
memory: as long as every word goes on with the next one, fetching and executing is executing the
words in the order in which they were written.
-/

namespace OsirisArm.Library.A64

namespace Instruction

/-- The X registers and the stack pointer that an instruction may write. -/
def written : Instruction → List Reg
  | .stpPre _ _ n _ => [n]
  | .ldpPost t t2 n _ => [t, t2, n]
  | .strQPre _ n _ => [n]
  | .ldrQPost _ n _ => [n]
  | .addImmediate d _ _ => [d]
  | .subImmediate d _ _ => [d]
  | .movz d _ => [d]
  | .orrImmediate d _ _ => [d]
  | .orrRegister d _ _ => [d]
  | .subRegister d _ _ => [d]
  | .mrsPmcr t => [t]
  | .mrsPmccntr t => [t]
  | .msrPmcr _ | .barrier | .nop | .ret _ => []

def stores : Instruction → Bool
  | .stpPre .. | .strQPre .. => true
  | _ => false

def branches : Instruction → Bool
  | .ret _ => true
  | _ => false

/-- Only transfers through the stack pointer can fault. -/
def canFault : Instruction → Bool
  | .stpPre .. | .ldpPost .. | .strQPre .. | .ldrQPost .. => true
  | _ => false

theorem setZ_r_of_ne (s : State) {n d : Reg} (h : n ≠ d) (v : BitVec 64) :
    (s.setZ d v).r n = s.r n := by
  unfold State.setZ
  split
  · rfl
  · simp [h]

theorem exec_r {i : Instruction} {s t : State} (h : i.exec s = some t) {n : Reg}
    (hn : n ∉ i.written) : t.r n = s.r n := by
  cases i <;> simp only [exec, Option.ite_none_right_eq_some, Option.some.injEq] at h
  case stpPre | strQPre | ldrQPost =>
    obtain ⟨-, rfl⟩ := h
    simp only [written, List.mem_singleton] at hn
    simp [hn]
  case ldpPost =>
    obtain ⟨-, rfl⟩ := h
    simp only [written, List.mem_cons, List.not_mem_nil, or_false, not_or] at hn
    rw [State.next_r, State.set_r, Function.update_of_ne hn.2.2, setZ_r_of_ne _ hn.2.1,
      setZ_r_of_ne _ hn.1]
  all_goals
    subst h
    simp_all [written, setZ_r_of_ne]

theorem exec_mem {i : Instruction} {s t : State} (h : i.exec s = some t)
    (hstores : i.stores = false) : t.mem = s.mem := by
  cases i <;> simp only [exec, Option.ite_none_right_eq_some, Option.some.injEq] at h
  case stpPre | strQPre => cases hstores
  case ldpPost | ldrQPost => obtain ⟨-, rfl⟩ := h; simp
  all_goals
    subst h
    simp

theorem exec_pc {i : Instruction} {s t : State} (h : i.exec s = some t)
    (hbranches : i.branches = false) : t.pc = s.pc + 4 := by
  cases i <;> simp only [exec, Option.ite_none_right_eq_some, Option.some.injEq] at h
  case ret => cases hbranches
  case stpPre | strQPre | ldpPost | ldrQPost => obtain ⟨-, rfl⟩ := h; simp
  all_goals
    subst h
    simp

theorem exec_isSome {i : Instruction} (hsafe : i.canFault = false) (s : State) :
    ∃ t, i.exec s = some t := by
  cases i
  case stpPre | strQPre | ldpPost | ldrQPost => cases hsafe
  all_goals exact ⟨_, rfl⟩

end Instruction

/-- The instructions leave general register `n` and the memory alone, and do not fault. -/
def Leaves (n : Reg) (instructions : List Instruction) : Bool :=
  instructions.all fun i => !i.written.contains n && !i.stores && !i.canFault && !i.branches

namespace Architecture
variable (arch : Architecture)

theorem run_leaves {n : Reg} {words : List Word} {instructions : List Instruction}
    (hwords : words.map decode = instructions.map some) (hleaves : Leaves n instructions = true)
    (s : State) : ∃ t, arch.run words s = some t ∧ t.r n = s.r n ∧ t.mem = s.mem := by
  induction words generalizing instructions s with
  | nil => exact ⟨s, rfl, rfl, rfl⟩
  | cons w words ih =>
    cases instructions with
    | nil => cases hwords
    | cons i instructions =>
      obtain ⟨hfirst, hrest⟩ := List.cons.inj hwords
      simp only [Leaves, List.all_cons, Bool.and_eq_true, Bool.not_eq_true'] at hleaves
      obtain ⟨⟨⟨⟨hwritten, hstores⟩, hsafe⟩, -⟩, hleaves⟩ := hleaves
      have hfresh : n ∉ i.written := by simpa using hwritten
      obtain ⟨u, hu⟩ := Instruction.exec_isSome hsafe s
      obtain ⟨t, ht, hr, hmem⟩ := ih hrest hleaves u
      refine ⟨t, ?_, ?_, ?_⟩
      · rw [arch.run_decoded hfirst, hu]
        exact ht
      · rw [hr, Instruction.exec_r hu hfresh]
      · rw [hmem, Instruction.exec_mem hu hstores]

/-- The word at the program counter, of code whose first word is at `base`. -/
def fetch (base : BitVec 64) (code : List Word) (s : State) : Option Word :=
  if (s.pc - base).toNat % 4 = 0 then code[(s.pc - base).toNat / 4]? else none

/-- Fetch and execute a number of words. -/
def execute (base : BitVec 64) (code : List Word) : ℕ → State → Option State
  | 0, s => some s
  | n + 1, s => do
    let w ← fetch base code s
    let t ← arch.step w s
    execute base code n t

theorem execute_add (base : BitVec 64) (code : List Word) (m n : ℕ) (s : State) :
    arch.execute base code (m + n) s =
      (arch.execute base code m s).bind (arch.execute base code n) := by
  induction m generalizing s with
  | zero => rw [Nat.zero_add, execute, Option.bind_some]
  | succ m ih =>
    rw [Nat.add_right_comm, execute, execute]
    cases fetch base code s with
    | none => rfl
    | some w =>
      cases hstep : arch.step w s with
      | none => simp [hstep]
      | some t => simpa [hstep] using ih t

/-- The word at position `index` of the code. -/
theorem fetch_eq {base : BitVec 64} {code : List Word} {s : State} {index : ℕ}
    (hroom : 4 * index < 2 ^ 64) (hpc : s.pc = base + BitVec.ofNat 64 (4 * index)) :
    fetch base code s = code[index]? := by
  have hoffset : (s.pc - base).toNat = 4 * index := by
    rw [hpc, BitVec.add_comm, BitVec.add_sub_cancel, BitVec.toNat_ofNat, Nat.mod_eq_of_lt hroom]
  rw [fetch, hoffset, if_pos (by omega), Nat.mul_div_cancel_left index (by omega)]

/-- After the word, execution goes on with the next one. -/
def Straight (w : Word) : Prop := ∀ s t, arch.step w s = some t → t.pc = s.pc + 4

theorem straight_of_decode {w : Word} {i : Instruction} (h : decode w = some i)
    (hbranches : i.branches = false) : arch.Straight w := by
  intro s t hstep
  rw [arch.agrees h] at hstep
  exact Instruction.exec_pc hstep hbranches

theorem straight_of_decodes {words : List Word} {instructions : List Instruction}
    (hwords : words.map decode = instructions.map some)
    (hbranches : ∀ i ∈ instructions, i.branches = false) : ∀ w ∈ words, arch.Straight w := by
  intro w hw
  have hdecode : decode w ∈ instructions.map some := hwords ▸ List.mem_map_of_mem hw
  obtain ⟨i, hi, hsome⟩ := List.mem_map.mp hdecode
  exact arch.straight_of_decode hsome.symm (hbranches i hi)

theorem run_pc {words : List Word} (hstraight : ∀ w ∈ words, arch.Straight w) {s t : State}
    (hrun : arch.run words s = some t) : t.pc = s.pc + BitVec.ofNat 64 (4 * words.length) := by
  induction words generalizing s with
  | nil =>
    obtain rfl := Option.some.inj hrun
    simp
  | cons w words ih =>
    rw [List.forall_mem_cons] at hstraight
    rw [run_cons, Option.bind_eq_some_iff] at hrun
    obtain ⟨u, hstep, hrest⟩ := hrun
    rw [ih hstraight.2 hrest, hstraight.1 s u hstep, List.length_cons, Nat.mul_add,
      BitVec.ofNat_add]
    bv_omega

theorem execute_eq_run {base : BitVec 64} {code before words after : List Word}
    (hcode : code = before ++ words ++ after) (hroom : 4 * code.length ≤ 2 ^ 64)
    (hstraight : ∀ w ∈ words, arch.Straight w) {s : State}
    (hpc : s.pc = base + BitVec.ofNat 64 (4 * before.length)) :
    arch.execute base code words.length s = arch.run words s := by
  induction words generalizing before s with
  | nil => rfl
  | cons w words ih =>
    rw [List.forall_mem_cons] at hstraight
    have hlength : code.length = before.length + (words.length + 1) + after.length := by
      simp [hcode]
      omega
    have hfetch : fetch base code s = some w := by
      rw [fetch_eq (by omega) hpc, hcode]
      simp
    rw [List.length_cons, execute, hfetch, run_cons]
    cases hstep : arch.step w s with
    | none => simp [hstep]
    | some t =>
      have hnext : t.pc = base + BitVec.ofNat 64 (4 * (before ++ [w]).length) := by
        rw [hstraight.1 s t hstep, hpc, List.length_append, List.length_singleton, Nat.mul_add,
          BitVec.ofNat_add]
        bv_omega
      have hcode' : code = (before ++ [w]) ++ words ++ after := by simp [hcode]
      have hrest := ih hcode' hstraight.2 hnext
      simpa [hstep] using hrest

theorem execute_eq_run_concat {base : BitVec 64} {code words after : List Word} {last : Word}
    (hcode : code = words ++ last :: after) (hroom : 4 * code.length ≤ 2 ^ 64)
    (hstraight : ∀ w ∈ words, arch.Straight w) {s : State} (hpc : s.pc = base) :
    arch.execute base code (words.length + 1) s = arch.run (words ++ [last]) s := by
  have hlength : code.length = words.length + (after.length + 1) := by simp [hcode]
  have hcode' : code = [] ++ words ++ last :: after := hcode
  have hstart : s.pc = base + BitVec.ofNat 64 (4 * ([] : List Word).length) := by simp [hpc]
  have hwords := arch.execute_eq_run hcode' hroom hstraight hstart
  rw [execute_add, hwords, run_append]
  cases hrun : arch.run words s with
  | none => rfl
  | some t =>
    have hnext := arch.run_pc hstraight hrun
    rw [hpc] at hnext
    have hfetch : fetch base code t = some last := by
      rw [fetch_eq (by omega) hnext, hcode]
      simp
    simp only [Option.bind_some, execute, hfetch]
    rw [run_cons]
    rfl

end Architecture

end OsirisArm.Library.A64
