import OsirisArm.Testrun
import OsirisArm.Library.A64.StraightLine
import OsirisArm.Library.A64.StackFrame

/-! # The words of generated code

Generated code is executed in words of four bytes, stored in little-endian order. The bytes that
the helpers write are the encodings of the instructions named here.
-/

namespace OsirisArm
open Library.A64

def wordsOf : Bytes → List Word
  | b0 :: b1 :: b2 :: b3 :: rest => (b3 ++ b2 ++ b1 ++ b0 : BitVec (8 + 8 + 8 + 8)) :: wordsOf rest
  | _ => []

/-- The bytes are a number of whole words. -/
def WholeWords (bytes : Bytes) : Prop := 4 ∣ bytes.length

theorem exists_cons_of_wholeWords {bytes : Bytes} (h : WholeWords bytes) (hne : bytes ≠ []) :
    ∃ b0 b1 b2 b3 rest, bytes = b0 :: b1 :: b2 :: b3 :: rest ∧ WholeWords rest := by
  obtain ⟨k, hk⟩ := h
  match bytes, hk with
  | [], _ => exact absurd rfl hne
  | [_], hk | [_, _], hk | [_, _, _], hk => simp at hk; omega
  | b0 :: b1 :: b2 :: b3 :: rest, hk =>
    refine ⟨b0, b1, b2, b3, rest, rfl, k - 1, ?_⟩
    simp at hk
    omega

theorem wordsOf_append {first : Bytes} (h : WholeWords first) (second : Bytes) :
    wordsOf (first ++ second) = wordsOf first ++ wordsOf second := by
  fun_induction wordsOf first with
  | case1 b0 b1 b2 b3 rest ih =>
    have hrest : WholeWords rest := by
      simp only [WholeWords, List.length_cons] at h ⊢
      omega
    simp [wordsOf, ih hrest]
  | case2 bytes hshort =>
    by_cases hne : bytes = []
    · simp [hne]
    · obtain ⟨b0, b1, b2, b3, rest, rfl, -⟩ := exists_cons_of_wholeWords h hne
      exact (hshort b0 b1 b2 b3 rest rfl).elim

theorem wordsOf_length_le (bytes : Bytes) : 4 * (wordsOf bytes).length ≤ bytes.length := by
  fun_induction wordsOf bytes with
  | case1 b0 b1 b2 b3 rest ih =>
    simp only [List.length_cons]
    omega
  | case2 bytes hshort => simp

theorem WholeWords.append {first second : Bytes} (h : WholeWords first) (h' : WholeWords second) :
    WholeWords (first ++ second) := by
  rw [WholeWords, List.length_append]
  exact Nat.dvd_add h h'

theorem WholeWords.repeated {sequence : Bytes} (h : WholeWords sequence) (amount : ℕ) :
    WholeWords (List.replicate amount sequence).flatten := by
  rw [WholeWords, List.length_flatten, List.map_replicate, List.sum_replicate_nat]
  exact h.mul_left amount

theorem wordsOf_repeated {sequence : Bytes} (h : WholeWords sequence) (amount : ℕ) :
    wordsOf (List.replicate amount sequence).flatten =
      (List.replicate amount (wordsOf sequence)).flatten := by
  induction amount with
  | zero => rfl
  | succ n ih => rw [List.replicate_succ, List.replicate_succ, List.flatten_cons,
      List.flatten_cons, wordsOf_append h, ih]

/-- What the prolog saves, in the order in which it is pushed. -/
def savedSlots : List Slot :=
  [.pair 29 30, .pair 19 20, .pair 21 22, .pair 23 24, .pair 25 26, .pair 27 28, .quad 8, .quad 9,
    .quad 10, .quad 11, .quad 12, .quad 13, .quad 14, .quad 15]

/-- The value that the prolog puts into the operand registers. -/
def operandValue : BitVec 64 := 0x13370000

/-- The frame pointer, the guardian stack space and the operand registers. -/
def prologSetup : List Instruction :=
  [.addImmediate 29 31 0, .subImmediate 31 31 0x1000, .movz 25 operandValue,
    .movz 24 operandValue, .movz 26 operandValue, .movz 27 operandValue]

def serializeCode : List Instruction := [.barrier, .barrier, .barrier, .nop]

def timerStartCode : List Instruction :=
  [.nop, .mrsPmcr 27, .orrImmediate 27 27 7, .msrPmcr 27, .mrsPmccntr 27, .orrRegister 26 31 27,
    .barrier, .barrier, .barrier]

def timerEndCode : List Instruction :=
  [.barrier, .barrier, .mrsPmccntr 27, .subRegister 15 27 26, .barrier, .barrier, .nop, .barrier]

def resultCode : List Instruction := [.orrRegister 0 31 15]

/-- Barriers, and the stack pointer taken back from the frame pointer. -/
def epilogSetup : List Instruction :=
  [.barrier, .barrier, .nop, .barrier, .addImmediate 31 29 0]

theorem decode_prolog : (wordsOf prologInstructions.flatten).map decode =
    (savedSlots.map Slot.push ++ prologSetup).map some := rfl

theorem decode_serialize : (wordsOf serializeInstructions.flatten).map decode =
    serializeCode.map some := rfl

theorem decode_timerStart : (wordsOf timerStartInstructions.flatten).map decode =
    timerStartCode.map some := rfl

theorem decode_timerEnd : (wordsOf timerEndInstructions.flatten).map decode =
    timerEndCode.map some := rfl

theorem decode_result : (wordsOf instMovX015).map decode = resultCode.map some := rfl

theorem decode_epilog : (wordsOf epilogInstructions.flatten).map decode =
    (epilogSetup ++ (savedSlots.reverse.map Slot.pop ++ [Instruction.ret 30])).map some := rfl

theorem wholeWords_prolog : WholeWords prologInstructions.flatten := ⟨20, rfl⟩
theorem wholeWords_serialize : WholeWords serializeInstructions.flatten := ⟨4, rfl⟩
theorem wholeWords_timerStart : WholeWords timerStartInstructions.flatten := ⟨9, rfl⟩
theorem wholeWords_timerEnd : WholeWords timerEndInstructions.flatten := ⟨8, rfl⟩
theorem wholeWords_result : WholeWords instMovX015 := ⟨1, rfl⟩

end OsirisArm
