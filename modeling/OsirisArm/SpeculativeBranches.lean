import OsirisArm.PageLayout

/-! # The branches of the speculation gadget

The call, the jump and the `lea` of the gadget are relative to the end of the instruction. Their
displacements are computed from the sizes of the pieces before any of them is written. On the
finished page they lead where the comments of the generator say.
-/

namespace OsirisArm
open Library

/-- The four displacement bytes from `idx` on, as the processor reads them. -/
def displacementAt (content : Bytes) (idx : ℕ) : ℤ :=
  signedFromBytesLE ((content.drop idx).take 4)

/-- The gadget on the page, with the indices of the call, the jump, the `lea` and the timer. -/
structure GadgetAt (content triggerSequence : Bytes) (callAt jmpAt leaAt timerAt : ℕ) : Prop where
  call : [0xe8] <+: content.drop callAt
  trigger : (content.drop (callAt + 5)).take (jmpAt - (callAt + 5)) = triggerSequence
  jmp : [0xe9] <+: content.drop jmpAt
  lea : [0x48, 0x8d, 0x05] <+: content.drop leaAt
  ret : [0xc3] <+: content.drop (timerAt - 1)
  timer : timerStartInstructions.flatten <+: content.drop timerAt
  callTarget : (callAt + 5 : ℕ) + displacementAt content (callAt + 1) = leaAt
  jmpTarget : (jmpAt + 5 : ℕ) + displacementAt content (jmpAt + 1) = timerAt
  leaAddress : (leaAt + 7 : ℕ) + displacementAt content (leaAt + 3) = timerAt

theorem displacementBytes_length (displacement : ℕ) :
    (displacementBytes displacement).length = 4 := numberToBytesLE_length _ 4

theorem signedFromBytesLE_displacementBytes {displacement : ℕ} (h : displacement < 2 ^ 31) :
    signedFromBytesLE (displacementBytes displacement) = displacement := by
  have hmsb : (BitVec.ofNat 32 displacement).msb = false := by
    rw [BitVec.msb_eq_false_iff_two_mul_lt, BitVec.toNat_ofNat]
    omega
  have hnumber : numberFromBytesLE (displacementBytes displacement) = displacement := by
    rw [displacementBytes, numberFromBytesLE_toBytes,
      BitVec.signExtend_eq_setWidth_of_msb_false hmsb, BitVec.toNat_setWidth, BitVec.toNat_ofNat]
    omega
  rw [signedFromBytesLE, hnumber, displacementBytes_length]
  exact Int.bmod_eq_of_le (by omega) (by omega)

theorem drop_next {content piece rest : Bytes} {idx next : ℕ}
    (h : content.drop idx = piece ++ rest) (hnext : next = idx + piece.length) :
    content.drop next = rest := by
  rw [hnext, ← List.drop_drop, h, List.drop_left]

theorem displacementAt_of_drop {content rest : Bytes} {idx displacement : ℕ}
    (h : content.drop idx = displacementBytes displacement ++ rest)
    (hsmall : displacement < 2 ^ 31) : displacementAt content idx = displacement := by
  have hlength := displacementBytes_length displacement
  rw [displacementAt, h, ← hlength, List.take_left, signedFromBytesLE_displacementBytes hsmall]

theorem gadgetAt_of_prefix {content triggerSequence : Bytes} {callAt : ℕ}
    (hsmall : triggerSequence.length + 5 < 2 ^ 31)
    (h : (gadgetInstructions triggerSequence).flatten ++ timerStartInstructions.flatten <+:
      content.drop callAt) :
    GadgetAt content triggerSequence callAt (callAt + 5 + triggerSequence.length)
      (callAt + 10 + triggerSequence.length) (callAt + 22 + triggerSequence.length) := by
  obtain ⟨rest, h⟩ := h
  replace h := h.symm
  simp only [gadgetInstructions, List.flatten_cons, List.flatten_nil, List.append_assoc,
    List.nil_append] at h
  have hcallDisplacement := drop_next h (rfl : callAt + 1 = _)
  have htrigger : content.drop (callAt + 5) = _ := drop_next hcallDisplacement
    (by rw [displacementBytes_length])
  have hjmp : content.drop (callAt + 5 + triggerSequence.length) = _ := drop_next htrigger rfl
  have hjmpDisplacement := drop_next hjmp
    (rfl : callAt + 5 + triggerSequence.length + 1 = _)
  have hlea : content.drop (callAt + 10 + triggerSequence.length) = _ :=
    drop_next hjmpDisplacement (by rw [displacementBytes_length]; omega)
  have hleaDisplacement := drop_next hlea
    (rfl : callAt + 10 + triggerSequence.length + 3 = _)
  have hmov : content.drop (callAt + 17 + triggerSequence.length) = _ :=
    drop_next hleaDisplacement (by rw [displacementBytes_length]; omega)
  have hret : content.drop (callAt + 22 + triggerSequence.length - 1) = _ := drop_next hmov
    (by change _ = callAt + 17 + triggerSequence.length + 4; omega)
  have htimer : content.drop (callAt + 22 + triggerSequence.length) = _ := drop_next hret
    (by change _ = callAt + 22 + triggerSequence.length - 1 + 1; omega)
  refine ⟨⟨_, h.symm⟩, ?_, ⟨_, hjmp.symm⟩, ⟨_, hlea.symm⟩, ⟨_, hret.symm⟩, ⟨_, htimer.symm⟩,
    ?_, ?_, ?_⟩
  · rw [htrigger, Nat.add_sub_cancel_left, List.take_left]
  · rw [displacementAt_of_drop hcallDisplacement hsmall]
    omega
  · rw [displacementAt_of_drop hjmpDisplacement (by decide)]
    omega
  · rw [displacementAt_of_drop hleaDisplacement (by decide)]
    omega

/-- The code in front of the gadget. -/
def codeBeforeGadget (resetSequence : Bytes) (resetExecutionsAmount : ℕ) : Bytes :=
  prologInstructions.flatten ++ (serializeInstructions.flatten ++
    ((List.replicate resetExecutionsAmount resetSequence).flatten ++
      serializeInstructions.flatten))

theorem codeBeforeGadget_length (resetSequence : Bytes) (amount : ℕ) :
    (codeBeforeGadget resetSequence amount).length = 112 + amount * resetSequence.length := by
  have hprolog : prologInstructions.flatten.length = 80 := rfl
  have hserialize : serializeInstructions.flatten.length = 16 := rfl
  have hreset : (List.replicate amount resetSequence).flatten.length =
      amount * resetSequence.length := by simp
  simp only [codeBeforeGadget, List.length_append, hprolog, hserialize, hreset]
  omega

theorem speculativeTestrunBytes_eq (measurementSequence triggerSequence resetSequence : Bytes)
    (amount : ℕ) :
    speculativeTestrunBytes measurementSequence triggerSequence resetSequence amount =
      codeBeforeGadget resetSequence amount ++
        ((gadgetInstructions triggerSequence).flatten ++ measurementBytes measurementSequence) := by
  simp only [speculativeTestrunBytes, codeBeforeGadget, List.append_assoc]

/-- On every page that the generator completes, the call leads to the `lea`, the jump and the
address of the `lea` to the timer behind the return, and the trigger fills the space between the
call and the jump. -/
theorem createSpeculativeTriggerTestrunCode_branches {codepageNo : Fin 2}
    {measurementSequence triggerSequence resetSequence : Bytes} {amount : ℕ}
    {pages after : CodePages}
    (h : CodePages.createSpeculativeTriggerTestrunCode codepageNo measurementSequence
      triggerSequence resetSequence amount pages = .ok after) :
    ∃ callAt jmpAt leaAt timerAt, callAt = 112 + amount * resetSequence.length ∧
      leaAt = jmpAt + 5 ∧ timerAt = leaAt + 12 ∧
      GadgetAt (after codepageNo).content triggerSequence callAt jmpAt leaAt timerAt := by
  rw [CodePages.createSpeculativeTriggerTestrunCode_eq] at h
  obtain ⟨page, hpage, rfl⟩ := except_map_ok h
  have hfills := createSpeculativeTriggerTestrunCode_fills measurementSequence triggerSequence
    resetSequence (createSpeculativeTriggerTestrunCode_amount hpage)
  have hholds := hfills.holds hpage
  have hfits := hholds.length_lt
  rw [speculativeTestrunBytes_length] at hfits
  have hsmall : triggerSequence.length + 5 < 2 ^ 31 := by
    simp only [kPagesize] at hfits
    omega
  have hgadget : (gadgetInstructions triggerSequence).flatten ++ timerStartInstructions.flatten <+:
      page.content.drop (112 + amount * resetSequence.length) := by
    rw [hholds.1, speculativeTestrunBytes_eq, ← codeBeforeGadget_length, measurementBytes]
    rw [List.append_assoc, List.drop_left, List.append_assoc, List.append_assoc,
      ← List.append_assoc _ timerStartInstructions.flatten]
    exact List.prefix_append _ _
  rw [Function.update_self]
  refine ⟨_, _, _, _, rfl, ?_, ?_, gadgetAt_of_prefix hsmall hgadget⟩
  · omega
  · omega

/-- A page with one reset, trigger and measurement, all of them NOPs. -/
theorem createSpeculativeTriggerTestrunCode_branches_nop : ∃ after,
    CodePages.createSpeculativeTriggerTestrunCode 0 instNop instNop instNop 1
      (fun _ => initializeCodePage) = .ok after ∧
    ∃ callAt jmpAt leaAt timerAt, callAt = 112 + 1 * instNop.length ∧
      leaAt = jmpAt + 5 ∧ timerAt = leaAt + 12 ∧
      GadgetAt (after 0).content instNop callAt jmpAt leaAt timerAt := by
  obtain ⟨page, hpage⟩ := (createSpeculativeTriggerTestrunCode_fills instNop instNop instNop
    (by decide : 1 ≤ 100)).exists_ok_iff.mpr (by rw [speculativeTestrunBytes_length]; decide)
  have hafter := CodePages.createSpeculativeTriggerTestrunCode_eq 0 (fun _ => initializeCodePage)
    instNop instNop instNop 1
  rw [hpage] at hafter
  exact ⟨_, hafter, createSpeculativeTriggerTestrunCode_branches hafter⟩

end OsirisArm
