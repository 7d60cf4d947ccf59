import OsirisArm.CodeGenerator

/-! # Looking a UID up

A lookup should stop the program or return the instruction with this UID. The check of the index
lets the index just behind the list pass, and the bytes above the hash are not checked at all.
-/

namespace OsirisArm
open Library

namespace CodeGenerator
variable (codeGenerator : CodeGenerator)

/-- The lookup stops with an error or returns the instruction of the list with this UID; it reads
no element behind the list. -/
def LooksUpExactly (uid : BitVec 64) : Prop :=
  (∃ stop, codeGenerator.createInstructionFromUID uid = .error stop ∧
    stop ≠ .undefinedBehaviour) ∨
  ∃ instruction ∈ codeGenerator.instructionList,
    codeGenerator.createInstructionFromUID uid = .ok instruction ∧
      instruction.instructionUid = uid

/-- The UID names the loaded instruction file. -/
def NamesFile (uid : BitVec 64) : Prop :=
  fixedDigits 16 4 (uidHash uid) = endOfHash codeGenerator.instructionFileSha256hash

variable {codeGenerator} {uid : BitVec 64}

theorem createInstructionFromUID_foreign (h : ¬ codeGenerator.NamesFile uid) :
    codeGenerator.createInstructionFromUID uid = .error (.exit 1) := by
  unfold NamesFile at h
  rw [createInstructionFromUID, instructionUIDToInstructionIndex_eq, if_neg h]
  rfl

theorem createInstructionFromUID_named (h : codeGenerator.NamesFile uid) :
    codeGenerator.createInstructionFromUID uid =
      codeGenerator.createInstructionFromIndex (uidIndex uid) := by
  unfold NamesFile at h
  rw [createInstructionFromUID, instructionUIDToInstructionIndex_eq, if_pos h]
  rfl

theorem instructionUid_toNat (h : codeGenerator.NamesFile uid)
    (hidx : uidIndex uid < codeGenerator.instructionList.length) :
    codeGenerator.instructionList[uidIndex uid].instructionUid.toNat =
      uidHash uid * 2 ^ 16 + uidIndex uid := by
  obtain ⟨-, tail, htail, hend, hnat⟩ :=
    generateInstructionUID_ok codeGenerator.isDigest (codeGenerator.uids _ hidx)
  have hhash : uidHash uid < 16 ^ 4 := Nat.mod_lt _ (by decide)
  have hsame : uidHash uid = tail :=
    fixedDigits_injective (by decide) (by decide) hhash htail (h.trans hend)
  rw [hnat, hsame]

/-- A lookup is exact if and only if, when the UID names the loaded file, its index is not the
length of the list, and no higher byte is set when the index is one of the list. -/
theorem looksUpExactly_iff (codeGenerator : CodeGenerator) (uid : BitVec 64) :
    codeGenerator.LooksUpExactly uid ↔ (codeGenerator.NamesFile uid →
      uidIndex uid ≠ codeGenerator.instructionList.length ∧
        (uidIndex uid < codeGenerator.instructionList.length → uid.toNat < 2 ^ 32)) := by
  by_cases hnames : codeGenerator.NamesFile uid
  · rw [LooksUpExactly, createInstructionFromUID_named hnames, imp_iff_right hnames]
    rcases Nat.lt_trichotomy (uidIndex uid) codeGenerator.instructionList.length
      with hlt | heq | hgt
    · -- An element of the list is returned, which has this UID unless higher bytes are set.
      have huid := instructionUid_toNat hnames hlt
      rw [createInstructionFromIndex_getElem hlt]
      constructor
      · rintro (⟨stop, hstop, -⟩ | ⟨instruction, -, hread, rfl⟩)
        · cases hstop
        · rw [Except.ok.inj hread] at huid
          exact ⟨hlt.ne, fun _ => uid_recompose.mp huid.symm⟩
      · rintro ⟨-, hhigh⟩
        refine .inr ⟨_, List.getElem_mem hlt, rfl, BitVec.eq_of_toNat_eq ?_⟩
        rw [huid, uid_recompose.mpr (hhigh hlt)]
    · -- The check passes, but there is no such element.
      have hread : codeGenerator.createInstructionFromIndex (uidIndex uid) =
          .error .undefinedBehaviour := by
        rw [createInstructionFromIndex, if_neg (by omega), List.getElem?_eq_none heq.ge]
      rw [hread]
      constructor
      · rintro (⟨stop, hstop, hdefined⟩ | ⟨instruction, -, hread, -⟩)
        · exact absurd (Except.error.inj hstop).symm hdefined
        · cases hread
      · exact fun h => absurd heq h.1
    · have hread : codeGenerator.createInstructionFromIndex (uidIndex uid) = .error .abort :=
        if_pos hgt
      rw [hread]
      exact iff_of_true (.inl ⟨.abort, rfl, by decide⟩) ⟨hgt.ne', fun hlt => by omega⟩
  · rw [LooksUpExactly, createInstructionFromUID_foreign hnames]
    exact iff_of_true (.inl ⟨.exit 1, rfl, by decide⟩) fun h => absurd h hnames

end CodeGenerator

/-- The UID with index 1 reads behind a list of one instruction, and the UID with bit 32 set is
taken for the UID 0. -/
theorem not_looksUpExactly : ¬ oneInstruction.LooksUpExactly 1 ∧
    ¬ oneInstruction.LooksUpExactly 0x100000000 := by
  constructor
  · rintro (⟨stop, hstop, hdefined⟩ | ⟨instruction, -, hread, -⟩)
    · exact hdefined (Except.error.inj hstop).symm
    · cases hread
  · rintro (⟨stop, hstop, -⟩ | ⟨instruction, -, hread, huid⟩)
    · cases hstop
    · rw [← Except.ok.inj hread] at huid
      exact absurd huid (by decide)

end OsirisArm
