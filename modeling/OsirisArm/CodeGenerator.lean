import OsirisArm.Base64

/-! # The instruction list

`CodeGenerator` loads the instruction file and gives every instruction a UID: the last two bytes of
the file's hash followed by its index in the list. Reading a UID checks the hash part and uses the
index part.
-/

namespace OsirisArm
open Library

structure X86Instruction where
  instructionUid : BitVec 64
  byteRepresentation : Bytes
  assemblyCode : Text
  category : Text
  extension : Text
  isaSet : Text
  deriving DecidableEq

/-- The five columns of an instruction in a result file. -/
def X86Instruction.columns (i : X86Instruction) : List Text :=
  [printHex i.instructionUid.toNat, i.assemblyCode, i.category, i.extension, i.isaSet]

def X86Instruction.getCSVRepresentation (i : X86Instruction) : Text :=
  [';'].intercalate i.columns

/-- No text of the instruction breaks a line or a column of a result file. -/
def X86Instruction.Plain (i : X86Instruction) : Prop :=
  ∀ text ∈ [i.assemblyCode, i.category, i.extension, i.isaSet], ';' ∉ text ∧ '\n' ∉ text

/-- The hash function of the crypto library. -/
abbrev Sha256 := Text → {digest : Bytes // digest.length = 32}

def hexByte (b : Byte) : Text := (printHex b.toNat).leftpad 2 '0'

/-- The hex digest of a file; empty when the file cannot be read. -/
def calculateFileHashSHA256 (sha256 : Sha256) (file : Option Text) : Text :=
  match file with
  | none => []
  | some content => (sha256 content).1.flatMap hexByte

def endOfHash (hash : Text) : Text := hash.drop (hash.length - 4)

def generateInstructionUID (hash : Text) (instructionIdx : ℕ) : Except Stop (BitVec 64) := do
  assert !hash.isEmpty
  assert (instructionIdx ≤ 65535)
  let endOfHashInteger ← stoi 16 (endOfHash hash)
  return (BitVec.ofInt 64 endOfHashInteger <<< 16) + BitVec.ofNat 64 instructionIdx

def instructionFileHeader : Text :=
  "byte_representation;assembly_code;category;extension;isa_set".toList

/-- One line of the instruction file. -/
def parseInstruction (hash : Text) (instructionIdx : ℕ) (line : Text) :
    Except Stop X86Instruction :=
  match splitString line ';' with
  | [byteRepresentation, assemblyCode, category, extension, isaSet] => do
    let uid ← generateInstructionUID hash instructionIdx
    return ⟨uid, base64Decode byteRepresentation, assemblyCode, category, extension, isaSet⟩
  | _ => .error .abort

def parseInstructions (hash : Text) : ℕ → List Text → Except Stop (List X86Instruction)
  | _, [] => .ok []
  | instructionIdx, line :: lines => do
    let instruction ← parseInstruction hash instructionIdx line
    let rest ← parseInstructions hash (instructionIdx + 1) lines
    return instruction :: rest

/-- The hash text is a full hex digest. -/
def IsDigest (hash : Text) : Prop :=
  ∃ digest : Bytes, digest.length = 32 ∧ hash = digest.flatMap hexByte

/-- A loaded instruction list. -/
structure CodeGenerator where
  instructionFileSha256hash : Text
  instructionList : List X86Instruction
  isDigest : IsDigest instructionFileSha256hash
  uids : ∀ idx (h : idx < instructionList.length),
    generateInstructionUID instructionFileSha256hash idx =
      .ok instructionList[idx].instructionUid
  plain : ∀ instruction ∈ instructionList, instruction.Plain

theorem parseInstruction_ok {hash line : Text} {idx : ℕ} {instruction : X86Instruction}
    (h : parseInstruction hash idx line = .ok instruction) :
    generateInstructionUID hash idx = .ok instruction.instructionUid ∧
      ∀ text ∈ [instruction.assemblyCode, instruction.category, instruction.extension,
        instruction.isaSet], text ∈ splitString line ';' := by
  unfold parseInstruction at h
  split at h
  · next b a c e i hsplit =>
    cases huid : generateInstructionUID hash idx with
    | error stop =>
      rw [huid] at h
      cases h
    | ok uid =>
      rw [huid] at h
      cases h
      rw [hsplit]
      exact ⟨rfl, fun text htext => List.mem_cons_of_mem b htext⟩
  · cases h

/-- The list has one instruction a line, with the UIDs in order. -/
theorem parseInstructions_ok {hash : Text} {start : ℕ} {lines : List Text}
    {list : List X86Instruction} (h : parseInstructions hash start lines = .ok list)
    (hlines : ∀ line ∈ lines, '\n' ∉ line) :
    (∀ idx (hidx : idx < list.length),
      generateInstructionUID hash (start + idx) = .ok list[idx].instructionUid) ∧
      ∀ instruction ∈ list, instruction.Plain := by
  induction lines generalizing start list with
  | nil =>
    cases h
    exact ⟨fun idx hidx => absurd hidx (by simp), by simp⟩
  | cons line lines ih =>
    rw [parseInstructions] at h
    cases hfirst : parseInstruction hash start line with
    | error stop =>
      rw [hfirst] at h
      cases h
    | ok instruction =>
      cases hrest : parseInstructions hash (start + 1) lines with
      | error stop =>
        rw [hfirst, hrest] at h
        cases h
      | ok rest =>
        rw [hfirst, hrest] at h
        cases h
        obtain ⟨huid, htexts⟩ := parseInstruction_ok hfirst
        obtain ⟨huids, hplain⟩ := ih hrest (fun l hl => hlines l (List.mem_cons_of_mem line hl))
        constructor
        · intro idx hidx
          cases idx with
          | zero => exact huid
          | succ idx =>
            rw [← Nat.add_assoc, Nat.add_right_comm]
            exact huids idx (by simpa using hidx)
        · intro i hi
          rcases List.mem_cons.mp hi with rfl | hi
          · intro text htext
            have hmem := htexts text htext
            exact ⟨not_mem_of_mem_splitString hmem, fun hnl =>
              hlines line List.mem_cons_self (mem_of_mem_splitString hmem hnl)⟩
          · exact hplain i hi

/-- The constructor: the file is hashed, its header checked and its lines parsed. -/
def CodeGenerator.load (sha256 : Sha256) (file : Option Text) : Except Stop CodeGenerator :=
  match file with
  | none => .error (.exit 1)
  | some content =>
    let hash := calculateFileHashSHA256 sha256 (some content)
    match hcontent : readLines content with
    | [] => .error (.exit 1)
    | header :: lines =>
      if header ≠ instructionFileHeader then .error (.exit 1)
      else
        match hlist : parseInstructions hash 0 lines with
        | .error stop => .error stop
        | .ok list =>
          have hlines (line : Text) (h : line ∈ lines) : '\n' ∉ line :=
            readLines_no_newline (hcontent ▸ List.mem_cons_of_mem header h)
          have hparsed := parseInstructions_ok hlist hlines
          .ok {
            instructionFileSha256hash := hash
            instructionList := list
            isDigest := ⟨(sha256 content).1, (sha256 content).2, rfl⟩
            uids := fun idx hidx => by simpa using hparsed.1 idx hidx
            plain := hparsed.2 }

theorem hexByte_eq (b : Byte) : hexByte b = fixedDigits 16 2 b.toNat :=
  leftpad_toDigits (by decide) b.isLt

/-- The last four characters of the digest are the digits of its last two bytes. -/
theorem IsDigest.exists_tail {hash : Text} (h : IsDigest hash) :
    ∃ tail, tail < 16 ^ 4 ∧ endOfHash hash = fixedDigits 16 4 tail := by
  obtain ⟨digest, hlen, rfl⟩ := h
  obtain ⟨b₀, b₁, hdrop⟩ : ∃ b₀ b₁, digest.drop 30 = [b₀, b₁] :=
    List.length_eq_two.mp (by simp [hlen])
  have hlast : hexByte b₀ ++ hexByte b₁ =
      fixedDigits 16 4 (b₀.toNat * 16 ^ 2 + b₁.toNat) := by
    rw [hexByte_eq, hexByte_eq]
    exact (fixedDigits_append (b := 16) (w := 2) 2 b₁.isLt).symm
  have hhash : digest.flatMap hexByte = (digest.take 30).flatMap hexByte ++
      (hexByte b₀ ++ hexByte b₁) := by
    conv_lhs => rw [← List.take_append_drop 30 digest, List.flatMap_append, hdrop]
    simp only [List.flatMap_cons, List.flatMap_nil, List.append_nil]
  have hfour : (hexByte b₀ ++ hexByte b₁).length = 4 := by
    rw [hexByte_eq, hexByte_eq]
    rfl
  refine ⟨b₀.toNat * 16 ^ 2 + b₁.toNat, ?_, ?_⟩
  · have h₀ := b₀.isLt
    have h₁ := b₁.isLt
    omega
  · rw [endOfHash, hhash, List.length_append, hfour, Nat.add_sub_cancel, List.drop_left, hlast]

theorem IsDigest.ne_nil {hash : Text} (h : IsDigest hash) : hash ≠ [] := by
  obtain ⟨tail, -, hend⟩ := h.exists_tail
  rintro rfl
  simp [endOfHash, fixedDigits] at hend

/-- A UID is generated for every index of two bytes. -/
theorem exists_generateInstructionUID {hash : Text} (h : IsDigest hash) {idx : ℕ}
    (hidx : idx ≤ 65535) : ∃ tail, tail < 16 ^ 4 ∧ endOfHash hash = fixedDigits 16 4 tail ∧
      generateInstructionUID hash idx =
        .ok ((BitVec.ofInt 64 tail <<< 16) + BitVec.ofNat 64 idx) := by
  obtain ⟨tail, htail, hend⟩ := h.exists_tail
  have hstoi : stoi 16 (endOfHash hash) = .ok (tail : ℤ) := by
    have hrange : intMin ≤ (tail : ℤ) ∧ (tail : ℤ) ≤ intMax := by
      rw [intMin, intMax]
      omega
    rw [stoi, hend, strtol_fixedDigits (by decide) (by decide) htail]
    simp only [if_pos hrange]
  have hne : (!hash.isEmpty) = true := by simpa using h.ne_nil
  refine ⟨tail, htail, hend, ?_⟩
  rw [generateInstructionUID, hne, hstoi, decide_eq_true hidx]
  rfl

/-- A generated UID is the end of the hash followed by the index. -/
theorem generateInstructionUID_ok {hash : Text} (h : IsDigest hash) {idx : ℕ} {uid : BitVec 64}
    (huid : generateInstructionUID hash idx = .ok uid) :
    idx ≤ 65535 ∧ ∃ tail, tail < 16 ^ 4 ∧ endOfHash hash = fixedDigits 16 4 tail ∧
      uid.toNat = tail * 2 ^ 16 + idx := by
  have hne : (!hash.isEmpty) = true := by simpa using h.ne_nil
  by_cases hidx : idx ≤ 65535
  · obtain ⟨tail, htail, hend, hok⟩ := exists_generateInstructionUID h hidx
    rw [hok] at huid
    cases huid
    refine ⟨hidx, tail, htail, hend, ?_⟩
    rw [BitVec.ofInt_natCast, BitVec.toNat_add, BitVec.toNat_shiftLeft, BitVec.toNat_ofNat,
      BitVec.toNat_ofNat, Nat.shiftLeft_eq]
    omega
  · rw [generateInstructionUID, hne, decide_eq_false hidx] at huid
    cases huid

def instructionUIDToInstructionIndex (hash : Text) (instructionUid : BitVec 64) :
    Except Stop ℕ :=
  let endOfHashUid := (printHex ((instructionUid >>> 16) &&& 0xffff).toNat).leftpad 4 '0'
  if endOfHashUid ≠ endOfHash hash then .error (.exit 1)
  else .ok (instructionUid &&& 0xffff).toNat

/-- The two bytes of a UID that name the instruction file. -/
def uidHash (instructionUid : BitVec 64) : ℕ := instructionUid.toNat / 2 ^ 16 % 2 ^ 16

/-- The lowest two bytes of a UID. -/
def uidIndex (instructionUid : BitVec 64) : ℕ := instructionUid.toNat % 2 ^ 16

theorem uid_recompose {instructionUid : BitVec 64} :
    uidHash instructionUid * 2 ^ 16 + uidIndex instructionUid = instructionUid.toNat ↔
      instructionUid.toNat < 2 ^ 32 := by
  unfold uidHash uidIndex
  omega

/-- Reading a UID compares its file with the end of the hash and ignores the higher bytes. -/
theorem instructionUIDToInstructionIndex_eq (hash : Text) (instructionUid : BitVec 64) :
    instructionUIDToInstructionIndex hash instructionUid =
      if fixedDigits 16 4 (uidHash instructionUid) = endOfHash hash then
        .ok (uidIndex instructionUid)
      else .error (.exit 1) := by
  have hhigh : ((instructionUid >>> 16) &&& 0xffff).toNat = uidHash instructionUid := by
    change (instructionUid.toNat >>> 16) &&& (2 ^ 16 - 1) = _
    rw [Nat.and_two_pow_sub_one_eq_mod, Nat.shiftRight_eq_div_pow]
    rfl
  have hlow : (instructionUid &&& 0xffff).toNat = uidIndex instructionUid := by
    change instructionUid.toNat &&& (2 ^ 16 - 1) = _
    rw [Nat.and_two_pow_sub_one_eq_mod]
    rfl
  have hpad : (printHex (uidHash instructionUid)).leftpad 4 '0' =
      fixedDigits 16 4 (uidHash instructionUid) :=
    leftpad_toDigits (by decide) (Nat.mod_lt _ (by decide))
  rw [instructionUIDToInstructionIndex, hhigh, hlow, hpad, ite_not]

theorem instructionUIDToInstructionIndex_generate {hash : Text} (h : IsDigest hash) {idx : ℕ}
    {uid : BitVec 64} (huid : generateInstructionUID hash idx = .ok uid) :
    instructionUIDToInstructionIndex hash uid = .ok idx := by
  obtain ⟨hidx, tail, htail, hend, hnat⟩ := generateInstructionUID_ok h huid
  have hhash : uidHash uid = tail := by
    rw [uidHash, hnat]
    omega
  have hindex : uidIndex uid = idx := by
    rw [uidIndex, hnat]
    omega
  rw [instructionUIDToInstructionIndex_eq, hhash, hindex, if_pos hend.symm]

namespace CodeGenerator
variable (codeGenerator : CodeGenerator)

def getNumberOfInstructions : ℕ := codeGenerator.instructionList.length

/-- The check lets the index just behind the list pass. -/
def createInstructionFromIndex (instructionIdx : ℕ) : Except Stop X86Instruction :=
  if instructionIdx > codeGenerator.instructionList.length then .error .abort
  else
    match codeGenerator.instructionList[instructionIdx]? with
    | some instruction => .ok instruction
    | none => .error .undefinedBehaviour

def createInstructionFromUID (instructionUid : BitVec 64) : Except Stop X86Instruction := do
  let instructionIdx ← instructionUIDToInstructionIndex
    codeGenerator.instructionFileSha256hash instructionUid
  codeGenerator.createInstructionFromIndex instructionIdx

variable {codeGenerator}

theorem createInstructionFromIndex_getElem {idx : ℕ}
    (h : idx < codeGenerator.instructionList.length) :
    codeGenerator.createInstructionFromIndex idx = .ok codeGenerator.instructionList[idx] := by
  rw [createInstructionFromIndex, if_neg (by omega), List.getElem?_eq_getElem h]

/-- The UID of an instruction of the list leads back to it. -/
theorem createInstructionFromUID_mem {instruction : X86Instruction}
    (h : instruction ∈ codeGenerator.instructionList) :
    codeGenerator.createInstructionFromUID instruction.instructionUid = .ok instruction := by
  obtain ⟨idx, hidx, rfl⟩ := List.getElem_of_mem h
  have hread := instructionUIDToInstructionIndex_generate codeGenerator.isDigest
    (codeGenerator.uids idx hidx)
  rw [createInstructionFromUID, hread]
  exact createInstructionFromIndex_getElem hidx

theorem instructionList_nodup : codeGenerator.instructionList.Nodup := by
  rw [List.nodup_iff_injective_get]
  intro i j hij
  have hi := instructionUIDToInstructionIndex_generate codeGenerator.isDigest
    (codeGenerator.uids i i.isLt)
  have hj := instructionUIDToInstructionIndex_generate codeGenerator.isDigest
    (codeGenerator.uids j j.isLt)
  rw [← List.get_eq_getElem, hij, List.get_eq_getElem, hj] at hi
  exact Fin.ext (Except.ok.inj hi).symm

theorem stoll_uid {instruction : X86Instruction}
    (h : instruction ∈ codeGenerator.instructionList) :
    stoll 16 (printHex instruction.instructionUid.toNat) = .ok instruction.instructionUid := by
  obtain ⟨idx, hidx, rfl⟩ := List.getElem_of_mem h
  obtain ⟨hidx', tail, htail, -, hnat⟩ :=
    generateInstructionUID_ok codeGenerator.isDigest (codeGenerator.uids idx hidx)
  rw [stoll_printHex (by omega), BitVec.ofNat_toNat, BitVec.setWidth_eq]

end CodeGenerator

theorem X86Instruction.Plain.columns {i : X86Instruction} (h : i.Plain) :
    ∀ column ∈ i.columns, ';' ∉ column ∧ '\n' ∉ column := by
  intro column hcolumn
  rcases List.mem_cons.mp hcolumn with rfl | hcolumn
  · exact ⟨fun hc => (printHex_plain hc).1 rfl, fun hc => (printHex_plain hc).2 rfl⟩
  · exact h column hcolumn

theorem X86Instruction.Plain.splitString_csv {i : X86Instruction} (h : i.Plain) :
    splitString i.getCSVRepresentation ';' = i.columns :=
  splitString_intercalate (fun column hcolumn => (h.columns column hcolumn).1)
    (List.cons_ne_nil _ _)

theorem X86Instruction.Plain.csv_no_newline {i : X86Instruction} (h : i.Plain) :
    '\n' ∉ i.getCSVRepresentation :=
  intercalate_no_newline fun column hcolumn => (h.columns column hcolumn).2

/-- The digest of 32 zero bytes; a UID under it is the index alone. -/
def zeroHash : Text := (List.replicate 32 (0 : Byte)).flatMap hexByte

theorem generateInstructionUID_zeroHash {idx : ℕ} (h : idx ≤ 65535) :
    generateInstructionUID zeroHash idx = .ok (BitVec.ofNat 64 idx) := by
  have hstoi : stoi 16 (endOfHash zeroHash) = .ok 0 := by decide
  have hne : (!zeroHash.isEmpty) = true := by decide
  have hshift : BitVec.ofInt 64 0 <<< 16 = 0#64 := by decide
  rw [generateInstructionUID, hstoi, hne, decide_eq_true h]
  change Except.ok (BitVec.ofInt 64 0 <<< 16 + BitVec.ofNat 64 idx) = _
  rw [hshift, BitVec.zero_add]

/-- The instruction at an index of a list under the zero hash. -/
def instructionAt (idx : ℕ) (entry : Bytes × Text) : X86Instruction :=
  ⟨BitVec.ofNat 64 idx, entry.1, entry.2, "GENERAL".toList, "BASE".toList, "A64".toList⟩

def CodeGenerator.ofEntries (entries : List (Bytes × Text)) (hlength : entries.length ≤ 65536)
    (hplain : ∀ entry ∈ entries, ';' ∉ entry.2 ∧ '\n' ∉ entry.2) : CodeGenerator where
  instructionFileSha256hash := zeroHash
  instructionList := entries.mapIdx instructionAt
  isDigest := ⟨List.replicate 32 0, List.length_replicate, rfl⟩
  uids := by
    intro idx h
    rw [List.length_mapIdx] at h
    rw [generateInstructionUID_zeroHash (by omega), List.getElem_mapIdx]
    rfl
  plain := by
    intro instruction hmem
    obtain ⟨idx, hidx, rfl⟩ := List.mem_mapIdx.mp hmem
    have hcode := hplain _ (List.getElem_mem hidx)
    intro text htext
    simp only [instructionAt, List.mem_cons, List.not_mem_nil, or_false] at htext
    rcases htext with rfl | rfl | rfl | rfl
    · exact hcode
    all_goals decide

def oneInstruction : CodeGenerator :=
  .ofEntries [([0x1f, 0x20, 0x03, 0xd5], "NOP".toList)] (by decide) (by decide)

def twoInstructions : CodeGenerator :=
  .ofEntries [([0x1f, 0x20, 0x03, 0xd5], "NOP".toList), ([0xdf, 0x3f, 0x03, 0xd5], "ISB".toList)]
    (by decide) (by decide)

end OsirisArm
