import OsirisArm.TriggerPages

/-! # The filler of the reset test

In the clean page of a reset test a filler stands where the noisy page has the trigger. It has the
length of the reset sequence and its bytes are in another order than those of the NOPs that a page
is initialised with. So the pages line up exactly if trigger and reset sequence are equally long,
and a filler that is not empty always changes the page.
-/

namespace OsirisArm
open Library

/-- The calls that write these pieces, each with the index at which it writes. -/
def writesFrom : ℕ → List Bytes → List (ℕ × Bytes)
  | _, [] => []
  | idx, piece :: rest => (idx, piece) :: writesFrom (idx + piece.length) rest

/-- The writes behind the trigger: the copies of the reset sequence, the measurement sequence and
the code around them. -/
def writesBehindTrigger (triggerSequence measurementSequence resetSequence : Bytes)
    (resetExecutionsAmount : ℕ) : List (ℕ × Bytes) :=
  (writesFrom 0 (resetTestrunPieces triggerSequence measurementSequence resetSequence
    resetExecutionsAmount)).drop (resetTestrunHead triggerSequence).length

/-- The clean and the noisy page have the same code at the same places behind the trigger. -/
def ComparesLikeWithLike (triggerSequence measurementSequence resetSequence : Bytes)
    (resetExecutionsAmount : ℕ) : Prop :=
  writesBehindTrigger (createSequenceOfNOPs resetSequence.length) measurementSequence
      resetSequence resetExecutionsAmount =
    writesBehindTrigger triggerSequence measurementSequence resetSequence resetExecutionsAmount

theorem writesFrom_append (idx : ℕ) (first second : List Bytes) :
    writesFrom idx (first ++ second) =
      writesFrom idx first ++ writesFrom (idx + totalLength first) second := by
  induction first generalizing idx with
  | nil => rfl
  | cons piece rest ih =>
    simp only [List.cons_append, writesFrom, ih, totalLength, List.map_cons, List.sum_cons]
    rw [Nat.add_assoc]

theorem writesFrom_length (idx : ℕ) (pieces : List Bytes) :
    (writesFrom idx pieces).length = pieces.length := by
  induction pieces generalizing idx with
  | nil => rfl
  | cons piece rest ih => simp [writesFrom, ih]

theorem prefix_of_mem_writesFrom {idx : ℕ} {pieces : List Bytes} {content : Bytes}
    (h : pieces.flatten <+: content.drop idx) {write : ℕ × Bytes}
    (hwrite : write ∈ writesFrom idx pieces) : write.2 <+: content.drop write.1 := by
  induction pieces generalizing idx with
  | nil => cases hwrite
  | cons piece rest ih =>
    rw [List.flatten_cons] at h
    rcases List.mem_cons.mp hwrite with rfl | hwrite
    · exact (List.prefix_append _ _).trans h
    · apply ih _ hwrite
      obtain ⟨after, hafter⟩ := h
      rw [List.append_assoc] at hafter
      exact ⟨after, (drop_next hafter.symm rfl).symm⟩

/-- The code behind the trigger starts where the code in front of it ends. -/
theorem writesBehindTrigger_eq (triggerSequence measurementSequence resetSequence : Bytes)
    (amount : ℕ) :
    writesBehindTrigger triggerSequence measurementSequence resetSequence amount =
      writesFrom (96 + triggerSequence.length)
        (List.replicate amount resetSequence ++ serializeInstructions ++
          measurementPieces measurementSequence) := by
  have hhead : totalLength (resetTestrunHead triggerSequence) = 96 + triggerSequence.length := by
    have hprolog : prologInstructions.flatten.length = 80 := rfl
    have hserialize : serializeInstructions.flatten.length = 16 := rfl
    rw [totalLength_eq, resetTestrunHead, List.flatten_append, List.flatten_append,
      List.flatten_singleton, List.length_append, List.length_append, hprolog, hserialize]
    omega
  rw [writesBehindTrigger, resetTestrunPieces, List.append_assoc, List.append_assoc,
    writesFrom_append, hhead, Nat.zero_add, ← List.append_assoc]
  exact List.drop_left' (writesFrom_length _ _)

/-- The pages line up exactly if the filler is as long as the trigger. -/
theorem comparesLikeWithLike_iff_length {triggerSequence measurementSequence resetSequence : Bytes}
    {amount : ℕ} :
    ComparesLikeWithLike triggerSequence measurementSequence resetSequence amount ↔
      (createSequenceOfNOPs resetSequence.length).length = triggerSequence.length := by
  rw [ComparesLikeWithLike, writesBehindTrigger_eq, writesBehindTrigger_eq]
  constructor
  · intro h
    have hne : List.replicate amount resetSequence ++ serializeInstructions ++
        measurementPieces measurementSequence ≠ [] := by
      simp [serializeInstructions]
    obtain ⟨piece, rest, hpieces⟩ := List.exists_cons_of_ne_nil hne
    rw [hpieces] at h
    have hidx := (Prod.mk.inj (List.cons.inj h).1).1
    omega
  · intro h
    rw [h]

/-- The writes behind the trigger are found on both pages. They are the same exactly if trigger and
reset sequence are equally long. -/
theorem createResetPages_likeWithLike_iff
    {triggerSequence measurementSequence resetSequence : Bytes} {amount : ℕ}
    {pages after : CodePages} (hreset : 4 ∣ resetSequence.length)
    (h : CodePages.createResetPages triggerSequence measurementSequence resetSequence amount pages =
      .ok after) :
    ((∀ write ∈ writesBehindTrigger (createSequenceOfNOPs resetSequence.length)
        measurementSequence resetSequence amount, write.2 <+: (after 0).content.drop write.1) ∧
      ∀ write ∈ writesBehindTrigger triggerSequence measurementSequence resetSequence amount,
        write.2 <+: (after 1).content.drop write.1) ∧
    (ComparesLikeWithLike triggerSequence measurementSequence resetSequence amount ↔
      triggerSequence.length = resetSequence.length) := by
  rw [CodePages.createResetPages_eq] at h
  obtain ⟨pages, hpages, rfl⟩ := except_map_ok h
  obtain ⟨page₀, h₀, hpages⟩ := except_bind_ok hpages
  obtain ⟨page₁, h₁, hpages⟩ := except_bind_ok hpages
  obtain rfl := Except.ok.inj hpages
  have hamount := createResetTestrunCode_amount h₀
  have hwritten {page : CodePage} {triggerSequence : Bytes}
      (hpage : createResetTestrunCode triggerSequence measurementSequence resetSequence amount =
        .ok page) : ∀ write ∈ writesBehindTrigger triggerSequence measurementSequence resetSequence
          amount, write.2 <+: page.content.drop write.1 := by
    intro write hwrite
    have hholds := (createResetTestrunCode_fills _ _ _ hamount).holds hpage
    apply prefix_of_mem_writesFrom _ (List.mem_of_mem_drop hwrite)
    rw [resetTestrunPieces_flatten, hholds.1, List.drop_zero]
    exact List.prefix_append _ _
  refine ⟨⟨hwritten h₀, hwritten h₁⟩, ?_⟩
  rw [comparesLikeWithLike_iff_length, Executor.createSequenceOfNOPs_length]
  omega

/-- A reset sequence of two NOPs, so that the filler is longer than the trigger. -/
theorem exists_resetPages_twoNops : ∃ after,
    CodePages.createResetPages instNop instNop (instNop ++ instNop) 1
      (fun _ => initializeCodePage) = .ok after := by
  obtain ⟨page₀, h₀⟩ := (createResetTestrunCode_fills (createSequenceOfNOPs 8) instNop
    (instNop ++ instNop) (by decide : 1 ≤ 100)).exists_ok_iff.mpr
      (by rw [resetTestrunBytes_length]; decide)
  obtain ⟨page₁, h₁⟩ := (createResetTestrunCode_fills instNop instNop (instNop ++ instNop)
    (by decide : 1 ≤ 100)).exists_ok_iff.mpr (by rw [resetTestrunBytes_length]; decide)
  have hafter := CodePages.createResetPages_eq instNop instNop (instNop ++ instNop) 1
    fun _ => initializeCodePage
  have hlength : (instNop ++ instNop).length = 8 := rfl
  rw [hlength, h₀, h₁] at hafter
  exact ⟨_, hafter⟩

/-- The witness takes the sequences of a test of one NOP, one NOP and two NOPs. -/
theorem createResetPages_likeWithLike_twoNops : ∃ after,
    CodePages.createResetPages instNop instNop (instNop ++ instNop) 1
      (fun _ => initializeCodePage) = .ok after ∧
    ((∀ write ∈ writesBehindTrigger (createSequenceOfNOPs (instNop ++ instNop).length) instNop
        (instNop ++ instNop) 1, write.2 <+: (after 0).content.drop write.1) ∧
      ∀ write ∈ writesBehindTrigger instNop instNop (instNop ++ instNop) 1,
        write.2 <+: (after 1).content.drop write.1) ∧
    (ComparesLikeWithLike instNop instNop (instNop ++ instNop) 1 ↔
      instNop.length = (instNop ++ instNop).length) := by
  obtain ⟨after, hafter⟩ := exists_resetPages_twoNops
  exact ⟨after, hafter, createResetPages_likeWithLike_iff (by decide) hafter⟩

/-- The page with the filler and the page with the trigger do not line up. -/
theorem twoNops_not_likeWithLike : ∃ after,
    CodePages.createResetPages instNop instNop (instNop ++ instNop) 1
      (fun _ => initializeCodePage) = .ok after ∧
    ¬ ComparesLikeWithLike instNop instNop (instNop ++ instNop) 1 := by
  obtain ⟨after, hafter⟩ := exists_resetPages_twoNops
  refine ⟨after, hafter, ?_⟩
  rw [comparesLikeWithLike_iff_length, Executor.createSequenceOfNOPs_length]
  decide

/-- Appended to a fresh page, the filler advances the index by its length and changes nothing. -/
def FillerIsNops (codepageNo : Fin 2) (pages : CodePages) (length : ℕ) : Prop :=
  ∃ after, CodePages.onPage codepageNo (addByteArrayToCodePage (createSequenceOfNOPs length))
      (CodePages.initializeCodePage codepageNo pages) = .ok after ∧
    (after codepageNo).lastWrittenIndex = length ∧
    (after codepageNo).content =
      (CodePages.initializeCodePage codepageNo pages codepageNo).content

/-- The filler fits on a fresh page and advances the index by its length. -/
theorem exists_filled (codepageNo : Fin 2) (pages : CodePages) {length : ℕ}
    (hwords : 4 ∣ length) (hfits : length < kPagesize) :
    ∃ page, CodePages.onPage codepageNo (addByteArrayToCodePage (createSequenceOfNOPs length))
        (CodePages.initializeCodePage codepageNo pages) =
          .ok (Function.update pages codepageNo page) ∧
      page.Holds (createSequenceOfNOPs length) ∧ page.lastWrittenIndex = length := by
  have hlength : (createSequenceOfNOPs length).length = length := by
    rw [Executor.createSequenceOfNOPs_length]
    omega
  obtain ⟨page, hpage, hholds⟩ :=
    (emits_addInstructionToCodePage (createSequenceOfNOPs length)).fills.1 (by rwa [hlength])
  refine ⟨page, ?_, hholds, by rw [hholds.2, hlength]⟩
  rw [(CodePages.actsOn_byteArray _).fresh pages, hpage]
  rfl

theorem content_initialized (codepageNo : Fin 2) (pages : CodePages) :
    (CodePages.initializeCodePage codepageNo pages codepageNo).content = blankContent := by
  rw [CodePages.initializeCodePage, Function.update_self, CodePage.initializePage_eq]
  rfl

/-- The bytes of the filler are those of a NOP in the opposite order. -/
theorem not_fillerIsNops (codepageNo : Fin 2) (pages : CodePages) {length : ℕ}
    (hwords : 4 ∣ length) (hfits : length < kPagesize) (hne : length ≠ 0) :
    ¬ FillerIsNops codepageNo pages length := by
  rintro ⟨after, hafter, -, hcontent⟩
  obtain ⟨page, hpage, hholds, -⟩ := exists_filled codepageNo pages hwords hfits
  rw [hpage] at hafter
  obtain rfl := Except.ok.inj hafter
  rw [content_initialized, Function.update_self, hholds.1] at hcontent
  obtain ⟨n, hn⟩ : ∃ n, (length + 3) / 4 = n + 1 := ⟨(length + 3) / 4 - 1, by omega⟩
  have hfiller : createSequenceOfNOPs length =
      [0xd5, 0x03, 0x20, 0x1f] ++ (List.replicate n [0xd5, 0x03, 0x20, 0x1f]).flatten := by
    rw [createSequenceOfNOPs, hn, List.replicate_succ, List.flatten_cons]
  -- the first byte of the page would have to be the last byte of a NOP
  have hfirst : blankContent.head? = some 0x1f := rfl
  rw [← hcontent, hfiller] at hfirst
  cases hfirst

/-- A filler on a fresh page is made of NOPs exactly if it is empty. -/
theorem fillerIsNops_iff (codepageNo : Fin 2) (pages : CodePages) {length : ℕ}
    (hwords : 4 ∣ length) (hfits : length < kPagesize) :
    FillerIsNops codepageNo pages length ↔ length = 0 := by
  constructor
  · intro h
    by_contra hne
    exact not_fillerIsNops codepageNo pages hwords hfits hne h
  · rintro rfl
    obtain ⟨page, hpage, hholds, hindex⟩ :=
      exists_filled codepageNo pages hwords hfits
    refine ⟨_, hpage, ?_, ?_⟩
    · rw [Function.update_self, hindex]
    · rw [Function.update_self, content_initialized, hholds.1]
      rfl

theorem fillerIsNops_word : 4 ∣ 4 ∧ 4 < kPagesize ∧
    (FillerIsNops 0 (fun _ => initializeCodePage) 4 ↔ 4 = 0) :=
  ⟨by decide, by decide, fillerIsNops_iff 0 (fun _ => initializeCodePage) (by decide) (by decide)⟩

/-- A filler of one word. -/
theorem word_not_fillerIsNops : ¬ FillerIsNops 0 (fun _ => initializeCodePage) 4 :=
  not_fillerIsNops 0 _ (by decide) (by decide) (by decide)

end OsirisArm
