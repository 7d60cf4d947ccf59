import OsirisArm.Words

/-! # The layout of speculative pages

The pieces that `createSpeculativeTriggerTestrunCode` writes, with the index of the page at which
each of them starts. The gadget around the trigger is made of x86 instructions and displacements,
together 22 bytes, so that everything behind it starts between two words.
-/

namespace OsirisArm
open Library

/-- What a piece of code is for. -/
inductive Role where
  | prolog
  | helper
  | reset
  | gadget
  | measurement
  deriving DecidableEq

/-- The argument of one call of `addInstructionToCodePage`. -/
structure Piece where
  role : Role
  bytes : Bytes

def speculativeHead (triggerSequence resetSequence : Bytes) (resetExecutionsAmount : ℕ) :
    List Piece :=
  prologInstructions.map (Piece.mk .prolog) ++
    serializeInstructions.map (Piece.mk .helper) ++
    List.replicate resetExecutionsAmount ⟨.reset, resetSequence⟩ ++
      serializeInstructions.map (Piece.mk .helper) ++
        (gadgetInstructions triggerSequence).map (Piece.mk .gadget)

/-- The pieces from the timer on. -/
def speculativeTail (measurementSequence : Bytes) : List Piece :=
  timerStartInstructions.map (Piece.mk .helper) ++ ⟨.measurement, measurementSequence⟩ ::
    (timerEndInstructions.map (Piece.mk .helper) ++ ⟨.helper, instMovX015⟩ ::
      epilogInstructions.map (Piece.mk .helper))

def speculativePieces (measurementSequence triggerSequence resetSequence : Bytes)
    (resetExecutionsAmount : ℕ) : List Piece :=
  speculativeHead triggerSequence resetSequence resetExecutionsAmount ++
    speculativeTail measurementSequence

def bytesOf (pieces : List Piece) : Bytes := (pieces.map Piece.bytes).flatten

/-- Write the pieces one after the other. -/
def addPieces (pieces : List Piece) : CodePage → Except Stop CodePage :=
  addInstructionsToCodePage (pieces.map Piece.bytes)

/-- The pieces of the helpers and the measurement sequence are written at multiples of four. -/
def HelpersAligned (pieces : List Piece) : Prop :=
  ∀ before piece after page, pieces = before ++ piece :: after →
    piece.role = .helper ∨ piece.role = .measurement →
    addPieces before initializeCodePage = .ok page → 4 ∣ page.lastWrittenIndex

theorem bytesOf_append (first second : List Piece) :
    bytesOf (first ++ second) = bytesOf first ++ bytesOf second := by
  simp [bytesOf]

theorem addPieces_fills (pieces : List Piece) :
    Fills (addPieces pieces initializeCodePage) (bytesOf pieces) :=
  (emits_addInstructionsToCodePage (pieces.map Piece.bytes)).fills

theorem CodePage.Holds.eq {page page' : CodePage} {bytes : Bytes} (h : page.Holds bytes)
    (h' : page'.Holds bytes) : page = page' :=
  CodePage.eq_of_fields (h.1.trans h'.1.symm) (h.2.trans h'.2.symm)

theorem bytesOf_role (role : Role) (instructions : List Bytes) :
    bytesOf (instructions.map (Piece.mk role)) = instructions.flatten := by
  simp [bytesOf, Function.comp_def]

theorem bytesOf_speculativeHead_length (triggerSequence resetSequence : Bytes) (amount : ℕ) :
    (bytesOf (speculativeHead triggerSequence resetSequence amount)).length =
      134 + amount * resetSequence.length + triggerSequence.length := by
  have hprolog : prologInstructions.flatten.length = 80 := rfl
  have hserialize : serializeInstructions.flatten.length = 16 := rfl
  have hreset : (bytesOf (List.replicate amount ⟨.reset, resetSequence⟩)).length =
      amount * resetSequence.length := by simp [bytesOf]
  simp only [speculativeHead, bytesOf_append, bytesOf_role, List.length_append,
    hprolog, hserialize, hreset, gadgetInstructions_length]
  omega

theorem bytesOf_speculativePieces (measurementSequence triggerSequence resetSequence : Bytes)
    (amount : ℕ) :
    bytesOf (speculativePieces measurementSequence triggerSequence resetSequence amount) =
      speculativeTestrunBytes measurementSequence triggerSequence resetSequence amount := by
  simp [speculativePieces, speculativeHead, speculativeTail, bytesOf, speculativeTestrunBytes,
    measurementBytes, Function.comp_def]

theorem addPieces_of_createSpeculative
    {measurementSequence triggerSequence resetSequence : Bytes} {amount : ℕ} {page : CodePage}
    (hpage : createSpeculativeTriggerTestrunCode measurementSequence triggerSequence resetSequence
      amount = .ok page) :
    addPieces (speculativePieces measurementSequence triggerSequence resetSequence amount)
      initializeCodePage = .ok page := by
  have hamount := createSpeculativeTriggerTestrunCode_amount hpage
  have hgenerator := createSpeculativeTriggerTestrunCode_fills measurementSequence triggerSequence
    resetSequence hamount
  have hpieces := addPieces_fills
    (speculativePieces measurementSequence triggerSequence resetSequence amount)
  rw [bytesOf_speculativePieces] at hpieces
  obtain ⟨page', hpage', hholds'⟩ := hpieces.1 (hgenerator.exists_ok_iff.mp ⟨page, hpage⟩)
  rw [hpage', (hgenerator.holds hpage).eq hholds']

theorem speculativeTail_words {measurementSequence : Bytes} (h : WholeWords measurementSequence) :
    ∀ piece ∈ speculativeTail measurementSequence, WholeWords piece.bytes := by
  have hhelpers : ∀ piece ∈ (timerStartInstructions ++ timerEndInstructions ++ [instMovX015] ++
      epilogInstructions).map (Piece.mk .helper), piece.bytes.length = 4 := by decide
  intro piece hpiece
  by_cases hmeasurement : piece = ⟨.measurement, measurementSequence⟩
  · rw [hmeasurement]
    exact h
  · have hlength := hhelpers piece (by
      simp only [speculativeTail, List.mem_append, List.mem_cons, hmeasurement, false_or,
        List.map_append, List.map_cons, List.map_nil, List.not_mem_nil, or_false] at hpiece ⊢
      tauto)
    exact ⟨1, hlength⟩

theorem bytesOf_wholeWords {pieces : List Piece} (h : ∀ piece ∈ pieces, WholeWords piece.bytes) :
    WholeWords (bytesOf pieces) := by
  induction pieces with
  | nil => exact ⟨0, rfl⟩
  | cons piece pieces ih =>
    rw [List.forall_mem_cons] at h
    exact h.1.append (ih h.2)

/-- Whatever is written after the gadget starts two bytes behind a word boundary. -/
theorem tail_misaligned {measurementSequence triggerSequence resetSequence : Bytes} {amount : ℕ}
    (hmeasurement : WholeWords measurementSequence) (htrigger : WholeWords triggerSequence)
    (hreset : WholeWords resetSequence) {before after : List Piece} {piece : Piece}
    (htail : speculativeTail measurementSequence = before ++ piece :: after) {page : CodePage}
    (hpage : addPieces (speculativeHead triggerSequence resetSequence amount ++ before)
      initializeCodePage = .ok page) : page.lastWrittenIndex % 4 = 2 := by
  have hindex := ((addPieces_fills _).holds hpage).2
  have hwords : WholeWords (bytesOf before) := by
    apply bytesOf_wholeWords
    intro p hp
    exact speculativeTail_words hmeasurement p (by rw [htail]; simp [hp])
  have hrepeated : 4 ∣ amount * resetSequence.length := hreset.mul_left amount
  rw [WholeWords] at *
  rw [hindex, bytesOf_append, List.length_append, bytesOf_speculativeHead_length]
  omega

theorem not_helpersAligned {measurementSequence triggerSequence resetSequence : Bytes}
    {amount : ℕ} {page : CodePage} (hmeasurement : WholeWords measurementSequence)
    (htrigger : WholeWords triggerSequence) (hreset : WholeWords resetSequence)
    (hpieces : addPieces
      (speculativePieces measurementSequence triggerSequence resetSequence amount)
        initializeCodePage = .ok page) :
    ¬ HelpersAligned
      (speculativePieces measurementSequence triggerSequence resetSequence amount) := by
  intro haligned
  -- the first NOP of the timer start is the first piece behind the gadget
  obtain ⟨rest, htail⟩ : ∃ rest, speculativeTail measurementSequence =
      [] ++ ⟨.helper, instNop⟩ :: rest := ⟨_, rfl⟩
  have hfits := (addPieces_fills _).exists_ok_iff.mp ⟨page, hpieces⟩
  rw [speculativePieces, bytesOf_append, List.length_append] at hfits
  obtain ⟨before, hbefore, -⟩ :=
    (addPieces_fills (speculativeHead triggerSequence resetSequence amount ++ [])).1
      (by rw [List.append_nil]; omega)
  have hindex := tail_misaligned hmeasurement htrigger hreset htail hbefore
  have hmultiple := haligned _ _ rest before
    (by rw [speculativePieces, htail, List.append_nil, List.nil_append]) (Or.inl rfl) hbefore
  omega

/-- Every page that the generator completes for sequences of whole words consists of these pieces,
and its helpers are misaligned. -/
theorem createSpeculative_misaligned {measurementSequence triggerSequence resetSequence : Bytes}
    {amount : ℕ} {page : CodePage} (hmeasurement : WholeWords measurementSequence)
    (htrigger : WholeWords triggerSequence) (hreset : WholeWords resetSequence)
    (hpage : createSpeculativeTriggerTestrunCode measurementSequence triggerSequence resetSequence
      amount = .ok page) :
    addPieces (speculativePieces measurementSequence triggerSequence resetSequence amount)
        initializeCodePage = .ok page ∧
      ¬ HelpersAligned
        (speculativePieces measurementSequence triggerSequence resetSequence amount) := by
  have hpieces := addPieces_of_createSpeculative hpage
  exact ⟨hpieces, not_helpersAligned hmeasurement htrigger hreset hpieces⟩

theorem createSpeculative_misaligned_repeated :
    ∃ page, createSpeculativeTriggerTestrunCode instNop instNop instDsbSy 100 = .ok page ∧
      addPieces (speculativePieces instNop instNop instDsbSy 100) initializeCodePage = .ok page ∧
      ¬ HelpersAligned (speculativePieces instNop instNop instDsbSy 100) := by
  have hfills := createSpeculativeTriggerTestrunCode_fills instNop instNop instDsbSy (le_refl 100)
  obtain ⟨page, hpage⟩ := hfills.exists_ok_iff.mpr (by
    rw [speculativeTestrunBytes_length]
    decide)
  exact ⟨page, hpage, createSpeculative_misaligned ⟨1, rfl⟩ ⟨1, rfl⟩ ⟨1, rfl⟩ hpage⟩

/-- A page with one reset, trigger and measurement, all of them NOPs. -/
theorem createSpeculative_nop_misaligned :
    ∃ page, createSpeculativeTriggerTestrunCode instNop instNop instNop 1 = .ok page ∧
      addPieces (speculativePieces instNop instNop instNop 1) initializeCodePage = .ok page ∧
      ¬ HelpersAligned (speculativePieces instNop instNop instNop 1) := by
  have hfills := createSpeculativeTriggerTestrunCode_fills instNop instNop instNop
    (by decide : 1 ≤ 100)
  obtain ⟨page, hpage⟩ := hfills.exists_ok_iff.mpr (by
    rw [speculativeTestrunBytes_length]
    decide)
  have hpieces := addPieces_of_createSpeculative hpage
  exact ⟨page, hpage, hpieces, not_helpersAligned ⟨1, rfl⟩ ⟨1, rfl⟩ ⟨1, rfl⟩ hpieces⟩

end OsirisArm
