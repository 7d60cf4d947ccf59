import OsirisArm.CodePages

/-! # The layout of the pages

What the generators of ordinary test code leave on the two pages: the pieces in program order from
the start of the page, and behind them what the initialisation has put there. They run through
exactly if the pieces leave one byte of the page free.
-/

namespace OsirisArm
open Library

/-- The pieces from the timer start to the end of the code. -/
def measurementPieces (measurementSequence : Bytes) : List Bytes :=
  timerStartInstructions ++ [measurementSequence] ++ timerEndInstructions ++ [instMovX015] ++
    epilogInstructions

/-- The pieces in front of the copies of the reset sequence. -/
def resetTestrunHead (triggerSequence : Bytes) : List Bytes :=
  prologInstructions ++ [triggerSequence] ++ serializeInstructions

def resetTestrunPieces (triggerSequence measurementSequence resetSequence : Bytes)
    (resetExecutionsAmount : ℕ) : List Bytes :=
  resetTestrunHead triggerSequence ++ List.replicate resetExecutionsAmount resetSequence ++
    serializeInstructions ++ measurementPieces measurementSequence

def testrunPieces (firstSequence secondSequence measurementSequence : Bytes)
    (firstSequenceExecutionsAmount : ℕ) : List Bytes :=
  prologInstructions ++ serializeInstructions ++
    List.replicate firstSequenceExecutionsAmount firstSequence ++ serializeInstructions ++
      [secondSequence] ++ serializeInstructions ++ measurementPieces measurementSequence

def totalLength (pieces : List Bytes) : ℕ := (pieces.map List.length).sum

/-- The pieces stand at the start of page `codepageNo`, and nothing else has changed since the
initialisation of this page. -/
structure LaidOut (codepageNo : Fin 2) (pages : CodePages) (pieces : List Bytes)
    (after : CodePages) : Prop where
  start : (after codepageNo).content.take (totalLength pieces) = pieces.flatten
  index : (after codepageNo).lastWrittenIndex = totalLength pieces
  rest : ∀ i, totalLength pieces ≤ i →
    (after codepageNo).content[i]? = (pages codepageNo).initializePage.content[i]?
  other : ∀ otherNo, otherNo ≠ codepageNo → after otherNo = pages otherNo

/-- The generator lays out these pieces, and runs through exactly if they fit. -/
def LaysOut (codepageNo : Fin 2) (pieces : List Bytes)
    (generator : CodePages → Except Stop CodePages) : Prop :=
  ∀ pages,
    ((∃ after, generator pages = .ok after) ↔ totalLength pieces ≤ kPagesize - 1) ∧
      ∀ after, generator pages = .ok after → LaidOut codepageNo pages pieces after

/-- The last word of the page is the return. -/
def CodePage.EndsWithRet (page : CodePage) : Prop := page.content.drop (kPagesize - 4) = initialRet

theorem totalLength_eq (pieces : List Bytes) : totalLength pieces = pieces.flatten.length :=
  List.length_flatten.symm

theorem resetTestrunPieces_flatten
    (triggerSequence measurementSequence resetSequence : Bytes) (amount : ℕ) :
    (resetTestrunPieces triggerSequence measurementSequence resetSequence amount).flatten =
      resetTestrunBytes triggerSequence measurementSequence resetSequence amount := by
  simp only [resetTestrunPieces, resetTestrunHead, measurementPieces, resetTestrunBytes,
    measurementBytes, List.flatten_append, List.flatten_singleton, List.append_assoc]

theorem testrunPieces_flatten (firstSequence secondSequence measurementSequence : Bytes)
    (amount : ℕ) :
    (testrunPieces firstSequence secondSequence measurementSequence amount).flatten =
      testrunBytes firstSequence secondSequence measurementSequence amount := by
  simp only [testrunPieces, measurementPieces, testrunBytes, measurementBytes,
    List.flatten_append, List.flatten_singleton, List.append_assoc]

theorem CodePage.Holds.getElem?_of_le {page : CodePage} {bytes : Bytes} (h : page.Holds bytes)
    {i : ℕ} (hi : bytes.length ≤ i) : page.content[i]? = blankContent[i]? := by
  rw [h.1, List.getElem?_append_right hi, List.getElem?_drop]
  congr 1
  omega

/-- Bytes that end at a word boundary leave the last word alone. -/
theorem CodePage.Holds.endsWithRet {page : CodePage} {bytes : Bytes} (h : page.Holds bytes)
    (hwords : 4 ∣ bytes.length) : page.EndsWithRet := by
  have hlength : bytes.length + (kPagesize - 4 - bytes.length) = kPagesize - 4 := by
    have := h.length_lt
    simp only [kPagesize] at this ⊢
    omega
  have hnop : initialNop.length = 4 := numberToBytesLE_length _ 4
  have hnops : (List.replicate (kPagesize / 4 - 1) initialNop).flatten.length = kPagesize - 4 := by
    rw [List.length_flatten, List.map_replicate, List.sum_replicate_nat, hnop]
    decide
  rw [CodePage.EndsWithRet, h.1, ← hlength, List.drop_length_add_append, List.drop_drop, hlength,
    blankContent, ← hnops, List.drop_left]

/-- What a generator writes to a fresh page is laid out on the page it is given. -/
theorem Fills.laysOut {result : Except Stop CodePage} {pieces : List Bytes}
    (h : Fills result pieces.flatten) {codepageNo : Fin 2}
    {generator : CodePages → Except Stop CodePages}
    (hgenerator : ∀ pages, generator pages = result.map (Function.update pages codepageNo)) :
    LaysOut codepageNo pieces generator := by
  intro pages
  have hiff := h.exists_ok_iff
  rw [← totalLength_eq] at hiff
  rw [hgenerator]
  constructor
  · have hbound : totalLength pieces < kPagesize ↔ totalLength pieces ≤ kPagesize - 1 := by
      have := kPagesize_pos
      omega
    rw [← hbound, ← hiff]
    cases result with
    | error stop => simp [Except.map]
    | ok page => simp [Except.map]
  · intro after hafter
    cases result with
    | error stop => cases hafter
    | ok page =>
      obtain rfl := Except.ok.inj hafter
      have hholds := h.holds rfl
      refine ⟨?_, ?_, ?_, fun otherNo hother => Function.update_of_ne hother _ _⟩
      · rw [Function.update_self, hholds.1, totalLength_eq, List.take_left]
      · rw [Function.update_self, hholds.2, totalLength_eq]
      · intro i hi
        rw [totalLength_eq] at hi
        rw [Function.update_self, hholds.getElem?_of_le hi, CodePage.initializePage_eq]
        rfl

theorem Fills.endsWithRet {result : Except Stop CodePage} {pieces : List Bytes}
    (h : Fills result pieces.flatten) {codepageNo : Fin 2} {pages after : CodePages}
    (hafter : result.map (Function.update pages codepageNo) = .ok after)
    (hwords : 4 ∣ pieces.flatten.length) : (after codepageNo).EndsWithRet := by
  cases result with
  | error stop => cases hafter
  | ok page =>
    obtain rfl := Except.ok.inj hafter
    rw [Function.update_self]
    exact (h.holds rfl).endsWithRet hwords

/-- Both generators, on either page and whatever was on the pages before. -/
theorem generators_laysOut (codepageNo : Fin 2) (first second measurement : Bytes) {amount : ℕ}
    (hamount : amount ≤ 100) :
    (LaysOut codepageNo (testrunPieces first second measurement amount)
        (CodePages.createTestrunCode codepageNo first second measurement amount) ∧
      LaysOut codepageNo (resetTestrunPieces first measurement second amount)
        (CodePages.createResetTestrunCode codepageNo first measurement second amount)) ∧
    (4 ∣ first.length → 4 ∣ second.length → 4 ∣ measurement.length → ∀ pages after,
      CodePages.createTestrunCode codepageNo first second measurement amount pages = .ok after ∨
        CodePages.createResetTestrunCode codepageNo first measurement second amount pages =
          .ok after → (after codepageNo).EndsWithRet) := by
  have htestrun := createTestrunCode_fills first second measurement hamount
  have hreset := createResetTestrunCode_fills first measurement second hamount
  rw [← testrunPieces_flatten] at htestrun
  rw [← resetTestrunPieces_flatten] at hreset
  refine ⟨⟨htestrun.laysOut fun pages => CodePages.createTestrunCode_eq codepageNo pages _ _ _ _,
    hreset.laysOut fun pages => CodePages.createResetTestrunCode_eq codepageNo pages _ _ _ _⟩, ?_⟩
  intro hfirst hsecond hmeasurement pages after hafter
  rw [CodePages.createTestrunCode_eq, CodePages.createResetTestrunCode_eq] at hafter
  rcases hafter with hafter | hafter
  · apply htestrun.endsWithRet hafter
    rw [testrunPieces_flatten, testrunBytes_length]
    have := hfirst.mul_left amount
    omega
  · apply hreset.endsWithRet hafter
    rw [resetTestrunPieces_flatten, resetTestrunBytes_length]
    have := hsecond.mul_left amount
    omega

/-- Page 1 with a hundred copies of a NOP. -/
theorem generators_laysOut_nop :
    (LaysOut 1 (testrunPieces instNop instNop instNop 100)
        (CodePages.createTestrunCode 1 instNop instNop instNop 100) ∧
      LaysOut 1 (resetTestrunPieces instNop instNop instNop 100)
        (CodePages.createResetTestrunCode 1 instNop instNop instNop 100)) ∧
    (4 ∣ instNop.length → 4 ∣ instNop.length → 4 ∣ instNop.length → ∀ pages after,
      CodePages.createTestrunCode 1 instNop instNop instNop 100 pages = .ok after ∨
        CodePages.createResetTestrunCode 1 instNop instNop instNop 100 pages = .ok after →
      (after 1).EndsWithRet) :=
  generators_laysOut 1 instNop instNop instNop (by decide)

end OsirisArm
