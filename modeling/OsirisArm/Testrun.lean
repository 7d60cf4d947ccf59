import OsirisArm.CodePage

/-! # Testrun code

The three generators of testrun code. Each calls the same helpers: a prolog that saves the
callee-saved registers, serialisation, the timer around the measurement sequence, and an epilog.
The helpers write fixed A64 words given as bytes in memory order.
-/

namespace OsirisArm
open Library

def instDmbSy : Bytes := [0xbf, 0x3f, 0x03, 0xd5]
def instDsbSy : Bytes := [0x9f, 0x3f, 0x03, 0xd5]
def instIsbSy : Bytes := [0xdf, 0x3f, 0x03, 0xd5]
def instNop : Bytes := [0x1f, 0x20, 0x03, 0xd5]

def instStpX29X30 : Bytes := [0xfd, 0x7b, 0xbf, 0xa9]
def instStpX19X20 : Bytes := [0xf3, 0x53, 0xbf, 0xa9]
def instStpX21X22 : Bytes := [0xf5, 0x5b, 0xbf, 0xa9]
def instStpX23X24 : Bytes := [0xf7, 0x63, 0xbf, 0xa9]
def instStpX25X26 : Bytes := [0xf9, 0x6b, 0xbf, 0xa9]
def instStpX27X28 : Bytes := [0xfb, 0x73, 0xbf, 0xa9]
def instStrQ8 : Bytes := [0xe8, 0x0f, 0x9f, 0x3c]
def instStrQ9 : Bytes := [0xe9, 0x0f, 0x9f, 0x3c]
def instStrQ10 : Bytes := [0xea, 0x0f, 0x9f, 0x3c]
def instStrQ11 : Bytes := [0xeb, 0x0f, 0x9f, 0x3c]
def instStrQ12 : Bytes := [0xec, 0x0f, 0x9f, 0x3c]
def instStrQ13 : Bytes := [0xed, 0x0f, 0x9f, 0x3c]
def instStrQ14 : Bytes := [0xee, 0x0f, 0x9f, 0x3c]
def instStrQ15 : Bytes := [0xef, 0x0f, 0x9f, 0x3c]
def instMovX29Sp : Bytes := [0xfd, 0x03, 0x00, 0x91]
def instSubSp1000 : Bytes := [0xff, 0x07, 0x40, 0xd1]
def instMovX240 : Bytes := [0xf8, 0x66, 0xa2, 0xd2]
def instMovX250 : Bytes := [0xf9, 0x66, 0xa2, 0xd2]
def instMovX260 : Bytes := [0xfa, 0x66, 0xa2, 0xd2]
def instMovX270 : Bytes := [0xfb, 0x66, 0xa2, 0xd2]

def instMovX27PcmrEl0 : Bytes := [0x1b, 0x9c, 0x3b, 0xd5]
def instOrrX27Ox7 : Bytes := [0x7b, 0x0b, 0x40, 0xb2]
def instMovPcmrEl0X27 : Bytes := [0x1b, 0x9c, 0x1b, 0xd5]
def instMrsX27PmccntrEl0 : Bytes := [0x1b, 0x9d, 0x3b, 0xd5]
def instMovX26X27 : Bytes := [0xfa, 0x03, 0x1b, 0xaa]
def instSubX15X27X26 : Bytes := [0x6f, 0x03, 0x1a, 0xcb]
def instMovX015 : Bytes := [0xe0, 0x03, 0x0f, 0xaa]

def instSpX29 : Bytes := [0xbf, 0x03, 0x00, 0x91]
def instLdrQ15 : Bytes := [0xef, 0x07, 0xc1, 0x3c]
def instLdrQ14 : Bytes := [0xee, 0x07, 0xc1, 0x3c]
def instLdrQ13 : Bytes := [0xed, 0x07, 0xc1, 0x3c]
def instLdrQ12 : Bytes := [0xec, 0x07, 0xc1, 0x3c]
def instLdrQ11 : Bytes := [0xeb, 0x07, 0xc1, 0x3c]
def instLdrQ10 : Bytes := [0xea, 0x07, 0xc1, 0x3c]
def instLdrQ9 : Bytes := [0xe9, 0x07, 0xc1, 0x3c]
def instLdrQ8 : Bytes := [0xe8, 0x07, 0xc1, 0x3c]
def instLdpX27X28 : Bytes := [0xfb, 0x73, 0xc1, 0xa8]
def instLdpX25X26 : Bytes := [0xf9, 0x6b, 0xc1, 0xa8]
def instLdpX23X24 : Bytes := [0xf7, 0x63, 0xc1, 0xa8]
def instLdpX21X22 : Bytes := [0xf5, 0x5b, 0xc1, 0xa8]
def instLdpX19X20 : Bytes := [0xf3, 0x53, 0xc1, 0xa8]
def instLdpX2930 : Bytes := [0xfd, 0x7b, 0xc1, 0xa8]
def instRet : Bytes := [0xc0, 0x03, 0x5f, 0xd6]

def prologInstructions : List Bytes :=
  [instStpX29X30, instStpX19X20, instStpX21X22, instStpX23X24, instStpX25X26, instStpX27X28,
    instStrQ8, instStrQ9, instStrQ10, instStrQ11, instStrQ12, instStrQ13, instStrQ14, instStrQ15,
    instMovX29Sp, instSubSp1000, instMovX250, instMovX240, instMovX260, instMovX270]

def serializeInstructions : List Bytes :=
  [instDmbSy, instDsbSy, instIsbSy, instNop]

def timerStartInstructions : List Bytes :=
  [instNop, instMovX27PcmrEl0, instOrrX27Ox7, instMovPcmrEl0X27, instMrsX27PmccntrEl0,
    instMovX26X27, instDmbSy, instDsbSy, instIsbSy]

def timerEndInstructions : List Bytes :=
  [instDsbSy, instIsbSy, instMrsX27PmccntrEl0, instSubX15X27X26, instDsbSy, instIsbSy, instNop,
    instDmbSy]

def epilogInstructions : List Bytes :=
  [instDsbSy, instIsbSy, instNop, instDmbSy, instSpX29, instLdrQ15, instLdrQ14, instLdrQ13,
    instLdrQ12, instLdrQ11, instLdrQ10, instLdrQ9, instLdrQ8, instLdpX27X28, instLdpX25X26,
    instLdpX23X24, instLdpX21X22, instLdpX19X20, instLdpX2930, instRet]

def addProlog : CodePage → Except Stop CodePage :=
  addInstructionsToCodePage prologInstructions

def addSerializeInstructionToCodePage : CodePage → Except Stop CodePage :=
  addInstructionsToCodePage serializeInstructions

def addTimerStartToCodePage : CodePage → Except Stop CodePage :=
  addInstructionsToCodePage timerStartInstructions

def addTimerEndToCodePage : CodePage → Except Stop CodePage :=
  addInstructionsToCodePage timerEndInstructions

def makeTimerResultReturnValue (page : CodePage) : Except Stop CodePage := do
  assert (page.lastWrittenIndex + instMovX015.length < kPagesize)
  addInstructionToCodePage instMovX015 page

def addEpilog : CodePage → Except Stop CodePage :=
  addInstructionsToCodePage epilogInstructions

/-- The loop that adds a sequence `amount` times. -/
def addRepeatedToCodePage (amount : ℕ) (sequence : Bytes) : CodePage → Except Stop CodePage :=
  addInstructionsToCodePage (List.replicate amount sequence)

/-- The part that all generators end with: the timed measurement and the way back. -/
def addMeasurement (measurementSequence : Bytes) (page : CodePage) : Except Stop CodePage := do
  let page ← addTimerStartToCodePage page
  let page ← addInstructionToCodePage measurementSequence page
  let page ← addTimerEndToCodePage page
  let page ← makeTimerResultReturnValue page
  let page ← addEpilog page
  assert (page.lastWrittenIndex < kPagesize)
  return page

def createResetTestrunCode (triggerSequence measurementSequence resetSequence : Bytes)
    (resetExecutionsAmount : ℕ) : Except Stop CodePage := do
  let page ← addProlog initializeCodePage
  let page ← addInstructionToCodePage triggerSequence page
  let page ← addSerializeInstructionToCodePage page
  assert (resetExecutionsAmount ≤ 100)
  let page ← addRepeatedToCodePage resetExecutionsAmount resetSequence page
  let page ← addSerializeInstructionToCodePage page
  addMeasurement measurementSequence page

def createTestrunCode (firstSequence secondSequence measurementSequence : Bytes)
    (firstSequenceExecutionsAmount : ℕ) : Except Stop CodePage := do
  let page ← addProlog initializeCodePage
  let page ← addSerializeInstructionToCodePage page
  assert (firstSequenceExecutionsAmount ≤ 100)
  let page ← addRepeatedToCodePage firstSequenceExecutionsAmount firstSequence page
  let page ← addSerializeInstructionToCodePage page
  let page ← addInstructionToCodePage secondSequence page
  let page ← addSerializeInstructionToCodePage page
  addMeasurement measurementSequence page

/-- An opcode of the speculation gadget; its displacement follows as a piece of its own. -/
def instRelativeCall : Bytes := [0xe8]
def instRelativeJmp : Bytes := [0xe9]
def instLeaRaxDerefRipPlusOffset : Bytes := [0x48, 0x8d, 0x05]
def instMovDerefRspRax : Bytes := [0x48, 0x89, 0x04, 0x24]
def instSpeculationRet : Bytes := [0xc3]

/-- The sizes of the call, jump and `lea` instructions with their four displacement bytes. -/
def sizeRelativeJmp : ℕ := instRelativeJmp.length + 4
def sizeLeaRaxDerefRipPlusOffset : ℕ := instLeaRaxDerefRipPlusOffset.length + 4

/-- A displacement, computed as `int32_t` and written in four bytes. -/
def displacementBytes (displacement : ℕ) : Bytes :=
  numberToBytesLE ((BitVec.ofNat 32 displacement).signExtend 64) 4

def createSpeculativeTriggerTestrunCode
    (measurementSequence triggerSequence resetSequence : Bytes) (resetExecutionsAmount : ℕ) :
    Except Stop CodePage := do
  let page ← addProlog initializeCodePage
  let page ← addSerializeInstructionToCodePage page
  assert (resetExecutionsAmount ≤ 100)
  let page ← addRepeatedToCodePage resetExecutionsAmount resetSequence page
  let page ← addSerializeInstructionToCodePage page
  let callDisplacement := triggerSequence.length + sizeRelativeJmp
  let jmpDisplacement := sizeLeaRaxDerefRipPlusOffset + instMovDerefRspRax.length +
    instSpeculationRet.length
  let leaRipDisplacement := instMovDerefRspRax.length + instSpeculationRet.length
  let page ← addInstructionToCodePage instRelativeCall page
  let page ← addInstructionToCodePage (displacementBytes callDisplacement) page
  let page ← addInstructionToCodePage triggerSequence page
  let page ← addInstructionToCodePage instRelativeJmp page
  let page ← addInstructionToCodePage (displacementBytes jmpDisplacement) page
  let page ← addInstructionToCodePage instLeaRaxDerefRipPlusOffset page
  let page ← addInstructionToCodePage (displacementBytes leaRipDisplacement) page
  let page ← addInstructionToCodePage instMovDerefRspRax page
  let page ← addInstructionToCodePage instSpeculationRet page
  addMeasurement measurementSequence page

/-- The bytes from the start of the timer to the end of the code. -/
def measurementBytes (measurementSequence : Bytes) : Bytes :=
  timerStartInstructions.flatten ++ (measurementSequence ++ (timerEndInstructions.flatten ++
    (instMovX015 ++ epilogInstructions.flatten)))

def resetTestrunBytes (triggerSequence measurementSequence resetSequence : Bytes)
    (resetExecutionsAmount : ℕ) : Bytes :=
  prologInstructions.flatten ++ (triggerSequence ++ (serializeInstructions.flatten ++
    ((List.replicate resetExecutionsAmount resetSequence).flatten ++
      (serializeInstructions.flatten ++ measurementBytes measurementSequence))))

def testrunBytes (firstSequence secondSequence measurementSequence : Bytes)
    (firstSequenceExecutionsAmount : ℕ) : Bytes :=
  prologInstructions.flatten ++ (serializeInstructions.flatten ++
    ((List.replicate firstSequenceExecutionsAmount firstSequence).flatten ++
      (serializeInstructions.flatten ++ (secondSequence ++ (serializeInstructions.flatten ++
        measurementBytes measurementSequence)))))

/-- The code between the reset sequences and the timer of a speculative page. -/
def gadgetInstructions (triggerSequence : Bytes) : List Bytes :=
  [instRelativeCall, displacementBytes (triggerSequence.length + 5), triggerSequence,
    instRelativeJmp, displacementBytes 12, instLeaRaxDerefRipPlusOffset, displacementBytes 5,
    instMovDerefRspRax, instSpeculationRet]

def speculativeTestrunBytes
    (measurementSequence triggerSequence resetSequence : Bytes) (resetExecutionsAmount : ℕ) :
    Bytes :=
  prologInstructions.flatten ++ (serializeInstructions.flatten ++
    ((List.replicate resetExecutionsAmount resetSequence).flatten ++
      (serializeInstructions.flatten ++ ((gadgetInstructions triggerSequence).flatten ++
        measurementBytes measurementSequence))))

theorem measurementBytes_length (measurementSequence : Bytes) :
    (measurementBytes measurementSequence).length = 152 + measurementSequence.length := by
  have htimer : timerStartInstructions.flatten.length = 36 := rfl
  have hend : (timerEndInstructions.flatten ++ (instMovX015 ++ epilogInstructions.flatten)).length
      = 116 := rfl
  rw [measurementBytes, List.length_append, List.length_append, htimer, hend]
  omega

theorem gadgetInstructions_length (triggerSequence : Bytes) :
    (gadgetInstructions triggerSequence).flatten.length = 22 + triggerSequence.length := by
  simp [gadgetInstructions, displacementBytes, instRelativeCall, instRelativeJmp,
    instLeaRaxDerefRipPlusOffset, instMovDerefRspRax, instSpeculationRet]
  omega

theorem resetTestrunBytes_length (triggerSequence measurementSequence resetSequence : Bytes)
    (resetExecutionsAmount : ℕ) :
    (resetTestrunBytes triggerSequence measurementSequence resetSequence
      resetExecutionsAmount).length = 264 + triggerSequence.length +
        resetExecutionsAmount * resetSequence.length + measurementSequence.length := by
  have hprolog : prologInstructions.flatten.length = 80 := rfl
  have hserialize : serializeInstructions.flatten.length = 16 := rfl
  have hreset : (List.replicate resetExecutionsAmount resetSequence).flatten.length =
      resetExecutionsAmount * resetSequence.length := by simp
  simp only [resetTestrunBytes, List.length_append, hprolog, hserialize, hreset,
    measurementBytes_length]
  omega

theorem testrunBytes_length (firstSequence secondSequence measurementSequence : Bytes)
    (firstSequenceExecutionsAmount : ℕ) :
    (testrunBytes firstSequence secondSequence measurementSequence
      firstSequenceExecutionsAmount).length = 280 +
        firstSequenceExecutionsAmount * firstSequence.length + secondSequence.length +
          measurementSequence.length := by
  have hprolog : prologInstructions.flatten.length = 80 := rfl
  have hserialize : serializeInstructions.flatten.length = 16 := rfl
  have hfirst : (List.replicate firstSequenceExecutionsAmount firstSequence).flatten.length =
      firstSequenceExecutionsAmount * firstSequence.length := by simp
  simp only [testrunBytes, List.length_append, hprolog, hserialize, hfirst,
    measurementBytes_length]
  omega

theorem speculativeTestrunBytes_length
    (measurementSequence triggerSequence resetSequence : Bytes) (resetExecutionsAmount : ℕ) :
    (speculativeTestrunBytes measurementSequence triggerSequence resetSequence
      resetExecutionsAmount).length = 286 + resetExecutionsAmount * resetSequence.length +
        triggerSequence.length + measurementSequence.length := by
  have hprolog : prologInstructions.flatten.length = 80 := rfl
  have hserialize : serializeInstructions.flatten.length = 16 := rfl
  have hreset : (List.replicate resetExecutionsAmount resetSequence).flatten.length =
      resetExecutionsAmount * resetSequence.length := by simp
  simp only [speculativeTestrunBytes, List.length_append, hprolog, hserialize, hreset,
    gadgetInstructions_length, measurementBytes_length]
  omega

theorem emits_makeTimerResultReturnValue : Emits makeTimerResultReturnValue instMovX015 := by
  intro page before h
  rw [makeTimerResultReturnValue, h.2]
  constructor
  · intro hfits
    rw [decide_eq_true hfits]
    exact (emits_addInstructionToCodePage instMovX015 page before h).1 hfits
  · intro hfull
    rw [decide_eq_false (by omega)]
    exact ⟨.assertion, rfl⟩

theorem emits_finalAssert : Emits (fun page => do
    assert (page.lastWrittenIndex < kPagesize)
    return page) [] := by
  intro page before h
  simp only [decide_eq_true page.index_lt]
  exact emits_pure page before h

theorem emits_addMeasurement (measurementSequence : Bytes) :
    Emits (addMeasurement measurementSequence) (measurementBytes measurementSequence) := by
  have hend := (emits_addInstructionsToCodePage epilogInstructions).bind emits_finalAssert
  rw [List.append_nil] at hend
  exact (emits_addInstructionsToCodePage timerStartInstructions).bind
    ((emits_addInstructionToCodePage measurementSequence).bind
      ((emits_addInstructionsToCodePage timerEndInstructions).bind
        (emits_makeTimerResultReturnValue.bind hend)))

/-- The generator fills a fresh page with `bytes` if they fit and stops the program otherwise. -/
def Fills (result : Except Stop CodePage) (bytes : Bytes) : Prop :=
  (bytes.length < kPagesize → ∃ page, result = .ok page ∧ page.Holds bytes) ∧
    (kPagesize ≤ bytes.length → ∃ stop, result = .error stop)

theorem Fills.exists_ok_iff {result : Except Stop CodePage} {bytes : Bytes}
    (h : Fills result bytes) : (∃ page, result = .ok page) ↔ bytes.length < kPagesize := by
  constructor
  · rintro ⟨page, hpage⟩
    by_contra hfull
    obtain ⟨stop, hstop⟩ := h.2 (by omega)
    rw [hpage] at hstop
    cases hstop
  · intro hfits
    obtain ⟨page, hpage, -⟩ := h.1 hfits
    exact ⟨page, hpage⟩

theorem Fills.holds {result : Except Stop CodePage} {bytes : Bytes} (h : Fills result bytes)
    {page : CodePage} (hpage : result = .ok page) : page.Holds bytes := by
  have hfits := h.exists_ok_iff.mp ⟨page, hpage⟩
  obtain ⟨page', hpage', hholds⟩ := h.1 hfits
  obtain rfl := Except.ok.inj (hpage.symm.trans hpage')
  exact hholds

theorem Emits.fills {generator : CodePage → Except Stop CodePage} {bytes : Bytes}
    (h : Emits generator bytes) : Fills (generator initializeCodePage) bytes := by
  have hstart := h initializeCodePage [] initializeCodePage_holds
  simpa only [List.length_nil, Nat.zero_add, List.nil_append, Fills] using hstart

theorem le_of_assert_bind {amount : ℕ} {rest : Unit → Except Stop CodePage} {page : CodePage}
    (h : (assert (amount ≤ 100) >>= rest) = .ok page) : amount ≤ 100 := by
  by_contra hlarge
  rw [decide_eq_false hlarge] at h
  cases h

theorem createTestrunCode_amount {firstSequence secondSequence measurementSequence : Bytes}
    {amount : ℕ} {page : CodePage}
    (h : createTestrunCode firstSequence secondSequence measurementSequence amount = .ok page) :
    amount ≤ 100 := by
  obtain ⟨_, -, h⟩ := except_bind_ok h
  obtain ⟨_, -, h⟩ := except_bind_ok h
  exact le_of_assert_bind h

theorem createResetTestrunCode_amount {triggerSequence measurementSequence resetSequence : Bytes}
    {amount : ℕ} {page : CodePage}
    (h : createResetTestrunCode triggerSequence measurementSequence resetSequence amount =
      .ok page) : amount ≤ 100 := by
  obtain ⟨_, -, h⟩ := except_bind_ok h
  obtain ⟨_, -, h⟩ := except_bind_ok h
  obtain ⟨_, -, h⟩ := except_bind_ok h
  exact le_of_assert_bind h

theorem createSpeculativeTriggerTestrunCode_amount
    {measurementSequence triggerSequence resetSequence : Bytes} {amount : ℕ} {page : CodePage}
    (h : createSpeculativeTriggerTestrunCode measurementSequence triggerSequence resetSequence
      amount = .ok page) : amount ≤ 100 := by
  obtain ⟨_, -, h⟩ := except_bind_ok h
  obtain ⟨_, -, h⟩ := except_bind_ok h
  exact le_of_assert_bind h

theorem createResetTestrunCode_fills (triggerSequence measurementSequence resetSequence : Bytes)
    {resetExecutionsAmount : ℕ} (h : resetExecutionsAmount ≤ 100) :
    Fills (createResetTestrunCode triggerSequence measurementSequence resetSequence
      resetExecutionsAmount) (resetTestrunBytes triggerSequence measurementSequence resetSequence
        resetExecutionsAmount) := by
  have hserialize := emits_addInstructionsToCodePage serializeInstructions
  rw [createResetTestrunCode, decide_eq_true h]
  exact ((emits_addInstructionsToCodePage prologInstructions).bind
    ((emits_addInstructionToCodePage triggerSequence).bind (hserialize.bind
      ((emits_addInstructionsToCodePage
        (List.replicate resetExecutionsAmount resetSequence)).bind
          (hserialize.bind (emits_addMeasurement measurementSequence)))))).fills

theorem createTestrunCode_fills (firstSequence secondSequence measurementSequence : Bytes)
    {firstSequenceExecutionsAmount : ℕ} (h : firstSequenceExecutionsAmount ≤ 100) :
    Fills (createTestrunCode firstSequence secondSequence measurementSequence
      firstSequenceExecutionsAmount) (testrunBytes firstSequence secondSequence
        measurementSequence firstSequenceExecutionsAmount) := by
  have hserialize := emits_addInstructionsToCodePage serializeInstructions
  rw [createTestrunCode, decide_eq_true h]
  exact ((emits_addInstructionsToCodePage prologInstructions).bind
    (hserialize.bind ((emits_addInstructionsToCodePage
      (List.replicate firstSequenceExecutionsAmount firstSequence)).bind
        (hserialize.bind ((emits_addInstructionToCodePage secondSequence).bind
          (hserialize.bind (emits_addMeasurement measurementSequence))))))).fills

theorem createSpeculativeTriggerTestrunCode_fills
    (measurementSequence triggerSequence resetSequence : Bytes) {resetExecutionsAmount : ℕ}
    (h : resetExecutionsAmount ≤ 100) :
    Fills (createSpeculativeTriggerTestrunCode measurementSequence triggerSequence resetSequence
      resetExecutionsAmount) (speculativeTestrunBytes measurementSequence triggerSequence
        resetSequence resetExecutionsAmount) := by
  have hserialize := emits_addInstructionsToCodePage serializeInstructions
  have hmeasurement := emits_addMeasurement measurementSequence
  rw [createSpeculativeTriggerTestrunCode, decide_eq_true h]
  have hgadget : Emits (fun page => do
      let page ← addInstructionToCodePage instRelativeCall page
      let page ← addInstructionToCodePage (displacementBytes (triggerSequence.length + 5)) page
      let page ← addInstructionToCodePage triggerSequence page
      let page ← addInstructionToCodePage instRelativeJmp page
      let page ← addInstructionToCodePage (displacementBytes 12) page
      let page ← addInstructionToCodePage instLeaRaxDerefRipPlusOffset page
      let page ← addInstructionToCodePage (displacementBytes 5) page
      let page ← addInstructionToCodePage instMovDerefRspRax page
      let page ← addInstructionToCodePage instSpeculationRet page
      addMeasurement measurementSequence page)
      ((gadgetInstructions triggerSequence).flatten ++ measurementBytes measurementSequence) := by
    simp only [gadgetInstructions, List.flatten_cons, List.flatten_nil, List.append_assoc,
      List.nil_append]
    exact (emits_addInstructionToCodePage _).bind ((emits_addInstructionToCodePage _).bind
      ((emits_addInstructionToCodePage _).bind ((emits_addInstructionToCodePage _).bind
        ((emits_addInstructionToCodePage _).bind ((emits_addInstructionToCodePage _).bind
          ((emits_addInstructionToCodePage _).bind ((emits_addInstructionToCodePage _).bind
            ((emits_addInstructionToCodePage _).bind hmeasurement))))))))
  exact ((emits_addInstructionsToCodePage prologInstructions).bind
    (hserialize.bind ((emits_addInstructionsToCodePage
      (List.replicate resetExecutionsAmount resetSequence)).bind
        (hserialize.bind hgadget)))).fills

end OsirisArm
