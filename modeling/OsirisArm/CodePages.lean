import OsirisArm.Testrun
import OsirisArm.Library.Overwrite

/-! # The two code pages

The generators work on one of the two pages of an executor, whatever was on it before. The page is
filled word by word first. Fixed instructions are copied as a whole, sequences byte by byte. On the
page this is what the generators of a single fresh page leave; the other page stays as it was.
-/

namespace OsirisArm
open Library

/-- The loop over the words of a page, and the return in its last word. -/
def CodePage.initializePage (page : CodePage) : CodePage where
  content := overwrite (fill initialNop (kPagesize / 4) page.content) ((kPagesize / 4 - 1) * 4)
    initialRet
  lastWrittenIndex := 0
  length_eq := by
    have hfill : (fill initialNop (kPagesize / 4) page.content).length = kPagesize := by
      rw [fill_length (by rw [page.length_eq]; decide), page.length_eq]
    rw [overwrite_length (by rw [hfill]; decide), hfill]
  index_lt := kPagesize_pos

/-- The overload of `AddInstructionToCodePage` for byte arrays. -/
def addByteArrayToCodePage (instructionBytes : Bytes) (page : CodePage) : Except Stop CodePage :=
  let pageIdx := page.lastWrittenIndex
  if h : pageIdx + instructionBytes.length < kPagesize then
    .ok {
      content := storeEach page.content pageIdx instructionBytes
      lastWrittenIndex := pageIdx + instructionBytes.length
      length_eq := by
        have hpage := page.length_eq
        rw [storeEach_eq (by omega), overwrite_length (by omega), hpage]
      index_lt := h }
  else .error .abort

abbrev CodePages := Fin 2 → CodePage

namespace CodePages
variable (codepageNo : Fin 2)

def initializeCodePage (pages : CodePages) : CodePages :=
  Function.update pages codepageNo (pages codepageNo).initializePage

/-- Write to one of the pages. -/
def onPage (write : CodePage → Except Stop CodePage) (pages : CodePages) :
    Except Stop CodePages := do
  let page ← write (pages codepageNo)
  return Function.update pages codepageNo page

/-- The loop that adds a sequence `amount` times. -/
def addRepeatedToCodePage (amount : ℕ) (sequence : Bytes) (pages : CodePages) :
    Except Stop CodePages :=
  (List.replicate amount sequence).foldlM
    (fun pages sequence => onPage codepageNo (addByteArrayToCodePage sequence) pages) pages

def addMeasurement (measurementSequence : Bytes) (pages : CodePages) : Except Stop CodePages := do
  let pages ← onPage codepageNo addTimerStartToCodePage pages
  let pages ← onPage codepageNo (addByteArrayToCodePage measurementSequence) pages
  let pages ← onPage codepageNo addTimerEndToCodePage pages
  let pages ← onPage codepageNo makeTimerResultReturnValue pages
  let pages ← onPage codepageNo addEpilog pages
  assert ((pages codepageNo).lastWrittenIndex < kPagesize)
  return pages

def createResetTestrunCode (triggerSequence measurementSequence resetSequence : Bytes)
    (resetExecutionsAmount : ℕ) (pages : CodePages) : Except Stop CodePages := do
  let pages ← onPage codepageNo addProlog (initializeCodePage codepageNo pages)
  let pages ← onPage codepageNo (addByteArrayToCodePage triggerSequence) pages
  let pages ← onPage codepageNo addSerializeInstructionToCodePage pages
  assert (resetExecutionsAmount ≤ 100)
  let pages ← addRepeatedToCodePage codepageNo resetExecutionsAmount resetSequence pages
  let pages ← onPage codepageNo addSerializeInstructionToCodePage pages
  addMeasurement codepageNo measurementSequence pages

def createTestrunCode (firstSequence secondSequence measurementSequence : Bytes)
    (firstSequenceExecutionsAmount : ℕ) (pages : CodePages) : Except Stop CodePages := do
  let pages ← onPage codepageNo addProlog (initializeCodePage codepageNo pages)
  let pages ← onPage codepageNo addSerializeInstructionToCodePage pages
  assert (firstSequenceExecutionsAmount ≤ 100)
  let pages ← addRepeatedToCodePage codepageNo firstSequenceExecutionsAmount firstSequence pages
  let pages ← onPage codepageNo addSerializeInstructionToCodePage pages
  let pages ← onPage codepageNo (addByteArrayToCodePage secondSequence) pages
  let pages ← onPage codepageNo addSerializeInstructionToCodePage pages
  addMeasurement codepageNo measurementSequence pages

def createSpeculativeTriggerTestrunCode
    (measurementSequence triggerSequence resetSequence : Bytes) (resetExecutionsAmount : ℕ)
    (pages : CodePages) : Except Stop CodePages := do
  let pages ← onPage codepageNo addProlog (initializeCodePage codepageNo pages)
  let pages ← onPage codepageNo addSerializeInstructionToCodePage pages
  assert (resetExecutionsAmount ≤ 100)
  let pages ← addRepeatedToCodePage codepageNo resetExecutionsAmount resetSequence pages
  let pages ← onPage codepageNo addSerializeInstructionToCodePage pages
  let callDisplacement := triggerSequence.length + sizeRelativeJmp
  let jmpDisplacement := sizeLeaRaxDerefRipPlusOffset + instMovDerefRspRax.length +
    instSpeculationRet.length
  let leaRipDisplacement := instMovDerefRspRax.length + instSpeculationRet.length
  let pages ← onPage codepageNo (addInstructionToCodePage instRelativeCall) pages
  let pages ← onPage codepageNo
    (addByteArrayToCodePage (displacementBytes callDisplacement)) pages
  let pages ← onPage codepageNo (addByteArrayToCodePage triggerSequence) pages
  let pages ← onPage codepageNo (addInstructionToCodePage instRelativeJmp) pages
  let pages ← onPage codepageNo (addByteArrayToCodePage (displacementBytes jmpDisplacement)) pages
  let pages ← onPage codepageNo (addInstructionToCodePage instLeaRaxDerefRipPlusOffset) pages
  let pages ← onPage codepageNo
    (addByteArrayToCodePage (displacementBytes leaRipDisplacement)) pages
  let pages ← onPage codepageNo (addInstructionToCodePage instMovDerefRspRax) pages
  let pages ← onPage codepageNo (addInstructionToCodePage instSpeculationRet) pages
  addMeasurement codepageNo measurementSequence pages

end CodePages

theorem CodePage.initializePage_eq (page : CodePage) :
    page.initializePage = initializeCodePage := by
  have hnop : initialNop.length = 4 := numberToBytesLE_length _ 4
  have hret : initialRet.length = initialNop.length := rfl
  have hpage : page.content.length = (kPagesize / 4 - 1 + 1) * initialNop.length := by
    rw [page.length_eq, hnop]
    decide
  have hfilled := overwrite_fill hret hpage
  rw [hnop] at hfilled
  exact CodePage.eq_of_fields hfilled rfl

theorem addByteArrayToCodePage_eq : addByteArrayToCodePage = addInstructionToCodePage := by
  funext instructionBytes page
  have hpage := page.length_eq
  rw [addByteArrayToCodePage, addInstructionToCodePage]
  split
  · next h =>
    congr 1
    exact CodePage.eq_of_fields (storeEach_eq (by omega)) rfl
  · rfl

namespace CodePages
variable {codepageNo : Fin 2}

/-- On page `codepageNo` the two-page generator does what the other one does. -/
def ActsOn (codepageNo : Fin 2) (generator : CodePages → Except Stop CodePages)
    (write : CodePage → Except Stop CodePage) : Prop :=
  ∀ pages, generator pages = onPage codepageNo write pages

theorem actsOn_onPage (write : CodePage → Except Stop CodePage) :
    ActsOn codepageNo (onPage codepageNo write) write := fun _ => rfl

theorem actsOn_byteArray (instructionBytes : Bytes) :
    ActsOn codepageNo (onPage codepageNo (addByteArrayToCodePage instructionBytes))
      (addInstructionToCodePage instructionBytes) := by
  rw [addByteArrayToCodePage_eq]
  exact actsOn_onPage _

theorem actsOn_pure : ActsOn codepageNo pure pure := by
  intro pages
  change _ = Except.ok (Function.update pages codepageNo (pages codepageNo))
  rw [Function.update_eq_self]
  rfl

theorem ActsOn.bind {first second : CodePages → Except Stop CodePages}
    {write write' : CodePage → Except Stop CodePage} (hfirst : ActsOn codepageNo first write)
    (hsecond : ActsOn codepageNo second write') :
    ActsOn codepageNo (fun pages => first pages >>= second)
      (fun page => write page >>= write') := by
  intro pages
  simp only [hfirst pages, onPage]
  cases write (pages codepageNo) with
  | error stop => rfl
  | ok page =>
    change second (Function.update pages codepageNo page) =
      write' page >>= fun page' => pure (Function.update pages codepageNo page')
    simp only [hsecond _, onPage, Function.update_self, Function.update_idem]

theorem ActsOn.assert {generator : CodePages → Except Stop CodePages}
    {write : CodePage → Except Stop CodePage} (condition : Bool)
    (h : ActsOn codepageNo generator write) :
    ActsOn codepageNo (fun pages => OsirisArm.assert condition >>= fun _ => generator pages)
      (fun page => OsirisArm.assert condition >>= fun _ => write page) := by
  intro pages
  cases condition with
  | true => exact h pages
  | false => rfl

theorem actsOn_repeated (amount : ℕ) (sequence : Bytes) :
    ActsOn codepageNo (addRepeatedToCodePage codepageNo amount sequence)
      (OsirisArm.addRepeatedToCodePage amount sequence) := by
  induction amount with
  | zero => exact actsOn_pure
  | succ amount ih => exact (actsOn_byteArray sequence).bind ih

theorem actsOn_measurement (measurementSequence : Bytes) :
    ActsOn codepageNo (addMeasurement codepageNo measurementSequence)
      (OsirisArm.addMeasurement measurementSequence) := by
  have hassert : ActsOn codepageNo
      (fun pages => do
        OsirisArm.assert ((pages codepageNo).lastWrittenIndex < kPagesize)
        return pages)
      (fun page => do
        OsirisArm.assert (page.lastWrittenIndex < kPagesize)
        return page) := by
    intro pages
    simp only [decide_eq_true (pages codepageNo).index_lt]
    rw [onPage, decide_eq_true (pages codepageNo).index_lt]
    exact actsOn_pure pages
  exact (actsOn_onPage _).bind ((actsOn_byteArray _).bind ((actsOn_onPage _).bind
    ((actsOn_onPage _).bind ((actsOn_onPage _).bind hassert))))

/-- After the page was initialised, the generator works on a fresh page. -/
theorem ActsOn.fresh {generator : CodePages → Except Stop CodePages}
    {write : CodePage → Except Stop CodePage} (h : ActsOn codepageNo generator write)
    (pages : CodePages) : generator (initializeCodePage codepageNo pages) =
      (write OsirisArm.initializeCodePage).map (Function.update pages codepageNo) := by
  rw [h, onPage, initializeCodePage, Function.update_self, CodePage.initializePage_eq]
  cases write OsirisArm.initializeCodePage with
  | error stop => rfl
  | ok page =>
    change Except.ok (Function.update (Function.update pages codepageNo _) codepageNo page) = _
    rw [Function.update_idem]
    rfl

variable (codepageNo) (pages : CodePages)

theorem createResetTestrunCode_eq (triggerSequence measurementSequence resetSequence : Bytes)
    (resetExecutionsAmount : ℕ) :
    createResetTestrunCode codepageNo triggerSequence measurementSequence resetSequence
      resetExecutionsAmount pages =
    (OsirisArm.createResetTestrunCode triggerSequence measurementSequence resetSequence
      resetExecutionsAmount).map (Function.update pages codepageNo) :=
  ((actsOn_onPage _).bind ((actsOn_byteArray _).bind ((actsOn_onPage _).bind
    (.assert _ ((actsOn_repeated _ _).bind ((actsOn_onPage _).bind
      (actsOn_measurement _))))))).fresh pages

theorem createTestrunCode_eq (firstSequence secondSequence measurementSequence : Bytes)
    (firstSequenceExecutionsAmount : ℕ) :
    createTestrunCode codepageNo firstSequence secondSequence measurementSequence
      firstSequenceExecutionsAmount pages =
    (OsirisArm.createTestrunCode firstSequence secondSequence measurementSequence
      firstSequenceExecutionsAmount).map (Function.update pages codepageNo) :=
  ((actsOn_onPage _).bind ((actsOn_onPage _).bind (.assert _ ((actsOn_repeated _ _).bind
    ((actsOn_onPage _).bind ((actsOn_byteArray _).bind ((actsOn_onPage _).bind
      (actsOn_measurement _)))))))).fresh pages

theorem createSpeculativeTriggerTestrunCode_eq
    (measurementSequence triggerSequence resetSequence : Bytes) (resetExecutionsAmount : ℕ) :
    createSpeculativeTriggerTestrunCode codepageNo measurementSequence triggerSequence
      resetSequence resetExecutionsAmount pages =
    (OsirisArm.createSpeculativeTriggerTestrunCode measurementSequence triggerSequence
      resetSequence resetExecutionsAmount).map (Function.update pages codepageNo) :=
  ((actsOn_onPage _).bind ((actsOn_onPage _).bind (.assert _ ((actsOn_repeated _ _).bind
    ((actsOn_onPage _).bind ((actsOn_onPage _).bind ((actsOn_byteArray _).bind
      ((actsOn_byteArray _).bind ((actsOn_onPage _).bind ((actsOn_byteArray _).bind
        ((actsOn_onPage _).bind ((actsOn_byteArray _).bind ((actsOn_onPage _).bind
          ((actsOn_onPage _).bind (actsOn_measurement _))))))))))))))).fresh pages

end CodePages
end OsirisArm
