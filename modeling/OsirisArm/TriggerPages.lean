import OsirisArm.Executor
import OsirisArm.SpeculativeBranches

/-! # The pages of a test

The two tests of the executor prepare both pages before they run any of them. The pages of a trigger
test are meant to differ in the trigger only, so that a difference of their times is its effect.
-/

namespace OsirisArm
open Library

namespace CodePages

/-- The pages of `TestTriggerSequence`, written over whatever the pages held before. -/
def createTriggerPages (triggerSequence measurementSequence resetSequence : Bytes)
    (executeTriggerOnlyInSpeculation : Bool) (resetExecutionsAmount : ℕ) (pages : CodePages) :
    Except Stop CodePages := do
  let nopSequence := instNop
  if executeTriggerOnlyInSpeculation then
    let pages ← createSpeculativeTriggerTestrunCode 0 measurementSequence triggerSequence
      resetSequence resetExecutionsAmount pages
    createSpeculativeTriggerTestrunCode 1 measurementSequence nopSequence resetSequence
      resetExecutionsAmount pages
  else
    let pages ← createTestrunCode 0 resetSequence triggerSequence measurementSequence
      resetExecutionsAmount pages
    createTestrunCode 1 resetSequence nopSequence measurementSequence resetExecutionsAmount pages

def createResetPages (triggerSequence measurementSequence resetSequence : Bytes)
    (resetExecutionsAmount : ℕ) (pages : CodePages) : Except Stop CodePages := do
  let nopSequence := createSequenceOfNOPs resetSequence.length
  let pages ← createResetTestrunCode 0 nopSequence measurementSequence resetSequence
    resetExecutionsAmount pages
  createResetTestrunCode 1 triggerSequence measurementSequence resetSequence
    resetExecutionsAmount pages

theorem update_both (pages : CodePages) (page₀ page₁ : CodePage) :
    Function.update (Function.update pages 0 page₀) 1 page₁ = ![page₀, page₁] := by
  funext codepageNo
  match codepageNo with
  | 0 => rfl
  | 1 => rfl

theorem map_update_both (first second : Except Stop CodePage) (pages : CodePages) :
    (first.map (Function.update pages 0) >>= fun pages => second.map (Function.update pages 1)) =
      (do
        let page₀ ← first
        let page₁ ← second
        return (page₀, page₁)).map fun pages : CodePage × CodePage => ![pages.1, pages.2] := by
  cases first with
  | error stop => rfl
  | ok page₀ =>
    cases second with
    | error stop => rfl
    | ok page₁ => exact congrArg Except.ok (update_both pages page₀ page₁)

theorem createTriggerPages_eq (triggerSequence measurementSequence resetSequence : Bytes)
    (speculation : Bool) (amount : ℕ) (pages : CodePages) :
    createTriggerPages triggerSequence measurementSequence resetSequence speculation amount pages =
      (Executor.createTriggerPages triggerSequence measurementSequence resetSequence speculation
        amount).map fun pages => ![pages.1, pages.2] := by
  cases speculation with
  | true =>
    simp only [createTriggerPages, Executor.createTriggerPages, if_true,
      createSpeculativeTriggerTestrunCode_eq]
    exact map_update_both _ _ pages
  | false =>
    simp only [createTriggerPages, Executor.createTriggerPages, Bool.false_eq_true, if_false,
      createTestrunCode_eq]
    exact map_update_both _ _ pages

theorem createResetPages_eq (triggerSequence measurementSequence resetSequence : Bytes)
    (amount : ℕ) (pages : CodePages) :
    createResetPages triggerSequence measurementSequence resetSequence amount pages =
      (do
        let page₀ ← OsirisArm.createResetTestrunCode
          (createSequenceOfNOPs resetSequence.length) measurementSequence resetSequence amount
        let page₁ ← OsirisArm.createResetTestrunCode triggerSequence measurementSequence
          resetSequence amount
        return (page₀, page₁)).map fun pages : CodePage × CodePage => ![pages.1, pages.2] := by
  simp only [createResetPages, createResetTestrunCode_eq]
  exact map_update_both _ _ pages

end CodePages

namespace Executor

/-- What every run of a page keeps is kept by the runs of a test. -/
theorem executeTestruns_invariant {P : Executor → Prop}
    (hrun : ∀ executor, P executor → P executor.executeTestrun.2) (noTestruns : ℕ)
    {executor : Executor} (h : P executor) : P (executor.executeTestruns noTestruns).2 := by
  induction noTestruns generalizing executor with
  | zero => exact h
  | succ n ih =>
    have hfirst := hrun executor h
    obtain ⟨after, hone, hruns⟩ | ⟨cycles, after, after', hone, hrest, hruns⟩ |
      ⟨cycles, rest, after, after', hone, hrest, hruns⟩ := executor.executeTestruns_cases n
    · rw [hone] at hfirst
      rwa [hruns]
    · rw [hone] at hfirst
      have hlater := ih hfirst
      rw [hrest] at hlater
      rwa [hruns]
    · rw [hone] at hfirst
      have hlater := ih hfirst
      rw [hrest] at hlater
      rwa [hruns]

theorem comparePages_invariant {P : Executor → Prop}
    (hrun : ∀ executor, P executor → P executor.executeTestrun.2)
    (difference : List (BitVec 64) → List (BitVec 64) → ℤ) (noTestruns : ℕ) {executor : Executor}
    (h : P executor) : P (executor.comparePages difference noTestruns).2 := by
  have hfirst := executeTestruns_invariant hrun noTestruns h
  obtain ⟨after, hruns, hcompare⟩ | ⟨cycles₀, after, after', hruns, hruns', hcompare⟩ |
    ⟨cycles₀, cycles₁, after, after', hruns, hruns', hcompare⟩ :=
      executor.comparePages_cases difference noTestruns
  · rw [hruns] at hfirst
    rwa [hcompare]
  · rw [hruns] at hfirst
    have hsecond := executeTestruns_invariant hrun noTestruns hfirst
    rw [hruns'] at hsecond
    rwa [hcompare]
  · rw [hruns] at hfirst
    have hsecond := executeTestruns_invariant hrun noTestruns hfirst
    rw [hruns'] at hsecond
    rwa [hcompare]

theorem comparePages_pages (difference : List (BitVec 64) → List (BitVec 64) → ℤ)
    (noTestruns : ℕ) (executor : Executor) :
    (executor.comparePages difference noTestruns).2.executionCodePages =
      executor.executionCodePages := by
  apply comparePages_invariant
    (P := fun after => after.executionCodePages = executor.executionCodePages) _ _ _ rfl
  intro after hkept
  rw [← hkept, executeTestrun]
  split
  · rfl
  · rfl

/-- After a trigger test the executor still has the pages that were prepared for it. -/
theorem testTriggerSequence_pages {triggerSequence measurementSequence resetSequence : Bytes}
    {speculation : Bool} {noTestruns amount : ℕ} {executor after : Executor} {result : TestResult}
    (h : executor.testTriggerSequence triggerSequence measurementSequence resetSequence speculation
      noTestruns amount = .ok (result, after)) :
    CodePages.createTriggerPages triggerSequence measurementSequence resetSequence speculation
      amount executor.executionCodePages = .ok after.executionCodePages := by
  obtain ⟨pages, hpages, hcompare⟩ := testTriggerSequence_ok h
  have hkept := comparePages_pages triggerDifference noTestruns
    (executor.withCodePages pages.1 pages.2)
  rw [hcompare] at hkept
  rw [CodePages.createTriggerPages_eq, hpages]
  exact congrArg Except.ok hkept.symm

end Executor

/-- Two pages that agree up to the four bytes from `slot` on. -/
structure DifferInSlot (page₀ page₁ : CodePage) (triggerSequence : Bytes) (slot : ℕ) : Prop where
  index : page₀.lastWrittenIndex = page₁.lastWrittenIndex
  inside : slot + 4 ≤ kPagesize
  trigger : (page₀.content.drop slot).take 4 = triggerSequence
  nop : (page₁.content.drop slot).take 4 = initialNop
  outside : ∀ i, i < slot ∨ slot + 4 ≤ i → page₀.content[i]? = page₁.content[i]?

/-- The measurement sequence stands on the page, with the timer that starts at `timerAt` around
it. -/
def MeasuredAt (page : CodePage) (measurementSequence : Bytes) (timerAt : ℕ) : Prop :=
  timerStartInstructions.flatten ++ (measurementSequence ++ timerEndInstructions.flatten) <+:
    page.content.drop timerAt

theorem getElem?_middle {α : Type} {before middle middle' rest : List α}
    (hlength : middle.length = middle'.length) {i : ℕ}
    (hi : i < before.length ∨ before.length + middle.length ≤ i) :
    (before ++ (middle ++ rest))[i]? = (before ++ (middle' ++ rest))[i]? := by
  rcases hi with hi | hi
  · rw [List.getElem?_append_left hi, List.getElem?_append_left hi]
  · rw [List.getElem?_append_right (by omega), List.getElem?_append_right (by omega),
      List.getElem?_append_right (by omega), List.getElem?_append_right (by omega), hlength]

theorem instNop_eq : instNop = initialNop := rfl

theorem CodePage.Holds.differInSlot {page₀ page₁ : CodePage} {before triggerSequence rest : Bytes}
    (htrigger : triggerSequence.length = 4) (h₀ : page₀.Holds (before ++ (triggerSequence ++ rest)))
    (h₁ : page₁.Holds (before ++ (instNop ++ rest))) :
    DifferInSlot page₀ page₁ triggerSequence before.length := by
  have hnop : instNop.length = 4 := rfl
  have hlength : (before ++ (triggerSequence ++ rest)).length =
      (before ++ (instNop ++ rest)).length := by simp only [List.length_append, htrigger, hnop]
  have hfits := h₀.length_lt
  simp only [List.length_append] at hfits
  have hcontent₀ := h₀.1
  have hcontent₁ := h₁.1
  rw [List.append_assoc, List.append_assoc] at hcontent₀ hcontent₁
  refine ⟨?_, by omega, ?_, ?_, ?_⟩
  · rw [h₀.2, h₁.2, hlength]
  · rw [hcontent₀, List.drop_left, ← htrigger, List.take_left]
  · rw [hcontent₁, List.drop_left, ← hnop, List.take_left, instNop_eq]
  · intro i hi
    rw [hcontent₀, hcontent₁, hlength]
    exact getElem?_middle (by rw [htrigger, hnop]) (by rwa [htrigger])

theorem CodePage.Holds.measuredAt {page : CodePage} {before measurementSequence : Bytes}
    (h : page.Holds (before ++ measurementBytes measurementSequence)) :
    MeasuredAt page measurementSequence before.length := by
  rw [MeasuredAt, h.1, List.append_assoc, List.drop_left, measurementBytes]
  simp only [List.append_assoc]
  rw [List.prefix_append_right_inj, List.prefix_append_right_inj]
  exact List.prefix_append _ _

/-- The gadget in front of a trigger of this length, and behind it. -/
def gadgetStart (triggerLength : ℕ) : Bytes :=
  instRelativeCall ++ displacementBytes (triggerLength + 5)

def gadgetEnd : Bytes :=
  instRelativeJmp ++ (displacementBytes 12 ++ (instLeaRaxDerefRipPlusOffset ++
    (displacementBytes 5 ++ (instMovDerefRspRax ++ instSpeculationRet))))

theorem gadgetInstructions_flatten (triggerSequence : Bytes) :
    (gadgetInstructions triggerSequence).flatten =
      gadgetStart triggerSequence.length ++ (triggerSequence ++ gadgetEnd) := by
  simp only [gadgetInstructions, gadgetStart, gadgetEnd, List.flatten_cons, List.flatten_nil,
    List.append_assoc, List.append_nil]

theorem triggerPages_hold {triggerSequence measurementSequence resetSequence : Bytes}
    {speculation : Bool} {amount : ℕ} {pages : CodePage × CodePage}
    (htrigger : triggerSequence.length = 4)
    (h : Executor.createTriggerPages triggerSequence measurementSequence resetSequence speculation
      amount = .ok pages) :
    ∃ before between,
      pages.1.Holds (before ++ (triggerSequence ++
        (between ++ measurementBytes measurementSequence))) ∧
      pages.2.Holds (before ++ (instNop ++
        (between ++ measurementBytes measurementSequence))) := by
  have hnop : instNop.length = 4 := rfl
  cases speculation with
  | true =>
    obtain ⟨page₀, h₀, h⟩ := except_bind_ok h
    obtain ⟨page₁, h₁, h⟩ := except_bind_ok h
    obtain rfl := Except.ok.inj h
    have hamount := createSpeculativeTriggerTestrunCode_amount h₀
    have hholds₀ := (createSpeculativeTriggerTestrunCode_fills _ _ _ hamount).holds h₀
    have hholds₁ := (createSpeculativeTriggerTestrunCode_fills _ _ _ hamount).holds h₁
    rw [speculativeTestrunBytes_eq, gadgetInstructions_flatten] at hholds₀ hholds₁
    rw [htrigger] at hholds₀
    rw [hnop] at hholds₁
    refine ⟨codeBeforeGadget resetSequence amount ++ gadgetStart 4, gadgetEnd, ?_, ?_⟩
    · simpa only [List.append_assoc] using hholds₀
    · simpa only [List.append_assoc] using hholds₁
  | false =>
    obtain ⟨page₀, h₀, h⟩ := except_bind_ok h
    obtain ⟨page₁, h₁, h⟩ := except_bind_ok h
    obtain rfl := Except.ok.inj h
    have hamount := createTestrunCode_amount h₀
    have hholds₀ := (createTestrunCode_fills _ _ _ hamount).holds h₀
    have hholds₁ := (createTestrunCode_fills _ _ _ hamount).holds h₁
    refine ⟨codeBeforeGadget resetSequence amount, serializeInstructions.flatten, ?_, ?_⟩
    · simpa only [testrunBytes, codeBeforeGadget, List.append_assoc] using hholds₀
    · simpa only [testrunBytes, codeBeforeGadget, List.append_assoc] using hholds₁

/-- The pages of a test with a four-byte trigger. -/
theorem createTriggerPages_differInSlot
    {triggerSequence measurementSequence resetSequence : Bytes} {speculation : Bool} {amount : ℕ}
    {pages after : CodePages} (htrigger : triggerSequence.length = 4)
    (h : CodePages.createTriggerPages triggerSequence measurementSequence resetSequence speculation
      amount pages = .ok after) :
    ∃ slot timerAt, DifferInSlot (after 0) (after 1) triggerSequence slot ∧
      MeasuredAt (after 0) measurementSequence timerAt ∧
      MeasuredAt (after 1) measurementSequence timerAt := by
  rw [CodePages.createTriggerPages_eq] at h
  obtain ⟨pages, hpages, rfl⟩ := except_map_ok h
  obtain ⟨before, between, h₀, h₁⟩ := triggerPages_hold htrigger hpages
  have hnop : instNop.length = 4 := rfl
  refine ⟨before.length, (before ++ (triggerSequence ++ between)).length,
    h₀.differInSlot htrigger h₁, ?_, ?_⟩
  · apply CodePage.Holds.measuredAt
    rw [List.append_assoc, List.append_assoc]
    exact h₀
  · have hsame : (before ++ (triggerSequence ++ between)).length =
        (before ++ (instNop ++ between)).length := by
      simp only [List.length_append, htrigger, hnop]
    rw [hsame]
    apply CodePage.Holds.measuredAt
    rw [List.append_assoc, List.append_assoc]
    exact h₁

/-- A transient barrier as trigger between NOPs. -/
theorem createTriggerPages_differInSlot_dsb : instDsbSy.length = 4 ∧ ∃ after,
    CodePages.createTriggerPages instDsbSy instNop instNop true 1 (fun _ => initializeCodePage) =
      .ok after ∧
    ∃ slot timerAt, DifferInSlot (after 0) (after 1) instDsbSy slot ∧
      MeasuredAt (after 0) instNop timerAt ∧ MeasuredAt (after 1) instNop timerAt := by
  obtain ⟨pages, hpages⟩ := Executor.exists_triggerPages instDsbSy instNop instNop true
    (by decide : 1 ≤ 100) (by decide)
  have hafter := CodePages.createTriggerPages_eq instDsbSy instNop instNop true 1
    fun _ => initializeCodePage
  rw [hpages] at hafter
  exact ⟨rfl, _, hafter, createTriggerPages_differInSlot rfl hafter⟩

end OsirisArm
