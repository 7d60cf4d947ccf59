import OsirisArm.Cleanup

/-! # Counting faults

The fault handler counts a signal and leaves the page that raised it, which ends the test with an
error. So the counters together count the tests that end with an error. Cleaning an instruction file
makes one test for each instruction and drops those that ended so.
-/

namespace OsirisArm
open Library Library.Emission

/-- The sum of the counters of all signals. -/
def FaultCounters.total (counters : FaultCounters) : ℕ :=
  counters.sigsegvNo + counters.sigfpeNo + counters.sigillNo + counters.sigtrapNo

theorem faultHandler_total (signal : Signal) (counters : FaultCounters) :
    (faultHandler signal counters).total = counters.total + 1 := by
  cases signal with
  | sigsegv => simp only [faultHandler, FaultCounters.total]; omega
  | sigfpe => simp only [faultHandler, FaultCounters.total]; omega
  | sigill => simp only [faultHandler, FaultCounters.total]; omega
  | sigtrap => simp only [faultHandler, FaultCounters.total]; omega

namespace Executor

/-- The faults that the executor has counted. -/
def faultNo (executor : Executor) : ℕ := executor.faultCounters.total

/-- A test returns 0 and no fault was counted, or it returns 1 with the difference -1 and one
was. -/
def Accounted (before after : Executor) (result : TestResult) : Prop :=
  result.error = 0 ∧ after.faultNo = before.faultNo ∨
    result = ⟨1, -1⟩ ∧ after.faultNo = before.faultNo + 1

/-- Runs that end with a fault have counted one, runs that complete none. -/
def Counted {α : Type} (before : Executor) : Option α × Executor → Prop
  | (none, after) => after.faultNo = before.faultNo + 1
  | (some _, after) => after.faultNo = before.faultNo

theorem executeTestrun_counted (executor : Executor) :
    Counted executor executor.executeTestrun := by
  unfold executeTestrun
  split
  · rfl
  · exact faultHandler_total _ _

theorem executeTestruns_counted (noTestruns : ℕ) (executor : Executor) :
    Counted executor (executor.executeTestruns noTestruns) := by
  induction noTestruns generalizing executor with
  | zero => rfl
  | succ n ih =>
    have hfirst := executor.executeTestrun_counted
    obtain ⟨after, hrun, hruns⟩ | ⟨cycles, after, after', hrun, hrest, hruns⟩ |
      ⟨cycles, rest, after, after', hrun, hrest, hruns⟩ := executor.executeTestruns_cases n
    · rw [hrun] at hfirst
      rwa [hruns]
    · have hlater := ih after
      rw [hrun] at hfirst
      rw [hrest] at hlater
      rw [hruns]
      exact hlater.trans (congrArg (· + 1) hfirst)
    · have hlater := ih after
      rw [hrun] at hfirst
      rw [hrest] at hlater
      rw [hruns]
      exact hlater.trans hfirst

theorem comparePages_accounted (difference : List (BitVec 64) → List (BitVec 64) → ℤ)
    (noTestruns : ℕ) (executor : Executor) :
    Accounted executor (executor.comparePages difference noTestruns).2
      (executor.comparePages difference noTestruns).1 := by
  have hfirst := executeTestruns_counted noTestruns executor
  obtain ⟨after, hruns, hcompare⟩ | ⟨cycles₀, after, after', hruns, hruns', hcompare⟩ |
    ⟨cycles₀, cycles₁, after, after', hruns, hruns', hcompare⟩ :=
      executor.comparePages_cases difference noTestruns
  · rw [hruns] at hfirst
    rw [hcompare]
    exact .inr ⟨rfl, hfirst⟩
  · have hsecond := executeTestruns_counted noTestruns after
    rw [hruns] at hfirst
    rw [hruns'] at hsecond
    rw [hcompare]
    exact .inr ⟨rfl, hsecond.trans (congrArg (· + 1) hfirst)⟩
  · have hsecond := executeTestruns_counted noTestruns after
    rw [hruns] at hfirst
    rw [hruns'] at hsecond
    rw [hcompare]
    exact .inl ⟨rfl, hsecond.trans hfirst⟩

/-- A call of one of the two test functions. -/
inductive TestCall where
  | trigger (triggerSequence measurementSequence resetSequence : Bytes)
      (executeTriggerOnlyInSpeculation : Bool) (noTestruns resetExecutionsAmount : ℕ)
  | reset (triggerSequence measurementSequence resetSequence : Bytes)
      (noTestruns resetExecutionsAmount : ℕ)

def runCall (testCall : TestCall) (executor : Executor) : Except Stop (TestResult × Executor) :=
  match testCall with
  | .trigger triggerSequence measurementSequence resetSequence executeTriggerOnlyInSpeculation
      noTestruns resetExecutionsAmount =>
    executor.testTriggerSequence triggerSequence measurementSequence resetSequence
      executeTriggerOnlyInSpeculation noTestruns resetExecutionsAmount
  | .reset triggerSequence measurementSequence resetSequence noTestruns resetExecutionsAmount =>
    executor.testResetSequence triggerSequence measurementSequence resetSequence noTestruns
      resetExecutionsAmount

theorem testResetSequence_ok {triggerSequence measurementSequence resetSequence : Bytes}
    {noTestruns amount : ℕ} {executor after : Executor} {result : TestResult}
    (h : executor.testResetSequence triggerSequence measurementSequence resetSequence noTestruns
      amount = .ok (result, after)) :
    ∃ page₀ page₁, (executor.withCodePages page₀ page₁).comparePages resetDifference noTestruns =
      (result, after) := by
  obtain ⟨page₀, -, h⟩ := except_bind_ok h
  obtain ⟨page₁, -, h⟩ := except_bind_ok h
  exact ⟨page₀, page₁, Except.ok.inj h⟩

theorem runCall_accounted {testCall : TestCall} {executor after : Executor} {result : TestResult}
    (h : runCall testCall executor = .ok (result, after)) : Accounted executor after result := by
  cases testCall with
  | trigger triggerSequence measurementSequence resetSequence speculation noTestruns amount =>
    obtain ⟨pages, -, hcompare⟩ := testTriggerSequence_ok h
    have haccounted := comparePages_accounted triggerDifference noTestruns
      (executor.withCodePages pages.1 pages.2)
    rwa [hcompare] at haccounted
  | reset triggerSequence measurementSequence resetSequence noTestruns amount =>
    obtain ⟨page₀, page₁, hcompare⟩ := testResetSequence_ok h
    have haccounted := comparePages_accounted resetDifference noTestruns
      (executor.withCodePages page₀ page₁)
    rwa [hcompare] at haccounted

end Executor

/-- After a run of accounted tests, the counters have grown by the number of errors. -/
theorem Tested.faultNo {α : Type} {test : α → Executor → Except Stop (TestResult × Executor)}
    (haccounted : ∀ a executor result after, test a executor = .ok (result, after) →
      executor.Accounted after result)
    {executor after : Executor} {results : List (α × TestResult)}
    (h : Tested test executor results after) :
    after.faultNo = executor.faultNo + results.countP fun test => test.2.error ≠ 0 := by
  induction h with
  | nil executor => rfl
  | @cons a result before next after rest hfirst _ ih =>
    rw [ih, List.countP_cons]
    rcases haccounted a before result next hfirst with ⟨hok, hsame⟩ | ⟨rfl, hmore⟩
    · rw [hsame, hok]
      rfl
    · rw [hmore]
      simp only [ne_eq, one_ne_zero, not_false_eq_true, decide_true, if_true]
      omega

/-- The lines of the loaded instructions that are not in an instruction file, counted with their
multiplicity. -/
def absentLines (codeGenerator : CodeGenerator) (content : Text) : List Text :=
  (codeGenerator.instructionList.map X86Instruction.fileLine).diff ((readLines content).drop 1)

theorem length_diff_of_sublist {α : Type} [BEq α] [LawfulBEq α] {first second : List α}
    (h : first.Sublist second) : (second.diff first).length + first.length = second.length := by
  have hperm := List.subperm_append_diff_self_of_count_le fun a (_ : a ∈ first) => h.count_le a
  have hlength := hperm.length_eq
  rw [List.length_append] at hlength
  omega

theorem readLines_cleanedText {lines : List Text} (h : ∀ line ∈ lines, '\n' ∉ line) :
    (readLines (cleanedText lines)).drop 1 = lines := by
  by_cases hempty : lines = []
  · rw [hempty]
    rfl
  · have hlines : ∀ line ∈ instructionFileHeader :: lines, '\n' ∉ line := by
      rw [List.forall_mem_cons]
      exact ⟨by decide, h⟩
    rw [cleanedText, if_neg hempty, readLines_fileText hlines]
    rfl

section
variable {codeGenerator : CodeGenerator} {executor after : Executor}

theorem testPlace_accounted (place : Fin codeGenerator.instructionList.length)
    (before : Executor) (result : TestResult) (next : Executor)
    (h : testPlace Executor.api codeGenerator place before = .ok (result, next)) :
    before.Accounted next result := by
  let bytes := codeGenerator.instructionList[place].byteRepresentation
  have hcall : Executor.runCall (.trigger bytes bytes bytes false 1 1) before =
      .ok (result, next) := h
  exact Executor.runCall_accounted hcall

/-- Every instruction was tested, and its test has counted a fault or kept the instruction. -/
theorem faultTests_faultNo
    (h : (faultTests Executor.api codeGenerator executor).outcome = .ok after) :
    after.faultNo + (nonFaulting Executor.api codeGenerator executor).length =
      executor.faultNo + codeGenerator.instructionList.length := by
  have htested : Tested (testPlace Executor.api codeGenerator) executor
      (faultTests Executor.api codeGenerator executor).written after := trials_ok h
  have hall : (faultTests Executor.api codeGenerator executor).written.map Prod.fst =
      List.finRange _ := trials_all h
  have hlength := congrArg List.length hall
  have hfaults := Tested.faultNo testPlace_accounted htested
  have hsplit := List.length_eq_countP_add_countP (fun test => test.2.error = 0)
    (l := (faultTests Executor.api codeGenerator executor).written)
  rw [List.length_map, List.length_finRange] at hlength
  rw [nonFaulting, nonFaultingPlaces, List.length_map, List.length_map,
    ← List.countP_eq_length_filter]
  simp only [decide_not, decide_eq_true_eq] at hfaults hsplit ⊢
  omega

/-- The calls of a run are accounted for one by one. After the cleaning of an instruction file, with
counters that started at zero, they count the instructions that are not in the written file. -/
theorem faults_accounted :
    (∀ (testCall : Executor.TestCall) (executor after : Executor) (result : TestResult),
      Executor.runCall testCall executor = .ok (result, after) →
        executor.Accounted after result) ∧
    (∀ (executor after : Executor) (results : List (Executor.TestCall × TestResult)),
      Tested Executor.runCall executor results after →
        after.faultNo = executor.faultNo + results.countP fun test => test.2.error ≠ 0) ∧
    ∀ (codeGenerator : CodeGenerator) (executor after : Executor) (outputFilename : Text)
      (files cleaned : Files), executor.faultNo = 0 →
      outputNonFaultingInstructions Executor.api codeGenerator outputFilename executor files =
        (cleaned, .ok after) →
      ∃ content, cleaned outputFilename = some content ∧
        after.faultNo = (absentLines codeGenerator content).length := by
  refine ⟨fun _ _ _ _ h => Executor.runCall_accounted h, fun _ _ _ h => ?_, ?_⟩
  · exact Tested.faultNo (fun _ _ _ _ h => Executor.runCall_accounted h) h
  · intro codeGenerator executor after outputFilename files cleaned hzero h
    obtain ⟨hreturned, hwritten⟩ := outputNonFaultingInstructions_ok h
    refine ⟨_, hwritten, ?_⟩
    have hfaults := faultTests_faultNo hreturned
    have hlines := ((nonFaulting_sublist hreturned).map X86Instruction.fileLine)
    have habsent := length_diff_of_sublist hlines
    rw [absentLines, readLines_cleanedText]
    · rw [List.length_map, List.length_map] at habsent
      omega
    · intro line hline
      obtain ⟨i, hi, rfl⟩ := List.mem_map.mp hline
      exact (nonFaulting_writable hreturned hi).1.fileLine_no_newline

end

/-- Cleaning two instructions of which the second one faults. -/
theorem faults_accounted_two : ∃ (middle last after : Executor) (cleaned : Files) (content : Text),
    Executor.runCall (.trigger instNop instNop instNop false 1 1) (.start faultingTape) =
        .ok (⟨0, 0⟩, middle) ∧
      (Executor.start faultingTape).Accounted middle ⟨0, 0⟩ ∧ last.faultNo = 1 ∧
      outputNonFaultingInstructions Executor.api twoInstructions "cleaned.b64".toList
        (.start faultingTape) (fun _ => none) = (cleaned, .ok after) ∧
      cleaned "cleaned.b64".toList = some content ∧
      after.faultNo = (absentLines twoInstructions content).length := by
  obtain ⟨hcall, hrun, hclean⟩ := faults_accounted
  obtain ⟨middle, last, hnop, hisb⟩ := testPlaces_two
  obtain ⟨after, hreturned, -⟩ := nonFaulting_two
  have hcleaned :=
    outputNonFaultingInstructions_returned hreturned "cleaned.b64".toList fun _ => none
  obtain ⟨content, hcontent, hcount⟩ := hclean _ _ _ _ _ _ rfl hcleaned
  have hnop : Executor.runCall (.trigger instNop instNop instNop false 1 1)
      (.start faultingTape) = .ok (⟨0, 0⟩, middle) := hnop
  have htested : Tested Executor.runCall (.start faultingTape)
      [(.trigger instNop instNop instNop false 1 1, ⟨0, 0⟩),
        (.trigger instIsbSy instIsbSy instIsbSy false 1 1, ⟨1, -1⟩)] last :=
    .cons hnop (.cons hisb (.nil last))
  exact ⟨middle, last, after, _, content, hnop, hcall _ _ _ _ hnop, hrun _ _ _ htested, hcleaned,
    hcontent, hcount⟩

end OsirisArm
