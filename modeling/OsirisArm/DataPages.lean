import OsirisArm.SequenceTriple
import OsirisArm.TriggerPages

/-! # The executor and its data pages

The generated code works on two data pages. Every generator clears them before it writes its code
page, so a test starts with empty data pages, but nothing clears them between its runs. Here a run
is what a processor makes of a code page, the data pages and a state of its own; the executor with a
tape of outcomes is an abstraction of this one.
-/

namespace OsirisArm
open Library

structure DataPage where
  content : Bytes
  length_eq : content.length = kPagesize

namespace DataPage

theorem length_zeros : (List.replicate kPagesize (0 : Byte)).length = kPagesize :=
  List.length_replicate

def empty : DataPage := ⟨List.replicate kPagesize 0, length_zeros⟩

def clear (page : DataPage) : DataPage where
  content := overwrite page.content 0 (List.replicate kPagesize 0)
  length_eq := by
    rw [overwrite_length, page.length_eq]
    rw [List.length_replicate, page.length_eq, Nat.zero_add]

@[simp] theorem clear_eq (page : DataPage) : page.clear = empty := by
  have hdrop : page.content.drop (0 + (List.replicate kPagesize (0 : Byte)).length) = [] := by
    rw [List.length_replicate, Nat.zero_add, ← page.length_eq]
    exact List.drop_length
  have hcontent : overwrite page.content 0 (List.replicate kPagesize 0) =
      List.replicate kPagesize 0 := by
    rw [overwrite, hdrop, List.take_zero, List.nil_append, List.append_nil]
  simp only [clear, empty, hcontent]

end DataPage

abbrev DataPages := Fin 2 → DataPage

def clearDataPage (pages : DataPages) : DataPages := fun i => (pages i).clear

/-- The data pages and the state of the processor that a run starts from, and its outcome and what
it leaves. A run may also write before it faults. -/
abbrev Processor (ρ : Type) := CodePage → DataPages → ρ → PageRun × DataPages × ρ

structure MemoryExecutor (ρ : Type) where
  executionDataPages : DataPages
  executionCodePages : CodePages
  faultCounters : FaultCounters
  processorState : ρ

/-- A call of one of the three test functions. -/
inductive ExecutorCall where
  | test (testCall : Executor.TestCall)
  | sequenceTriple (triggerSequence measurementSequence resetSequence : Bytes) (noTestruns : ℕ)

namespace MemoryExecutor
variable {ρ : Type}

/-- The constructor: new pages are zero. -/
def start (processorState : ρ) : MemoryExecutor ρ where
  executionDataPages := fun _ => .empty
  executionCodePages := (Executor.start fun _ => .completed 0).executionCodePages
  faultCounters := ⟨0, 0, 0, 0⟩
  processorState := processorState

/-- What the generators do: the data pages are cleared, then a code page is written. -/
def generate (create : CodePages → Except Stop CodePages) (executor : MemoryExecutor ρ) :
    Except Stop (MemoryExecutor ρ) := do
  let executor :=
    { executor with executionDataPages := clearDataPage executor.executionDataPages }
  let pages ← create executor.executionCodePages
  return { executor with executionCodePages := pages }

def createResetTestrunCode (codepageNo : Fin 2)
    (triggerSequence measurementSequence resetSequence : Bytes) (resetExecutionsAmount : ℕ) :
    MemoryExecutor ρ → Except Stop (MemoryExecutor ρ) :=
  generate (CodePages.createResetTestrunCode codepageNo triggerSequence measurementSequence
    resetSequence resetExecutionsAmount)

def createTestrunCode (codepageNo : Fin 2)
    (firstSequence secondSequence measurementSequence : Bytes)
    (firstSequenceExecutionsAmount : ℕ) : MemoryExecutor ρ → Except Stop (MemoryExecutor ρ) :=
  generate (CodePages.createTestrunCode codepageNo firstSequence secondSequence
    measurementSequence firstSequenceExecutionsAmount)

def createSpeculativeTriggerTestrunCode (codepageNo : Fin 2)
    (measurementSequence triggerSequence resetSequence : Bytes) (resetExecutionsAmount : ℕ) :
    MemoryExecutor ρ → Except Stop (MemoryExecutor ρ) :=
  generate (CodePages.createSpeculativeTriggerTestrunCode codepageNo measurementSequence
    triggerSequence resetSequence resetExecutionsAmount)

section
variable (processor : Processor ρ)

def executeTestrun (codepageNo : Fin 2) (executor : MemoryExecutor ρ) :
    Option (BitVec 64) × MemoryExecutor ρ :=
  let run := processor (executor.executionCodePages codepageNo) executor.executionDataPages
    executor.processorState
  let after :=
    { executor with executionDataPages := run.2.1, processorState := run.2.2 }
  match run.1 with
  | .completed cyclesElapsed => (some cyclesElapsed, after)
  | .raised signal =>
    (none, { after with faultCounters := faultHandler signal after.faultCounters })

def executeTestruns (codepageNo : Fin 2) : ℕ → MemoryExecutor ρ →
    Option (List (BitVec 64)) × MemoryExecutor ρ
  | 0, executor => (some [], executor)
  | noTestruns + 1, executor =>
    let first := executor.executeTestrun processor codepageNo
    match first.1 with
    | none => (none, first.2)
    | some cyclesElapsed =>
      let rest := executeTestruns codepageNo noTestruns first.2
      (rest.1.map (cyclesElapsed :: ·), rest.2)

/-- The runs of page 0 and then those of page 1. -/
def comparePages (difference : List (BitVec 64) → List (BitVec 64) → ℤ) (noTestruns : ℕ)
    (executor : MemoryExecutor ρ) : TestResult × MemoryExecutor ρ :=
  let first := executor.executeTestruns processor ⟨0, Nat.zero_lt_two⟩ noTestruns
  match first.1 with
  | none => (⟨1, -1⟩, first.2)
  | some cycles₀ =>
    let second := first.2.executeTestruns processor ⟨1, Nat.one_lt_two⟩ noTestruns
    match second.1 with
    | none => (⟨1, -1⟩, second.2)
    | some cycles₁ => (⟨0, difference cycles₀ cycles₁⟩, second.2)

/-- The loop of `TestSequenceTriple`, which alternates between the pages. -/
def executePairs : ℕ → MemoryExecutor ρ → Option (List ℤ) × MemoryExecutor ρ
  | 0, executor => (some [], executor)
  | noTestruns + 1, executor =>
    let first := executor.executeTestrun processor ⟨0, Nat.zero_lt_two⟩
    match first.1 with
    | none => (none, first.2)
    | some cyclesElapsedTriggerReset =>
      let second := first.2.executeTestrun processor ⟨1, Nat.one_lt_two⟩
      match second.1 with
      | none => (none, second.2)
      | some cyclesElapsedResetTrigger =>
        let rest := executePairs noTestruns second.2
        (rest.1.map (wrapInt64 (cyclesElapsedTriggerReset.toInt -
          cyclesElapsedResetTrigger.toInt) :: ·), rest.2)

def testTriggerSequence (triggerSequence measurementSequence resetSequence : Bytes)
    (executeTriggerOnlyInSpeculation : Bool) (noTestruns resetExecutionsAmount : ℕ)
    (executor : MemoryExecutor ρ) : Except Stop (TestResult × MemoryExecutor ρ) := do
  assert (triggerSequence.length ≤ 200)
  let nopSequence := instNop
  let executor ←
    if executeTriggerOnlyInSpeculation then do
      let executor ← executor.createSpeculativeTriggerTestrunCode ⟨0, Nat.zero_lt_two⟩
        measurementSequence triggerSequence resetSequence resetExecutionsAmount
      executor.createSpeculativeTriggerTestrunCode ⟨1, Nat.one_lt_two⟩ measurementSequence
        nopSequence resetSequence resetExecutionsAmount
    else do
      let executor ← executor.createTestrunCode ⟨0, Nat.zero_lt_two⟩ resetSequence triggerSequence
        measurementSequence resetExecutionsAmount
      executor.createTestrunCode ⟨1, Nat.one_lt_two⟩ resetSequence nopSequence measurementSequence
        resetExecutionsAmount
  return executor.comparePages processor Executor.triggerDifference noTestruns

def testResetSequence (triggerSequence measurementSequence resetSequence : Bytes)
    (noTestruns resetExecutionsAmount : ℕ) (executor : MemoryExecutor ρ) :
    Except Stop (TestResult × MemoryExecutor ρ) := do
  let nopSequence := createSequenceOfNOPs resetSequence.length
  let executor ← executor.createResetTestrunCode ⟨0, Nat.zero_lt_two⟩ nopSequence
    measurementSequence resetSequence resetExecutionsAmount
  let executor ← executor.createResetTestrunCode ⟨1, Nat.one_lt_two⟩ triggerSequence
    measurementSequence resetSequence resetExecutionsAmount
  return executor.comparePages processor Executor.resetDifference noTestruns

def testSequenceTriple (triggerSequence measurementSequence resetSequence : Bytes)
    (noTestruns : ℕ) (executor : MemoryExecutor ρ) :
    Except Stop (TestResult × MemoryExecutor ρ) := do
  let executor ← executor.createTestrunCode ⟨0, Nat.zero_lt_two⟩ triggerSequence resetSequence
    measurementSequence 1
  let executor ← executor.createTestrunCode ⟨1, Nat.one_lt_two⟩ resetSequence triggerSequence
    measurementSequence 1
  let runs := executor.executePairs processor noTestruns
  return (Executor.pairsResult runs.1, runs.2)

def api : ExecutorApi (MemoryExecutor ρ) where
  testTriggerSequence := testTriggerSequence processor
  testResetSequence := testResetSequence processor

def call : ExecutorCall → MemoryExecutor ρ → Except Stop (TestResult × MemoryExecutor ρ)
  | .test (.trigger triggerSequence measurementSequence resetSequence
      executeTriggerOnlyInSpeculation noTestruns resetExecutionsAmount) =>
    testTriggerSequence processor triggerSequence measurementSequence resetSequence
      executeTriggerOnlyInSpeculation noTestruns resetExecutionsAmount
  | .test (.reset triggerSequence measurementSequence resetSequence noTestruns
      resetExecutionsAmount) =>
    testResetSequence processor triggerSequence measurementSequence resetSequence noTestruns
      resetExecutionsAmount
  | .sequenceTriple triggerSequence measurementSequence resetSequence noTestruns =>
    testSequenceTriple processor triggerSequence measurementSequence resetSequence noTestruns

end

/-- The executor with the pages of a test, before its first run. -/
def prepared (executor : MemoryExecutor ρ) (page₀ page₁ : CodePage) : MemoryExecutor ρ :=
  { executor with executionDataPages := fun _ => .empty, executionCodePages := ![page₀, page₁] }

theorem clearDataPage_eq (pages : DataPages) : clearDataPage pages = fun _ => .empty := by
  funext i
  exact DataPage.clear_eq (pages i)

theorem generate_eq (create : CodePages → Except Stop CodePages) (executor : MemoryExecutor ρ) :
    executor.generate create = (create executor.executionCodePages).map fun pages =>
      { executor with executionDataPages := fun _ => .empty, executionCodePages := pages } := by
  simp only [generate, clearDataPage_eq]
  cases create executor.executionCodePages <;> rfl

theorem generate_both {create₀ create₁ : CodePages → Except Stop CodePages}
    {pages : Except Stop (CodePage × CodePage)}
    (h : ∀ codePages, (create₀ codePages >>= create₁) =
      pages.map fun pages => ![pages.1, pages.2]) (executor : MemoryExecutor ρ) {α : Type}
    (use : MemoryExecutor ρ → Except Stop α) :
    (executor.generate create₀ >>= fun executor => executor.generate create₁ >>= use) =
      (pages >>= fun pages => use (executor.prepared pages.1 pages.2)) := by
  have hpages := h executor.executionCodePages
  rw [generate_eq]
  cases hfirst : create₀ executor.executionCodePages with
  | error stop =>
    rw [hfirst] at hpages
    cases pages with
    | error stop' =>
      obtain rfl : stop = stop' := Except.error.inj hpages
      rfl
    | ok pages => cases hpages
  | ok codePages =>
    rw [hfirst] at hpages
    change create₁ codePages = _ at hpages
    change (generate create₁ _ >>= use) = _
    rw [generate_eq, hpages]
    cases pages <;> rfl

end MemoryExecutor

/-- The pages of a call, whatever the executor held before. -/
def ExecutorCall.pages : ExecutorCall → Except Stop (CodePage × CodePage)
  | .test (.trigger triggerSequence measurementSequence resetSequence
      executeTriggerOnlyInSpeculation _ resetExecutionsAmount) => do
    assert (triggerSequence.length ≤ 200)
    Executor.createTriggerPages triggerSequence measurementSequence resetSequence
      executeTriggerOnlyInSpeculation resetExecutionsAmount
  | .test (.reset triggerSequence measurementSequence resetSequence _ resetExecutionsAmount) => do
    let page₀ ← createResetTestrunCode (createSequenceOfNOPs resetSequence.length)
      measurementSequence resetSequence resetExecutionsAmount
    let page₁ ← createResetTestrunCode triggerSequence measurementSequence resetSequence
      resetExecutionsAmount
    return (page₀, page₁)
  | .sequenceTriple triggerSequence measurementSequence resetSequence _ => do
    let page₀ ← createTestrunCode triggerSequence resetSequence measurementSequence 1
    let page₁ ← createTestrunCode resetSequence triggerSequence measurementSequence 1
    return (page₀, page₁)

end OsirisArm
