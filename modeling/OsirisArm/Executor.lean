import OsirisArm.Testrun
import OsirisArm.Median
import Mathlib.Data.Fin.VecNotation

/-! # The executor

The executor prepares two code pages and runs each of them several times. What a run of generated
code does is not computed here: the executor carries a tape with the outcome of every run to come,
a cycle count or a signal. Core and the confirmation stage see the executor only through its two
test functions, so they are stated for any implementation of these.
-/

namespace OsirisArm

/-- The signals the fault handler is registered for. -/
inductive Signal where
  | sigsegv
  | sigfpe
  | sigill
  | sigtrap
  deriving DecidableEq

/-- What a run of a code page does. -/
inductive PageRun where
  | completed (cyclesElapsed : BitVec 64)
  | raised (signal : Signal)

structure FaultCounters where
  sigsegvNo : ℕ
  sigfpeNo : ℕ
  sigillNo : ℕ
  sigtrapNo : ℕ

def faultHandler (signal : Signal) (counters : FaultCounters) : FaultCounters :=
  match signal with
  | .sigsegv => { counters with sigsegvNo := counters.sigsegvNo + 1 }
  | .sigfpe => { counters with sigfpeNo := counters.sigfpeNo + 1 }
  | .sigill => { counters with sigillNo := counters.sigillNo + 1 }
  | .sigtrap => { counters with sigtrapNo := counters.sigtrapNo + 1 }

structure Executor where
  executionCodePages : Fin 2 → CodePage
  faultCounters : FaultCounters
  tape : ℕ → PageRun
  runNo : ℕ

/-- The error code of a test and the value it leaves in `*cycles_difference`. -/
structure TestResult where
  error : ℤ
  cyclesDifference : ℤ
  deriving DecidableEq

/-- The part of the executor its callers use. -/
structure ExecutorApi (σ : Type) where
  testTriggerSequence (triggerSequence measurementSequence resetSequence : Bytes)
    (executeTriggerOnlyInSpeculation : Bool) (noTestruns resetExecutionsAmount : ℕ) :
    σ → Except Stop (TestResult × σ)
  testResetSequence (triggerSequence measurementSequence resetSequence : Bytes)
    (noTestruns resetExecutionsAmount : ℕ) : σ → Except Stop (TestResult × σ)

def createSequenceOfNOPs (length : ℕ) : Bytes :=
  (List.replicate ((length + 3) / 4) [0xd5, 0x03, 0x20, 0x1f]).flatten

namespace Executor

/-- The constructor: two fresh pages and no fault yet. -/
def start (tape : ℕ → PageRun) : Executor where
  executionCodePages := fun _ =>
    ⟨List.replicate kPagesize 0, 0, List.length_replicate, kPagesize_pos⟩
  faultCounters := ⟨0, 0, 0, 0⟩
  tape := tape
  runNo := 0

def withCodePages (executor : Executor) (page₀ page₁ : CodePage) : Executor :=
  { executor with executionCodePages := ![page₀, page₁] }

/-- One run of a code page; `none` is the error return after a fault. -/
def executeTestrun (executor : Executor) : Option (BitVec 64) × Executor :=
  match executor.tape executor.runNo with
  | .completed cyclesElapsed => (some cyclesElapsed, { executor with runNo := executor.runNo + 1 })
  | .raised signal =>
    (none, { executor with
      faultCounters := faultHandler signal executor.faultCounters
      runNo := executor.runNo + 1 })

/-- The loop over the testruns of one page; the first fault ends it. -/
def executeTestruns : ℕ → Executor → Option (List (BitVec 64)) × Executor
  | 0, executor => (some [], executor)
  | noTestruns + 1, executor =>
    match executor.executeTestrun with
    | (none, executor) => (none, executor)
    | (some cyclesElapsed, executor) =>
      match executeTestruns noTestruns executor with
      | (none, executor) => (none, executor)
      | (some rest, executor) => (some (cyclesElapsed :: rest), executor)

/-- The runs of page 0 and then those of page 1, evaluated by `difference`. -/
def comparePages (difference : List (BitVec 64) → List (BitVec 64) → ℤ) (noTestruns : ℕ)
    (executor : Executor) : TestResult × Executor :=
  match executor.executeTestruns noTestruns with
  | (none, executor) => (⟨1, -1⟩, executor)
  | (some cycles₀, executor) =>
    match executor.executeTestruns noTestruns with
    | (none, executor) => (⟨1, -1⟩, executor)
    | (some cycles₁, executor) => (⟨0, difference cycles₀ cycles₁⟩, executor)

/-- The samples that are kept: only those of at most 5000 cycles. -/
def retained (cycles : List (BitVec 64)) : List ℤ :=
  (cycles.filter (fun c => c.toNat ≤ 5000)).map BitVec.toInt

def triggerDifference (triggerCycles notriggerCycles : List (BitVec 64)) : ℤ :=
  medianDifference (retained notriggerCycles) (retained triggerCycles)

def resetDifference (cleanCycles noisyCycles : List (BitVec 64)) : ℤ :=
  medianDifference (cleanCycles.map BitVec.toInt) (noisyCycles.map BitVec.toInt)

/-- The page with the trigger and the page with a NOP in its place. -/
def createTriggerPages (triggerSequence measurementSequence resetSequence : Bytes)
    (executeTriggerOnlyInSpeculation : Bool) (resetExecutionsAmount : ℕ) :
    Except Stop (CodePage × CodePage) := do
  let nopSequence := instNop
  if executeTriggerOnlyInSpeculation then
    let page₀ ← createSpeculativeTriggerTestrunCode measurementSequence triggerSequence
      resetSequence resetExecutionsAmount
    let page₁ ← createSpeculativeTriggerTestrunCode measurementSequence nopSequence
      resetSequence resetExecutionsAmount
    return (page₀, page₁)
  else
    let page₀ ← createTestrunCode resetSequence triggerSequence measurementSequence
      resetExecutionsAmount
    let page₁ ← createTestrunCode resetSequence nopSequence measurementSequence
      resetExecutionsAmount
    return (page₀, page₁)

def testTriggerSequence (triggerSequence measurementSequence resetSequence : Bytes)
    (executeTriggerOnlyInSpeculation : Bool) (noTestruns resetExecutionsAmount : ℕ)
    (executor : Executor) : Except Stop (TestResult × Executor) := do
  assert (triggerSequence.length ≤ 200)
  let pages ← createTriggerPages triggerSequence measurementSequence resetSequence
    executeTriggerOnlyInSpeculation resetExecutionsAmount
  return (executor.withCodePages pages.1 pages.2).comparePages triggerDifference noTestruns

def testResetSequence (triggerSequence measurementSequence resetSequence : Bytes)
    (noTestruns resetExecutionsAmount : ℕ) (executor : Executor) :
    Except Stop (TestResult × Executor) := do
  let nopSequence := createSequenceOfNOPs resetSequence.length
  let page₀ ← createResetTestrunCode nopSequence measurementSequence resetSequence
    resetExecutionsAmount
  let page₁ ← createResetTestrunCode triggerSequence measurementSequence resetSequence
    resetExecutionsAmount
  return (executor.withCodePages page₀ page₁).comparePages resetDifference noTestruns

def api : ExecutorApi Executor where
  testTriggerSequence := testTriggerSequence
  testResetSequence := testResetSequence

/-- The next runs from `start` on complete with these cycle counts. -/
def Observes (executor : Executor) (start : ℕ) (cycles : List (BitVec 64)) : Prop :=
  ∀ i (h : i < cycles.length), executor.tape (start + i) = .completed cycles[i]

theorem Observes.append {executor : Executor} {start : ℕ} {cycles rest : List (BitVec 64)}
    (h : executor.Observes start (cycles ++ rest)) :
    executor.Observes start cycles ∧ executor.Observes (start + cycles.length) rest := by
  constructor
  · intro i hi
    rw [h i (by simp; omega), List.getElem_append_left hi]
  · intro i hi
    rw [Nat.add_assoc, h (cycles.length + i) (by simp; omega),
      List.getElem_append_right (Nat.le_add_right _ _)]
    simp only [Nat.add_sub_cancel_left]

theorem executeTestruns_observed (executor : Executor) {cycles : List (BitVec 64)}
    (h : executor.Observes executor.runNo cycles) :
    executor.executeTestruns cycles.length =
      (some cycles, { executor with runNo := executor.runNo + cycles.length }) := by
  induction cycles generalizing executor with
  | nil => rfl
  | cons first rest ih =>
    have hfirst : executor.executeTestrun =
        (some first, { executor with runNo := executor.runNo + 1 }) := by
      have hrun := h 0 (by simp)
      rw [Nat.add_zero] at hrun
      rw [executeTestrun, hrun]
      rfl
    have hrest := ih { executor with runNo := executor.runNo + 1 } fun i hi => by
      have hindex : executor.runNo + 1 + i = executor.runNo + (i + 1) := by omega
      change executor.tape (executor.runNo + 1 + i) = _
      rw [hindex]
      exact h (i + 1) (by simpa using hi)
    rw [List.length_cons, executeTestruns, hfirst]
    simp only [hrest]
    rw [Nat.add_assoc, Nat.add_comm 1 rest.length]

theorem comparePages_observed (difference : List (BitVec 64) → List (BitVec 64) → ℤ)
    (executor : Executor) {cycles₀ cycles₁ : List (BitVec 64)}
    (h₀ : executor.Observes executor.runNo cycles₀)
    (h₁ : executor.Observes (executor.runNo + cycles₀.length) cycles₁)
    (hcount : cycles₁.length = cycles₀.length) :
    executor.comparePages difference cycles₀.length = (⟨0, difference cycles₀ cycles₁⟩,
      { executor with runNo := executor.runNo + cycles₀.length + cycles₀.length }) := by
  have hsecond := executeTestruns_observed
    { executor with runNo := executor.runNo + cycles₀.length } h₁
  rw [hcount] at hsecond
  rw [comparePages, executeTestruns_observed executor h₀]
  simp only [hsecond]

theorem observes_replicate {executor : Executor} {start noTestruns : ℕ} {cycles : BitVec 64}
    (h : ∀ i < noTestruns, executor.tape (start + i) = .completed cycles) :
    executor.Observes start (List.replicate noTestruns cycles) := by
  intro i hi
  rw [List.length_replicate] at hi
  rw [List.getElem_replicate, h i hi]

/-- A test whose pages take `cycles₀` and `cycles₁` in all runs. -/
theorem comparePages_constant (difference : List (BitVec 64) → List (BitVec 64) → ℤ)
    {noTestruns : ℕ} (executor : Executor) {cycles₀ cycles₁ : BitVec 64}
    (h₀ : ∀ i < noTestruns, executor.tape (executor.runNo + i) = .completed cycles₀)
    (h₁ : ∀ i < noTestruns,
      executor.tape (executor.runNo + noTestruns + i) = .completed cycles₁) :
    executor.comparePages difference noTestruns =
      (⟨0, difference (List.replicate noTestruns cycles₀) (List.replicate noTestruns cycles₁)⟩,
        { executor with runNo := executor.runNo + noTestruns + noTestruns }) := by
  have hlength : (List.replicate noTestruns cycles₀).length = noTestruns := List.length_replicate
  have hcount : (List.replicate noTestruns cycles₁).length =
      (List.replicate noTestruns cycles₀).length := by rw [List.length_replicate, hlength]
  have hrun := comparePages_observed difference executor (observes_replicate h₀)
    (observes_replicate (by rwa [hlength])) hcount
  rwa [hlength] at hrun

/-- What the loop over the testruns can do: its first run raises a signal, a later one does, or all
runs complete. -/
theorem executeTestruns_cases (noTestruns : ℕ) (executor : Executor) :
    (∃ after, executor.executeTestrun = (none, after) ∧
      executor.executeTestruns (noTestruns + 1) = (none, after)) ∨
    (∃ cycles after after', executor.executeTestrun = (some cycles, after) ∧
      after.executeTestruns noTestruns = (none, after') ∧
      executor.executeTestruns (noTestruns + 1) = (none, after')) ∨
    ∃ cycles rest after after', executor.executeTestrun = (some cycles, after) ∧
      after.executeTestruns noTestruns = (some rest, after') ∧
      executor.executeTestruns (noTestruns + 1) = (some (cycles :: rest), after') := by
  rcases hfirst : executor.executeTestrun with ⟨_ | cycles, after⟩
  · exact .inl ⟨after, rfl, by simp only [executeTestruns, hfirst]⟩
  · rcases hrest : after.executeTestruns noTestruns with ⟨_ | rest, after'⟩
    · exact .inr (.inl ⟨cycles, after, after', rfl, hrest, by
        simp only [executeTestruns, hfirst, hrest]⟩)
    · exact .inr (.inr ⟨cycles, rest, after, after', rfl, hrest, by
        simp only [executeTestruns, hfirst, hrest]⟩)

theorem comparePages_cases (difference : List (BitVec 64) → List (BitVec 64) → ℤ)
    (noTestruns : ℕ) (executor : Executor) :
    (∃ after, executor.executeTestruns noTestruns = (none, after) ∧
      executor.comparePages difference noTestruns = (⟨1, -1⟩, after)) ∨
    (∃ cycles₀ after after', executor.executeTestruns noTestruns = (some cycles₀, after) ∧
      after.executeTestruns noTestruns = (none, after') ∧
      executor.comparePages difference noTestruns = (⟨1, -1⟩, after')) ∨
    ∃ cycles₀ cycles₁ after after', executor.executeTestruns noTestruns = (some cycles₀, after) ∧
      after.executeTestruns noTestruns = (some cycles₁, after') ∧
      executor.comparePages difference noTestruns = (⟨0, difference cycles₀ cycles₁⟩, after') := by
  rcases hfirst : executor.executeTestruns noTestruns with ⟨_ | cycles₀, after⟩
  · exact .inl ⟨after, rfl, by simp only [comparePages, hfirst]⟩
  · rcases hsecond : after.executeTestruns noTestruns with ⟨_ | cycles₁, after'⟩
    · exact .inr (.inl ⟨cycles₀, after, after', rfl, hsecond, by
        simp only [comparePages, hfirst, hsecond]⟩)
    · exact .inr (.inr ⟨cycles₀, cycles₁, after, after', rfl, hsecond, by
        simp only [comparePages, hfirst, hsecond]⟩)

theorem comparePages_result (difference : List (BitVec 64) → List (BitVec 64) → ℤ)
    (noTestruns : ℕ) (executor : Executor) :
    (executor.comparePages difference noTestruns).1 = ⟨1, -1⟩ ∨
      ∃ cycles₀ cycles₁, (executor.comparePages difference noTestruns).1 =
        ⟨0, difference cycles₀ cycles₁⟩ := by
  obtain ⟨after, -, hcompare⟩ | ⟨cycles₀, after, after', -, -, hcompare⟩ |
    ⟨cycles₀, cycles₁, after, after', -, -, hcompare⟩ :=
      executor.comparePages_cases difference noTestruns
  · rw [hcompare]
    exact .inl rfl
  · rw [hcompare]
    exact .inl rfl
  · rw [hcompare]
    exact .inr ⟨cycles₀, cycles₁, rfl⟩

theorem retained_range {cycles : List (BitVec 64)} {value : ℤ} (h : value ∈ retained cycles) :
    0 ≤ value ∧ value ≤ (5000 : ℕ) := by
  obtain ⟨c, hc, rfl⟩ := List.mem_map.mp h
  have hle : c.toNat ≤ 5000 := by simpa using (List.mem_filter.mp hc).2
  rw [BitVec.toInt_eq_toNat_of_lt (by omega)]
  omega

theorem triggerDifference_range (triggerCycles notriggerCycles : List (BitVec 64)) :
    -5000 ≤ triggerDifference triggerCycles notriggerCycles ∧
      triggerDifference triggerCycles notriggerCycles ≤ 5000 :=
  medianDifference_range (by decide : 5000 < 2 ^ 50) (fun _ h => retained_range h)
    (fun _ h => retained_range h)

theorem testTriggerSequence_of_pages {triggerSequence measurementSequence resetSequence : Bytes}
    {speculation : Bool} {resetExecutionsAmount : ℕ} {pages : CodePage × CodePage}
    (hlength : triggerSequence.length ≤ 200)
    (hpages : createTriggerPages triggerSequence measurementSequence resetSequence speculation
      resetExecutionsAmount = .ok pages) (noTestruns : ℕ) (executor : Executor) :
    executor.testTriggerSequence triggerSequence measurementSequence resetSequence speculation
      noTestruns resetExecutionsAmount =
        .ok ((executor.withCodePages pages.1 pages.2).comparePages triggerDifference
          noTestruns) := by
  rw [testTriggerSequence, decide_eq_true hlength, hpages]
  rfl

theorem testTriggerSequence_ok {triggerSequence measurementSequence resetSequence : Bytes}
    {speculation : Bool} {noTestruns resetExecutionsAmount : ℕ} {executor executor' : Executor}
    {result : TestResult}
    (h : executor.testTriggerSequence triggerSequence measurementSequence resetSequence speculation
      noTestruns resetExecutionsAmount = .ok (result, executor')) :
    ∃ pages : CodePage × CodePage, createTriggerPages triggerSequence measurementSequence
      resetSequence speculation resetExecutionsAmount = .ok pages ∧
      (executor.withCodePages pages.1 pages.2).comparePages triggerDifference noTestruns =
        (result, executor') := by
  obtain ⟨_, hlength, h⟩ := except_bind_ok h
  obtain ⟨pages, hpages, h⟩ := except_bind_ok h
  exact ⟨pages, hpages, Except.ok.inj h⟩

theorem testTriggerSequence_short {triggerSequence measurementSequence resetSequence : Bytes}
    {speculation : Bool} {noTestruns resetExecutionsAmount : ℕ} {executor : Executor}
    {result : TestResult × Executor}
    (h : executor.testTriggerSequence triggerSequence measurementSequence resetSequence speculation
      noTestruns resetExecutionsAmount = .ok result) : triggerSequence.length ≤ 200 := by
  obtain ⟨_, hlength, -⟩ := except_bind_ok h
  by_contra hlong
  rw [decide_eq_false hlong] at hlength
  cases hlength

/-- The two pages of a transient trigger fit on a code page. -/
def SpeculationFits (triggerSequence measurementSequence resetSequence : Bytes)
    (resetExecutionsAmount : ℕ) : Prop :=
  triggerSequence.length ≤ 200 ∧
    286 + resetExecutionsAmount * resetSequence.length + max triggerSequence.length 4 +
      measurementSequence.length < kPagesize

/-- A test with a transient trigger returns exactly if its pages fit. -/
theorem testTriggerSequence_speculation_iff
    {triggerSequence measurementSequence resetSequence : Bytes} {resetExecutionsAmount : ℕ}
    (hamount : resetExecutionsAmount ≤ 100) (noTestruns : ℕ) (executor : Executor) :
    (∃ result, executor.testTriggerSequence triggerSequence measurementSequence resetSequence true
      noTestruns resetExecutionsAmount = .ok result) ↔
        SpeculationFits triggerSequence measurementSequence resetSequence
          resetExecutionsAmount := by
  have htrigger := (createSpeculativeTriggerTestrunCode_fills measurementSequence triggerSequence
    resetSequence hamount).exists_ok_iff
  have hnop := (createSpeculativeTriggerTestrunCode_fills measurementSequence instNop
    resetSequence hamount).exists_ok_iff
  have hnopLength : instNop.length = 4 := rfl
  rw [speculativeTestrunBytes_length] at htrigger hnop
  rw [hnopLength] at hnop
  constructor
  · rintro ⟨result, h⟩
    obtain ⟨hassert, hlength, h⟩ := except_bind_ok h
    obtain ⟨pages, hpages, -⟩ := except_bind_ok h
    obtain ⟨page₀, hpage₀, hpages⟩ := except_bind_ok hpages
    obtain ⟨page₁, hpage₁, -⟩ := except_bind_ok hpages
    have h₀ := htrigger.mp ⟨page₀, hpage₀⟩
    have h₁ := hnop.mp ⟨page₁, hpage₁⟩
    refine ⟨?_, by omega⟩
    by_contra hlong
    rw [decide_eq_false hlong] at hlength
    cases hlength
  · rintro ⟨hlength, hfits⟩
    obtain ⟨page₀, hpage₀⟩ := htrigger.mpr (by omega)
    obtain ⟨page₁, hpage₁⟩ := hnop.mpr (by omega)
    have hpages : createTriggerPages triggerSequence measurementSequence resetSequence true
        resetExecutionsAmount = .ok (page₀, page₁) := by
      simp only [createTriggerPages, if_true, hpage₀, hpage₁]
      rfl
    exact ⟨_, testTriggerSequence_of_pages hlength hpages noTestruns executor⟩

/-- The pages of a trigger test exist if there is room for the longer kind of page. -/
theorem exists_triggerPages (triggerSequence measurementSequence resetSequence : Bytes)
    {resetExecutionsAmount : ℕ} (speculation : Bool) (hamount : resetExecutionsAmount ≤ 100)
    (hfits : 290 + resetExecutionsAmount * resetSequence.length + triggerSequence.length +
      measurementSequence.length < kPagesize) :
    ∃ pages, createTriggerPages triggerSequence measurementSequence resetSequence speculation
      resetExecutionsAmount = .ok pages := by
  have hnop : instNop.length = 4 := rfl
  cases speculation with
  | true =>
    obtain ⟨page₀, h₀⟩ := (createSpeculativeTriggerTestrunCode_fills measurementSequence
      triggerSequence resetSequence hamount).exists_ok_iff.mpr (by
        rw [speculativeTestrunBytes_length]
        omega)
    obtain ⟨page₁, h₁⟩ := (createSpeculativeTriggerTestrunCode_fills measurementSequence
      instNop resetSequence hamount).exists_ok_iff.mpr (by
        rw [speculativeTestrunBytes_length]
        omega)
    refine ⟨(page₀, page₁), ?_⟩
    simp only [createTriggerPages, if_true, h₀, h₁]
    rfl
  | false =>
    obtain ⟨page₀, h₀⟩ := (createTestrunCode_fills resetSequence triggerSequence
      measurementSequence hamount).exists_ok_iff.mpr (by
        rw [testrunBytes_length]
        omega)
    obtain ⟨page₁, h₁⟩ := (createTestrunCode_fills resetSequence instNop
      measurementSequence hamount).exists_ok_iff.mpr (by
        rw [testrunBytes_length]
        omega)
    refine ⟨(page₀, page₁), ?_⟩
    simp only [createTriggerPages, Bool.false_eq_true, if_false, h₀, h₁]
    rfl

theorem createSequenceOfNOPs_length (length : ℕ) :
    (createSequenceOfNOPs length).length = (length + 3) / 4 * 4 := by
  simp [createSequenceOfNOPs]

theorem testResetSequence_of_fits (triggerSequence measurementSequence resetSequence : Bytes)
    {resetExecutionsAmount : ℕ} (hamount : resetExecutionsAmount ≤ 100)
    (hfits : 267 + (resetExecutionsAmount + 1) * resetSequence.length + triggerSequence.length +
      measurementSequence.length < kPagesize) (noTestruns : ℕ) (executor : Executor) :
    ∃ page₀ page₁, executor.testResetSequence triggerSequence measurementSequence resetSequence
      noTestruns resetExecutionsAmount =
        .ok ((executor.withCodePages page₀ page₁).comparePages resetDifference noTestruns) := by
  have hnops := createSequenceOfNOPs_length resetSequence.length
  rw [Nat.add_mul] at hfits
  obtain ⟨page₀, h₀⟩ := (createResetTestrunCode_fills (createSequenceOfNOPs resetSequence.length)
    measurementSequence resetSequence hamount).exists_ok_iff.mpr (by
      rw [resetTestrunBytes_length]
      omega)
  obtain ⟨page₁, h₁⟩ := (createResetTestrunCode_fills triggerSequence measurementSequence
    resetSequence hamount).exists_ok_iff.mpr (by
      rw [resetTestrunBytes_length]
      omega)
  refine ⟨page₀, page₁, ?_⟩
  rw [testResetSequence]
  simp only [h₀, h₁]
  rfl

theorem testTriggerSequence_fault {triggerSequence measurementSequence resetSequence : Bytes}
    {speculation : Bool} {noTestruns resetExecutionsAmount : ℕ} {executor executor' : Executor}
    {result : TestResult}
    (h : executor.testTriggerSequence triggerSequence measurementSequence resetSequence speculation
      noTestruns resetExecutionsAmount = .ok (result, executor')) (hfault : result.error ≠ 0) :
    result.cyclesDifference = -1 := by
  obtain ⟨pages, -, hcompare⟩ := testTriggerSequence_ok h
  have hresult := comparePages_result triggerDifference noTestruns
    (executor.withCodePages pages.1 pages.2)
  rw [hcompare] at hresult
  rcases hresult with hfaulted | ⟨cycles₀, cycles₁, hdifference⟩
  · simp only at hfaulted
    rw [hfaulted]
  · simp only at hdifference
    rw [hdifference] at hfault
    exact absurd rfl hfault

/-- The difference of a trigger test is small, whether a run faulted or not. -/
theorem testTriggerSequence_range {triggerSequence measurementSequence resetSequence : Bytes}
    {speculation : Bool} {noTestruns resetExecutionsAmount : ℕ} {executor executor' : Executor}
    {result : TestResult}
    (h : executor.testTriggerSequence triggerSequence measurementSequence resetSequence speculation
      noTestruns resetExecutionsAmount = .ok (result, executor')) :
    -5000 ≤ result.cyclesDifference ∧ result.cyclesDifference ≤ 5000 := by
  obtain ⟨pages, -, hcompare⟩ := testTriggerSequence_ok h
  have hresult := comparePages_result triggerDifference noTestruns
    (executor.withCodePages pages.1 pages.2)
  rw [hcompare] at hresult
  rcases hresult with hfault | ⟨cycles₀, cycles₁, hdifference⟩
  · simp only at hfault
    rw [hfault]
    decide
  · simp only at hdifference
    rw [hdifference]
    exact triggerDifference_range cycles₀ cycles₁

end Executor

/-- An executor whose runs take these numbers of cycles. -/
def executorOf (cycles : List (BitVec 64)) : Executor :=
  .start fun runNo => .completed (cycles.getD runNo 0)

theorem observes_executorOf (cycles : List (BitVec 64)) :
    (executorOf cycles).Observes 0 cycles := by
  intro i hi
  change PageRun.completed (cycles.getD (0 + i) 0) = _
  rw [Nat.zero_add, List.getD_eq_getElem _ _ hi]

end OsirisArm
