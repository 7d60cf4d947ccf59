import OsirisArm.DataPages
import OsirisArm.Library.Replay

/-! # Isolation of the tests

Tests follow each other on one executor. Its code pages are written anew and its data pages are
cleared for every test, so only the processor can carry something from one test to the next. And
whatever the processor does, the outcomes of the runs can be put on a tape: the executor with this
tape does the same.
-/

namespace OsirisArm
open Library

section
variable {σ : Type} (run : Fin 2 → σ → Option (BitVec 64) × σ)

def testruns (codepageNo : Fin 2) : ℕ → σ → Option (List (BitVec 64)) × σ
  | 0, s => (some [], s)
  | noTestruns + 1, s => andThen (run codepageNo s) fun cyclesElapsed s =>
      andThen (testruns codepageNo noTestruns s) fun rest s => (some (cyclesElapsed :: rest), s)

/-- A fault makes it an error. -/
def verdict : Option ℤ → TestResult
  | none => ⟨1, -1⟩
  | some cyclesDifference => ⟨0, cyclesDifference⟩

def comparison (difference : List (BitVec 64) → List (BitVec 64) → ℤ) (noTestruns : ℕ) (s : σ) :
    Option ℤ × σ :=
  andThen (testruns run ⟨0, Nat.zero_lt_two⟩ noTestruns s) fun cycles₀ s =>
    andThen (testruns run ⟨1, Nat.one_lt_two⟩ noTestruns s) fun cycles₁ s =>
      (some (difference cycles₀ cycles₁), s)

def pairs : ℕ → σ → Option (List ℤ) × σ
  | 0, s => (some [], s)
  | noTestruns + 1, s =>
    andThen (run ⟨0, Nat.zero_lt_two⟩ s) fun first s =>
      andThen (run ⟨1, Nat.one_lt_two⟩ s) fun second s =>
        andThen (pairs noTestruns s) fun rest s =>
          (some (wrapInt64 (first.toInt - second.toInt) :: rest), s)

/-- What a call does with its pages, given the runs of single pages. -/
def measured : ExecutorCall → σ → TestResult × σ
  | .test (.trigger _ _ _ _ noTestruns _), s =>
    let compared := comparison run Executor.triggerDifference noTestruns s
    (verdict compared.1, compared.2)
  | .test (.reset _ _ _ noTestruns _), s =>
    let compared := comparison run Executor.resetDifference noTestruns s
    (verdict compared.1, compared.2)
  | .sequenceTriple _ _ _ noTestruns, s =>
    let compared := pairs run noTestruns s
    (Executor.pairsResult compared.1, compared.2)

end

theorem map_bind_pages {α β : Type} (pages : Except Stop α) (f : α → β) :
    (pages >>= fun pages => Pure.pure (f pages)) = pages.map f := by
  cases pages <;> rfl

namespace Executor

theorem executeTestruns_eq (codepageNo : Fin 2) (noTestruns : ℕ) (executor : Executor) :
    executor.executeTestruns noTestruns =
      testruns (fun _ => executeTestrun) codepageNo noTestruns executor := by
  induction noTestruns generalizing executor with
  | zero => rfl
  | succ n ih =>
    rcases hrun : executor.executeTestrun with ⟨_ | cycles, after⟩
    · simp only [executeTestruns, testruns, andThen, hrun]
    · rcases hrest : testruns (fun _ => executeTestrun) codepageNo n after with ⟨_ | rest, after'⟩
      · simp only [executeTestruns, testruns, andThen, hrun, ih, hrest]
      · simp only [executeTestruns, testruns, andThen, hrun, ih, hrest]

theorem comparePages_eq (difference : List (BitVec 64) → List (BitVec 64) → ℤ) (noTestruns : ℕ)
    (executor : Executor) : executor.comparePages difference noTestruns =
      (verdict (comparison (fun _ => executeTestrun) difference noTestruns executor).1,
        (comparison (fun _ => executeTestrun) difference noTestruns executor).2) := by
  simp only [comparePages, comparison, executeTestruns_eq ⟨0, Nat.zero_lt_two⟩ noTestruns executor]
  rcases testruns (fun _ => executeTestrun) ⟨0, Nat.zero_lt_two⟩ noTestruns executor with
    ⟨_ | cycles₀, after⟩
  · rfl
  · simp only [andThen, executeTestruns_eq ⟨1, Nat.one_lt_two⟩ noTestruns after]
    rcases testruns (fun _ => executeTestrun) ⟨1, Nat.one_lt_two⟩ noTestruns after with
      ⟨_ | cycles₁, after'⟩ <;> rfl

theorem executePairs_eq (noTestruns : ℕ) (executor : Executor) :
    executor.executePairs noTestruns = pairs (fun _ => executeTestrun) noTestruns executor := by
  induction noTestruns generalizing executor with
  | zero => rfl
  | succ n ih =>
    simp only [executePairs, pairs, andThen]
    cases executor.executeTestrun.1 with
    | none => rfl
    | some first =>
      cases executor.executeTestrun.2.executeTestrun.1 with
      | none => rfl
      | some second =>
        simp only [ih]
        cases (pairs (fun _ => executeTestrun) n
          executor.executeTestrun.2.executeTestrun.2).1 <;> rfl

def call : ExecutorCall → Executor → Except Stop (TestResult × Executor)
  | .test testCall => runCall testCall
  | .sequenceTriple triggerSequence measurementSequence resetSequence noTestruns =>
    testSequenceTriple triggerSequence measurementSequence resetSequence noTestruns

theorem call_eq (call : ExecutorCall) (executor : Executor) :
    executor.call call = call.pages.map fun pages =>
      measured (fun _ => executeTestrun) call (executor.withCodePages pages.1 pages.2) := by
  rw [← map_bind_pages]
  cases call with
  | test testCall =>
    cases testCall with
    | trigger triggerSequence measurementSequence resetSequence speculation noTestruns amount =>
      simp only [ExecutorCall.pages, bind_assoc, measured, ← comparePages_eq]
      rfl
    | reset triggerSequence measurementSequence resetSequence noTestruns amount =>
      simp only [ExecutorCall.pages, bind_assoc, measured, ← comparePages_eq]
      rfl
  | sequenceTriple triggerSequence measurementSequence resetSequence noTestruns =>
    simp only [ExecutorCall.pages, bind_assoc, measured, ← executePairs_eq]
    rfl

end Executor

namespace MemoryExecutor
variable {ρ : Type} (processor : Processor ρ)

theorem executeTestruns_eq (codepageNo : Fin 2) (noTestruns : ℕ) (executor : MemoryExecutor ρ) :
    executor.executeTestruns processor codepageNo noTestruns =
      testruns (executeTestrun processor) codepageNo noTestruns executor := by
  induction noTestruns generalizing executor with
  | zero => rfl
  | succ n ih =>
    simp only [executeTestruns, testruns, andThen]
    cases (executor.executeTestrun processor codepageNo).1 with
    | none => rfl
    | some cycles =>
      simp only [ih]
      cases (testruns (executeTestrun processor) codepageNo n
        (executor.executeTestrun processor codepageNo).2).1 <;> rfl

theorem comparePages_eq (difference : List (BitVec 64) → List (BitVec 64) → ℤ) (noTestruns : ℕ)
    (executor : MemoryExecutor ρ) : executor.comparePages processor difference noTestruns =
      (verdict (comparison (executeTestrun processor) difference noTestruns executor).1,
        (comparison (executeTestrun processor) difference noTestruns executor).2) := by
  simp only [comparePages, comparison, executeTestruns_eq]
  rcases testruns (executeTestrun processor) ⟨0, Nat.zero_lt_two⟩ noTestruns executor with
    ⟨_ | cycles₀, after⟩
  · rfl
  · simp only [andThen]
    rcases testruns (executeTestrun processor) ⟨1, Nat.one_lt_two⟩ noTestruns after with
      ⟨_ | cycles₁, after'⟩ <;> rfl

theorem executePairs_eq (noTestruns : ℕ) (executor : MemoryExecutor ρ) :
    executor.executePairs processor noTestruns =
      pairs (executeTestrun processor) noTestruns executor := by
  induction noTestruns generalizing executor with
  | zero => rfl
  | succ n ih =>
    simp only [executePairs, pairs, andThen]
    cases (executor.executeTestrun processor ⟨0, Nat.zero_lt_two⟩).1 with
    | none => rfl
    | some first =>
      generalize (executor.executeTestrun processor ⟨0, Nat.zero_lt_two⟩).2 = middle
      cases (middle.executeTestrun processor ⟨1, Nat.one_lt_two⟩).1 with
      | none => rfl
      | some second =>
        simp only [ih]
        cases (pairs (executeTestrun processor) n
          (middle.executeTestrun processor ⟨1, Nat.one_lt_two⟩).2).1 <;> rfl

theorem call_eq (call : ExecutorCall) (executor : MemoryExecutor ρ) :
    executor.call processor call = call.pages.map fun pages =>
      measured (executeTestrun processor) call (executor.prepared pages.1 pages.2) := by
  rw [← map_bind_pages]
  cases call with
  | test testCall =>
    cases testCall with
    | trigger triggerSequence measurementSequence resetSequence speculation noTestruns amount =>
      have hpages := CodePages.createTriggerPages_eq triggerSequence measurementSequence
        resetSequence speculation amount
      simp only [ExecutorCall.pages, bind_assoc, measured, ← comparePages_eq]
      cases speculation with
      | true => exact congrArg (assert _ >>= ·) (funext fun _ => generate_both hpages executor _)
      | false => exact congrArg (assert _ >>= ·) (funext fun _ => generate_both hpages executor _)
    | reset triggerSequence measurementSequence resetSequence noTestruns amount =>
      simp only [measured, ← comparePages_eq]
      exact generate_both (CodePages.createResetPages_eq triggerSequence measurementSequence
        resetSequence amount) executor _
  | sequenceTriple triggerSequence measurementSequence resetSequence noTestruns =>
    have hpages (pages : CodePages) : (CodePages.createTestrunCode 0 triggerSequence resetSequence
        measurementSequence 1 pages >>= CodePages.createTestrunCode 1 resetSequence triggerSequence
          measurementSequence 1) = (ExecutorCall.sequenceTriple triggerSequence measurementSequence
            resetSequence noTestruns).pages.map fun pages => ![pages.1, pages.2] := by
      change (_ >>= fun pages => CodePages.createTestrunCode 1 resetSequence triggerSequence
        measurementSequence 1 pages) = _
      simp only [CodePages.createTestrunCode_eq]
      exact CodePages.map_update_both _ _ pages
    simp only [measured, ← executePairs_eq]
    exact generate_both hpages executor _

end MemoryExecutor

section
variable {σ τ ω : Type} {reader : TapeReader σ ω} {R : σ → τ → Prop}
  {run : Fin 2 → σ → Option (BitVec 64) × σ} {run' : Fin 2 → τ → Option (BitVec 64) × τ}

theorem testruns_replays
    (h : ∀ codepageNo, reader.Replays R (fun s => (.ok (run codepageNo s) : Except Stop _))
      fun t => .ok (run' codepageNo t)) (codepageNo : Fin 2) (noTestruns : ℕ) :
    reader.Replays R (fun s => (.ok (testruns run codepageNo noTestruns s) : Except Stop _))
      fun t => .ok (testruns run' codepageNo noTestruns t) := by
  induction noTestruns with
  | zero => exact TapeReader.replays_pure _
  | succ n ih =>
    exact (h codepageNo).andThen fun _ => ih.andThen fun _ => TapeReader.replays_pure _

theorem pairs_replays
    (h : ∀ codepageNo, reader.Replays R (fun s => (.ok (run codepageNo s) : Except Stop _))
      fun t => .ok (run' codepageNo t)) (noTestruns : ℕ) :
    reader.Replays R (fun s => (.ok (pairs run noTestruns s) : Except Stop _))
      fun t => .ok (pairs run' noTestruns t) := by
  induction noTestruns with
  | zero => exact TapeReader.replays_pure _
  | succ n ih =>
    exact (h _).andThen fun _ => (h _).andThen fun _ => ih.andThen fun _ =>
      TapeReader.replays_pure _

/-- What relates the runs of single pages relates the runs of a call. -/
theorem measured_replays
    (h : ∀ codepageNo, reader.Replays R (fun s => (.ok (run codepageNo s) : Except Stop _))
      fun t => .ok (run' codepageNo t)) (call : ExecutorCall) :
    reader.Replays R (fun s => (.ok (measured run call s) : Except Stop _))
      fun t => .ok (measured run' call t) := by
  have hcomparison (difference : List (BitVec 64) → List (BitVec 64) → ℤ) (noTestruns : ℕ) :
      reader.Replays R (fun s => (.ok (comparison run difference noTestruns s) : Except Stop _))
        fun t => .ok (comparison run' difference noTestruns t) :=
    (testruns_replays h _ noTestruns).andThen fun _ =>
      (testruns_replays h _ noTestruns).andThen fun _ => TapeReader.replays_pure _
  cases call with
  | test testCall =>
    cases testCall with
    | trigger => exact (hcomparison _ _).map verdict
    | reset => exact (hcomparison _ _).map verdict
  | sequenceTriple => exact (pairs_replays h _).map Executor.pairsResult

/-- Whatever the executors hold, a call first prepares the same pages on both. -/
theorem prepared_replays {R' : σ → τ → Prop} (prepare : CodePage → CodePage → σ → σ)
    (prepare' : CodePage → CodePage → τ → τ)
    (h : ∀ codepageNo, reader.Replays R (fun s => (.ok (run codepageNo s) : Except Stop _))
      fun t => .ok (run' codepageNo t))
    (hbefore : ∀ page₀ page₁ s t, R' s t → R (prepare page₀ page₁ s) (prepare' page₀ page₁ t))
    (hafter : ∀ s t, R s t → R' s t)
    (hprepare : ∀ page₀ page₁ s, reader.Advances s [] (prepare page₀ page₁ s))
    (call : ExecutorCall) :
    reader.Replays R'
      (fun s => call.pages.map fun pages => measured run call (prepare pages.1 pages.2 s))
      fun t => call.pages.map fun pages => measured run' call (prepare' pages.1 pages.2 t) := by
  cases call.pages with
  | error stop => exact TapeReader.replays_error stop
  | ok pages =>
    exact (measured_replays h call).comap (hbefore pages.1 pages.2) hafter
      (hprepare pages.1 pages.2)

end

def Executor.reader : TapeReader Executor PageRun := ⟨Executor.tape, Executor.runNo⟩

section
variable {ρ : Type}

/-- The executor with the tape has the code pages and the counters of the other one. -/
structure SharesCode (executor : Executor) (low : MemoryExecutor ρ) : Prop where
  pages : executor.executionCodePages = low.executionCodePages
  counters : executor.faultCounters = low.faultCounters

/-- The outcome of a run is the next entry of the tape. -/
theorem executeTestrun_replays (processor : Processor ρ) (codepageNo : Fin 2) :
    Executor.reader.Replays SharesCode
      (fun executor => (.ok executor.executeTestrun : Except Stop _))
      fun low => .ok (low.executeTestrun processor codepageNo) := by
  intro low
  refine ⟨[(processor (low.executionCodePages codepageNo) low.executionDataPages
    low.processorState).1], fun executor hshares hreads => .inr ?_⟩
  have hread : executor.tape executor.runNo = (processor (low.executionCodePages codepageNo)
      low.executionDataPages low.processorState).1 := hreads 0 Nat.zero_lt_one
  simp only [Executor.executeTestrun, MemoryExecutor.executeTestrun, hread]
  cases (processor (low.executionCodePages codepageNo) low.executionDataPages
    low.processorState).1 with
  | completed cyclesElapsed =>
    exact ⟨_, _, _, rfl, rfl, ⟨hshares.pages, hshares.counters⟩, ⟨rfl, rfl⟩⟩
  | raised signal =>
    exact ⟨_, _, _, rfl, rfl,
      ⟨hshares.pages, congrArg (faultHandler signal) hshares.counters⟩, ⟨rfl, rfl⟩⟩

theorem call_replays (processor : Processor ρ) (call : ExecutorCall) :
    Executor.reader.Replays SharesCode (Executor.call call)
      (MemoryExecutor.call processor call) := by
  rw [funext (Executor.call_eq call), funext (MemoryExecutor.call_eq processor call)]
  refine prepared_replays (fun page₀ page₁ executor => executor.withCodePages page₀ page₁)
    (fun page₀ page₁ low => low.prepared page₀ page₁)
    (executeTestrun_replays processor) ?_ ?_ ?_ call
  · intro page₀ page₁ executor low hshares
    exact ⟨rfl, hshares.counters⟩
  · exact fun _ _ hshares => hshares
  · exact fun _ _ _ => ⟨rfl, rfl⟩

/-- A processor that only counts its runs. -/
def tapeProcessor (tape : ℕ → PageRun) : Processor ℕ :=
  fun _ data runNo => (tape runNo, data, runNo + 1)

/-- The processor counts as the executor with the tape does. -/
structure CountsRuns (tape : ℕ → PageRun) (executor : Executor) (low : MemoryExecutor ℕ) : Prop
    extends SharesCode executor low where
  tape : executor.tape = tape
  runNo : executor.runNo = low.processorState

theorem executeTestrun_countsRuns (tape : ℕ → PageRun) (codepageNo : Fin 2) :
    TapeReader.blind.Replays (CountsRuns tape)
      (fun executor => (.ok executor.executeTestrun : Except Stop _))
      fun low => .ok (low.executeTestrun (tapeProcessor tape) codepageNo) := by
  intro low
  refine ⟨[], fun executor hcounts _ => .inr ?_⟩
  simp only [Executor.executeTestrun, MemoryExecutor.executeTestrun, tapeProcessor, hcounts.tape,
    hcounts.runNo]
  cases tape low.processorState with
  | completed cyclesElapsed =>
    exact ⟨_, _, _, rfl, rfl, ⟨⟨hcounts.pages, hcounts.counters⟩, rfl, rfl⟩, ⟨rfl, rfl⟩⟩
  | raised signal =>
    exact ⟨_, _, _, rfl, rfl, ⟨⟨hcounts.pages, congrArg (faultHandler signal) hcounts.counters⟩,
      rfl, rfl⟩, ⟨rfl, rfl⟩⟩

theorem call_countsRuns (tape : ℕ → PageRun) (call : ExecutorCall) :
    TapeReader.blind.Replays (CountsRuns tape) (Executor.call call)
      (MemoryExecutor.call (tapeProcessor tape) call) := by
  rw [funext (Executor.call_eq call), funext (MemoryExecutor.call_eq (tapeProcessor tape) call)]
  refine prepared_replays (fun page₀ page₁ executor => executor.withCodePages page₀ page₁)
    (fun page₀ page₁ low => low.prepared page₀ page₁)
    (executeTestrun_countsRuns tape) ?_ ?_ ?_ call
  · intro page₀ page₁ executor low hcounts
    exact ⟨⟨rfl, hcounts.counters⟩, hcounts.tape, hcounts.runNo⟩
  · exact fun _ _ hcounts => hcounts
  · exact fun _ _ _ => ⟨rfl, rfl⟩

/-- The processor does not tell related states apart. -/
def Processor.Respects (processor : Processor ρ) (related : ρ → ρ → Prop) : Prop :=
  ∀ page data r r', related r r' → (processor page data r).1 = (processor page data r').1 ∧
    (processor page data r).2.1 = (processor page data r').2.1 ∧
    related (processor page data r).2.2 (processor page data r').2.2

/-- Two executors before a run of the same test. -/
structure Alike (related : ρ → ρ → Prop) (executor executor' : MemoryExecutor ρ) : Prop where
  data : executor.executionDataPages = executor'.executionDataPages
  pages : executor.executionCodePages = executor'.executionCodePages
  processor : related executor.processorState executor'.processorState

variable {processor : Processor ρ} {related : ρ → ρ → Prop}

theorem executeTestrun_lockstep (h : processor.Respects related) (codepageNo : Fin 2) :
    TapeReader.blind.Replays (Alike related)
      (fun executor => (.ok (executor.executeTestrun processor codepageNo) : Except Stop _))
      fun executor => .ok (executor.executeTestrun processor codepageNo) := by
  intro executor'
  refine ⟨[], fun executor halike _ => .inr ?_⟩
  obtain ⟨houtcome, hdata, hstate⟩ := h (executor'.executionCodePages codepageNo)
    executor'.executionDataPages _ _ halike.processor
  simp only [MemoryExecutor.executeTestrun, halike.data, halike.pages, houtcome]
  cases (processor (executor'.executionCodePages codepageNo) executor'.executionDataPages
    executor'.processorState).1 with
  | completed cyclesElapsed =>
    exact ⟨_, _, _, rfl, rfl, ⟨hdata, rfl, hstate⟩, ⟨rfl, rfl⟩⟩
  | raised signal => exact ⟨_, _, _, rfl, rfl, ⟨hdata, rfl, hstate⟩, ⟨rfl, rfl⟩⟩

/-- A call does the same from any two executors with related processors. -/
theorem call_lockstep (h : processor.Respects related) (call : ExecutorCall) :
    TapeReader.blind.Replays
      (fun executor executor' => related executor.processorState executor'.processorState)
      (MemoryExecutor.call processor call) (MemoryExecutor.call processor call) := by
  rw [funext (MemoryExecutor.call_eq processor call)]
  refine prepared_replays (fun page₀ page₁ executor => executor.prepared page₀ page₁)
    (fun page₀ page₁ executor => executor.prepared page₀ page₁)
    (executeTestrun_lockstep h) ?_ ?_ ?_ call
  · intro page₀ page₁ executor executor' hrelated
    exact ⟨rfl, rfl, hrelated⟩
  · exact fun _ _ halike => halike.processor
  · exact fun _ _ _ => ⟨rfl, rfl⟩

/-- If it tells no states apart, then a call that can be prepared has one result. -/
theorem call_repeatable (h : processor.Respects related) (hall : ∀ r r', related r r')
    {call : ExecutorCall} {pages : CodePage × CodePage} (hpages : call.pages = .ok pages)
    (executor : MemoryExecutor ρ) :
    ∃ result, ∀ executor', ∃ after,
      MemoryExecutor.call processor call executor' = .ok (result, after) := by
  have hcall (executor' : MemoryExecutor ρ) : executor'.call processor call =
      .ok (measured (MemoryExecutor.executeTestrun processor) call
        (executor'.prepared pages.1 pages.2)) := by
    rw [MemoryExecutor.call_eq, hpages]
    rfl
  refine ⟨(measured (MemoryExecutor.executeTestrun processor) call
    (executor.prepared pages.1 pages.2)).1, fun executor' => ?_⟩
  obtain ⟨answers, hanswers⟩ := call_lockstep h call executor
  obtain ⟨e, he, -⟩ | ⟨result, after', after, hs, ht, -⟩ :=
    hanswers executor' (hall _ _) (TapeReader.reads_blind executor' answers)
  · rw [hcall] at he
    cases he
  · rw [hcall] at ht
    rw [congrArg Prod.fst (Except.ok.inj ht)]
    exact ⟨after', hs⟩

end

end OsirisArm
