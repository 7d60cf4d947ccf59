import OsirisArm.Cleanup
import OsirisArm.Confirm
import OsirisArm.TestIsolation
import OsirisArm.UndisturbedSearch

/-! # The stages on an executor with data pages

A search, a confirmation and the cleaning of an instruction file use the executor through its tests
only, so they inherit what holds for single calls: what they write depends on the processor alone
and not on what earlier tests left, and the executor with a tape can write exactly what an executor
with data pages can.
-/

namespace OsirisArm
open Library

/-- The tests of one implementation replay those of another. -/
structure ApiReplays {σ τ ω : Type} (reader : TapeReader σ ω) (R : σ → τ → Prop)
    (api : ExecutorApi σ) (api' : ExecutorApi τ) : Prop where
  trigger : ∀ triggerSequence measurementSequence resetSequence speculation noTestruns amount,
    reader.Replays R (api.testTriggerSequence triggerSequence measurementSequence resetSequence
      speculation noTestruns amount) (api'.testTriggerSequence triggerSequence measurementSequence
        resetSequence speculation noTestruns amount)
  reset : ∀ triggerSequence measurementSequence resetSequence noTestruns amount,
    reader.Replays R (api.testResetSequence triggerSequence measurementSequence resetSequence
      noTestruns amount) (api'.testResetSequence triggerSequence measurementSequence resetSequence
        noTestruns amount)

section
variable {σ τ ω : Type} {reader : TapeReader σ ω} {R : σ → τ → Prop} {api : ExecutorApi σ}
  {api' : ExecutorApi τ}

def ExecutorApi.ofCalls (call : ExecutorCall → σ → Except Stop (TestResult × σ)) :
    ExecutorApi σ where
  testTriggerSequence triggerSequence measurementSequence resetSequence speculation noTestruns
      amount :=
    call (.test (.trigger triggerSequence measurementSequence resetSequence speculation noTestruns
      amount))
  testResetSequence triggerSequence measurementSequence resetSequence noTestruns amount :=
    call (.test (.reset triggerSequence measurementSequence resetSequence noTestruns amount))

theorem ApiReplays.ofCalls {run : ExecutorCall → σ → Except Stop (TestResult × σ)}
    {run' : ExecutorCall → τ → Except Stop (TestResult × τ)}
    (h : ∀ call, reader.Replays R (run call) (run' call)) :
    ApiReplays reader R (.ofCalls run) (.ofCalls run') where
  trigger _ _ _ _ _ _ := h _
  reset _ _ _ _ _ := h _

/-- What follows the trigger test of a triple. -/
def Search.afterTrigger (search : Search) (api : ExecutorApi σ) (triple : InstructionTriple)
    (result : TestResult) (s : σ) : Except Stop (Option ℤ × σ) :=
  if result.error = 0 ∧ (result.cyclesDifference < search.thresholds.1 ∨
      result.cyclesDifference > search.thresholds.2) then
    api.testResetSequence triple.trigger.byteRepresentation triple.measurement.byteRepresentation
      triple.reset.byteRepresentation iterationsNo (search.amount triple) s >>= fun resetTest =>
        .ok (if resetTest.1.error = 0 ∧ -20 < resetTest.1.cyclesDifference ∧
          resetTest.1.cyclesDifference < 20 then some result.cyclesDifference else none,
            resetTest.2)
  else .ok (none, s)

theorem Search.test_eq (search : Search) (api : ExecutorApi σ) (speculation : Bool)
    (triple : InstructionTriple) : search.test api speculation triple = fun s =>
      api.testTriggerSequence triple.trigger.byteRepresentation
        triple.measurement.byteRepresentation triple.reset.byteRepresentation speculation
        iterationsNo (search.amount triple) s >>= fun out =>
          search.afterTrigger api triple out.1 out.2 := by
  funext s
  unfold Search.test testTriple afterTrigger
  simp only [amount]
  congr 1
  funext triggered
  split
  · congr 1
    funext resetTest
    split
    · rfl
    · rfl
  · rfl

theorem ApiReplays.test (h : ApiReplays reader R api api') (search : Search) (speculation : Bool)
    (triple : InstructionTriple) :
    reader.Replays R (search.test api speculation triple)
      (search.test api' speculation triple) := by
  rw [Search.test_eq, Search.test_eq]
  apply (h.trigger _ _ _ _ _ _).bind
  intro result
  by_cases htriggers : result.error = 0 ∧ (result.cyclesDifference < search.thresholds.1 ∨
      result.cyclesDifference > search.thresholds.2)
  · unfold Search.afterTrigger
    simp only [if_pos htriggers]
    exact (h.reset _ _ _ _ _).bind fun (resetTest : TestResult) => TapeReader.replays_pure
      (if resetTest.error = 0 ∧ -20 < resetTest.cyclesDifference ∧
        resetTest.cyclesDifference < 20 then some result.cyclesDifference else none)
  · unfold Search.afterTrigger
    simp only [if_neg htriggers]
    exact TapeReader.replays_pure none

theorem ApiReplays.tests (h : ApiReplays reader R api api') (search : Search)
    (codeGenerator : CodeGenerator) (speculation : Bool) :
    reader.ReplaysWriting R
      (Emission.trials (search.test api speculation) (search.triples codeGenerator))
      (Emission.trials (search.test api' speculation) (search.triples codeGenerator)) :=
  TapeReader.Replays.trials fun triple _ => h.test search speculation triple

theorem Search.rows_of_shown {γ : Type} {search : Search} {codeGenerator : CodeGenerator}
    {speculation : Bool} {f : σ → γ} {g : τ → γ} {s : σ} {t : τ}
    (h : (Emission.trials (search.test api speculation) (search.triples codeGenerator) s).shown f =
      (Emission.trials (search.test api' speculation) (search.triples codeGenerator) t).shown g) :
    search.rows api codeGenerator speculation s =
      search.rows api' codeGenerator speculation t := by
  have hwritten : (Emission.trials (search.test api speculation) (search.triples codeGenerator)
      s).written = (Emission.trials (search.test api' speculation) (search.triples codeGenerator)
        t).written := congrArg Prod.fst h
  rw [search.rows_eq, search.rows_eq, hwritten]

theorem ApiReplays.confirmRound (h : ApiReplays reader R api api') (codeGenerator : CodeGenerator)
    (input : ConfirmInput) :
    reader.ReplaysWriting R (confirmRound api codeGenerator input)
      (confirmRound api' codeGenerator input) := by
  unfold OsirisArm.confirmRound
  cases input.instructions codeGenerator with
  | error stop => exact TapeReader.replaysWriting_stop stop
  | ok instructions =>
    obtain ⟨measurement, trigger, reset⟩ := instructions
    simp only [Emission.lift_ok_bind]
    split
    · exact TapeReader.replaysWriting_write []
    · have htest : reader.Replays R (confirmTriple api measurement trigger reset)
          (confirmTriple api' measurement trigger reset) :=
        (h.trigger _ _ _ _ _ _).bind fun result => TapeReader.replays_pure result.cyclesDifference
      exact htest.writing fun timing =>
        TapeReader.replaysWriting_write [ConfirmOutput.row input.line timing]

theorem ApiReplays.confirm (h : ApiReplays reader R api api') (codeGenerator : CodeGenerator)
    (shuffle : Shuffle) (inputLines : List Text) :
    reader.ReplaysWriting R (confirmResultsOfFuzzer api codeGenerator shuffle inputLines)
      (confirmResultsOfFuzzer api' codeGenerator shuffle inputLines) := by
  cases inputLines with
  | nil => exact TapeReader.replaysWriting_stop _
  | cons header lines =>
    unfold confirmResultsOfFuzzer
    by_cases hheader : header ≠ headerline
    · simp only [if_pos hheader]
      exact TapeReader.replaysWriting_stop _
    · simp only [if_neg hheader]
      have hrounds : reader.ReplaysWriting R
          (fun s => (Emission.lift (confirmInputs lines)).bind fun inputs =>
            Emission.forEach (OsirisArm.confirmRound api codeGenerator) (shuffle.order inputs) s)
          fun t => (Emission.lift (confirmInputs lines)).bind fun inputs =>
            Emission.forEach (OsirisArm.confirmRound api' codeGenerator)
              (shuffle.order inputs) t := by
        cases confirmInputs lines with
        | error stop => exact TapeReader.replaysWriting_stop stop
        | ok inputs => exact .forEach fun input _ => h.confirmRound codeGenerator input
      exact (TapeReader.replaysWriting_write [ConfirmOutput.header]).bind hrounds

theorem ApiReplays.findNonFaulting (h : ApiReplays reader R api api')
    (codeGenerator : CodeGenerator) :
    reader.ReplaysWriting R (findNonFaultingInstructions api codeGenerator)
      (findNonFaultingInstructions api' codeGenerator) := by
  apply TapeReader.ReplaysWriting.forEach
  intro instructionIdx _
  cases codeGenerator.createInstructionFromIndex instructionIdx with
  | error stop => exact TapeReader.replaysWriting_stop stop
  | ok instruction =>
    simp only [Emission.lift_ok_bind]
    have htest : reader.Replays R (testFault api instruction) (testFault api' instruction) :=
      h.trigger _ _ _ _ _ _
    exact htest.writing fun (result : TestResult) =>
      TapeReader.replaysWriting_write (if result.error = 0 then [instructionIdx] else [])

/-- From these states all stages show the same. -/
structure ShowSame {γ : Type} (api : ExecutorApi σ) (api' : ExecutorApi τ) (f : σ → γ) (g : τ → γ)
    (s : σ) (t : τ) : Prop where
  rows : ∀ (search : Search) codeGenerator speculation,
    search.rows api codeGenerator speculation s = search.rows api' codeGenerator speculation t
  confirmed : ∀ codeGenerator shuffle inputLines,
    (confirmResultsOfFuzzer api codeGenerator shuffle inputLines s).shown f =
      (confirmResultsOfFuzzer api' codeGenerator shuffle inputLines t).shown g
  nonFaulting : ∀ codeGenerator,
    (findNonFaultingInstructions api codeGenerator s).shown f =
      (findNonFaultingInstructions api' codeGenerator t).shown g

theorem ApiReplays.showSame {γ : Type} (h : ApiReplays TapeReader.blind R api api') {f : σ → γ}
    {g : τ → γ} (hfg : ∀ s t, R s t → f s = g t) {s : σ} {t : τ} (hR : R s t) :
    ShowSame api api' f g s t where
  rows search codeGenerator speculation :=
    Search.rows_of_shown ((h.tests search codeGenerator speculation).shown_blind hfg hR)
  confirmed codeGenerator shuffle inputLines :=
    (h.confirm codeGenerator shuffle inputLines).shown_blind hfg hR
  nonFaulting codeGenerator := (h.findNonFaulting codeGenerator).shown_blind hfg hR

end

theorem Executor.reads_start (answers : List PageRun) :
    Executor.reader.Reads (Executor.start fun i => answers.getD i (.completed 0)) answers := by
  intro i hi
  change answers.getD (0 + i) (.completed 0) = answers[i]
  rw [Nat.zero_add, List.getD_eq_getElem answers _ hi]

section
variable {ρ : Type} (processor : Processor ρ)

theorem MemoryExecutor.api_replays :
    ApiReplays Executor.reader SharesCode Executor.api (MemoryExecutor.api processor) :=
  ApiReplays.ofCalls (call_replays processor)

theorem MemoryExecutor.api_countsRuns (tape : ℕ → PageRun) :
    ApiReplays TapeReader.blind (CountsRuns tape) Executor.api
      (MemoryExecutor.api (tapeProcessor tape)) :=
  ApiReplays.ofCalls (call_countsRuns tape)

variable {processor} {related : ρ → ρ → Prop}

theorem MemoryExecutor.api_lockstep (h : processor.Respects related) :
    ApiReplays TapeReader.blind
      (fun executor executor' => related executor.processorState executor'.processorState)
      (MemoryExecutor.api processor) (MemoryExecutor.api processor) :=
  ApiReplays.ofCalls (call_lockstep h)

/-- What is replayed from a tape is shown by the executor with this tape. -/
theorem exists_tape {β : Type} {high : Executor → Emission β Stop Executor}
    {low : MemoryExecutor ρ → Emission β Stop (MemoryExecutor ρ)}
    (h : Executor.reader.ReplaysWriting SharesCode high low) (r : ρ) :
    ∃ tape, (high (.start tape)).shown Executor.faultCounters =
      (low (.start r)).shown MemoryExecutor.faultCounters := by
  obtain ⟨answers, hanswers⟩ := h.shown (fun _ _ hshares => hshares.counters) (.start r)
  exact ⟨_, hanswers _ ⟨rfl, rfl⟩ (Executor.reads_start answers)⟩

/-- The executor with a tape shows exactly what executors with data pages can show, in calls and in
all stages: for every processor and its state there is a tape, and for every tape there is a
processor. -/
theorem tape_shows_memory (processor : Processor ρ) (r : ρ) (tape : ℕ → PageRun) :
    ((∀ calls, ∃ tape,
        (Emission.trials Executor.call calls (.start tape)).shown Executor.faultCounters =
          (Emission.trials (MemoryExecutor.call processor) calls (.start r)).shown
            MemoryExecutor.faultCounters) ∧
      (∀ (search : Search) codeGenerator speculation, ∃ tape,
        search.rows Executor.api codeGenerator speculation (.start tape) =
          search.rows (MemoryExecutor.api processor) codeGenerator speculation (.start r)) ∧
      (∀ codeGenerator shuffle inputLines, ∃ tape,
        (confirmResultsOfFuzzer Executor.api codeGenerator shuffle inputLines
            (.start tape)).shown Executor.faultCounters =
          (confirmResultsOfFuzzer (MemoryExecutor.api processor) codeGenerator shuffle inputLines
            (.start r)).shown MemoryExecutor.faultCounters) ∧
      ∀ codeGenerator, ∃ tape,
        (findNonFaultingInstructions Executor.api codeGenerator (.start tape)).shown
            Executor.faultCounters =
          (findNonFaultingInstructions (MemoryExecutor.api processor) codeGenerator
            (.start r)).shown MemoryExecutor.faultCounters) ∧
    (∀ calls,
      (Emission.trials Executor.call calls (.start tape)).shown Executor.faultCounters =
        (Emission.trials (MemoryExecutor.call (tapeProcessor tape)) calls (.start 0)).shown
          MemoryExecutor.faultCounters) ∧
    ShowSame Executor.api (MemoryExecutor.api (tapeProcessor tape)) Executor.faultCounters
      MemoryExecutor.faultCounters (.start tape) (.start 0) := by
  have hreplays := MemoryExecutor.api_replays processor
  have hstart : CountsRuns tape (.start tape) (.start 0) := ⟨⟨rfl, rfl⟩, rfl, rfl⟩
  have hcounters (executor : Executor) (low : MemoryExecutor ℕ) (h : CountsRuns tape executor low) :
      executor.faultCounters = low.faultCounters := h.counters
  refine ⟨⟨fun calls => ?_, fun search codeGenerator speculation => ?_,
    fun codeGenerator shuffle inputLines => ?_, fun codeGenerator => ?_⟩, fun calls => ?_, ?_⟩
  · exact exists_tape (TapeReader.Replays.trials fun call _ => call_replays processor call) r
  · obtain ⟨tape, htape⟩ := exists_tape (hreplays.tests search codeGenerator speculation) r
    exact ⟨tape, Search.rows_of_shown htape⟩
  · exact exists_tape (hreplays.confirm codeGenerator shuffle inputLines) r
  · exact exists_tape (hreplays.findNonFaulting codeGenerator) r
  · have hcalls := TapeReader.Replays.trials (l := calls) fun call _ => call_countsRuns tape call
    exact hcalls.shown_blind hcounters hstart
  · exact (MemoryExecutor.api_countsRuns tape).showSame hcounters hstart

theorem pages_of_call (call : ExecutorCall) {executor : Executor} {out : TestResult × Executor}
    (h : executor.call call = .ok out) : ∃ pages, call.pages = .ok pages := by
  rw [Executor.call_eq] at h
  cases hpages : call.pages with
  | error stop =>
    rw [hpages] at h
    cases h
  | ok pages => exact ⟨pages, rfl⟩

def Search.triggerCall (search : Search) (speculation : Bool) (triple : InstructionTriple) :
    ExecutorCall :=
  .test (.trigger triple.trigger.byteRepresentation triple.measurement.byteRepresentation
    triple.reset.byteRepresentation speculation iterationsNo (search.amount triple))

def Search.resetCall (search : Search) (triple : InstructionTriple) : ExecutorCall :=
  .test (.reset triple.trigger.byteRepresentation triple.measurement.byteRepresentation
    triple.reset.byteRepresentation iterationsNo (search.amount triple))

theorem Search.Fits.pages {search : Search} {triple : InstructionTriple} (h : search.Fits triple)
    (speculation : Bool) :
    (∃ pages, (search.triggerCall speculation triple).pages = .ok pages) ∧
      ∃ pages, (search.resetCall triple).pages = .ok pages := by
  obtain ⟨htrigger, hroom⟩ := h
  rw [Nat.add_mul] at hroom
  constructor
  · obtain ⟨pages, hpages⟩ := Executor.exists_triggerPages triple.trigger.byteRepresentation
      triple.measurement.byteRepresentation triple.reset.byteRepresentation speculation
      (search.amount_le triple) (by omega)
    exact pages_of_call (search.triggerCall speculation triple)
      (Executor.testTriggerSequence_of_pages htrigger hpages iterationsNo
        (.start fun _ => .completed 0))
  · obtain ⟨page₀, page₁, hresetTest⟩ := Executor.testResetSequence_of_fits
      triple.trigger.byteRepresentation triple.measurement.byteRepresentation
      triple.reset.byteRepresentation (search.amount_le triple) (by rw [Nat.add_mul]; omega)
      iterationsNo (.start fun _ => .completed 0)
    exact pages_of_call (search.resetCall triple) hresetTest

theorem search_repeatable (h : processor.Respects related) (hall : ∀ r r', related r r')
    (executor : MemoryExecutor ρ) {search : Search} {codeGenerator : CodeGenerator}
    (hfits : ∀ triple ∈ search.triples codeGenerator, search.Fits triple) (speculation : Bool) :
    ∃ results, search.Repeatable (MemoryExecutor.api processor) codeGenerator speculation
      results := by
  have hresults (triple : InstructionTriple) : ∃ results : Search.TripleTests,
      triple ∈ search.triples codeGenerator → ∀ before : MemoryExecutor ρ,
        (∃ after, MemoryExecutor.call processor (search.triggerCall speculation triple) before =
          .ok (results.1, after)) ∧
        ∃ after, MemoryExecutor.call processor (search.resetCall triple) before =
          .ok (results.2, after) := by
    by_cases htriple : triple ∈ search.triples codeGenerator
    · obtain ⟨⟨triggerPages, htrigger⟩, resetPages, hreset⟩ :=
        (hfits triple htriple).pages speculation
      obtain ⟨triggered, htriggered⟩ := call_repeatable h hall htrigger executor
      obtain ⟨resetted, hresetted⟩ := call_repeatable h hall hreset executor
      exact ⟨(triggered, resetted), fun _ before => ⟨htriggered before, hresetted before⟩⟩
    · exact ⟨(⟨0, 0⟩, ⟨0, 0⟩), fun hmem => absurd hmem htriple⟩
  choose results hresults using hresults
  exact ⟨results, fun triple htriple before => hresults triple htriple before⟩

theorem confirmTriple_repeatable (h : processor.Respects related) (hall : ∀ r r', related r r')
    (executor : MemoryExecutor ρ) {measurement trigger reset : X86Instruction}
    (hfits : Executor.SpeculationFits trigger.byteRepresentation measurement.byteRepresentation
      reset.byteRepresentation (if reset.isSleep then 1 else 100)) :
    ∃ timing, ∀ before : MemoryExecutor ρ, ∃ after,
      confirmTriple (MemoryExecutor.api processor) measurement trigger reset before =
        .ok (timing, after) := by
  have hamount : (if reset.isSleep then 1 else 100) ≤ 100 := by
    split
    · omega
    · omega
  obtain ⟨out, hout⟩ := (Executor.testTriggerSequence_speculation_iff hamount 200
    (.start fun _ => .completed 0)).mpr hfits
  obtain ⟨pages, hpages⟩ := pages_of_call (.test (.trigger trigger.byteRepresentation
    measurement.byteRepresentation reset.byteRepresentation true 200 _)) hout
  obtain ⟨result, hresult⟩ := call_repeatable h hall hpages executor
  refine ⟨result.cyclesDifference, fun before => ?_⟩
  obtain ⟨after, hafter⟩ := hresult before
  refine ⟨after, ?_⟩
  change (MemoryExecutor.testTriggerSequence processor _ _ _ true 200 _ before >>= _) = _
  change MemoryExecutor.testTriggerSequence processor _ _ _ true 200 _ before = _ at hafter
  rw [hafter]
  rfl

/-- Nothing but the processor carries over from one test to the next: if it does not tell related
states apart, then calls and all stages show the same from any two executors whose processors are
in related states. If all states are related, then searches and confirmations are repeatable. -/
theorem tests_isolated (h : processor.Respects related) {executor executor' : MemoryExecutor ρ}
    (hstate : related executor.processorState executor'.processorState) :
    (∀ calls, (Emission.trials (MemoryExecutor.call processor) calls executor).shown (fun _ => ()) =
      (Emission.trials (MemoryExecutor.call processor) calls executor').shown fun _ => ()) ∧
    ShowSame (MemoryExecutor.api processor) (MemoryExecutor.api processor) (fun _ => ())
      (fun _ => ()) executor executor' ∧
    ((∀ r r', related r r') →
      (∀ (search : Search) codeGenerator speculation,
        (∀ triple ∈ search.triples codeGenerator, search.Fits triple) →
          ∃ results, search.Repeatable (MemoryExecutor.api processor) codeGenerator speculation
            results) ∧
      ∀ measurement trigger reset : X86Instruction,
        Executor.SpeculationFits trigger.byteRepresentation measurement.byteRepresentation
          reset.byteRepresentation (if reset.isSleep then 1 else 100) →
        ∃ timing, ∀ before : MemoryExecutor ρ, ∃ after,
          confirmTriple (MemoryExecutor.api processor) measurement trigger reset before =
            .ok (timing, after)) := by
  refine ⟨fun calls => ?_, ?_, fun hall => ⟨?_, ?_⟩⟩
  · have hcalls := TapeReader.Replays.trials (l := calls) fun call _ => call_lockstep h call
    exact hcalls.shown_blind (fun _ _ _ => rfl) hstate
  · exact (MemoryExecutor.api_lockstep h).showSame (fun _ _ _ => rfl) hstate
  · exact fun _ _ speculation hfits => search_repeatable h hall executor hfits speculation
  · exact fun _ _ _ hfits => confirmTriple_repeatable h hall executor hfits

end

def DataPage.touched (page : DataPage) : DataPage where
  content := page.content.map fun _ => 1
  length_eq := by rw [List.length_map, page.length_eq]

/-- A processor that is slow on data pages that it has not touched yet. -/
def warmingProcessor : Processor ℕ := fun _ data runs =>
  (.completed (if (data ⟨0, Nat.zero_lt_two⟩).content.headD 0 = 0 then 300 else 100),
    fun i => (data i).touched, runs + 1)

def touchedExecutor : MemoryExecutor ℕ :=
  { MemoryExecutor.start 7 with executionDataPages := fun _ => DataPage.empty.touched }

theorem tests_isolated_warming :
    warmingProcessor.Respects (fun _ _ => True) ∧
      (Search.withoutAssumptions 50).rows (MemoryExecutor.api warmingProcessor) twoInstructions
          false touchedExecutor =
        (Search.withoutAssumptions 50).rows (MemoryExecutor.api warmingProcessor) twoInstructions
          false (.start 0) ∧
      ∃ results, (Search.withoutAssumptions 50).Repeatable (MemoryExecutor.api warmingProcessor)
        twoInstructions false results := by
  have hrespects : warmingProcessor.Respects (fun _ _ => True) :=
    fun _ _ _ _ _ => ⟨rfl, rfl, trivial⟩
  obtain ⟨-, hshow, hrepeatable⟩ := @tests_isolated ℕ warmingProcessor
    (fun _ _ => True) hrespects touchedExecutor (.start 0) trivial
  exact ⟨hrespects, hshow.rows _ _ _,
    (hrepeatable fun _ _ => trivial).1 _ _ _ twoInstructions_fits⟩

end OsirisArm
