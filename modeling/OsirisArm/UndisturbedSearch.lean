import OsirisArm.DisturbedRuns
import OsirisArm.SearchTests

/-! # Searching for true effects

If each triple has true times and in every test of a search less than half of the runs of each page
are disturbed, then the search writes a row for every triple with a clear effect and only rows of
triples that can have one, in the order of its tests.
-/

namespace OsirisArm
open Library Library.Emission

/-- The true times of a trigger test and of a reset test. -/
structure TripleTimes where
  trigger : PageTimes
  reset : PageTimes

namespace Search
variable (search : Search) (times : InstructionTriple → TripleTimes) (slack : ℕ)

/-- The triple has a true effect that cannot be missed: its trigger difference is beyond the
thresholds and its reset difference within 20 cycles, both by more than twice the slack. -/
def Clear (triple : InstructionTriple) : Prop :=
  ((times triple).trigger.triggerDifference < search.thresholds.1 - 2 * slack ∨
      search.thresholds.2 + 2 * slack < (times triple).trigger.triggerDifference) ∧
    (times triple).reset.resetDifference.natAbs + 2 * slack < 20

/-- The triple can be taken for one with an effect. -/
def Possible (triple : InstructionTriple) : Prop :=
  ((times triple).trigger.triggerDifference < search.thresholds.1 + 2 * slack ∨
      search.thresholds.2 - 2 * slack < (times triple).trigger.triggerDifference) ∧
    (times triple).reset.resetDifference.natAbs < 20 + 2 * slack

/-- There is room for the triple on the pages of both tests. -/
def Fits (triple : InstructionTriple) : Prop :=
  triple.trigger.byteRepresentation.length ≤ 200 ∧
    290 + (search.amount triple + 1) * triple.reset.byteRepresentation.length +
      triple.trigger.byteRepresentation.length +
        triple.measurement.byteRepresentation.length < kPagesize

instance (triple : InstructionTriple) : Decidable (search.Clear times slack triple) :=
  inferInstanceAs (Decidable (_ ∧ _))

instance (triple : InstructionTriple) : Decidable (search.Possible times slack triple) :=
  inferInstanceAs (Decidable (_ ∧ _))

instance (triple : InstructionTriple) : Decidable (search.Fits triple) :=
  inferInstanceAs (Decidable (_ ∧ _))

end Search

/-- The tests of a triple in this state are undisturbed: its trigger test, and its reset test if
there is one. -/
def UndisturbedTriple (search : Search) (speculation : Bool)
    (times : InstructionTriple → TripleTimes) (slack : ℕ) (triple : InstructionTriple)
    (executor : Executor) : Prop :=
  UndisturbedTest (times triple).trigger slack iterationsNo executor ∧
    ∀ result after, executor.testTriggerSequence triple.trigger.byteRepresentation
        triple.measurement.byteRepresentation triple.reset.byteRepresentation speculation
        iterationsNo (search.amount triple) = .ok (result, after) →
      result.cyclesDifference < search.thresholds.1 ∨
        result.cyclesDifference > search.thresholds.2 →
      UndisturbedTest (times triple).reset slack iterationsNo after

section
variable {search : Search} {speculation : Bool} {times : InstructionTriple → TripleTimes}
  {slack : ℕ} {triple : InstructionTriple} {executor after : Executor} {timing : Option ℤ}

/-- What a test of a triple finds out if it is undisturbed. -/
theorem UndisturbedTriple.decides
    (h : UndisturbedTriple search speculation times slack triple executor)
    (hretained : (times triple).trigger.Retained slack) (hexact : (times triple).reset.Exact slack)
    (htest : search.test Executor.api speculation triple executor = .ok (timing, after)) :
    (search.Clear times slack triple → timing.isSome) ∧
      ∀ difference, timing = some difference → search.Possible times slack triple ∧
        (difference - (times triple).trigger.triggerDifference).natAbs ≤ 2 * slack := by
  obtain ⟨⟨result, tested⟩, hresult, htest⟩ := except_bind_ok htest
  obtain ⟨herror, hnear⟩ := h.1.trigger_near hretained hresult
  simp only at htest
  split at htest
  · next hbeyond =>
    have hreset := h.2 result tested hresult hbeyond.2
    obtain ⟨⟨resetTest, after'⟩, hresetTest, htest⟩ := except_bind_ok htest
    obtain ⟨hresetError, hresetNear⟩ := hreset.reset_near hexact hresetTest
    simp only at htest
    split at htest
    · next hresetWithin =>
      cases htest
      refine ⟨fun _ => rfl, ?_⟩
      rintro difference ⟨⟩
      refine ⟨⟨?_, ?_⟩, hnear⟩
      · rcases hbeyond.2 with hlow | hhigh
        · left
          omega
        · right
          omega
      · omega
    · next hresetBeyond =>
      cases htest
      refine ⟨fun hclear => absurd ⟨hresetError, ?_⟩ hresetBeyond, fun _ hnone => nomatch hnone⟩
      have := hclear.2
      omega
  · next hwithin =>
    cases htest
    refine ⟨fun hclear => absurd ⟨herror, ?_⟩ hwithin, fun _ hnone => nomatch hnone⟩
    rcases hclear.1 with hlow | hhigh
    · left
      omega
    · right
      omega

end

section
variable {codeGenerator : CodeGenerator} {search : Search} {speculation : Bool}
  {times : InstructionTriple → TripleTimes} {slack : ℕ} {executor : Executor}

/-- All tests of the search are undisturbed. -/
def UndisturbedSearch (codeGenerator : CodeGenerator) (search : Search) (speculation : Bool)
    (times : InstructionTriple → TripleTimes) (slack : ℕ) (executor : Executor) : Prop :=
  Along (search.round Executor.api speculation)
    (UndisturbedTriple search speculation times slack) (search.triples codeGenerator) executor

/-- The tests of a triple return if there is room for it. -/
theorem Search.Fits.test_returns {triple : InstructionTriple} (h : search.Fits triple)
    (speculation : Bool) (executor : Executor) :
    ∃ result, search.test Executor.api speculation triple executor = .ok result := by
  obtain ⟨htrigger, hroom⟩ := h
  rw [Nat.add_mul] at hroom
  obtain ⟨pages, hpages⟩ := Executor.exists_triggerPages triple.trigger.byteRepresentation
    triple.measurement.byteRepresentation triple.reset.byteRepresentation speculation
    (search.amount_le triple) (by omega)
  obtain ⟨⟨result, tested⟩, htest⟩ : ∃ result, executor.testTriggerSequence
      triple.trigger.byteRepresentation triple.measurement.byteRepresentation
      triple.reset.byteRepresentation speculation iterationsNo (search.amount triple) =
        .ok result :=
    ⟨_, Executor.testTriggerSequence_of_pages htrigger hpages iterationsNo executor⟩
  obtain ⟨page₀, page₁, hresetTest⟩ := Executor.testResetSequence_of_fits
    triple.trigger.byteRepresentation triple.measurement.byteRepresentation
    triple.reset.byteRepresentation (search.amount_le triple) (by rw [Nat.add_mul]; omega)
    iterationsNo tested
  simp only [Search.amount] at htest hresetTest
  simp only [Search.test, testTriple, Executor.api, htest]
  change ∃ outcome, (if result.error = 0 ∧ _ then _ else _ : Except Stop _) = .ok outcome
  split
  · rw [hresetTest]
    change ∃ outcome, (if _ ∧ _ then _ else _ : Except Stop _) = .ok outcome
    split
    · exact ⟨_, rfl⟩
    · exact ⟨_, rfl⟩
  · exact ⟨_, rfl⟩

/-- A row as the triple of its instructions. -/
def ResultRow.triple (row : ResultRow) : InstructionTriple :=
  ⟨row.measurement, row.trigger, row.reset⟩

theorem map_triple_acceptedRow (tested : List (InstructionTriple × Option ℤ)) :
    (tested.filterMap Search.acceptedRow).map ResultRow.triple =
      (tested.filter fun t => t.2.isSome).map Prod.fst := by
  induction tested with
  | nil => rfl
  | cons t tested ih =>
    obtain ⟨triple, _ | timing⟩ := t
    · exact ih
    · exact congrArg (triple :: ·) ih

theorem UndisturbedSearch.tests (hretained : ∀ triple ∈ search.triples codeGenerator,
      (times triple).trigger.Retained slack ∧ (times triple).reset.Exact slack)
    (hfits : ∀ triple ∈ search.triples codeGenerator, search.Fits triple)
    (hsearch : UndisturbedSearch codeGenerator search speculation times slack executor) :
    ∃ tests : List (InstructionTriple × Option ℤ),
      search.rows Executor.api codeGenerator speculation executor =
        tests.filterMap Search.acceptedRow ∧
      tests.map Prod.fst = search.triples codeGenerator ∧
      ∀ tested ∈ tests, (search.Clear times slack tested.1 → tested.2.isSome) ∧
        ∀ difference, tested.2 = some difference → search.Possible times slack tested.1 ∧
          (difference - (times tested.1).trigger.triggerDifference).natAbs ≤ 2 * slack := by
  obtain ⟨after, hafter⟩ : ∃ after, (trials (search.test Executor.api speculation)
      (search.triples codeGenerator) executor).outcome = .ok after :=
    trials_total (fun triple h s => (hfits triple h).test_returns speculation s) executor
  have hall := trials_all hafter
  refine ⟨_, search.rows_eq executor, hall, ?_⟩
  have hstates : ∀ tested ∈ (trials (search.test Executor.api speculation)
      ((search.triples codeGenerator).filter fun _ => !false) executor).written,
      ∃ before after, UndisturbedTriple search speculation times slack tested.1 before ∧
        search.test Executor.api speculation tested.1 before = .ok (tested.2, after) :=
    hsearch.tested (fun _ _ _ (h : false = true) => absurd h Bool.false_ne_true)
      fun triple _ s _ => search.round_outcome Executor.api speculation triple s
  rw [(by simp : ((search.triples codeGenerator).filter fun _ => !false) =
    search.triples codeGenerator)] at hstates
  intro tested htested
  obtain ⟨before, after, hundisturbed, htest⟩ := hstates tested htested
  have hmem : tested.1 ∈ search.triples codeGenerator := by
    rw [← hall]
    exact List.mem_map_of_mem htested
  exact hundisturbed.decides (hretained _ hmem).1 (hretained _ hmem).2 htest

/-- The triples of the rows lie between those with a clear effect and those that can be taken for
such. -/
theorem UndisturbedSearch.rows_between (hretained : ∀ triple ∈ search.triples codeGenerator,
      (times triple).trigger.Retained slack ∧ (times triple).reset.Exact slack)
    (hfits : ∀ triple ∈ search.triples codeGenerator, search.Fits triple)
    (hsearch : UndisturbedSearch codeGenerator search speculation times slack executor) :
    ((search.triples codeGenerator).filter fun triple => search.Clear times slack triple).Sublist
        ((search.rows Executor.api codeGenerator speculation executor).map ResultRow.triple) ∧
      ((search.rows Executor.api codeGenerator speculation executor).map ResultRow.triple).Sublist
        ((search.triples codeGenerator).filter fun triple =>
          search.Possible times slack triple) := by
  obtain ⟨tests, hrows, hall, hdecides⟩ := hsearch.tests hretained hfits
  let clear (triple : InstructionTriple) : Bool := search.Clear times slack triple
  let possible (triple : InstructionTriple) : Bool := search.Possible times slack triple
  have hsure : ∀ tested ∈ tests, clear tested.1 = true → tested.2.isSome = true :=
    fun tested htested h => (hdecides tested htested).1 (of_decide_eq_true h)
  have hmaybe : ∀ tested ∈ tests, tested.2.isSome = true → possible tested.1 = true := by
    intro tested htested h
    obtain ⟨difference, hdifference⟩ := Option.isSome_iff_exists.mp h
    exact decide_eq_true ((hdecides tested htested).2 difference hdifference).1
  rw [hrows, map_triple_acceptedRow, ← hall]
  exact filter_sandwich hsure hmaybe

/-- An undisturbed search writes a row for each triple with a clear effect and only rows of triples
that can be taken for such, in the order of its tests and with timings near the true ones. -/
theorem search_byTrueDifference (hretained : ∀ triple ∈ search.triples codeGenerator,
      (times triple).trigger.Retained slack ∧ (times triple).reset.Exact slack)
    (hfits : ∀ triple ∈ search.triples codeGenerator, search.Fits triple)
    (hsearch : UndisturbedSearch codeGenerator search speculation times slack executor) :
    let rows := search.rows Executor.api codeGenerator speculation executor
    ((search.triples codeGenerator).filter fun triple =>
        search.Clear times slack triple).Sublist (rows.map ResultRow.triple) ∧
      (rows.map ResultRow.triple).Sublist ((search.triples codeGenerator).filter fun triple =>
        search.Possible times slack triple) ∧
      ∀ row ∈ rows, (row.timing - (times row.triple).trigger.triggerDifference).natAbs ≤
        2 * slack := by
  obtain ⟨hclear, hpossible⟩ := hsearch.rows_between hretained hfits
  refine ⟨hclear, hpossible, fun row hrow => ?_⟩
  obtain ⟨tests, hrows, -, hdecides⟩ := hsearch.tests hretained hfits
  rw [hrows] at hrow
  obtain ⟨⟨triple, timing⟩, htested, haccepted⟩ := List.mem_filterMap.mp hrow
  obtain ⟨difference, htiming, rfl⟩ := Option.map_eq_some_iff.mp haccepted
  exact ((hdecides _ htested).2 difference htiming).2

end

section
variable {search : Search} {speculation : Bool} {times : InstructionTriple → TripleTimes}
  {triple : InstructionTriple} {triples : List InstructionTriple} {executor : Executor}

namespace Search

/-- The cycles of the tests of a triple: there is a reset test if the effect is clear. -/
def cycles (search : Search) (times : InstructionTriple → TripleTimes)
    (triple : InstructionTriple) : List (BitVec 64) :=
  (times triple).trigger.cycles 6 4 ++
    if search.Clear times 1 triple then (times triple).reset.cycles 6 4 else []

/-- The true trigger difference is so far within the thresholds that there is no reset test. -/
def Quiet (search : Search) (times : InstructionTriple → TripleTimes)
    (triple : InstructionTriple) : Prop :=
  search.thresholds.1 + 2 ≤ (times triple).trigger.triggerDifference ∧
    (times triple).trigger.triggerDifference + 2 ≤ search.thresholds.2

instance : Decidable (search.Quiet times triple) := inferInstanceAs (Decidable (_ ∧ _))

end Search

theorem UndisturbedTriple.of_cycles {rest : List (BitVec 64)}
    (hretained : (times triple).trigger.Retained 1) (hexact : (times triple).reset.Exact 1)
    (hdecided : search.Clear times 1 triple ∨ search.Quiet times triple)
    (h : executor.Observes executor.runNo (search.cycles times triple ++ rest)) :
    UndisturbedTriple search speculation times 1 triple executor ∧
      ∀ timing after, search.test Executor.api speculation triple executor = .ok (timing, after) →
        after.Observes after.runNo rest := by
  rw [Search.cycles, List.append_assoc] at h
  obtain ⟨htrigger, hrest⟩ :=
    UndisturbedTest.of_cycles hretained.exact (by decide : 4 < 6) h
  have hreset : ∀ result after, executor.testTriggerSequence triple.trigger.byteRepresentation
      triple.measurement.byteRepresentation triple.reset.byteRepresentation speculation
      iterationsNo (search.amount triple) = .ok (result, after) →
      (result.cyclesDifference < search.thresholds.1 ∨
        result.cyclesDifference > search.thresholds.2) →
      UndisturbedTest (times triple).reset 1 iterationsNo after ∧
        after.Observes (after.runNo + iterationsNo + iterationsNo) rest := by
    intro result after hcall hbeyond
    have hafter := htrigger.trigger_observes hcall hrest
    obtain ⟨-, hnear⟩ := htrigger.trigger_near hretained hcall
    rcases hdecided with hclear | ⟨hlow, hhigh⟩
    · rw [if_pos hclear] at hafter
      exact UndisturbedTest.of_cycles hexact (by decide : 4 < 6) hafter
    · omega
  refine ⟨⟨htrigger, fun result after hcall hbeyond => (hreset result after hcall hbeyond).1⟩, ?_⟩
  intro timing last htest
  obtain ⟨⟨result, after⟩, hcall, htest⟩ := except_bind_ok htest
  simp only at htest
  split at htest
  · next hbeyond =>
    obtain ⟨hundisturbed, hlater⟩ := hreset result after hcall hbeyond.2
    obtain ⟨⟨resetTest, last⟩, hresetCall, htest⟩ := except_bind_ok htest
    have hlast := hundisturbed.reset_observes hresetCall hlater
    simp only at htest
    split at htest
    · cases htest
      exact hlast
    · cases htest
      exact hlast
  · next hwithin =>
    cases htest
    obtain ⟨herror, hnear⟩ := htrigger.trigger_near hretained hcall
    have hunclear : ¬ search.Clear times 1 triple := by
      rintro ⟨hlow | hhigh, -⟩
      · exact hwithin ⟨herror, .inl (by omega)⟩
      · exact hwithin ⟨herror, .inr (by omega)⟩
    have hafter := htrigger.trigger_observes hcall hrest
    rw [if_neg hunclear] at hafter
    exact hafter

/-- The tests of these triples are undisturbed if their cycles are ahead. -/
theorem undisturbed_triples
    (hretained : ∀ triple ∈ triples,
      (times triple).trigger.Retained 1 ∧ (times triple).reset.Exact 1)
    (hdecided : ∀ triple ∈ triples, search.Clear times 1 triple ∨ search.Quiet times triple)
    (h : executor.Observes executor.runNo (triples.flatMap (search.cycles times))) :
    Along (search.round Executor.api speculation)
      (UndisturbedTriple search speculation times 1) triples executor := by
  induction triples generalizing executor with
  | nil => trivial
  | cons triple triples ih =>
    rw [List.forall_mem_cons] at hretained hdecided
    obtain ⟨hundisturbed, hafter⟩ :=
      UndisturbedTriple.of_cycles hretained.1.1 hretained.1.2 hdecided.1 h
    refine ⟨hundisturbed, fun after hround => ih hretained.2 hdecided.2 ?_⟩
    rw [search.round_outcome] at hround
    obtain ⟨⟨timing, after⟩, htest, rfl⟩ := except_map_ok hround
    exact hafter timing after htest

end

/-- The NOP takes 100 cycles after the ISB and 200 without it; nothing else has an effect. -/
def isbTimes : InstructionTriple → TripleTimes := fun triple =>
  if triple.trigger.byteRepresentation = instIsbSy ∧
      triple.measurement.byteRepresentation = instNop then
    ⟨⟨100, 200⟩, ⟨150, 150⟩⟩
  else ⟨⟨150, 150⟩, ⟨150, 150⟩⟩

theorem isbTimes_retained (triple : InstructionTriple) :
    (isbTimes triple).trigger.Retained 1 ∧ (isbTimes triple).reset.Exact 1 := by
  unfold isbTimes
  split_ifs
  · decide
  · decide

theorem isbTimes_decided (triple : InstructionTriple) :
    (Search.withoutAssumptions 50).Clear isbTimes 1 triple ∨
      (Search.withoutAssumptions 50).Quiet isbTimes triple := by
  unfold Search.Clear Search.Quiet isbTimes
  split_ifs
  · decide
  · decide

/-- Four of ten runs of each page are disturbed. -/
def disturbedSearch : Executor :=
  executorOf (((Search.withoutAssumptions 50).triples twoInstructions).flatMap
    ((Search.withoutAssumptions 50).cycles isbTimes))

theorem twoInstructions_fits : ∀ triple ∈ (Search.withoutAssumptions 50).triples twoInstructions,
    (Search.withoutAssumptions 50).Fits triple := by
  decide

theorem undisturbedSearch_isb :
    UndisturbedSearch twoInstructions (.withoutAssumptions 50) false isbTimes 1 disturbedSearch :=
  undisturbed_triples (fun triple _ => isbTimes_retained triple)
    (fun triple _ => isbTimes_decided triple) (observes_executorOf _)

def isbTriple (reset : X86Instruction) : InstructionTriple :=
  ⟨instructionAt 0 (instNop, "NOP".toList), instructionAt 1 (instIsbSy, "ISB".toList), reset⟩

/-- The NOP as measurement, the ISB as trigger and each of them as reset. -/
def isbTriples : List InstructionTriple := twoInstructions.instructionList.map isbTriple

theorem isbTriples_effect :
    (((Search.withoutAssumptions 50).triples twoInstructions).filter fun triple =>
        (Search.withoutAssumptions 50).Clear isbTimes 1 triple) = isbTriples ∧
      (((Search.withoutAssumptions 50).triples twoInstructions).filter fun triple =>
        (Search.withoutAssumptions 50).Possible isbTimes 1 triple) = isbTriples := by
  decide

theorem search_byTrueDifference_isb :
    (Search.rows (.withoutAssumptions 50) Executor.api twoInstructions false
      disturbedSearch).map ResultRow.triple = isbTriples := by
  obtain ⟨hclear, hpossible, -⟩ := search_byTrueDifference
    (fun triple _ => isbTimes_retained triple) twoInstructions_fits undisturbedSearch_isb
  rw [isbTriples_effect.1] at hclear
  rw [isbTriples_effect.2] at hpossible
  exact (hclear.antisymm hpossible).symm

end OsirisArm
