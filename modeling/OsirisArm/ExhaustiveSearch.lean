import OsirisArm.SearchRows
import OsirisArm.Library.Trials

/-! # The search without assumptions as a list of tests

The search tests every triple whose trigger is no sleep once, in lexicographic order, each in the
state its predecessor left the executor in. A row is written for a triple exactly if both of its
tests succeed.
-/

namespace OsirisArm
open Library Library.Emission

/-- The places of a measurement, a trigger and a reset in a list of `n` instructions. -/
structure IndexTriple (n : ℕ) where
  measurement : Fin n
  trigger : Fin n
  reset : Fin n

def IndexTriple.Before {n : ℕ} (a b : IndexTriple n) : Prop :=
  a.measurement < b.measurement ∨ a.measurement = b.measurement ∧
    (a.trigger < b.trigger ∨ a.trigger = b.trigger ∧ a.reset < b.reset)

/-- The error codes and differences of one triple; the reset test may be left out. -/
structure TripleResult where
  triggerTest : TestResult
  resetTest : Option TestResult

/-- The trigger test shows a difference beyond the threshold. -/
def TripleResult.triggers (threshold : ℤ) (result : TripleResult) : Bool :=
  result.triggerTest.error = 0 ∧ threshold < |result.triggerTest.cyclesDifference|

theorem TripleResult.triggers_iff {threshold : ℤ} {result : TripleResult} :
    result.triggers threshold = true ↔ result.triggerTest.error = 0 ∧
      (result.triggerTest.cyclesDifference < -threshold ∨
        result.triggerTest.cyclesDifference > threshold) := by
  simp only [TripleResult.triggers, decide_eq_true_eq, lt_abs]
  omega

/-- The trigger test shows a difference beyond the threshold, and the reset test hardly any. -/
def TripleResult.accepted (threshold : ℤ) (result : TripleResult) : Bool :=
  result.triggers threshold ∧ result.resetTest.any fun resetTest =>
    resetTest.error = 0 ∧ -20 < resetTest.cyclesDifference ∧ resetTest.cyclesDifference < 20

namespace CodeGenerator
variable (codeGenerator : CodeGenerator)

abbrev Triple := IndexTriple codeGenerator.instructionList.length

def measurement (triple : codeGenerator.Triple) : X86Instruction :=
  codeGenerator.instructionList[triple.measurement]

def trigger (triple : codeGenerator.Triple) : X86Instruction :=
  codeGenerator.instructionList[triple.trigger]

def reset (triple : codeGenerator.Triple) : X86Instruction :=
  codeGenerator.instructionList[triple.reset]

/-- The row of a tested triple, if it is accepted. -/
def acceptedRow (threshold : ℤ) (tested : codeGenerator.Triple × TripleResult) :
    Option ResultRow :=
  if tested.2.accepted threshold then
    some ⟨tested.2.triggerTest.cyclesDifference, codeGenerator.measurement tested.1,
      codeGenerator.trigger tested.1, codeGenerator.reset tested.1⟩
  else none

/-- The triples whose trigger is no sleep, in lexicographic order. -/
def awakeTriples : List codeGenerator.Triple :=
  (List.finRange _).flatMap fun measurement => (List.finRange _).flatMap fun trigger =>
    if (codeGenerator.instructionList.get trigger).isSleep then []
    else (List.finRange _).map fun reset => ⟨measurement, trigger, reset⟩

variable {codeGenerator}

theorem mem_awakeTriples {triple : codeGenerator.Triple} :
    triple ∈ codeGenerator.awakeTriples ↔ (codeGenerator.trigger triple).isSleep = false := by
  simp only [awakeTriples, List.mem_flatMap, List.mem_finRange, true_and, trigger]
  constructor
  · rintro ⟨m, t, h⟩
    split at h
    · cases h
    · next hawake =>
      obtain ⟨r, -, rfl⟩ := List.mem_map.mp h
      simpa using hawake
  · intro hawake
    refine ⟨triple.measurement, triple.trigger, ?_⟩
    rw [if_neg (by simpa using hawake)]
    exact List.mem_map_of_mem (List.mem_finRange triple.reset)

theorem mem_of_finRange {measurement trigger : Fin codeGenerator.instructionList.length}
    {triple : codeGenerator.Triple}
    (h : triple ∈ if (codeGenerator.instructionList.get trigger).isSleep then []
      else (List.finRange _).map fun reset => IndexTriple.mk measurement trigger reset) :
    triple.measurement = measurement ∧ triple.trigger = trigger := by
  split at h
  · cases h
  · obtain ⟨r, -, rfl⟩ := List.mem_map.mp h
    exact ⟨rfl, rfl⟩

theorem awakeTriples_pairwise : codeGenerator.awakeTriples.Pairwise IndexTriple.Before := by
  have hrange := List.pairwise_lt_finRange codeGenerator.instructionList.length
  rw [awakeTriples, List.pairwise_flatMap]
  refine ⟨fun m _ => ?_, hrange.imp fun {m m'} hm => ?_⟩
  · rw [List.pairwise_flatMap]
    refine ⟨fun t _ => ?_, hrange.imp fun {t t'} ht => ?_⟩
    · split
      · exact .nil
      · exact List.pairwise_map.mpr (hrange.imp fun hr => .inr ⟨rfl, .inr ⟨rfl, hr⟩⟩)
    · intro a ha b hb
      obtain ⟨ham, hat⟩ := mem_of_finRange ha
      obtain ⟨hbm, hbt⟩ := mem_of_finRange hb
      right
      rw [ham, hbm, hat, hbt]
      exact ⟨rfl, .inl ht⟩
  · intro a ha b hb
    obtain ⟨t, -, ha⟩ := List.mem_flatMap.mp ha
    obtain ⟨t', -, hb⟩ := List.mem_flatMap.mp hb
    left
    rw [(mem_of_finRange ha).1, (mem_of_finRange hb).1]
    exact hm

theorem forEachInstruction_finRange {ω τ : Type} (body : X86Instruction → τ → Emission ω Stop τ) :
    codeGenerator.forEachInstruction body =
      forEach (fun idx : Fin _ => body (codeGenerator.instructionList.get idx))
        (List.finRange codeGenerator.instructionList.length) := by
  rw [codeGenerator.forEachInstruction_eq]
  conv_lhs => rw [← List.map_getElem_finRange codeGenerator.instructionList]
  exact forEach_map body _ _

end CodeGenerator

section
variable {σ : Type} (api : ExecutorApi σ) (codeGenerator : CodeGenerator) (speculation : Bool)
  (threshold : ℤ)

/-- The calls of the executor for one triple: the reset test follows a trigger test that shows a
difference beyond the threshold. -/
def tripleCalls (triple : codeGenerator.Triple) (s : σ) : Except Stop (TripleResult × σ) := do
  let measurement := (codeGenerator.measurement triple).byteRepresentation
  let trigger := (codeGenerator.trigger triple).byteRepresentation
  let reset := (codeGenerator.reset triple).byteRepresentation
  let amount := if (codeGenerator.reset triple).isSleep then 1
    else resetExecutionsAmountWithoutAssumptions
  let (triggerTest, s) ← api.testTriggerSequence trigger measurement reset speculation
    iterationsNo amount s
  if TripleResult.triggers threshold ⟨triggerTest, none⟩ then
    let (resetTest, s) ← api.testResetSequence trigger measurement reset iterationsNo amount s
    return (⟨triggerTest, some resetTest⟩, s)
  else return (⟨triggerTest, none⟩, s)

/-- Every call of the executor for instructions of the list returns, with whatever error code and
difference. -/
structure ExecutorApi.Returns {σ : Type} (api : ExecutorApi σ) (codeGenerator : CodeGenerator)
    (speculation : Bool) : Prop where
  trigger : ∀ measurement ∈ codeGenerator.instructionList,
    ∀ trigger ∈ codeGenerator.instructionList, ∀ reset ∈ codeGenerator.instructionList,
    ∀ amount ≤ resetExecutionsAmountWithoutAssumptions, ∀ s, ∃ result,
      api.testTriggerSequence trigger.byteRepresentation measurement.byteRepresentation
        reset.byteRepresentation speculation iterationsNo amount s = .ok result
  reset : ∀ measurement ∈ codeGenerator.instructionList,
    ∀ trigger ∈ codeGenerator.instructionList, ∀ reset ∈ codeGenerator.instructionList,
    ∀ amount ≤ resetExecutionsAmountWithoutAssumptions, ∀ s, ∃ result,
      api.testResetSequence trigger.byteRepresentation measurement.byteRepresentation
        reset.byteRepresentation iterationsNo amount s = .ok result

variable {api codeGenerator speculation threshold}

theorem tripleCalls_returns (h : api.Returns codeGenerator speculation)
    (triple : codeGenerator.Triple) (s : σ) :
    ∃ result, tripleCalls api codeGenerator speculation threshold triple s = .ok result := by
  have hmeasurement : codeGenerator.measurement triple ∈ codeGenerator.instructionList :=
    List.getElem_mem _
  have htriggerMem : codeGenerator.trigger triple ∈ codeGenerator.instructionList :=
    List.getElem_mem _
  have hreset : codeGenerator.reset triple ∈ codeGenerator.instructionList := List.getElem_mem _
  have hamount : (if (codeGenerator.reset triple).isSleep then 1
      else resetExecutionsAmountWithoutAssumptions) ≤ resetExecutionsAmountWithoutAssumptions := by
    split <;> decide
  obtain ⟨⟨triggerTest, t⟩, htrigger⟩ := h.trigger _ hmeasurement _ htriggerMem _ hreset _ hamount s
  obtain ⟨resetTest, hreset⟩ := h.reset _ hmeasurement _ htriggerMem _ hreset _ hamount t
  simp only [tripleCalls, htrigger]
  by_cases htriggers : TripleResult.triggers threshold ⟨triggerTest, none⟩ = true
  · exact ⟨(⟨triggerTest, some resetTest.1⟩, resetTest.2), by
      change (if TripleResult.triggers threshold ⟨triggerTest, none⟩ = true then _ else _) = _
      rw [if_pos htriggers, hreset]
      rfl⟩
  · exact ⟨(⟨triggerTest, none⟩, t), by
      change (if TripleResult.triggers threshold ⟨triggerTest, none⟩ = true then _ else _) = _
      rw [if_neg htriggers]
      rfl⟩

/-- The difference of a triple, if it is accepted. -/
def acceptedTiming (threshold : ℤ) (result : TripleResult) : Option ℤ :=
  if result.accepted threshold then some result.triggerTest.cyclesDifference else none

theorem acceptedRow_eq (triple : codeGenerator.Triple) (result : TripleResult) :
    codeGenerator.acceptedRow threshold (triple, result) =
      (acceptedTiming threshold result).map fun timing => ⟨timing, codeGenerator.measurement triple,
        codeGenerator.trigger triple, codeGenerator.reset triple⟩ := by
  unfold CodeGenerator.acceptedRow acceptedTiming
  split
  · rfl
  · rfl

theorem acceptedTiming_of_not_triggers {result : TripleResult}
    (h : ¬ result.triggers threshold = true) : acceptedTiming threshold result = none :=
  if_neg (by simp [TripleResult.accepted, h])

theorem acceptedTiming_of_triggers {triggerTest : TestResult} (resetTest : TestResult)
    (h : TripleResult.triggers threshold ⟨triggerTest, none⟩ = true) :
    acceptedTiming threshold ⟨triggerTest, some resetTest⟩ =
      if resetTest.error = 0 ∧ -20 < resetTest.cyclesDifference ∧
          resetTest.cyclesDifference < 20 then some triggerTest.cyclesDifference else none := by
  have htriggers : TripleResult.triggers threshold ⟨triggerTest, some resetTest⟩ = true := h
  simp [acceptedTiming, TripleResult.accepted, htriggers]

theorem testTriple_eq (triple : codeGenerator.Triple) (s : σ) :
    testTriple api speculation (-threshold) threshold resetExecutionsAmountWithoutAssumptions
      (codeGenerator.measurement triple) (codeGenerator.trigger triple)
      (codeGenerator.reset triple) s =
        (tripleCalls api codeGenerator speculation threshold triple s).map fun tested =>
          (acceptedTiming threshold tested.1, tested.2) := by
  unfold testTriple tripleCalls
  simp only
  cases api.testTriggerSequence (codeGenerator.trigger triple).byteRepresentation
    (codeGenerator.measurement triple).byteRepresentation
    (codeGenerator.reset triple).byteRepresentation speculation iterationsNo
    (if (codeGenerator.reset triple).isSleep then 1 else resetExecutionsAmountWithoutAssumptions) s
    with
  | error stop => rfl
  | ok triggered =>
    obtain ⟨triggerTest, t⟩ := triggered
    have hiff : TripleResult.triggers threshold ⟨triggerTest, none⟩ = true ↔ _ :=
      TripleResult.triggers_iff
    change (if triggerTest.error = 0 ∧ _ then _ else _) =
      (if TripleResult.triggers threshold ⟨triggerTest, none⟩ = true then _ else _ :
        Except Stop _).map _
    by_cases htriggers : TripleResult.triggers threshold ⟨triggerTest, none⟩ = true
    · rw [if_pos (hiff.mp htriggers), if_pos htriggers]
      cases api.testResetSequence (codeGenerator.trigger triple).byteRepresentation
        (codeGenerator.measurement triple).byteRepresentation
        (codeGenerator.reset triple).byteRepresentation iterationsNo
        (if (codeGenerator.reset triple).isSleep then 1
          else resetExecutionsAmountWithoutAssumptions) t with
      | error stop => rfl
      | ok resetted =>
        change (if _ ∧ _ then _ else _) = Except.ok (acceptedTiming _ _, _)
        rw [acceptedTiming_of_triggers resetted.1 htriggers]
        split
        · rfl
        · rfl
    · rw [if_neg (mt hiff.mpr htriggers), if_neg htriggers]
      change _ = Except.ok (acceptedTiming _ _, t)
      rw [acceptedTiming_of_not_triggers htriggers]
      rfl

/-- The rounds of one triple are its calls, and its row if it is accepted. -/
theorem searchTriple_eq (triple : codeGenerator.Triple) (s : σ) :
    searchTriple api speculation threshold (codeGenerator.measurement triple)
      (codeGenerator.trigger triple) (codeGenerator.reset triple) s =
        (lift (tripleCalls api codeGenerator speculation threshold triple s)).bind fun tested =>
          write (codeGenerator.acceptedRow threshold (triple, tested.1)).toList tested.2 := by
  rw [searchTriple, testTriple_eq]
  cases tripleCalls api codeGenerator speculation threshold triple s with
  | error stop => rfl
  | ok tested =>
    rw [lift_ok_bind, acceptedRow_eq]
    change (lift (.ok (acceptedTiming threshold tested.1, tested.2))).bind _ = _
    rw [lift_ok_bind]
    cases acceptedTiming threshold tested.1 with
    | none => rfl
    | some timing => rfl

/-- The search is a loop over the triples whose trigger is no sleep. -/
theorem findAndOutputTriggerpairsWithoutAssumptions_eq (s : σ) :
    findAndOutputTriggerpairsWithoutAssumptions api codeGenerator speculation threshold s =
      ⟨(trials (tripleCalls api codeGenerator speculation threshold)
          codeGenerator.awakeTriples s).written.filterMap (codeGenerator.acceptedRow threshold),
        (trials (tripleCalls api codeGenerator speculation threshold)
          codeGenerator.awakeTriples s).outcome⟩ := by
  have hpair (m t : Fin codeGenerator.instructionList.length) :
      searchPair api codeGenerator speculation threshold (codeGenerator.instructionList.get m)
        (codeGenerator.instructionList.get t) =
      forEach (fun triple => searchTriple api speculation threshold
          (codeGenerator.measurement triple) (codeGenerator.trigger triple)
          (codeGenerator.reset triple))
        (if (codeGenerator.instructionList.get t).isSleep then []
          else (List.finRange _).map fun r => ⟨m, t, r⟩) := by
    funext s
    unfold searchPair
    split
    · rfl
    · rw [CodeGenerator.forEachInstruction_finRange, forEach_map]
      rfl
  have hloop : findAndOutputTriggerpairsWithoutAssumptions api codeGenerator speculation threshold =
      forEach (fun triple => searchTriple api speculation threshold
          (codeGenerator.measurement triple) (codeGenerator.trigger triple)
          (codeGenerator.reset triple)) codeGenerator.awakeTriples := by
    rw [findAndOutputTriggerpairsWithoutAssumptions, CodeGenerator.forEachInstruction_finRange]
    simp only [CodeGenerator.forEachInstruction_finRange, hpair, forEach_flatMap]
    rfl
  rw [hloop, List.filterMap_eq_flatMap_toList]
  exact forEach_trials (fun triple _ s => searchTriple_eq triple s) s

theorem length_flatMap_le {α β : Type} {l : List α} {f : α → List β} {n : ℕ}
    (h : ∀ a ∈ l, (f a).length ≤ n) : (l.flatMap f).length ≤ l.length * n := by
  induction l with
  | nil => simp
  | cons a l ih =>
    have ha := h a List.mem_cons_self
    have hl := ih fun b hb => h b (List.mem_cons_of_mem a hb)
    rw [List.flatMap_cons, List.length_append, List.length_cons, Nat.add_mul]
    omega

theorem length_rows_le (codeGenerator : CodeGenerator) (speculation : Bool) (threshold : ℤ)
    (executor : Executor) :
    ((Search.withoutAssumptions threshold).rows Executor.api codeGenerator speculation
      executor).length ≤
      codeGenerator.instructionList.length * (codeGenerator.instructionList.length *
        codeGenerator.instructionList.length) := by
  have htriples : codeGenerator.awakeTriples.length ≤ codeGenerator.instructionList.length *
      (codeGenerator.instructionList.length * codeGenerator.instructionList.length) := by
    have hresets (measurement trigger : Fin codeGenerator.instructionList.length) :
        (if (codeGenerator.instructionList.get trigger).isSleep then []
          else (List.finRange codeGenerator.instructionList.length).map fun reset =>
            IndexTriple.mk measurement trigger reset).length ≤
          codeGenerator.instructionList.length := by
      split <;> simp
    have htriggers (measurement : Fin codeGenerator.instructionList.length) :=
      length_flatMap_le (l := List.finRange codeGenerator.instructionList.length)
        fun trigger _ => hresets measurement trigger
    have hall := length_flatMap_le (l := List.finRange codeGenerator.instructionList.length)
      fun measurement _ => htriggers measurement
    simpa [CodeGenerator.awakeTriples] using hall
  rw [Search.rows, findAndOutputTriggerpairsWithoutAssumptions_eq]
  have hwritten := (trials_initial (tripleCalls Executor.api codeGenerator speculation threshold)
    codeGenerator.awakeTriples executor).length_le
  rw [List.length_map] at hwritten
  exact ((List.length_filterMap_le _ _).trans hwritten).trans htriples

/-- Every triple whose trigger is no sleep is tested once, in lexicographic order and in the state
its predecessor left, and exactly the accepted triples are written as rows. -/
theorem findAndOutputTriggerpairsWithoutAssumptions_exact
    (hreturns : api.Returns codeGenerator speculation) (s : σ) :
    ∃ tests s', Tested (tripleCalls api codeGenerator speculation threshold) s tests s' ∧
      (tests.map Prod.fst).Pairwise IndexTriple.Before ∧
      (∀ triple, triple ∈ tests.map Prod.fst ↔ (codeGenerator.trigger triple).isSleep = false) ∧
      findAndOutputTriggerpairsWithoutAssumptions api codeGenerator speculation threshold s =
        ⟨tests.filterMap (codeGenerator.acceptedRow threshold), .ok s'⟩ := by
  obtain ⟨s', hout⟩ : ∃ s', (trials (tripleCalls api codeGenerator speculation threshold)
      codeGenerator.awakeTriples s).outcome = .ok s' :=
    trials_total (fun triple _ => tripleCalls_returns hreturns triple) s
  have hall := trials_all hout
  refine ⟨_, s', trials_ok hout, ?_, ?_, ?_⟩
  · rw [hall]
    exact CodeGenerator.awakeTriples_pairwise
  · intro triple
    rw [hall]
    exact CodeGenerator.mem_awakeTriples
  · rw [findAndOutputTriggerpairsWithoutAssumptions_eq, hout]

end

/-- An executor whose every second trigger test shows a difference. -/
def everySecondApi : ExecutorApi ℕ where
  testTriggerSequence _ _ _ _ _ _ n := .ok (⟨0, if n % 2 = 0 then 100 else 0⟩, n + 1)
  testResetSequence _ _ _ _ _ n := .ok (⟨0, 0⟩, n)

theorem findAndOutputTriggerpairsWithoutAssumptions_everySecond :
    ∃ tests s', Tested (tripleCalls everySecondApi twoInstructions false 50) 0 tests s' ∧
      (tests.map Prod.fst).Pairwise IndexTriple.Before ∧
      (∀ triple, triple ∈ tests.map Prod.fst ↔ (twoInstructions.trigger triple).isSleep = false) ∧
      findAndOutputTriggerpairsWithoutAssumptions everySecondApi twoInstructions false 50 0 =
        ⟨tests.filterMap (twoInstructions.acceptedRow 50), .ok s'⟩ :=
  findAndOutputTriggerpairsWithoutAssumptions_exact
    ⟨fun _ _ _ _ _ _ _ _ _ => ⟨_, rfl⟩, fun _ _ _ _ _ _ _ _ _ => ⟨_, rfl⟩⟩ 0

end OsirisArm
