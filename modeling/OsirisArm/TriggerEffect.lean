import OsirisArm.Executor

/-! # The samples behind a trigger effect

The test of a trigger drops all runs of more than 5000 cycles and compares the medians of the
others. The median of no samples is zero, so a page whose runs are all dropped still gives a
difference.
-/

namespace OsirisArm

/-- Both kinds of runs have samples of at most 5000 cycles, and the difference lies between the
smallest and the largest difference of such samples. -/
structure BackedBySamples (triggerCycles notriggerCycles : List (BitVec 64)) (difference : ℤ) :
    Prop where
  trigger : ∃ c ∈ triggerCycles, c.toNat ≤ 5000
  notrigger : ∃ c ∈ notriggerCycles, c.toNat ≤ 5000
  atLeast : ∃ n ∈ Executor.retained notriggerCycles, ∃ t ∈ Executor.retained triggerCycles,
    n - t ≤ difference
  atMost : ∃ n ∈ Executor.retained notriggerCycles, ∃ t ∈ Executor.retained triggerCycles,
    difference ≤ n - t

namespace Executor
variable {triggerCycles notriggerCycles : List (BitVec 64)}

theorem retained_ne_nil {cycles : List (BitVec 64)} :
    retained cycles ≠ [] ↔ ∃ c ∈ cycles, c.toNat ≤ 5000 := by
  simp [retained]

theorem triggerDifference_backed (htrigger : ∃ c ∈ triggerCycles, c.toNat ≤ 5000)
    (hnotrigger : ∃ c ∈ notriggerCycles, c.toNat ≤ 5000) :
    BackedBySamples triggerCycles notriggerCycles
      (triggerDifference triggerCycles notriggerCycles) := by
  obtain ⟨hatLeast, hatMost⟩ := medianDifference_between (by decide : 5000 < 2 ^ 50)
    (fun _ h => retained_range h) (fun _ h => retained_range h)
    (retained_ne_nil.mpr hnotrigger) (retained_ne_nil.mpr htrigger)
  exact ⟨htrigger, hnotrigger, hatLeast, hatMost⟩

/-- A test that observes these cycle counts returns their difference without an error. -/
theorem testTriggerSequence_observed {executor after : Executor}
    {triggerSequence measurementSequence resetSequence : Bytes} {speculation : Bool} {amount : ℕ}
    {result : TestResult}
    (htrigger : executor.Observes executor.runNo triggerCycles)
    (hnotrigger : executor.Observes (executor.runNo + triggerCycles.length) notriggerCycles)
    (hcount : notriggerCycles.length = triggerCycles.length)
    (h : executor.testTriggerSequence triggerSequence measurementSequence resetSequence speculation
      triggerCycles.length amount = .ok (result, after)) :
    result = ⟨0, triggerDifference triggerCycles notriggerCycles⟩ := by
  obtain ⟨pages, -, hcompare⟩ := testTriggerSequence_ok h
  rw [comparePages_observed triggerDifference (executor.withCodePages pages.1 pages.2) htrigger
    hnotrigger hcount] at hcompare
  exact (Prod.mk.inj hcompare).1.symm

/-- A test that returns 0 reports a difference backed by samples if and only if each kind of runs
has a sample of at most 5000 cycles. -/
theorem testTriggerSequence_backed_iff {executor after : Executor}
    {triggerSequence measurementSequence resetSequence : Bytes} {speculation : Bool} {amount : ℕ}
    {result : TestResult}
    (htrigger : executor.Observes executor.runNo triggerCycles)
    (hnotrigger : executor.Observes (executor.runNo + triggerCycles.length) notriggerCycles)
    (hcount : notriggerCycles.length = triggerCycles.length)
    (h : executor.testTriggerSequence triggerSequence measurementSequence resetSequence speculation
      triggerCycles.length amount = .ok (result, after)) :
    (result.error = 0 →
      BackedBySamples triggerCycles notriggerCycles result.cyclesDifference) ↔
        (∃ c ∈ triggerCycles, c.toNat ≤ 5000) ∧ ∃ c ∈ notriggerCycles, c.toNat ≤ 5000 := by
  rw [testTriggerSequence_observed htrigger hnotrigger hcount h, imp_iff_right rfl]
  constructor
  · intro hbacked
    exact ⟨hbacked.trigger, hbacked.notrigger⟩
  · rintro ⟨hsample, hnosample⟩
    exact triggerDifference_backed hsample hnosample

theorem exists_nopTest (noTestruns : ℕ) (executor : Executor) : ∃ result after,
    executor.testTriggerSequence instNop instNop instNop false noTestruns 1 =
      .ok (result, after) := by
  obtain ⟨pages, hpages⟩ := exists_triggerPages instNop instNop instNop false
    (by decide : 1 ≤ 100) (by decide)
  exact ⟨_, _, testTriggerSequence_of_pages (by decide) hpages noTestruns executor⟩

/-- The first ten runs take `first` cycles and all others `others`. -/
def twoPagesTape (first others : BitVec 64) (runNo : ℕ) : PageRun :=
  .completed (if runNo < 10 then first else others)

theorem observes_twoPages (first others : BitVec 64) :
    (start (twoPagesTape first others)).Observes 0 (List.replicate 10 first) ∧
      (start (twoPagesTape first others)).Observes 10 (List.replicate 10 others) := by
  constructor
  · apply observes_replicate
    intro i hi
    change twoPagesTape first others (0 + i) = _
    rw [twoPagesTape, if_pos (by omega)]
  · apply observes_replicate
    intro i hi
    change twoPagesTape first others (10 + i) = _
    rw [twoPagesTape, if_neg (by omega)]

theorem testTriggerSequence_backed_nop : ∃ result after,
    (start (twoPagesTape 100 200)).testTriggerSequence instNop instNop instNop false 10 1 =
      .ok (result, after) ∧
    ((result.error = 0 → BackedBySamples (List.replicate 10 100) (List.replicate 10 200)
        result.cyclesDifference) ↔
      (∃ c ∈ List.replicate 10 (100 : BitVec 64), c.toNat ≤ 5000) ∧
        ∃ c ∈ List.replicate 10 (200 : BitVec 64), c.toNat ≤ 5000) := by
  obtain ⟨result, after, htest⟩ := exists_nopTest 10 (start (twoPagesTape 100 200))
  obtain ⟨hfirst, hothers⟩ := observes_twoPages 100 200
  have hcount : (List.replicate 10 (200 : BitVec 64)).length =
      (List.replicate 10 (100 : BitVec 64)).length := rfl
  exact ⟨result, after, htest, testTriggerSequence_backed_iff hfirst hothers hcount htest⟩

/-- All trigger runs take 6000 cycles and are dropped; the test returns 0 and reports the median of
the other runs as difference. -/
theorem droppedTrigger_not_backed : ∃ result after,
    (start (twoPagesTape 6000 200)).testTriggerSequence instNop instNop instNop false 10 1 =
      .ok (result, after) ∧ result = ⟨0, 200⟩ ∧
    ¬ BackedBySamples (List.replicate 10 6000) (List.replicate 10 200)
      result.cyclesDifference := by
  obtain ⟨result, after, htest⟩ := exists_nopTest 10 (start (twoPagesTape 6000 200))
  obtain ⟨hfirst, hothers⟩ := observes_twoPages 6000 200
  have hcount : (List.replicate 10 (200 : BitVec 64)).length =
      (List.replicate 10 (6000 : BitVec 64)).length := rfl
  refine ⟨result, after, htest, ?_, ?_⟩
  · rw [testTriggerSequence_observed hfirst hothers hcount htest]
    decide
  · intro hbacked
    exact absurd hbacked.trigger (by simp)

end Executor
end OsirisArm
