import OsirisArm.TriggerEffect

/-! # The statistic of a trigger test

The reported difference depends on the samples of at most 5000 cycles as multisets, changes its sign
with the two kinds of runs and stays between -5000 and 5000.
-/

namespace OsirisArm.Executor

/-- The same samples, but for the values of those above 5000 cycles. -/
def SameRetained (cycles cycles' : List (BitVec 64)) : Prop :=
  List.Forall₂ (fun c c' => c = c' ∨ 5000 < c.toNat ∧ 5000 < c'.toNat) cycles cycles'

theorem retained_perm {cycles cycles' : List (BitVec 64)} (h : cycles.Perm cycles') :
    (retained cycles).Perm (retained cycles') :=
  (h.filter _).map _

theorem SameRetained.retained_eq {cycles cycles' : List (BitVec 64)}
    (h : SameRetained cycles cycles') : retained cycles = retained cycles' := by
  induction h with
  | nil => rfl
  | @cons c c' rest rest' hsame _ ih =>
    rcases hsame with rfl | ⟨hlarge, hlarge'⟩
    · by_cases hkept : c.toNat ≤ 5000
      · simpa [retained, hkept] using ih
      · simpa [retained, hkept] using ih
    · have hdropped : ¬ c.toNat ≤ 5000 := by omega
      have hdropped' : ¬ c'.toNat ≤ 5000 := by omega
      simpa [retained, hdropped, hdropped'] using ih

variable (triggerCycles notriggerCycles : List (BitVec 64))

theorem triggerDifference_perm {triggerCycles' notriggerCycles' : List (BitVec 64)}
    (htrigger : triggerCycles'.Perm triggerCycles)
    (hnotrigger : notriggerCycles'.Perm notriggerCycles) :
    triggerDifference triggerCycles' notriggerCycles' =
      triggerDifference triggerCycles notriggerCycles := by
  rw [triggerDifference, triggerDifference, medianDifference, medianDifference,
    median_perm (retained_perm htrigger), median_perm (retained_perm hnotrigger)]

theorem triggerDifference_swap : triggerDifference notriggerCycles triggerCycles =
    -triggerDifference triggerCycles notriggerCycles :=
  medianDifference_swap (by decide : 5000 < 2 ^ 50) (fun _ h => retained_range h)
    (fun _ h => retained_range h)

/-- What a test reports for these runs, and how this changes with the runs. -/
theorem triggerDifference_statistic :
    (∀ (executor after : Executor) (triggerSequence measurementSequence resetSequence : Bytes)
      (speculation : Bool) (amount : ℕ) (result : TestResult),
      executor.Observes executor.runNo triggerCycles →
      executor.Observes (executor.runNo + triggerCycles.length) notriggerCycles →
      notriggerCycles.length = triggerCycles.length →
      executor.testTriggerSequence triggerSequence measurementSequence resetSequence speculation
        triggerCycles.length amount = .ok (result, after) →
      result = ⟨0, triggerDifference triggerCycles notriggerCycles⟩) ∧
    (∀ triggerCycles' notriggerCycles', triggerCycles'.Perm triggerCycles →
      notriggerCycles'.Perm notriggerCycles →
      triggerDifference triggerCycles' notriggerCycles' =
        triggerDifference triggerCycles notriggerCycles) ∧
    (∀ triggerCycles' notriggerCycles', SameRetained triggerCycles' triggerCycles →
      SameRetained notriggerCycles' notriggerCycles →
      triggerDifference triggerCycles' notriggerCycles' =
        triggerDifference triggerCycles notriggerCycles) ∧
    triggerDifference notriggerCycles triggerCycles =
      -triggerDifference triggerCycles notriggerCycles ∧
    -5000 ≤ triggerDifference triggerCycles notriggerCycles ∧
    triggerDifference triggerCycles notriggerCycles ≤ 5000 := by
  refine ⟨?_, ?_, ?_, triggerDifference_swap _ _, triggerDifference_range _ _⟩
  · intro executor after _ _ _ _ _ result htrigger hnotrigger hcount h
    exact testTriggerSequence_observed htrigger hnotrigger hcount h
  · intro triggerCycles' notriggerCycles' htrigger hnotrigger
    exact triggerDifference_perm _ _ htrigger hnotrigger
  · intro triggerCycles' notriggerCycles' htrigger hnotrigger
    rw [triggerDifference, triggerDifference, htrigger.retained_eq, hnotrigger.retained_eq]

/-- Three runs of each page, one of them with an outlier. -/
theorem triggerDifference_statistic_outlier : ∃ result after,
    (executorOf ([100, 9000, 102] ++ [200, 210, 220])).testTriggerSequence instNop instNop instNop
      false 3 1 = .ok (result, after) ∧ result = ⟨0, 109⟩ ∧
    triggerDifference [9000, 102, 100] [220, 200, 210] =
      triggerDifference [100, 9000, 102] [200, 210, 220] ∧
    triggerDifference [100, 7000, 102] [200, 210, 220] =
      triggerDifference [100, 9000, 102] [200, 210, 220] := by
  obtain ⟨htest, hperm, hretained, -⟩ :=
    triggerDifference_statistic [100, 9000, 102] [200, 210, 220]
  obtain ⟨result, after, hreturned⟩ :=
    exists_nopTest 3 (executorOf ([100, 9000, 102] ++ [200, 210, 220]))
  obtain ⟨htrigger, hnotrigger⟩ :=
    (observes_executorOf ([100, 9000, 102] ++ [200, 210, 220])).append
  have hreported := htest _ _ _ _ _ _ _ _ htrigger hnotrigger rfl hreturned
  have houtlier : SameRetained [100, 7000, 102] [100, 9000, 102] :=
    .cons (.inl rfl) (.cons (.inr ⟨by decide, by decide⟩) (.cons (.inl rfl) .nil))
  have hsame : SameRetained [200, 210, 220] [200, 210, 220] :=
    .cons (.inl rfl) (.cons (.inl rfl) (.cons (.inl rfl) .nil))
  exact ⟨result, after, hreturned, hreported.trans (by decide), hperm _ _ (by decide) (by decide),
    hretained _ _ houtlier hsame⟩

end OsirisArm.Executor
