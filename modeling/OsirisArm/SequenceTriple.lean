import OsirisArm.DisturbedRuns
import OsirisArm.FaultAccounting

/-! # Testing the order of trigger and reset

`TestSequenceTriple` runs trigger before reset on one page and reset before trigger on the other. It
alternates between the pages and takes the median of the differences of the pairs, so what both runs
of a pair have in common cancels.
-/

namespace OsirisArm
open Library

namespace Executor

/-- The loop over the pairs of testruns: the differences of the pairs, or `none` after a fault. -/
def executePairs : ℕ → Executor → Option (List ℤ) × Executor
  | 0, executor => (some [], executor)
  | noTestruns + 1, executor =>
    let first := executor.executeTestrun
    match first.1 with
    | none => (none, first.2)
    | some cyclesElapsedTriggerReset =>
      let second := first.2.executeTestrun
      match second.1 with
      | none => (none, second.2)
      | some cyclesElapsedResetTrigger =>
        let rest := executePairs noTestruns second.2
        (rest.1.map (wrapInt64 (cyclesElapsedTriggerReset.toInt -
          cyclesElapsedResetTrigger.toInt) :: ·), rest.2)

/-- What the test makes of the differences. -/
def pairsResult : Option (List ℤ) → TestResult
  | none => ⟨1, -1⟩
  | some results => ⟨0, truncateToInt64 (median results)⟩

def testSequenceTriple (triggerSequence measurementSequence resetSequence : Bytes)
    (noTestruns : ℕ) (executor : Executor) : Except Stop (TestResult × Executor) := do
  let page₀ ← createTestrunCode triggerSequence resetSequence measurementSequence 1
  let page₁ ← createTestrunCode resetSequence triggerSequence measurementSequence 1
  let runs := executePairs noTestruns (executor.withCodePages page₀ page₁)
  return (pairsResult runs.1, runs.2)

end Executor

/-- The cycles of a run on page 0 and of the run on page 1 that follows it. -/
abbrev CyclePair := BitVec 64 × BitVec 64

def CyclePair.difference (pair : CyclePair) : ℤ := pair.1.toInt - pair.2.toInt

/-- The runs in the order of the loop. -/
def alternating (pairs : List CyclePair) : List (BitVec 64) :=
  pairs.flatMap fun pair => [pair.1, pair.2]

namespace Executor
variable {executor after : Executor} {pairs : List CyclePair}

theorem Observes.tail {start : ℕ} {first : BitVec 64} {cycles : List (BitVec 64)}
    (h : executor.Observes start (first :: cycles)) :
    executor.tape start = .completed first ∧ executor.Observes (start + 1) cycles := by
  constructor
  · exact h 0 (Nat.succ_pos _)
  · intro i hi
    have hindex : start + 1 + i = start + (i + 1) := by omega
    rw [hindex]
    exact h (i + 1) (Nat.succ_lt_succ hi)

theorem executeTestrun_completed (executor : Executor) {cycles : BitVec 64}
    (h : executor.tape executor.runNo = .completed cycles) :
    executor.executeTestrun = (some cycles, { executor with runNo := executor.runNo + 1 }) := by
  rw [executeTestrun, h]

theorem executePairs_observed (executor : Executor) {pairs : List CyclePair}
    (h : executor.Observes executor.runNo (alternating pairs)) :
    (executor.executePairs pairs.length).1 =
      some (pairs.map fun pair => wrapInt64 pair.difference) := by
  induction pairs generalizing executor with
  | nil => rfl
  | cons pair pairs ih =>
    obtain ⟨hfirst, h⟩ := h.tail
    obtain ⟨hsecond, h⟩ := h.tail
    have hrun := executor.executeTestrun_completed hfirst
    have hrun' := executeTestrun_completed { executor with runNo := executor.runNo + 1 } hsecond
    have hrest := ih { executor with runNo := executor.runNo + 1 + 1 } h
    rw [List.length_cons, executePairs]
    simp only [hrun, hrun', hrest]
    rfl

/-- A fault in either run of a pair ends the loop and is counted. -/
theorem executePairs_counted (noTestruns : ℕ) (executor : Executor) :
    Counted executor (executor.executePairs noTestruns) := by
  induction noTestruns generalizing executor with
  | zero => rfl
  | succ noTestruns ih =>
    have hfirst := executor.executeTestrun_counted
    rw [executePairs]
    rcases hrun : executor.executeTestrun with ⟨_ | cycles, between⟩
    · rw [hrun] at hfirst
      exact hfirst
    · have hsecond := between.executeTestrun_counted
      rw [hrun] at hfirst
      simp only
      rcases hrun' : between.executeTestrun with ⟨_ | cycles', next⟩
      · rw [hrun'] at hsecond
        exact hsecond.trans (congrArg (· + 1) hfirst)
      · rw [hrun'] at hsecond
        have hrest := ih next
        have hsame : next.faultNo = executor.faultNo := hsecond.trans hfirst
        simp only
        rcases hpairs : next.executePairs noTestruns with ⟨_ | results, last⟩
        · rw [hpairs] at hrest
          exact hrest.trans (congrArg (· + 1) hsame)
        · rw [hpairs] at hrest
          exact hrest.trans hsame

theorem testSequenceTriple_accounted
    {triggerSequence measurementSequence resetSequence : Bytes} {noTestruns : ℕ}
    {result : TestResult}
    (h : executor.testSequenceTriple triggerSequence measurementSequence resetSequence noTestruns =
      .ok (result, after)) : Accounted executor after result := by
  obtain ⟨page₀, -, hrest⟩ := except_bind_ok h
  obtain ⟨page₁, -, hrest⟩ := except_bind_ok hrest
  have hcounted := executePairs_counted noTestruns (executor.withCodePages page₀ page₁)
  cases hrest
  rcases hpairs : executePairs noTestruns (executor.withCodePages page₀ page₁) with
    ⟨_ | results, after⟩
  · rw [hpairs] at hcounted
    exact .inr ⟨rfl, hcounted⟩
  · rw [hpairs] at hcounted
    exact .inl ⟨rfl, hcounted⟩

theorem testSequenceTriple_observed {triggerSequence measurementSequence resetSequence : Bytes}
    {result : TestResult} (hpairs : executor.Observes executor.runNo (alternating pairs))
    (h : executor.testSequenceTriple triggerSequence measurementSequence resetSequence pairs.length
      = .ok (result, after)) :
    result = ⟨0, truncateToInt64 (median (pairs.map fun pair => wrapInt64 pair.difference))⟩ := by
  obtain ⟨page₀, -, hrest⟩ := except_bind_ok h
  obtain ⟨page₁, -, hrest⟩ := except_bind_ok hrest
  have hruns := executePairs_observed (executor.withCodePages page₀ page₁) hpairs
  have hresult := congrArg Prod.fst (Except.ok.inj hrest)
  simp only [hruns] at hresult
  exact hresult.symm

end Executor

theorem truncateToInt64_of_small {halves : ℤ} (h : halves.natAbs < 2 ^ 53) :
    truncateToInt64 halves = halves.tdiv 2 := by
  have hbetween : -2 ^ 52 ≤ halves.tdiv 2 ∧ halves.tdiv 2 ≤ 2 ^ 52 :=
    tdiv_two_between (by omega) (by omega)
  rw [truncateToInt64]
  omega

theorem median_neg {values : List ℤ} (h : ∀ value ∈ values, value.natAbs < 2 ^ 52) :
    median (values.map fun value => -value) = -median values := by
  by_cases hne : values = []
  · subst hne
    rfl
  · have hlength : 0 < values.length := List.length_pos_iff.mpr hne
    have hneg : StrictAnti fun value : ℤ => -value := fun _ _ hlt => neg_lt_neg hlt
    have hopposite : ∀ k < values.length,
        ((values.map fun value => -value).insertionSort (· ≤ ·)).getD (values.length - 1 - k) 0 =
          -(values.insertionSort (· ≤ ·)).getD k 0 := by
      intro k hk
      have hmapped := (sorted_isOrderStatistic hk).map_strictAnti hneg
      exact (sorted_isOrderStatistic (by rw [List.length_map]; omega)).unique hmapped
    have hsmall : ∀ value ∈ values.map fun value => -value, value.natAbs < 2 ^ 52 := by
      intro value hvalue
      obtain ⟨original, horiginal, rfl⟩ := List.mem_map.mp hvalue
      rw [Int.natAbs_neg]
      exact h original horiginal
    rw [median_of_small hne h, median_of_small (by simpa using hne) hsmall, List.length_map]
    have hlow := hopposite (values.length / 2) (by omega)
    have hhigh := hopposite ((values.length - 1) / 2) (by omega)
    rw [(by omega : values.length - 1 - values.length / 2 = (values.length - 1) / 2)] at hlow
    rw [(by omega : values.length - 1 - (values.length - 1) / 2 = values.length / 2)] at hhigh
    rw [hlow, hhigh]
    omega

theorem wrapInt64_difference {pair : CyclePair} {low high : ℤ} (hlow : -2 ^ 50 < low)
    (hhigh : high < 2 ^ 50) (h : low ≤ pair.difference ∧ pair.difference ≤ high) :
    wrapInt64 pair.difference = pair.difference := by
  apply wrapInt64_of_small
  omega

/-- The median of the differences of the pairs, most of which lie between the bounds. -/
theorem median_differences {pairs : List CyclePair} {low high : ℤ} (hlow : -2 ^ 50 < low)
    (hhigh : high < 2 ^ 50) (hmajority : pairs.length <
      2 * pairs.countP fun pair => low ≤ pair.difference ∧ pair.difference ≤ high) :
    2 * low ≤ median (pairs.map fun pair => wrapInt64 pair.difference) ∧
      median (pairs.map fun pair => wrapInt64 pair.difference) ≤ 2 * high := by
  apply median_within hlow hhigh
  rw [List.length_map, List.countP_map]
  refine lt_of_lt_of_le hmajority (Nat.mul_le_mul_left 2 ?_)
  apply List.countP_mono_left
  intro pair _ hpair
  simp only [decide_eq_true_eq, Function.comp_apply] at hpair ⊢
  rw [wrapInt64_difference hlow hhigh hpair]
  exact hpair

theorem median_exchanged {pairs : List CyclePair}
    (hsmall : ∀ pair ∈ pairs, pair.difference.natAbs < 2 ^ 50) :
    median ((pairs.map Prod.swap).map fun pair => wrapInt64 (CyclePair.difference pair)) =
      -median (pairs.map fun pair => wrapInt64 pair.difference) := by
  have hexact : ∀ pair ∈ pairs, wrapInt64 pair.difference = pair.difference := by
    intro pair hpair
    have := hsmall pair hpair
    apply wrapInt64_of_small
    omega
  have hswap : ∀ pair ∈ pairs, wrapInt64 (CyclePair.difference pair.swap) = -pair.difference := by
    intro pair hpair
    have := hsmall pair hpair
    have hneg : CyclePair.difference pair.swap = -pair.difference := (neg_sub _ _).symm
    rw [hneg]
    apply wrapInt64_of_small
    omega
  have hmap : (pairs.map Prod.swap).map (fun pair => wrapInt64 (CyclePair.difference pair)) =
      (pairs.map CyclePair.difference).map fun value => -value := by
    rw [List.map_map, List.map_map]
    exact List.map_congr_left hswap
  rw [hmap, List.map_congr_left hexact]
  apply median_neg
  intro value hvalue
  obtain ⟨pair, hpair, rfl⟩ := List.mem_map.mp hvalue
  have := hsmall pair hpair
  omega

theorem median_differences_small {pairs : List CyclePair}
    (hsmall : ∀ pair ∈ pairs, pair.difference.natAbs < 2 ^ 50) :
    (median (pairs.map fun pair => wrapInt64 pair.difference)).natAbs < 2 ^ 53 := by
  by_cases hpairs : pairs = []
  · subst hpairs
    decide
  · have hlength : 0 < pairs.length := List.length_pos_iff.mpr hpairs
    have hall : pairs.countP (fun pair => (-2 ^ 50 + 1 : ℤ) ≤ pair.difference ∧
        pair.difference ≤ (2 ^ 50 - 1 : ℤ)) = pairs.length := by
      apply List.countP_eq_length.mpr
      intro pair hpair
      have := hsmall pair hpair
      apply decide_eq_true
      omega
    have hmedian := median_differences (by decide) (by decide)
      (by omega : pairs.length < 2 * pairs.countP fun pair =>
        (-2 ^ 50 + 1 : ℤ) ≤ pair.difference ∧ pair.difference ≤ (2 ^ 50 - 1 : ℤ))
    omega

/-- `TestSequenceTriple` with any sequences and any runs: a fault in either run of a pair gives the
error and is counted. Without a fault the result lies between any bounds that hold for most of the
pairs, however the runs drift from pair to pair, and exchanging trigger and reset changes its
sign. -/
theorem sequenceTriple_paired {executor after : Executor}
    {triggerSequence measurementSequence resetSequence : Bytes} {noTestruns : ℕ}
    {result : TestResult}
    (htest : executor.testSequenceTriple triggerSequence measurementSequence resetSequence
      noTestruns = .ok (result, after)) :
    executor.Accounted after result ∧
    ∀ pairs : List CyclePair, pairs.length = noTestruns →
      executor.Observes executor.runNo (alternating pairs) →
      (∀ low high : ℤ, -2 ^ 50 < low → high < 2 ^ 50 →
        pairs.length <
          2 * pairs.countP (fun pair => low ≤ pair.difference ∧ pair.difference ≤ high) →
        result.error = 0 ∧ low ≤ result.cyclesDifference ∧ result.cyclesDifference ≤ high) ∧
      ∀ (exchanged last : Executor) (opposite : TestResult),
        (∀ pair ∈ pairs, pair.difference.natAbs < 2 ^ 50) →
        exchanged.Observes exchanged.runNo (alternating (pairs.map Prod.swap)) →
        exchanged.testSequenceTriple resetSequence measurementSequence triggerSequence noTestruns =
          .ok (opposite, last) →
        opposite = ⟨0, -result.cyclesDifference⟩ := by
  refine ⟨Executor.testSequenceTriple_accounted htest, ?_⟩
  rintro pairs rfl hpairs
  rw [Executor.testSequenceTriple_observed hpairs htest]
  constructor
  · intro low high hlow hhigh hmajority
    have hmedian := median_differences hlow hhigh hmajority
    have hbetween := tdiv_two_between hmedian.1 hmedian.2
    rw [truncateToInt64_of_small (by omega)]
    exact ⟨rfl, hbetween⟩
  · intro exchanged last opposite hsmall hswapped hopposite
    have hmedian := median_differences_small hsmall
    have hlength : (pairs.map Prod.swap).length = pairs.length := List.length_map _
    rw [← hlength] at hopposite
    rw [Executor.testSequenceTriple_observed hswapped hopposite, median_exchanged hsmall,
      truncateToInt64_of_small (by omega), truncateToInt64_of_small (by omega), Int.neg_tdiv]

/-- The runs get slower from pair to pair, and the last pair is disturbed. -/
def driftingPairs : List CyclePair := [(100, 90), (210, 200), (330, 320), (700, 10)]

theorem sequenceTriple_paired_nop : ∃ result after,
    (executorOf (alternating driftingPairs)).testSequenceTriple instNop instNop instNop 4 =
      .ok (result, after) ∧ result = ⟨0, 10⟩ := by
  obtain ⟨result, after, htest⟩ : ∃ result after,
      (executorOf (alternating driftingPairs)).testSequenceTriple instNop instNop instNop 4 =
        .ok (result, after) := by
    obtain ⟨page, hpage⟩ := (createTestrunCode_fills instNop instNop instNop
      (by decide : 1 ≤ 100)).exists_ok_iff.mpr (by rw [testrunBytes_length]; decide)
    unfold Executor.testSequenceTriple
    rw [hpage]
    exact ⟨_, _, rfl⟩
  have hpairs := observes_executorOf (alternating driftingPairs)
  obtain ⟨-, hresult⟩ := sequenceTriple_paired htest
  obtain ⟨hwithin, -⟩ := hresult driftingPairs rfl hpairs
  obtain ⟨herror, hlow, hhigh⟩ := hwithin 10 10 (by decide) (by decide) (by decide)
  refine ⟨result, after, htest, ?_⟩
  obtain ⟨error, cyclesDifference⟩ := result
  simp only at herror hlow hhigh
  rw [herror, (by omega : cyclesDifference = 10)]

end OsirisArm
