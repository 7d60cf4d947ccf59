import OsirisArm.MedianMiddle
import OsirisArm.TriggerEffect

/-! # Disturbed runs

Interrupts and other processes disturb some of the runs of a test. As long as these are less than
half of the runs of each page, the result of the test is as exact as the undisturbed runs are,
whatever the disturbed ones take.
-/

namespace OsirisArm
open Library

/-- The median is between the bounds of a majority of the values. -/
theorem median_within {values : List ℤ} {low high : ℤ} (hlow : -2 ^ 50 < low)
    (hhigh : high < 2 ^ 50)
    (hmajority : values.length < 2 * values.countP fun value => low ≤ value ∧ value ≤ high) :
    2 * low ≤ median values ∧ median values ≤ 2 * high := by
  have hlength : 0 < values.length := by
    have hcount : values.countP (fun value => low ≤ value ∧ value ≤ high) ≤ values.length :=
      List.countP_le_length
    omega
  have hempty : ¬ values.isEmpty := by simpa using List.ne_nil_of_length_pos hlength
  have hfirst := (sorted_isOrderStatistic
    (by omega : (values.length - 1) / 2 < values.length)).between_of_majority hmajority (by omega)
  have hsecond := (sorted_isOrderStatistic
    (by omega : values.length / 2 < values.length)).between_of_majority hmajority (by omega)
  by_cases heven : values.length % 2 = 0
  · rw [median, if_neg hempty, if_pos heven, wrapInt64_of_small (by omega),
      roundToDouble_of_small (by omega)]
    omega
  · rw [median, if_neg hempty, if_neg heven, roundToDouble_of_small (by omega)]
    omega

theorem medianDifference_within {minuend subtrahend : List ℤ} {low high low' high' : ℤ}
    (h : 2 * low ≤ median minuend ∧ median minuend ≤ 2 * high)
    (h' : 2 * low' ≤ median subtrahend ∧ median subtrahend ≤ 2 * high')
    (hsmall : -2 ^ 50 < low ∧ high < 2 ^ 50) (hsmall' : -2 ^ 50 < low' ∧ high' < 2 ^ 50) :
    low - high' ≤ medianDifference minuend subtrahend ∧
      medianDifference minuend subtrahend ≤ high - low' := by
  have hround : roundToDouble (median minuend - median subtrahend) =
      median minuend - median subtrahend := roundToDouble_of_small (by omega)
  have hbetween : low - high' ≤ (median minuend - median subtrahend).tdiv 2 ∧
      (median minuend - median subtrahend).tdiv 2 ≤ high - low' :=
    tdiv_two_between (by omega) (by omega)
  rw [medianDifference, hround, truncateToInt64]
  omega

/-- More than half of the runs take a number of cycles between these. -/
def MostlyWithin (low high : ℕ) (cycles : List (BitVec 64)) : Prop :=
  cycles.length < 2 * cycles.countP fun c => low ≤ c.toNat ∧ c.toNat ≤ high

namespace MostlyWithin
variable {low high : ℕ} {cycles : List (BitVec 64)}

theorem toInt_of_le {c : BitVec 64} (h : c.toNat < 2 ^ 50) : c.toInt = c.toNat := by
  apply BitVec.toInt_eq_toNat_of_lt
  omega

theorem median_toInt (h : MostlyWithin low high cycles) (hhigh : high < 2 ^ 50) :
    2 * (low : ℤ) ≤ median (cycles.map BitVec.toInt) ∧
      median (cycles.map BitVec.toInt) ≤ 2 * high := by
  apply median_within (by omega) (by omega)
  rw [List.length_map, List.countP_map]
  refine lt_of_lt_of_le h (Nat.mul_le_mul_left 2 ?_)
  apply List.countP_mono_left
  intro c _ hc
  simp only [decide_eq_true_eq, Function.comp_apply] at hc ⊢
  rw [toInt_of_le (by omega)]
  omega

/-- Dropping the runs of more than 5000 cycles drops disturbed runs only. -/
theorem filter_retained (h : MostlyWithin low high cycles) (hhigh : high ≤ 5000) :
    MostlyWithin low high (cycles.filter fun c => c.toNat ≤ 5000) := by
  have hkept : (cycles.filter fun c => c.toNat ≤ 5000).countP
      (fun c => low ≤ c.toNat ∧ c.toNat ≤ high) =
        cycles.countP fun c => low ≤ c.toNat ∧ c.toNat ≤ high := by
    rw [List.countP_filter]
    apply List.countP_congr
    intro c _
    simp
    omega
  rw [MostlyWithin, hkept]
  exact lt_of_le_of_lt (List.length_filter_le _ _) h

theorem median_retained (h : MostlyWithin low high cycles) (hhigh : high ≤ 5000) :
    2 * (low : ℤ) ≤ median (Executor.retained cycles) ∧
      median (Executor.retained cycles) ≤ 2 * high :=
  (h.filter_retained hhigh).median_toInt (by omega)

end MostlyWithin

namespace Executor
variable {cycles₀ cycles₁ : List (BitVec 64)} {low₀ high₀ low₁ high₁ : ℕ}

theorem triggerDifference_within (h₀ : MostlyWithin low₀ high₀ cycles₀)
    (h₁ : MostlyWithin low₁ high₁ cycles₁) (hhigh₀ : high₀ ≤ 5000) (hhigh₁ : high₁ ≤ 5000) :
    (low₁ : ℤ) - high₀ ≤ triggerDifference cycles₀ cycles₁ ∧
      triggerDifference cycles₀ cycles₁ ≤ (high₁ : ℤ) - low₀ :=
  medianDifference_within (h₁.median_retained hhigh₁) (h₀.median_retained hhigh₀) (by omega)
    (by omega)

theorem resetDifference_within (h₀ : MostlyWithin low₀ high₀ cycles₀)
    (h₁ : MostlyWithin low₁ high₁ cycles₁) (hhigh₀ : high₀ < 2 ^ 50) (hhigh₁ : high₁ < 2 ^ 50) :
    (low₀ : ℤ) - high₁ ≤ resetDifference cycles₀ cycles₁ ∧
      resetDifference cycles₀ cycles₁ ≤ (high₀ : ℤ) - low₁ :=
  medianDifference_within (h₀.median_toInt hhigh₀) (h₁.median_toInt hhigh₁) (by omega) (by omega)

theorem testResetSequence_observed {executor after : Executor}
    {triggerSequence measurementSequence resetSequence : Bytes} {amount : ℕ} {result : TestResult}
    (h₀ : executor.Observes executor.runNo cycles₀)
    (h₁ : executor.Observes (executor.runNo + cycles₀.length) cycles₁)
    (hcount : cycles₁.length = cycles₀.length)
    (h : executor.testResetSequence triggerSequence measurementSequence resetSequence
      cycles₀.length amount = .ok (result, after)) :
    result = ⟨0, resetDifference cycles₀ cycles₁⟩ := by
  obtain ⟨page₀, -, hrest⟩ := except_bind_ok h
  obtain ⟨page₁, -, hrest⟩ := except_bind_ok hrest
  have hrun := comparePages_observed resetDifference (executor.withCodePages page₀ page₁) h₀ h₁
    hcount
  exact congrArg Prod.fst ((Except.ok.inj hrest).symm.trans hrun)

end Executor

/-- Both tests, with any sequences and any cycle counts of the disturbed runs: if most runs of each
page lie between two bounds, the result lies between the differences of these. -/
theorem disturbedTests_within {executor : Executor} {cycles₀ cycles₁ : List (BitVec 64)}
    {low₀ high₀ low₁ high₁ : ℕ} (h₀ : executor.Observes executor.runNo cycles₀)
    (h₁ : executor.Observes (executor.runNo + cycles₀.length) cycles₁)
    (hcount : cycles₁.length = cycles₀.length) (hmost₀ : MostlyWithin low₀ high₀ cycles₀)
    (hmost₁ : MostlyWithin low₁ high₁ cycles₁)
    (triggerSequence measurementSequence resetSequence : Bytes) (amount : ℕ) (result : TestResult)
    (after : Executor) :
    (∀ speculation, high₀ ≤ 5000 → high₁ ≤ 5000 →
      executor.testTriggerSequence triggerSequence measurementSequence resetSequence speculation
        cycles₀.length amount = .ok (result, after) →
      result.error = 0 ∧ (low₁ : ℤ) - high₀ ≤ result.cyclesDifference ∧
        result.cyclesDifference ≤ (high₁ : ℤ) - low₀) ∧
    (high₀ < 2 ^ 50 → high₁ < 2 ^ 50 →
      executor.testResetSequence triggerSequence measurementSequence resetSequence
        cycles₀.length amount = .ok (result, after) →
      result.error = 0 ∧ (low₀ : ℤ) - high₁ ≤ result.cyclesDifference ∧
        result.cyclesDifference ≤ (high₀ : ℤ) - low₁) := by
  constructor
  · intro speculation hhigh₀ hhigh₁ htest
    rw [Executor.testTriggerSequence_observed h₀ h₁ hcount htest]
    exact ⟨rfl, Executor.triggerDifference_within hmost₀ hmost₁ hhigh₀ hhigh₁⟩
  · intro hhigh₀ hhigh₁ htest
    rw [Executor.testResetSequence_observed h₀ h₁ hcount htest]
    exact ⟨rfl, Executor.resetDifference_within hmost₀ hmost₁ hhigh₀ hhigh₁⟩

/-- The undisturbed cycles of the two pages of a test. -/
structure PageTimes where
  page₀ : ℕ
  page₁ : ℕ

namespace PageTimes
variable (times : PageTimes)

def triggerDifference : ℤ := times.page₁ - times.page₀

def resetDifference : ℤ := times.page₀ - times.page₁

/-- A trigger test, which drops the runs of more than 5000 cycles, keeps the undisturbed ones. -/
def Retained (slack : ℕ) : Prop := times.page₀ + slack ≤ 5000 ∧ times.page₁ + slack ≤ 5000

/-- The medians of a reset test are exact. -/
def Exact (slack : ℕ) : Prop := times.page₀ + slack < 2 ^ 50 ∧ times.page₁ + slack < 2 ^ 50

instance (slack : ℕ) : Decidable (times.Retained slack) := inferInstanceAs (Decidable (_ ∧ _))

instance (slack : ℕ) : Decidable (times.Exact slack) := inferInstanceAs (Decidable (_ ∧ _))

theorem Retained.exact {times : PageTimes} {slack : ℕ} (h : times.Retained slack) :
    times.Exact slack := ⟨h.1.trans_lt (by decide), h.2.trans_lt (by decide)⟩

end PageTimes

/-- The next runs of page 0 and then those of page 1 mostly take the true times, up to `slack`. -/
def UndisturbedTest (times : PageTimes) (slack noTestruns : ℕ) (executor : Executor) : Prop :=
  ∃ cycles₀ cycles₁ : List (BitVec 64), cycles₀.length = noTestruns ∧
    cycles₁.length = noTestruns ∧ executor.Observes executor.runNo cycles₀ ∧
    executor.Observes (executor.runNo + noTestruns) cycles₁ ∧
    MostlyWithin (times.page₀ - slack) (times.page₀ + slack) cycles₀ ∧
    MostlyWithin (times.page₁ - slack) (times.page₁ + slack) cycles₁

namespace UndisturbedTest
variable {times : PageTimes} {slack noTestruns amount : ℕ} {executor after : Executor}
  {triggerSequence measurementSequence resetSequence : Bytes} {result : TestResult}

theorem trigger_near {speculation : Bool} (h : UndisturbedTest times slack noTestruns executor)
    (hretained : times.Retained slack)
    (htest : executor.testTriggerSequence triggerSequence measurementSequence resetSequence
      speculation noTestruns amount = .ok (result, after)) :
    result.error = 0 ∧ (result.cyclesDifference - times.triggerDifference).natAbs ≤ 2 * slack := by
  obtain ⟨cycles₀, cycles₁, rfl, hcount, h₀, h₁, hmost₀, hmost₁⟩ := h
  have hwithin := Executor.triggerDifference_within hmost₀ hmost₁ hretained.1 hretained.2
  rw [Executor.testTriggerSequence_observed h₀ h₁ hcount htest, PageTimes.triggerDifference]
  simp only [true_and]
  omega

/-- What is observed behind the runs of a trigger test is observed after it. -/
theorem trigger_observes {speculation : Bool} {cycles : List (BitVec 64)}
    (h : UndisturbedTest times slack noTestruns executor)
    (htest : executor.testTriggerSequence triggerSequence measurementSequence resetSequence
      speculation noTestruns amount = .ok (result, after))
    (hcycles : executor.Observes (executor.runNo + noTestruns + noTestruns) cycles) :
    after.Observes after.runNo cycles := by
  obtain ⟨cycles₀, cycles₁, rfl, hcount, h₀, h₁, -⟩ := h
  obtain ⟨pages, -, hrun⟩ := Executor.testTriggerSequence_ok htest
  have hafter := Executor.comparePages_observed Executor.triggerDifference
    (executor.withCodePages pages.1 pages.2) h₀ h₁ hcount
  cases hafter.symm.trans hrun
  exact hcycles

theorem reset_near (h : UndisturbedTest times slack noTestruns executor)
    (hexact : times.Exact slack)
    (htest : executor.testResetSequence triggerSequence measurementSequence resetSequence
      noTestruns amount = .ok (result, after)) :
    result.error = 0 ∧ (result.cyclesDifference - times.resetDifference).natAbs ≤ 2 * slack := by
  obtain ⟨cycles₀, cycles₁, rfl, hcount, h₀, h₁, hmost₀, hmost₁⟩ := h
  have hwithin := Executor.resetDifference_within hmost₀ hmost₁ hexact.1 hexact.2
  rw [Executor.testResetSequence_observed h₀ h₁ hcount htest, PageTimes.resetDifference]
  simp only [true_and]
  omega

theorem reset_observes {cycles : List (BitVec 64)}
    (h : UndisturbedTest times slack noTestruns executor)
    (htest : executor.testResetSequence triggerSequence measurementSequence resetSequence
      noTestruns amount = .ok (result, after))
    (hcycles : executor.Observes (executor.runNo + noTestruns + noTestruns) cycles) :
    after.Observes after.runNo cycles := by
  obtain ⟨cycles₀, cycles₁, rfl, hcount, h₀, h₁, -⟩ := h
  obtain ⟨page₀, -, hrest⟩ := except_bind_ok htest
  obtain ⟨page₁, -, hrest⟩ := except_bind_ok hrest
  have hafter := Executor.comparePages_observed Executor.resetDifference
    (executor.withCodePages page₀ page₁) h₀ h₁ hcount
  cases hafter.symm.trans (Except.ok.inj hrest)
  exact hcycles

end UndisturbedTest

/-- Undisturbed runs of a page and then disturbed ones. -/
def disturbedCycles (undisturbed disturbed : ℕ) (cycles : BitVec 64) : List (BitVec 64) :=
  List.replicate undisturbed cycles ++ List.replicate disturbed (BitVec.intMin 64)

@[simp] theorem disturbedCycles_length (undisturbed disturbed : ℕ) (cycles : BitVec 64) :
    (disturbedCycles undisturbed disturbed cycles).length = undisturbed + disturbed := by
  simp [disturbedCycles]

theorem mostlyWithin_disturbedCycles {undisturbed disturbed low high : ℕ} {cycles : BitVec 64}
    (hcycles : low ≤ cycles.toNat ∧ cycles.toNat ≤ high) (h : disturbed < undisturbed) :
    MostlyWithin low high (disturbedCycles undisturbed disturbed cycles) := by
  rw [MostlyWithin, disturbedCycles_length, disturbedCycles, List.countP_append,
    List.countP_replicate, if_pos (by simpa using hcycles)]
  omega

/-- The cycles of a test whose pages take one cycle more than the true times, with some disturbed
runs of each page. -/
def PageTimes.cycles (undisturbed disturbed : ℕ) (times : PageTimes) : List (BitVec 64) :=
  disturbedCycles undisturbed disturbed (BitVec.ofNat 64 (times.page₀ + 1)) ++
    disturbedCycles undisturbed disturbed (BitVec.ofNat 64 (times.page₁ + 1))

theorem UndisturbedTest.of_cycles {times : PageTimes} {undisturbed disturbed : ℕ}
    {executor : Executor} {rest : List (BitVec 64)} (hexact : times.Exact 1)
    (h : disturbed < undisturbed) (hobserves : executor.Observes executor.runNo
      (times.cycles undisturbed disturbed ++ rest)) :
    UndisturbedTest times 1 (undisturbed + disturbed) executor ∧
      executor.Observes (executor.runNo + (undisturbed + disturbed) + (undisturbed + disturbed))
        rest := by
  have hmost {time : ℕ} (htime : time + 1 < 2 ^ 50) : MostlyWithin (time - 1) (time + 1)
      (disturbedCycles undisturbed disturbed (BitVec.ofNat 64 (time + 1))) := by
    apply mostlyWithin_disturbedCycles _ h
    rw [BitVec.toNat_ofNat, Nat.mod_eq_of_lt (by omega)]
    omega
  obtain ⟨htest, hrest⟩ := hobserves.append
  obtain ⟨h₀, h₁⟩ := htest.append
  rw [disturbedCycles_length] at h₁
  refine ⟨⟨_, _, by simp, by simp, h₀, h₁, hmost hexact.1, hmost hexact.2⟩, ?_⟩
  rw [PageTimes.cycles, List.length_append, disturbedCycles_length, disturbedCycles_length] at hrest
  rw [Nat.add_assoc]
  exact hrest

theorem disturbedTests_within_nop : ∃ result after,
    (executorOf (disturbedCycles 6 4 100 ++ disturbedCycles 6 4 200)).testTriggerSequence instNop
      instNop instNop false 10 1 = .ok (result, after) ∧ result = ⟨0, 100⟩ := by
  obtain ⟨result, after, htest⟩ :=
    Executor.exists_nopTest 10 (executorOf (disturbedCycles 6 4 100 ++ disturbedCycles 6 4 200))
  obtain ⟨h₀, h₁⟩ :=
    (observes_executorOf (disturbedCycles 6 4 100 ++ disturbedCycles 6 4 200)).append
  have hmost (cycles : BitVec 64) :
      MostlyWithin cycles.toNat cycles.toNat (disturbedCycles 6 4 cycles) :=
    mostlyWithin_disturbedCycles ⟨le_rfl, le_rfl⟩ (by decide)
  obtain ⟨hwithin, -⟩ := disturbedTests_within h₀ h₁ rfl (hmost 100) (hmost 200) instNop instNop
    instNop 1 result after
  obtain ⟨herror, hlow, hhigh⟩ := hwithin false (by decide) (by decide) htest
  refine ⟨result, after, htest, ?_⟩
  obtain ⟨error, cyclesDifference⟩ := result
  have hcycles : (100 : BitVec 64).toNat = 100 ∧ (200 : BitVec 64).toNat = 200 := ⟨rfl, rfl⟩
  simp only [hcycles] at herror hlow hhigh
  rw [herror, (by omega : cyclesDifference = 100)]

end OsirisArm
