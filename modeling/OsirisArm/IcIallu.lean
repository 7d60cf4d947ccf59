import OsirisArm.Library.Acquisition
import Mathlib.Data.BitVec

/-! # The kernel module for the instruction cache

The module offers a device whose write operation invalidates the instruction cache. Loading it takes
a device number, a class, a device file and the character device from the kernel; every one of these
calls can fail. What the module takes and gives back is written to a ledger.
-/

namespace OsirisArm

open Library

def mkdev (major minor : BitVec 32) : BitVec 32 := major <<< 20 ||| minor
def majorOf (dev : BitVec 32) : BitVec 32 := dev >>> 20

/-- `IS_ERR`: the last 4095 addresses are error codes. -/
def isErr (pointer : BitVec 64) : Bool := 2 ^ 64 - 4095 ≤ pointer.toNat

def ptrErr (pointer : BitVec 64) : ℤ := pointer.toInt

inductive IcIalluResource where
  | chrdevRegion (dev : BitVec 32)
  | deviceClass (pointer : BitVec 64)
  | device (deviceClass : BitVec 64) (dev : BitVec 32)
  | cdev
  deriving DecidableEq

/-- What the kernel answers while the module is loaded. -/
structure KernelAnswers where
  /-- The major number of a free region. -/
  region : Option (BitVec 12)
  classCreate : BitVec 64
  deviceCreate : BitVec 64
  cdevAdd : ℤ

/-- The static variables of the module. -/
structure IcIalluStatics where
  majorNumber : BitVec 32
  icIalluClass : BitVec 64
  icIalluDevice : BitVec 64

structure IcIalluInit where
  result : ℤ
  statics : IcIalluStatics
  ledger : List (Transfer IcIalluResource)

def icIalluInit (answers : KernelAnswers) : IcIalluInit :=
  let statics : IcIalluStatics := ⟨0, 0, 0⟩
  match answers.region with
  | none => ⟨-1, statics, []⟩
  | some major =>
    let dev := mkdev (major.setWidth 32) 0
    let statics := { statics with majorNumber := majorOf dev }
    let statics := { statics with icIalluClass := answers.classCreate }
    if isErr statics.icIalluClass then
      ⟨ptrErr statics.icIalluClass, statics,
        [.acquire (.chrdevRegion dev), .release (.chrdevRegion dev)]⟩
    else
      let statics := { statics with icIalluDevice := answers.deviceCreate }
      if isErr statics.icIalluDevice then
        ⟨ptrErr statics.icIalluDevice, statics,
          [.acquire (.chrdevRegion dev), .acquire (.deviceClass statics.icIalluClass),
            .release (.deviceClass statics.icIalluClass), .release (.chrdevRegion dev)]⟩
      else if answers.cdevAdd < 0 then
        ⟨-1, statics,
          [.acquire (.chrdevRegion dev), .acquire (.deviceClass statics.icIalluClass),
            .acquire (.device statics.icIalluClass dev),
            .release (.device statics.icIalluClass dev),
            .release (.deviceClass statics.icIalluClass), .release (.chrdevRegion dev)]⟩
      else
        ⟨0, statics,
          [.acquire (.chrdevRegion dev), .acquire (.deviceClass statics.icIalluClass),
            .acquire (.device statics.icIalluClass dev), .acquire .cdev]⟩

def icIalluExit (statics : IcIalluStatics) : List (Transfer IcIalluResource) :=
  let dev := mkdev statics.majorNumber 0
  [.release .cdev, .release (.device statics.icIalluClass dev),
    .release (.deviceClass statics.icIalluClass), .release (.chrdevRegion dev)]

/-- The kernel with the module: its static variables while it is loaded, the ledger, and how often
the instruction cache was invalidated. -/
structure IcIalluKernel where
  loaded : Option IcIalluStatics
  ledger : List (Transfer IcIalluResource)
  invalidations : ℕ

inductive IcIalluAction where
  | insmod (answers : KernelAnswers)
  | rmmod
  /-- A write of `count` bytes to the device file. -/
  | write (count : ℕ)

namespace IcIalluKernel

def boot : IcIalluKernel := ⟨none, [], 0⟩

/-- An action and its result. A module is loaded only once, and only a loaded one is removed; the
device file exists while the module is loaded. -/
def act (kernel : IcIalluKernel) : IcIalluAction → ℤ × IcIalluKernel
  | .insmod answers =>
    match kernel.loaded with
    | some _ => (-17, kernel)
    | none =>
      let init := icIalluInit answers
      (init.result, { kernel with
        loaded := if init.result = 0 then some init.statics else none
        ledger := kernel.ledger ++ init.ledger })
  | .rmmod =>
    match kernel.loaded with
    | none => (-2, kernel)
    | some statics =>
      (0, { kernel with loaded := none, ledger := kernel.ledger ++ icIalluExit statics })
  | .write count =>
    match kernel.loaded with
    | none => (-1, kernel)
    | some _ => (count, { kernel with invalidations := kernel.invalidations + 1 })

def run : List IcIalluAction → IcIalluKernel → IcIalluKernel
  | [], kernel => kernel
  | action :: actions, kernel => run actions (kernel.act action).2

def results : List IcIalluAction → IcIalluKernel → List (IcIalluAction × ℤ)
  | [], _ => []
  | action :: actions, kernel =>
    (action, (kernel.act action).1) :: results actions (kernel.act action).2

end IcIalluKernel

def heldBy (statics : IcIalluStatics) : List IcIalluResource :=
  let dev := mkdev statics.majorNumber 0
  [.cdev, .device statics.icIalluClass dev, .deviceClass statics.icIalluClass,
    .chrdevRegion dev]

/-- Nothing was released that was not held, and the module holds its four resources or nothing. -/
def Accounted (kernel : IcIalluKernel) : Prop :=
  replay kernel.ledger [] = some ((kernel.loaded.map heldBy).getD [])

/-- A write that returned a number of bytes. -/
def answeredWrite : IcIalluAction × ℤ → Bool
  | (.write _, result) => 0 ≤ result
  | _ => false

def KernelAnswers.Grants (answers : KernelAnswers) : Prop :=
  answers.region.isSome ∧ isErr answers.classCreate = false ∧
    isErr answers.deviceCreate = false ∧ 0 ≤ answers.cdevAdd

theorem majorOf_mkdev (major : BitVec 12) :
    majorOf (mkdev (major.setWidth 32) 0) = major.setWidth 32 := by
  have hmajor := major.isLt
  have hdev : mkdev (major.setWidth 32) 0 = major.setWidth 32 <<< 20 := BitVec.or_zero
  apply BitVec.eq_of_toNat_eq
  rw [majorOf, hdev, BitVec.toNat_ushiftRight, BitVec.toNat_shiftLeft, BitVec.toNat_setWidth,
    Nat.shiftLeft_eq, Nat.shiftRight_eq_div_pow]
  omega

theorem ptrErr_neg {pointer : BitVec 64} (h : isErr pointer = true) : ptrErr pointer < 0 := by
  have hlast := of_decide_eq_true h
  have hbound := pointer.isLt
  rw [ptrErr, BitVec.toInt_eq_toNat_cond]
  split <;> omega

/-- The calls of the module in their order, as far as they succeed. -/
def requests (answers : KernelAnswers) : List (Option IcIalluResource) :=
  let dev := mkdev ((answers.region.getD 0).setWidth 32) 0
  [answers.region.map fun _ => .chrdevRegion dev,
    if isErr answers.classCreate then none else some (.deviceClass answers.classCreate),
    if isErr answers.deviceCreate then none else some (.device answers.classCreate dev),
    if answers.cdevAdd < 0 then none else some .cdev]

theorem icIalluInit_ledger (answers : KernelAnswers) :
    (icIalluInit answers).ledger = attempts [] (requests answers) := by
  rcases answers with ⟨_ | major, classCreate, deviceCreate, cdevAdd⟩
  · rfl
  · simp only [icIalluInit, requests]
    split_ifs <;> rfl

theorem icIalluInit_cases (answers : KernelAnswers) :
    (answers.Grants ∧ (icIalluInit answers).result = 0 ∧
      granted (requests answers) = some (heldBy (icIalluInit answers).statics).reverse) ∨
    (¬ answers.Grants ∧ (icIalluInit answers).result < 0 ∧ granted (requests answers) = none) := by
  rcases answers with ⟨_ | major, classCreate, deviceCreate, cdevAdd⟩
  · exact .inr ⟨fun h => by simp [KernelAnswers.Grants] at h, (by decide : (-1 : ℤ) < 0), rfl⟩
  simp only [icIalluInit, requests, KernelAnswers.Grants]
  by_cases hclass : isErr classCreate = true
  · exact .inr ⟨fun h => by simp [hclass] at h, by simpa [hclass] using ptrErr_neg hclass,
      by simp [hclass, granted]⟩
  by_cases hdevice : isErr deviceCreate = true
  · exact .inr ⟨fun h => by simp [hdevice] at h,
      by simpa [hclass, hdevice] using ptrErr_neg hdevice, by simp [hdevice, granted]⟩
  by_cases hadd : cdevAdd < 0
  · exact .inr ⟨fun h => by omega, by simp [hclass, hdevice, hadd], by simp [hadd, granted]⟩
  · refine .inl ⟨by simp [hclass, hdevice, Int.not_lt.1 hadd], ?_, ?_⟩
    · simp only [hclass, hdevice, hadd, if_false, Bool.false_eq_true]
    · simp only [hclass, hdevice, hadd, if_false, Bool.false_eq_true, heldBy, majorOf_mkdev]
      rfl

theorem accounted_boot : Accounted .boot := rfl

theorem Accounted.act {kernel : IcIalluKernel} (h : Accounted kernel) (action : IcIalluAction) :
    Accounted (kernel.act action).2 := by
  unfold Accounted at h ⊢
  cases hloaded : kernel.loaded with
  | none =>
    rw [hloaded] at h
    cases action with
    | insmod answers =>
      have hreplay := replay_attempts (requests answers) [] []
      simp only [IcIalluKernel.act, hloaded, icIalluInit_ledger, replay_append, h]
      obtain ⟨-, hresult, hgranted⟩ | ⟨-, hresult, hgranted⟩ := icIalluInit_cases answers
      · rw [hgranted] at hreplay
        simpa [hresult] using hreplay
      · rw [hgranted] at hreplay
        simpa [hresult.ne] using hreplay
    | rmmod => simpa [IcIalluKernel.act, hloaded] using h
    | write count => simpa [IcIalluKernel.act, hloaded] using h
  | some statics =>
    rw [hloaded] at h
    cases action with
    | insmod answers => simpa [IcIalluKernel.act, hloaded] using h
    | rmmod =>
      have hreplay := replay_releases (heldBy statics) []
      rw [List.append_nil] at hreplay
      simp only [IcIalluKernel.act, hloaded, replay_append, h]
      exact hreplay
    | write count => simpa [IcIalluKernel.act, hloaded] using h

theorem Accounted.run {kernel : IcIalluKernel} (h : Accounted kernel)
    (actions : List IcIalluAction) : Accounted (kernel.run actions) := by
  induction actions generalizing kernel with
  | nil => exact h
  | cons action actions ih => exact ih (h.act action)

theorem run_concat (actions : List IcIalluAction) (action : IcIalluAction)
    (kernel : IcIalluKernel) :
    kernel.run (actions ++ [action]) = ((kernel.run actions).act action).2 := by
  induction actions generalizing kernel with
  | nil => rfl
  | cons first actions ih => exact ih _

theorem results_concat (actions : List IcIalluAction) (action : IcIalluAction)
    (kernel : IcIalluKernel) :
    kernel.results (actions ++ [action]) =
      kernel.results actions ++ [(action, ((kernel.run actions).act action).1)] := by
  induction actions generalizing kernel with
  | nil => rfl
  | cons first actions ih =>
    rw [List.cons_append, IcIalluKernel.results, ih]
    rfl

theorem invalidations_act (kernel : IcIalluKernel) (action : IcIalluAction) :
    (kernel.act action).2.invalidations = kernel.invalidations +
      if answeredWrite (action, (kernel.act action).1) then 1 else 0 := by
  cases hloaded : kernel.loaded <;> cases action <;>
    simp [IcIalluKernel.act, hloaded, answeredWrite]

theorem invalidations_run (actions : List IcIalluAction) :
    (IcIalluKernel.boot.run actions).invalidations =
      (IcIalluKernel.boot.results actions).countP answeredWrite := by
  induction actions using List.reverseRecOn with
  | nil => rfl
  | append_singleton actions action ih =>
    rw [run_concat, results_concat, invalidations_act, ih, List.countP_append]
    simp [List.countP_cons]

theorem insmod_loaded {kernel : IcIalluKernel} {answers : KernelAnswers}
    (h : (kernel.act (.insmod answers)).1 ≠ 0) :
    (kernel.act (.insmod answers)).2.loaded = kernel.loaded := by
  cases hloaded : kernel.loaded with
  | some statics => simp [IcIalluKernel.act, hloaded]
  | none =>
    simp only [IcIalluKernel.act, hloaded] at h ⊢
    rw [if_neg h]

theorem insmod_result (kernel : IcIalluKernel) (answers : KernelAnswers) :
    ((kernel.act (.insmod answers)).1 = 0 ↔ kernel.loaded = none ∧ answers.Grants) ∧
      (kernel.act (.insmod answers)).1 ≤ 0 := by
  cases hloaded : kernel.loaded with
  | some statics => simp [IcIalluKernel.act, hloaded]
  | none =>
    simp only [IcIalluKernel.act, hloaded]
    obtain ⟨hgrants, hresult, -⟩ | ⟨hgrants, hresult, -⟩ := icIalluInit_cases answers
    · simp [hresult, hgrants]
    · simp [hresult.ne, hresult.le, hgrants]

/-- Whatever is done with the module and whichever calls of the kernel fail: nothing is given back
that is not held, the module holds its four resources or nothing, it is loaded exactly if no call
fails, and the instruction cache is invalidated once for every write that is answered. -/
theorem icIallu_accounted (actions : List IcIalluAction) :
    Accounted (IcIalluKernel.boot.run actions) ∧
      (∀ answers, let kernel := IcIalluKernel.boot.run actions
        ((kernel.act (.insmod answers)).1 = 0 ↔ kernel.loaded = none ∧ answers.Grants) ∧
          ((kernel.act (.insmod answers)).1 ≠ 0 → (kernel.act (.insmod answers)).1 < 0 ∧
            replay (kernel.act (.insmod answers)).2.ledger [] = replay kernel.ledger [])) ∧
      (IcIalluKernel.boot.run actions).invalidations =
        (IcIalluKernel.boot.results actions).countP answeredWrite := by
  have haccounted := accounted_boot.run actions
  refine ⟨haccounted, fun answers => ?_, invalidations_run actions⟩
  obtain ⟨hiff, hle⟩ := insmod_result (IcIalluKernel.boot.run actions) answers
  refine ⟨hiff, fun hne => ⟨lt_of_le_of_ne hle hne, ?_⟩⟩
  have hafter := haccounted.act (.insmod answers)
  have hloaded := insmod_loaded hne
  rw [Accounted, hloaded] at hafter
  exact hafter.trans haccounted.symm

end OsirisArm
