import OsirisArm.Executor
import OsirisArm.Library.Signals

/-! # Fault containment

Generated code may raise the signal of any exception. The executor catches four of them: the
handler counts the fault and jumps back into `ExecuteCodePage`, which unblocks the signals again. In
debug builds the handlers are registered around every page run, otherwise from the constructor of
the executor to its destructor; removing them leaves the default action, whatever was there before.
The code of a page does not change the dispositions or the mask itself.
-/

namespace OsirisArm

open Library

def Signal.number : Signal → ℕ
  | .sigsegv => 11
  | .sigfpe => 8
  | .sigill => 4
  | .sigtrap => 5

/-- The cases of the `switch` in the fault handler. -/
def Signal.ofNumber (sig : ℕ) : Option Signal :=
  if sig = Signal.sigsegv.number then some .sigsegv
  else if sig = Signal.sigfpe.number then some .sigfpe
  else if sig = Signal.sigill.number then some .sigill
  else if sig = Signal.sigtrap.number then some .sigtrap
  else none

def signalsToHandle : List ℕ :=
  [Signal.sigsegv.number, Signal.sigill.number, Signal.sigfpe.number, Signal.sigtrap.number]

/-- The signals that exceptions of the running code raise. -/
inductive FaultSignal where
  | handled (signal : Signal)
  | sigbus
  | sigsys
  deriving DecidableEq

def FaultSignal.number : FaultSignal → ℕ
  | .handled signal => signal.number
  | .sigbus => 7
  | .sigsys => 31

/-- What the code of a page does when it is called. -/
inductive CodeRun where
  | completed (cyclesElapsed : BitVec 64)
  | raised (sig : FaultSignal)
  deriving DecidableEq

/-- How a process ends before its time. -/
inductive Ending where
  | killed (sig : FaultSignal)
  /-- The handler of the sanitizer reports the fault and ends the process. -/
  | reported (sig : FaultSignal)
  | aborted
  /-- The handler jumps to a fallback point that is not set or whose function has returned. -/
  | jumpedToDeadFrame
  deriving DecidableEq

/-- The handler of the program, and the one of the sanitizer the program is built with. -/
inductive HandlerCode where
  | faultHandler
  | sanitizer

structure Process where
  signals : SignalState ℕ HandlerCode
  faultCounters : FaultCounters
  /-- The function that called `setjmp` has not returned. -/
  jumpBufLive : Bool

namespace Process

def registerFaultHandler (process : Process) : Process :=
  { process with signals := process.signals.install (.handler .faultHandler) signalsToHandle }

def unregisterFaultHandler (process : Process) : Process :=
  { process with signals := process.signals.install .default signalsToHandle }

/-- A fault: if the handler of the program is entered, it counts the fault and jumps to the
fallback point. -/
def fault (sig : FaultSignal) (process : Process) : Except Ending Process :=
  match process.signals.fault sig.number with
  | none => .error (.killed sig)
  | some (.sanitizer, _) => .error (.reported sig)
  | some (.faultHandler, signals) =>
    match Signal.ofNumber sig.number with
    | none => .error .aborted
    | some signal =>
      if process.jumpBufLive then
        .ok { process with
          signals := signals
          faultCounters := faultHandler signal process.faultCounters }
      else .error .jumpedToDeadFrame

/-- The error code and `*cycles_elapsed` of a page run. -/
def executeCodePage (debugmode : Bool) (run : CodeRun) (process : Process) :
    Except Ending ((ℤ × BitVec 64) × Process) := do
  let process := if debugmode then process.registerFaultHandler else process
  let process := { process with jumpBufLive := true }
  match run with
  | .completed cyclesElapsed =>
    let process := if debugmode then process.unregisterFaultHandler else process
    return ((0, cyclesElapsed), { process with jumpBufLive := false })
  | .raised sig =>
    let process ← process.fault sig
    let process := { process with signals := process.signals.unblock signalsToHandle }
    let process := if debugmode then process.unregisterFaultHandler else process
    return ((1, -1), { process with jumpBufLive := false })

end Process

/-- What can happen while the executor exists: a page is run, or a fault is raised somewhere else in
the program. -/
inductive Event where
  | page (run : CodeRun)
  | elsewhere (sig : FaultSignal)

namespace Process

end Process

/-- The signals while no page is running, before (`paged` is false) or after the first page. -/
def armed (debugmode paged : Bool) (signals : SignalState ℕ HandlerCode) :
    SignalState ℕ HandlerCode :=
  if debugmode then
    if paged then signals.install .default signalsToHandle else signals
  else signals.install (.handler .faultHandler) signalsToHandle

/-- A fault that the program does not handle. -/
def uncaught (signals : SignalState ℕ HandlerCode) (sig : FaultSignal) : Ending :=
  match (signals.fault sig.number).map Prod.fst with
  | none => .killed sig
  | some _ => .reported sig

/-- The result of a page run that the process survives. -/
def CodeRun.result : CodeRun → ℤ × BitVec 64
  | .completed cyclesElapsed => (0, cyclesElapsed)
  | .raised _ => (1, -1)

/-- How a page run ends a process that had these signals before the executor. -/
def CodeRun.ending (signals : SignalState ℕ HandlerCode) : CodeRun → Option Ending
  | .completed _ => none
  | .raised sig => if sig.number ∈ signalsToHandle then none else some (uncaught signals sig)

namespace Event

/-- How an event ends a process that had these signals before the executor. -/
def ending (debugmode paged : Bool) (signals : SignalState ℕ HandlerCode) : Event → Option Ending
  | page run => run.ending signals
  | elsewhere sig =>
    some (if debugmode = false ∧ sig.number ∈ signalsToHandle then .jumpedToDeadFrame
      else uncaught (armed debugmode paged signals) sig)

def results : Event → List (ℤ × BitVec 64)
  | page run => [run.result]
  | elsewhere _ => []

end Event

/-- The process while no page is running. -/
def idle (debugmode paged : Bool) (signals : SignalState ℕ HandlerCode)
    (counters : FaultCounters) : Process :=
  ⟨armed debugmode paged signals, counters, false⟩

section
variable {signals : SignalState ℕ HandlerCode} (debugmode paged : Bool) (counters : FaultCounters)

end

/-- What is below the executor as its callers see it, whose tape has completed and faulting runs
only: the process, its signals and a tape on which any signal may be raised. -/
structure ExecutorProcess where
  process : Process
  tape : ℕ → CodeRun
  runNo : ℕ

/-- A test: its number of testruns and what it makes of the cycle counts of the two pages. -/
structure Comparison where
  difference : List (BitVec 64) → List (BitVec 64) → ℤ
  noTestruns : ℕ

namespace ExecutorProcess

def executeTestrun (debugmode : Bool) (executor : ExecutorProcess) :
    Except Ending (Option (BitVec 64) × ExecutorProcess) := do
  let out ← executor.process.executeCodePage debugmode (executor.tape executor.runNo)
  return (if out.1.1 = 0 then some out.1.2 else none,
    { executor with process := out.2, runNo := executor.runNo + 1 })

def executeTestruns (debugmode : Bool) : ℕ → ExecutorProcess →
    Except Ending (Option (List (BitVec 64)) × ExecutorProcess)
  | 0, executor => .ok (some [], executor)
  | noTestruns + 1, executor => do
    match ← executor.executeTestrun debugmode with
    | (none, executor) => return (none, executor)
    | (some cyclesElapsed, executor) =>
      match ← executeTestruns debugmode noTestruns executor with
      | (none, executor) => return (none, executor)
      | (some rest, executor) => return (some (cyclesElapsed :: rest), executor)

def comparePages (debugmode : Bool) (comparison : Comparison) (executor : ExecutorProcess) :
    Except Ending (TestResult × ExecutorProcess) := do
  match ← executor.executeTestruns debugmode comparison.noTestruns with
  | (none, executor) => return (⟨1, -1⟩, executor)
  | (some cycles₀, executor) =>
    match ← executor.executeTestruns debugmode comparison.noTestruns with
    | (none, executor) => return (⟨1, -1⟩, executor)
    | (some cycles₁, executor) => return (⟨0, comparison.difference cycles₀ cycles₁⟩, executor)

def runTests (debugmode : Bool) : List Comparison → ExecutorProcess →
    Except Ending (List TestResult × ExecutorProcess)
  | [], executor => .ok ([], executor)
  | comparison :: comparisons, executor => do
    let out ← executor.comparePages debugmode comparison
    let rest ← runTests debugmode comparisons out.2
    return (out.1 :: rest.1, rest.2)

end ExecutorProcess

/-- A sequence of tests of the executor. -/
def Executor.runTests : List Comparison → Executor → List TestResult × Executor
  | [], executor => ([], executor)
  | comparison :: comparisons, executor =>
    let out := executor.comparePages comparison.difference comparison.noTestruns
    let rest := runTests comparisons out.2
    (out.1 :: rest.1, rest.2)

/-- The process is idle and has the counters and the tape of the executor. -/
structure Simulates (debugmode : Bool) (signals : SignalState ℕ HandlerCode)
    (low : ExecutorProcess) (high : Executor) : Prop where
  process : low.process =
    idle debugmode (decide (0 < high.runNo)) signals high.faultCounters
  runNo : low.runNo = high.runNo
  completed : ∀ i cyclesElapsed, low.tape i = .completed cyclesElapsed →
    high.tape i = .completed cyclesElapsed
  raised : ∀ i signal, low.tape i = .raised (.handled signal) → high.tape i = .raised signal

/-- How the first run of `start`, …, `stop - 1` that is not caught ends the process. -/
def firstFatal (signals : SignalState ℕ HandlerCode) (tape : ℕ → CodeRun) (start stop : ℕ) :
    Option Ending :=
  (List.range' start (stop - start)).findSome? fun i => (tape i).ending signals

/-- The first run that is not caught ends the process, and without such a run the process does what
the executor does. -/
structure Follows {α : Type} (debugmode : Bool) (signals : SignalState ℕ HandlerCode)
    (tape : ℕ → CodeRun) (start : ℕ) (low : Except Ending (α × ExecutorProcess))
    (high : α × Executor) : Prop where
  le : start ≤ high.2.runNo
  ended : ∀ ending, firstFatal signals tape start high.2.runNo = some ending → low = .error ending
  survived : firstFatal signals tape start high.2.runNo = none →
    ∃ after, low = .ok (high.1, after) ∧ after.tape = tape ∧
      Simulates debugmode signals after high.2

section
variable {debugmode : Bool} {signals : SignalState ℕ HandlerCode} {tape : ℕ → CodeRun}
  {α β : Type} {start : ℕ}

theorem firstFatal_split {start middle stop : ℕ} (h₁ : start ≤ middle) (h₂ : middle ≤ stop) :
    firstFatal signals tape start stop =
      (firstFatal signals tape start middle).or (firstFatal signals tape middle stop) := by
  obtain ⟨m, rfl⟩ := Nat.exists_eq_add_of_le h₁
  obtain ⟨n, rfl⟩ := Nat.exists_eq_add_of_le h₂
  have hlength : start + m + n - start = m + n := by omega
  have hfirst : start + m - start = m := by omega
  have hsecond : start + m + n - (start + m) = n := by omega
  simp only [firstFatal, hlength, hfirst, hsecond]
  rw [← List.range'_append_1, List.findSome?_append]

theorem Follows.pure {low : ExecutorProcess} {high : Executor}
    (h : Simulates debugmode signals low high) (htape : low.tape = tape) (result : α) :
    Follows debugmode signals tape high.runNo (.ok (result, low)) (result, high) where
  le := le_rfl
  ended ending hfatal := by simp [firstFatal] at hfatal
  survived _ := ⟨low, rfl, htape, h⟩

theorem Follows.bind {low : Except Ending (α × ExecutorProcess)} {high : α × Executor}
    (h : Follows debugmode signals tape start low high)
    {next : α × ExecutorProcess → Except Ending (β × ExecutorProcess)} {out : β × Executor}
    (hle : high.2.runNo ≤ out.2.runNo)
    (hnext : ∀ after : ExecutorProcess, after.tape = tape →
      Simulates debugmode signals after high.2 →
        Follows debugmode signals tape high.2.runNo (next (high.1, after)) out) :
    Follows debugmode signals tape start (low >>= next) out := by
  have hsplit : firstFatal signals tape start out.2.runNo = _ := firstFatal_split h.le hle
  cases hfirst : firstFatal signals tape start high.2.runNo with
  | some ending =>
    rw [hfirst, Option.some_or] at hsplit
    refine ⟨h.le.trans hle, fun ending' hending => ?_, fun hnone => ?_⟩
    · obtain rfl := Option.some.inj (hsplit.symm.trans hending)
      rw [h.ended ending hfirst]
      rfl
    · cases hsplit.symm.trans hnone
  | none =>
    rw [hfirst, Option.none_or] at hsplit
    obtain ⟨after, hlow, htape, hsimulates⟩ := h.survived hfirst
    have hthen := hnext after htape hsimulates
    rw [hlow]
    exact ⟨h.le.trans hle, fun ending hending => hthen.ended ending (hsplit.symm.trans hending),
      fun hnone => hthen.survived (hsplit.symm.trans hnone)⟩

end

end OsirisArm
