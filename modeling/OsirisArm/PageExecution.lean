import OsirisArm.CallingConvention
import OsirisArm.Executor

/-! # Running a page

A page is called, times its measurement sequence and returns the time in X0. From there the cycle
counts go through the executor: a trigger test on the machine compares the medians of the cycles
that the measurement sequence took on the two pages.
-/

namespace OsirisArm

open Library.A64 Executor

section
variable (arch : Architecture)

/-- The pieces of a body that times the measurement sequence after some other code. -/
def timedBody (setup : List (List Word)) (measurementSequence : List Word) : List (List Word) :=
  setup ++ [timerStartWords, measurementSequence, timerEndWords, resultWords]

/-- A call of a page in which everything runs through, the sequences keep the frame and the
measurement sequence keeps X26. -/
structure TimedCall (sequences setup : List (List Word)) (measurementSequence : List Word) where
  base : BitVec 64
  caller : State
  entered : State
  atTimer : State
  measured : State
  called : caller.pc = base
  aligned : caller.sp.toNat % 16 = 0
  prolog_runs : arch.run prologWords caller = some entered
  setup_runs : arch.run setup.flatten entered = some atTimer
  measurement_runs : arch.run measurementSequence (timerStarted atTimer) = some measured
  keepsFrame : SequencesKeepFrame arch sequences (timedBody setup measurementSequence) entered
  keepsStartTime : measured.r 26 = atTimer.cycles 0

namespace TimedCall

variable {arch} {sequences setup : List (List Word)} {measurementSequence : List Word}

/-- The cycles that the measurement sequence takes. -/
def cycles (call : TimedCall arch sequences setup measurementSequence) : BitVec 64 :=
  call.measured.cycles 0 - call.atTimer.cycles 0

/-- What the call of the page returns. -/
def returned (call : TimedCall arch sequences setup measurementSequence) (page : CodePage) :
    Option (BitVec 64) :=
  (arch.execute call.base (wordsOf page.content) (prologWords.length +
    (timedBody setup measurementSequence).flatten.length + epilogWords.length) call.caller).map
      fun u => u.r 0

end TimedCall

end

end OsirisArm
