import Mathlib.Data.Finset.Basic
import Mathlib.Logic.Function.Basic

/-! # Fault signals of a process

The dispositions and the signal mask of one thread, for the signals that an exception of the running
code raises. Such a signal cannot be put off: it enters its handler with the signal blocked, and it
ends the process if it has no handler, also if it is ignored, or if it is blocked. A handler that is
left by a jump instead of a return leaves its signal blocked.
-/

namespace OsirisArm.Library

/-- What a process does with a signal. -/
inductive Disposition (κ : Type*) where
  | default
  | ignore
  | handler (code : κ)

@[ext] structure SignalState (σ κ : Type*) where
  disposition : σ → Disposition κ
  blocked : Finset σ

namespace SignalState

variable {σ κ : Type*} [DecidableEq σ]

/-- `signal`, called for each of the signals. -/
def install (disposition : Disposition κ) : List σ → SignalState σ κ → SignalState σ κ
  | [], s => s
  | signal :: signals, s =>
    install disposition signals
      { s with disposition := Function.update s.disposition signal disposition }

def unblock (signals : List σ) (s : SignalState σ κ) : SignalState σ κ :=
  { s with blocked := s.blocked.filter fun signal => signal ∉ signals }

/-- A fault: the code of the handler that is entered, and the state it runs in. -/
def fault (signal : σ) (s : SignalState σ κ) : Option (κ × SignalState σ κ) :=
  match s.disposition signal with
  | .default | .ignore => none
  | .handler code =>
    if signal ∈ s.blocked then none
    else some (code, { s with blocked := insert signal s.blocked })

theorem install_blocked (disposition : Disposition κ) (signals : List σ) (s : SignalState σ κ) :
    (s.install disposition signals).blocked = s.blocked := by
  induction signals generalizing s with
  | nil => rfl
  | cons signal signals ih => rw [install, ih]

/-- None of the signals is blocked. -/
def Open (signals : List σ) (s : SignalState σ κ) : Prop := ∀ signal ∈ signals, signal ∉ s.blocked

theorem Open.install {signals : List σ} {s : SignalState σ κ} (h : s.Open signals)
    (disposition : Disposition κ) (changed : List σ) :
    (s.install disposition changed).Open signals := by
  intro signal hmem
  rw [install_blocked]
  exact h signal hmem

end SignalState

end OsirisArm.Library
