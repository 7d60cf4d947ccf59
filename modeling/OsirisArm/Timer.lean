import OsirisArm.Words

/-! # The timer around the measurement sequence

The start time waits in X26 while the measurement sequence runs. X26 is also one of the operand
registers that the prolog prepares for the sequences, so the time is right exactly for the
sequences that leave this register alone.
-/

namespace OsirisArm
open Library.A64

def timerStartWords : List Word := wordsOf timerStartInstructions.flatten
def timerEndWords : List Word := wordsOf timerEndInstructions.flatten
def resultWords : List Word := wordsOf instMovX015

/-- The operand registers that the prolog prepares. -/
def operandRegisters : List Reg := [24, 25, 26, 27]

/-- The sequence writes no other general-purpose register than these. -/
def WritesOnly (arch : Architecture) (registers : List Reg) (measurementSequence : List Word) :
    Prop :=
  ∀ s t, arch.run measurementSequence s = some t → ∀ n ∉ registers, t.r n = s.r n

/-- The state after the timer start: the first read of the counter is in X26 and X27. -/
def timerStarted (s : State) : State :=
  { s with
    r := Function.update (Function.update s.r 27 (s.cycles 0)) 26 (s.cycles 0)
    pmcr := s.pmcr ||| 7
    cycles := fun n => s.cycles (n + 1)
    pc := s.pc + 36 }

/-- If the sequence runs through, X0 is in the end the difference of the counter reads. -/
def TimerRight (arch : Architecture) (measurementSequence : List Word) (s : State) : Prop :=
  ∀ t, arch.run (timerStartWords ++ measurementSequence) s = some t →
    ∃ u, arch.run (timerEndWords ++ resultWords) t = some u ∧ u.r 0 = t.cycles 0 - s.cycles 0

/-- The sequence, run after the timer start, leaves X26 unchanged. -/
def KeepsStartTime (arch : Architecture) (measurementSequence : List Word) (s : State) : Prop :=
  ∀ t, arch.run measurementSequence (timerStarted s) = some t → t.r 26 = (timerStarted s).r 26

section
variable (arch : Architecture)

theorem run_timerStart (s : State) : arch.run timerStartWords s = some (timerStarted s) := by
  rw [timerStartWords, arch.run_eq_execAll decode_timerStart]
  simp [timerStartCode, execAll, Instruction.exec, State.setZ, State.z, State.set, State.next,
    timerStarted]
  bv_omega

/-- The end of the timer and the result move: X0 is the new read minus X26. -/
theorem run_timerEnd (t : State) :
    ∃ u, arch.run (timerEndWords ++ resultWords) t = some u ∧ u.r 0 = t.cycles 0 - t.r 26 := by
  have hdecode : (timerEndWords ++ resultWords).map decode =
      (timerEndCode ++ resultCode).map some := by
    rw [List.map_append, List.map_append]
    exact congrArg₂ _ decode_timerEnd decode_result
  rw [arch.run_eq_execAll hdecode]
  refine ⟨_, rfl, ?_⟩
  simp [State.setZ, State.z]

theorem run_started (measurementSequence : List Word) (s : State) :
    arch.run (timerStartWords ++ measurementSequence) s =
      arch.run measurementSequence (timerStarted s) := by
  rw [arch.run_append, run_timerStart, Option.bind_some]

theorem timerStarted_r (s : State) : (timerStarted s).r 26 = s.cycles 0 := by simp [timerStarted]

theorem KeepsStartTime.timerRight {measurementSequence : List Word} {s : State}
    (h : KeepsStartTime arch measurementSequence s) : TimerRight arch measurementSequence s := by
  intro t ht
  rw [run_started] at ht
  obtain ⟨u, hu, hresult⟩ := run_timerEnd arch t
  refine ⟨u, hu, ?_⟩
  rw [hresult, h t ht, timerStarted_r]

theorem TimerRight.keepsStartTime {measurementSequence : List Word} {s : State}
    (h : TimerRight arch measurementSequence s) : KeepsStartTime arch measurementSequence s := by
  intro t ht
  rw [← run_started] at ht
  obtain ⟨u, hu, hresult⟩ := h t ht
  obtain ⟨u', hu', hresult'⟩ := run_timerEnd arch t
  obtain rfl := Option.some.inj (hu.symm.trans hu')
  have hdifference : t.cycles 0 - t.r 26 = t.cycles 0 - s.cycles 0 := hresult'.symm.trans hresult
  rw [timerStarted_r]
  bv_omega

/-- The time is right if and only if the sequence leaves X26 unchanged. -/
theorem timerRight_iff (measurementSequence : List Word) (s : State) :
    TimerRight arch measurementSequence s ↔ KeepsStartTime arch measurementSequence s :=
  ⟨TimerRight.keepsStartTime arch, KeepsStartTime.timerRight arch⟩

/-- `STXR W26, X24, [X25]`, the entry `OH8ayA==` of the instruction file. -/
def instStxrW26X24X25 : Bytes := [0x38, 0x7f, 0x1a, 0xc8]

/-- Without a reservation a store exclusive stores nothing and reports 1 in its status register. -/
def withoutReservation : Architecture where
  step w s :=
    match decode w with
    | some i => i.exec s
    | none => if w = 0xC81A7F38 then some (s.set 26 1).next else none
  agrees h := by simp [h]

/-- A machine whose cycle counter is read as 100, 300, 500 and so on. -/
def countingState : State where
  r := 0
  q := 0
  mem := 0
  pc := 0
  pmcr := 0
  cycles n := BitVec.ofNat 64 (100 + 200 * n)

theorem not_timerRight_stxr :
    WritesOnly withoutReservation operandRegisters (wordsOf instStxrW26X24X25) ∧
      ¬ TimerRight withoutReservation (wordsOf instStxrW26X24X25) countingState := by
  have hrun (s : State) : withoutReservation.run (wordsOf instStxrW26X24X25) s =
      some (s.set 26 1).next := rfl
  constructor
  · intro s t ht n hn
    rw [hrun] at ht
    obtain rfl := Option.some.inj ht
    have hn26 : n ≠ 26 := fun h => hn (by simp [h, operandRegisters])
    simp [hn26]
  · intro hright
    have hkeeps := hright.keepsStartTime _ _ (hrun _)
    simp [timerStarted, countingState] at hkeeps

end

end OsirisArm
