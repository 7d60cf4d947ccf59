import Mathlib.Data.Nat.Notation
import Mathlib.Tactic.TypeStar

/-! # While loops

A loop is its condition and its body. Since it need not end, it is run with a bound on its rounds.
An invariant tells what holds at its end, a measure that the end is reached, and an invariant that
keeps the condition true that it never is.
-/

namespace OsirisArm.Library
variable {σ : Type*}

structure WhileLoop (σ : Type*) where
  condition : σ → Bool
  body : σ → σ

namespace WhileLoop

/-- The state at the end of the loop, if it needs no more than `rounds` rounds. -/
def run (loop : WhileLoop σ) : ℕ → σ → Option σ
  | 0, s => if loop.condition s then none else some s
  | rounds + 1, s => if loop.condition s then loop.run rounds (loop.body s) else some s

def EndsIn (loop : WhileLoop σ) (s t : σ) : Prop := ∃ rounds, loop.run rounds s = some t

def Ends (loop : WhileLoop σ) (s : σ) : Prop := ∃ t, loop.EndsIn s t

variable {loop : WhileLoop σ} {s t : σ}

theorem run_of_false (h : loop.condition s = false) (rounds : ℕ) : loop.run rounds s = some s := by
  cases rounds with
  | zero => simp [run, h]
  | succ rounds => simp [run, h]

theorem run_succ_of_true (h : loop.condition s = true) (rounds : ℕ) :
    loop.run (rounds + 1) s = loop.run rounds (loop.body s) := by
  simp [run, h]

theorem endsIn_of_false (h : loop.condition s = false) : loop.EndsIn s s :=
  ⟨0, run_of_false h 0⟩

theorem EndsIn.round (hcondition : loop.condition s = true) (h : loop.EndsIn (loop.body s) t) :
    loop.EndsIn s t := by
  obtain ⟨rounds, hrun⟩ := h
  exact ⟨rounds + 1, by rw [run_succ_of_true hcondition, hrun]⟩

theorem EndsIn.of_round (hcondition : loop.condition s = true) (h : loop.EndsIn s t) :
    loop.EndsIn (loop.body s) t := by
  obtain ⟨rounds, hrun⟩ := h
  cases rounds with
  | zero => simp [run, hcondition] at hrun
  | succ rounds => exact ⟨rounds, by rw [← hrun, run_succ_of_true hcondition]⟩

theorem EndsIn.eq_of_false (hcondition : loop.condition s = false) (h : loop.EndsIn s t) :
    t = s := by
  obtain ⟨rounds, hrun⟩ := h
  rw [run_of_false hcondition] at hrun
  exact (Option.some.inj hrun).symm

theorem EndsIn.unique {t' : σ} (h : loop.EndsIn s t) (h' : loop.EndsIn s t') : t = t' := by
  obtain ⟨rounds, hrun⟩ := h
  induction rounds generalizing s with
  | zero =>
    cases hcondition : loop.condition s with
    | true => simp [run, hcondition] at hrun
    | false => rw [EndsIn.eq_of_false hcondition ⟨0, hrun⟩, h'.eq_of_false hcondition]
  | succ rounds ih =>
    cases hcondition : loop.condition s with
    | true =>
      rw [run_succ_of_true hcondition] at hrun
      exact ih (h'.of_round hcondition) hrun
    | false => rw [EndsIn.eq_of_false hcondition ⟨_, hrun⟩, h'.eq_of_false hcondition]

/-- What every round keeps holds at the end, where the condition is false. -/
theorem EndsIn.invariant {I : σ → Prop}
    (hround : ∀ s, I s → loop.condition s = true → I (loop.body s)) (hstart : I s)
    (h : loop.EndsIn s t) : I t ∧ loop.condition t = false := by
  obtain ⟨rounds, hrun⟩ := h
  induction rounds generalizing s with
  | zero =>
    cases hcondition : loop.condition s with
    | true => simp [run, hcondition] at hrun
    | false =>
      rw [run_of_false hcondition] at hrun
      obtain rfl := Option.some.inj hrun
      exact ⟨hstart, hcondition⟩
  | succ rounds ih =>
    cases hcondition : loop.condition s with
    | true =>
      rw [run_succ_of_true hcondition] at hrun
      exact ih (hround s hstart hcondition) hrun
    | false =>
      rw [run_of_false hcondition] at hrun
      obtain rfl := Option.some.inj hrun
      exact ⟨hstart, hcondition⟩

theorem ends_of_measure {I : σ → Prop} (measure : σ → ℕ)
    (hround : ∀ s, I s → loop.condition s = true →
      I (loop.body s) ∧ measure (loop.body s) < measure s)
    (hstart : I s) : loop.Ends s := by
  generalize hn : measure s = n
  induction n using Nat.strongRecOn generalizing s with
  | ind n ih =>
    cases hcondition : loop.condition s with
    | true =>
      obtain ⟨hnext, hlower⟩ := hround s hstart hcondition
      obtain ⟨t, ht⟩ := ih _ (hn ▸ hlower) hnext rfl
      exact ⟨t, ht.round hcondition⟩
    | false => exact ⟨s, endsIn_of_false hcondition⟩

/-- The two rules together: such a loop ends, and its invariant holds there. -/
theorem exists_endsIn_of_measure {I : σ → Prop} (measure : σ → ℕ)
    (hround : ∀ s, I s → loop.condition s = true →
      I (loop.body s) ∧ measure (loop.body s) < measure s)
    (hstart : I s) : ∃ t, loop.EndsIn s t ∧ I t ∧ loop.condition t = false := by
  obtain ⟨t, ht⟩ := ends_of_measure measure hround hstart
  exact ⟨t, ht, ht.invariant (fun s hs hcondition => (hround s hs hcondition).1) hstart⟩

/-- A loop whose condition is true in every round does not end. -/
theorem not_ends_of_invariant {I : σ → Prop}
    (hround : ∀ s, I s → loop.condition s = true ∧ I (loop.body s)) (hstart : I s) :
    ¬ loop.Ends s := by
  rintro ⟨t, h⟩
  obtain ⟨hend, hfalse⟩ := h.invariant (fun s hs _ => (hround s hs).2) hstart
  rw [(hround t hend).1] at hfalse
  cases hfalse

end WhileLoop
end OsirisArm.Library
