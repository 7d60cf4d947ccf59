import Mathlib.Data.List.Basic
import Mathlib.Data.List.Induction

/-! # Runs that switch things on and off

Every step of a run adds some members to a set and removes others. After the run a member is there
exactly if some step added it and no later step removed it.
-/

namespace OsirisArm.Library
variable {ε ρ σ : Type*}

/-- Some step adds the member and no later step removes it. -/
def LastAdded (adds removes : ε → ρ → Prop) (steps : List ε) (member : ρ) : Prop :=
  ∃ before step after, steps = before ++ step :: after ∧ adds step member ∧
    ∀ later ∈ after, ¬ removes later member

theorem not_lastAdded_nil (adds removes : ε → ρ → Prop) (member : ρ) :
    ¬ LastAdded adds removes [] member := by
  rintro ⟨before, step, after, hsteps, -⟩
  simp at hsteps

theorem lastAdded_append (adds removes : ε → ρ → Prop) (steps : List ε) (step : ε) (member : ρ) :
    LastAdded adds removes (steps ++ [step]) member ↔
      adds step member ∨ LastAdded adds removes steps member ∧ ¬ removes step member := by
  constructor
  · rintro ⟨before, added, after, hsteps, hadds, hkept⟩
    -- The step that adds the member is the last one or one of the others.
    rcases List.eq_nil_or_concat' after with rfl | ⟨after, last, rfl⟩
    · left
      obtain ⟨-, rfl⟩ := List.append_inj' hsteps rfl |>.imp_right List.singleton_inj.mp
      exact hadds
    · right
      have hsplit : steps ++ [step] = (before ++ added :: after) ++ [last] := by
        rw [hsteps, List.append_assoc, List.cons_append]
      obtain ⟨rfl, hlast⟩ := List.append_inj' hsplit rfl
      obtain rfl := List.singleton_inj.mp hlast
      refine ⟨⟨before, added, after, rfl, hadds, fun later hlater => ?_⟩, ?_⟩
      · exact hkept later (List.mem_append_left _ hlater)
      · exact hkept step (List.mem_append_right _ (List.mem_singleton_self step))
  · rintro (hadds | ⟨⟨before, added, after, rfl, hadds, hkept⟩, hlast⟩)
    · exact ⟨steps, step, [], rfl, hadds, by simp⟩
    · refine ⟨before, added, after ++ [step], by simp, hadds, fun later hlater => ?_⟩
      rcases List.mem_append.mp hlater with hlater | hlater
      · exact hkept later hlater
      · rw [List.mem_singleton.mp hlater]
        exact hlast

theorem mem_foldl_iff {step : σ → ε → σ} (mem : ρ → σ → Prop) {adds removes : ε → ρ → Prop}
    (hstep : ∀ s e r, mem r (step s e) ↔ adds e r ∨ mem r s ∧ ¬ removes e r) {initial : σ}
    (hinitial : ∀ r, ¬ mem r initial) (steps : List ε) (member : ρ) :
    mem member (steps.foldl step initial) ↔ LastAdded adds removes steps member := by
  induction steps using List.reverseRecOn with
  | nil => exact iff_of_false (hinitial member) (not_lastAdded_nil adds removes member)
  | append_singleton steps last ih =>
    rw [List.foldl_append, List.foldl_cons, List.foldl_nil, hstep, ih, lastAdded_append]

end OsirisArm.Library
