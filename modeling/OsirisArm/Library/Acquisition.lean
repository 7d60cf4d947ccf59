import Mathlib.Data.List.Basic

/-! # Acquiring resources one after the other

A ledger of acquired and released resources, replayed on a stack: a release has to name the resource
that was acquired last. A program that acquires several resources and gives up at the first failure
releases what it has got in the opposite order, and holds all of them or none.
-/

namespace OsirisArm.Library

/-- An entry of a ledger. -/
inductive Transfer (ρ : Type*) where
  | acquire (resource : ρ)
  | release (resource : ρ)
  deriving DecidableEq

variable {ρ : Type*} [DecidableEq ρ]

/-- The resources held after the entries, the last acquired first; `none` if one is released that is
not at the top. -/
def replay : List (Transfer ρ) → List ρ → Option (List ρ)
  | [], held => some held
  | .acquire resource :: entries, held => replay entries (resource :: held)
  | .release _ :: _, [] => none
  | .release resource :: entries, top :: held =>
    if resource = top then replay entries held else none

theorem replay_append (entries entries' : List (Transfer ρ)) (held : List ρ) :
    replay (entries ++ entries') held = (replay entries held).bind (replay entries') := by
  induction entries generalizing held with
  | nil => rfl
  | cons entry entries ih =>
    match entry, held with
    | .acquire resource, held => exact ih (resource :: held)
    | .release resource, [] => rfl
    | .release resource, top :: held =>
      rw [List.cons_append, replay, replay]
      split
      · exact ih held
      · rfl

/-- The entries of a program that releases what it holds. -/
def releases (held : List ρ) : List (Transfer ρ) := held.map .release

theorem replay_releases (held below : List ρ) :
    replay (releases held) (held ++ below) = some below := by
  induction held with
  | nil => rfl
  | cons resource held ih =>
    rw [releases, List.map_cons, List.cons_append, replay, if_pos rfl]
    exact ih

/-- Acquire the resources in order, with `held` acquired so far; a failed attempt is `none`. -/
def attempts (held : List ρ) : List (Option ρ) → List (Transfer ρ)
  | [] => []
  | none :: _ => releases held
  | some resource :: rest => .acquire resource :: attempts (resource :: held) rest

def granted (requests : List (Option ρ)) : Option (List ρ) := requests.mapM id

theorem replay_attempts (requests : List (Option ρ)) (held below : List ρ) :
    replay (attempts held requests) (held ++ below) =
      some (match granted requests with
        | some resources => resources.reverse ++ held ++ below
        | none => below) := by
  induction requests generalizing held with
  | nil => rfl
  | cons request requests ih =>
    cases request with
    | none => exact replay_releases held below
    | some resource =>
      have hrest := ih (resource :: held)
      rw [attempts, replay]
      rw [List.cons_append] at hrest
      rw [hrest, granted, granted, List.mapM_cons]
      cases requests.mapM id with
      | none => rfl
      | some resources => simp

end OsirisArm.Library
