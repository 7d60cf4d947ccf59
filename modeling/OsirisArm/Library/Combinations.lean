import Mathlib.Algebra.BigOperators.Group.List.Basic
import Mathlib.Algebra.Group.Nat.Defs
import Mathlib.Data.List.Forall2

/-! # Combinations of alternatives

The combinations of one element from each of several lists, the last element changing fastest. An
empty list leaves no combination at all.
-/

namespace OsirisArm.Library
variable {α β : Type*}

def combinations : List (List α) → List (List α)
  | [] => [[]]
  | alternatives :: rest =>
    alternatives.flatMap fun a => (combinations rest).map fun combo => a :: combo

theorem combinations_length (lists : List (List α)) :
    (combinations lists).length = (lists.map List.length).prod := by
  induction lists with
  | nil => rfl
  | cons alternatives rest ih =>
    simp only [combinations, List.length_flatMap, List.length_map, ih, List.map_cons,
      List.prod_cons, List.map_const', List.sum_replicate_nat]

theorem mem_combinations {lists : List (List α)} {combo : List α} :
    combo ∈ combinations lists ↔ List.Forall₂ (· ∈ ·) combo lists := by
  induction lists generalizing combo with
  | nil => simp [combinations]
  | cons alternatives rest ih =>
    simp only [combinations, List.mem_flatMap, List.mem_map]
    constructor
    · rintro ⟨a, ha, combo, hcombo, rfl⟩
      exact .cons ha (ih.mp hcombo)
    · intro h
      cases h with
      | cons ha hrest => exact ⟨_, ha, _, ih.mpr hrest, rfl⟩

theorem combinations_map (f : α → β) (lists : List (List α)) :
    combinations (lists.map (List.map f)) = (combinations lists).map (List.map f) := by
  induction lists with
  | nil => rfl
  | cons alternatives rest ih =>
    simp only [List.map_cons, combinations, ih, List.flatMap_map, List.map_flatMap, List.map_map]
    rfl

theorem combinations_eq_nil {lists : List (List α)} (h : [] ∈ lists) : combinations lists = [] := by
  induction lists with
  | nil => cases h
  | cons alternatives rest ih =>
    rcases List.mem_cons.mp h with hnil | hrest
    · rw [combinations, ← hnil, List.flatMap_nil]
    · simp [combinations, ih hrest]

theorem exists_mem_combinations {lists : List (List α)} (h : ∀ l ∈ lists, l ≠ []) :
    ∃ combo, combo ∈ combinations lists := by
  induction lists with
  | nil => exact ⟨[], List.mem_singleton_self _⟩
  | cons alternatives rest ih =>
    rw [List.forall_mem_cons] at h
    obtain ⟨a, ha⟩ := List.exists_mem_of_ne_nil alternatives h.1
    obtain ⟨combo, hcombo⟩ := ih h.2
    exact ⟨a :: combo, mem_combinations.mpr (.cons ha (mem_combinations.mp hcombo))⟩

theorem exists_combination_of_mem {lists : List (List α)} (h : ∀ l ∈ lists, l ≠ [])
    {alternatives : List α} (halternatives : alternatives ∈ lists) {a : α} (ha : a ∈ alternatives) :
    ∃ combo ∈ combinations lists, a ∈ combo := by
  induction lists with
  | nil => cases halternatives
  | cons first rest ih =>
    rw [List.forall_mem_cons] at h
    rcases List.mem_cons.mp halternatives with rfl | hrest
    · obtain ⟨combo, hcombo⟩ := exists_mem_combinations h.2
      exact ⟨a :: combo, mem_combinations.mpr (.cons ha (mem_combinations.mp hcombo)),
        List.mem_cons_self⟩
    · obtain ⟨combo, hcombo, hmem⟩ := ih h.2 hrest
      obtain ⟨b, hb⟩ := List.exists_mem_of_ne_nil first h.1
      exact ⟨b :: combo, mem_combinations.mpr (.cons hb (mem_combinations.mp hcombo)),
        List.mem_cons_of_mem b hmem⟩

theorem forall₂_exists_right {R : α → β → Prop} {as : List α} {bs : List β}
    (h : List.Forall₂ R as bs) {a : α} (ha : a ∈ as) : ∃ b ∈ bs, R a b := by
  induction h with
  | nil => cases ha
  | cons hab _ ih =>
    rcases List.mem_cons.mp ha with rfl | hrest
    · exact ⟨_, List.mem_cons_self, hab⟩
    · obtain ⟨b, hb, hr⟩ := ih hrest
      exact ⟨b, List.mem_cons_of_mem _ hb, hr⟩

/-- A loop that maps a list runs through exactly if every round does. -/
theorem mapM_ok_iff {ε : Type*} {f : α → Except ε β} {as : List α} {bs : List β} :
    as.mapM f = .ok bs ↔ List.Forall₂ (fun a b => f a = .ok b) as bs := by
  induction as generalizing bs with
  | nil =>
    rw [List.mapM_nil, List.forall₂_nil_left_iff]
    constructor
    · intro h
      exact (Except.ok.inj h).symm
    · rintro rfl
      rfl
  | cons a as ih =>
    rw [List.mapM_cons]
    constructor
    · intro h
      cases hfirst : f a with
      | error e =>
        rw [hfirst] at h
        cases h
      | ok b =>
        cases hrest : as.mapM f with
        | error e =>
          rw [hfirst, hrest] at h
          cases h
        | ok bs' =>
          rw [hfirst, hrest] at h
          obtain rfl := Except.ok.inj h
          exact .cons hfirst (ih.mp hrest)
    · intro h
      cases h with
      | cons hfirst hrest =>
        rw [hfirst, ih.mpr hrest]
        rfl

theorem mapM_eq_map {ε : Type*} {f : α → Except ε β} {g : α → β} {as : List α}
    (h : ∀ a ∈ as, f a = .ok (g a)) : as.mapM f = .ok (as.map g) := by
  rw [mapM_ok_iff, List.forall₂_map_right_iff]
  exact List.forall₂_same.mpr h

end OsirisArm.Library
