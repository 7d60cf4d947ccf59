import OsirisArm.Library.Selection
import Mathlib.Logic.Function.Basic

/-! # Collecting the best element of each group in a map

One pass over a numbered list keeps, for every key, the best element seen so far. The map may hold
elements of an earlier pass; an element of the list replaces what is there only if it weighs more.
-/

namespace OsirisArm.Library.Selection
variable {α β κ : Type*} [DecidableEq κ]

/-- The better one of the best element so far and a new one. -/
def improve (weight : β → ℕ) (best : Option β) (new : β) : Option β :=
  match best with
  | none => some new
  | some old => if weight old < weight new then some new else some old

/-- The map after a pass over the list. -/
def collect (key : α → κ) (weight : β → ℕ) (entry : α × ℕ → β) (seen : κ → Option β)
    (l : List (α × ℕ)) : κ → Option β :=
  l.foldl (fun seen p =>
    Function.update seen (key p.1) (improve weight (seen (key p.1)) (entry p))) seen

@[simp] theorem collect_nil (key : α → κ) (weight : β → ℕ) (entry : α × ℕ → β)
    (seen : κ → Option β) : collect key weight entry seen [] = seen := rfl

theorem collect_cons (key : α → κ) (weight : β → ℕ) (entry : α × ℕ → β)
    (seen : κ → Option β) (p : α × ℕ) (l : List (α × ℕ)) :
    collect key weight entry seen (p :: l) = collect key weight entry
      (Function.update seen (key p.1) (improve weight (seen (key p.1)) (entry p))) l := rfl

theorem collect_append (key : α → κ) (weight : β → ℕ) (entry : α × ℕ → β)
    (seen : κ → Option β) (l l' : List (α × ℕ)) :
    collect key weight entry seen (l ++ l') =
      collect key weight entry (collect key weight entry seen l) l' := List.foldl_append

/-- What the map holds was there before or is an element of the list. -/
theorem collect_cases {key : α → κ} {weight : β → ℕ} {entry : α × ℕ → β} {seen : κ → Option β}
    {l : List (α × ℕ)} {k : κ} {b : β} (h : collect key weight entry seen l k = some b) :
    seen k = some b ∨ ∃ p ∈ l, entry p = b := by
  induction l generalizing seen with
  | nil => exact .inl h
  | cons p l ih =>
    rw [collect_cons] at h
    rcases ih h with hseen | ⟨q, hq, hb⟩
    · by_cases hk : k = key p.1
      · subst hk
        rw [Function.update_self] at hseen
        unfold improve at hseen
        split at hseen
        · exact .inr ⟨p, List.mem_cons_self, Option.some.inj hseen⟩
        · next hold =>
          split at hseen
          · exact .inr ⟨p, List.mem_cons_self, Option.some.inj hseen⟩
          · exact .inl (hold.trans hseen)
      · rw [Function.update_of_ne hk] at hseen
        exact .inl hseen
    · exact .inr ⟨q, List.mem_cons_of_mem p hq, hb⟩

/-- What the map holds for a key depends on the elements with this key only. -/
theorem collect_apply (key : α → κ) (weight : β → ℕ) (entry : α × ℕ → β) (seen : κ → Option β)
    (l : List (α × ℕ)) (k : κ) :
    collect key weight entry seen l k =
      ((l.filter (fun p => decide (key p.1 = k))).map entry).foldl (improve weight) (seen k) := by
  induction l generalizing seen with
  | nil => rfl
  | cons p l ih =>
    rw [collect_cons, ih]
    by_cases hk : key p.1 = k
    · subst hk
      rw [List.filter_cons_of_pos (by simp), List.map_cons, List.foldl_cons,
        Function.update_self]
    · rw [List.filter_cons_of_neg (by simpa using hk), Function.update_of_ne (Ne.symm hk)]

theorem foldl_improve_none (weight : β → ℕ) (l : List β) :
    l.foldl (improve weight) none = l.argmax weight := by
  rw [List.argmax]
  congr 1
  funext best new
  cases best <;> rfl

/-- An old element survives a pass unless the best element of the list weighs more. -/
theorem foldl_improve_some (weight : β → ℕ) (old : β) (l : List β) :
    l.foldl (improve weight) (some old) =
      match l.argmax weight with
      | none => some old
      | some new => if weight old < weight new then some new else some old := by
  have h : l.foldl (improve weight) (some old) = (old :: l).argmax weight :=
    foldl_improve_none weight (old :: l)
  rw [h, List.argmax_cons]
  cases l.argmax weight <;> rfl

theorem exists_foldl_improve (weight : β → ℕ) (best : Option β) {l : List β} (hl : l ≠ []) :
    ∃ b, l.foldl (improve weight) best = some b := by
  obtain ⟨e, es, rfl⟩ := List.exists_cons_of_ne_nil hl
  obtain ⟨b, hb⟩ : ∃ b, improve weight best e = some b := by
    cases best with
    | none => exact ⟨e, rfl⟩
    | some old =>
      by_cases hlt : weight old < weight e
      · exact ⟨e, if_pos hlt⟩
      · exact ⟨old, if_neg hlt⟩
  rw [List.foldl_cons, hb, foldl_improve_some]
  split
  · exact ⟨b, rfl⟩
  · split
    · exact ⟨_, rfl⟩
    · exact ⟨b, rfl⟩

/-- After a pass the map holds something for the key of every element. -/
theorem exists_collect {key : α → κ} {weight : β → ℕ} {entry : α × ℕ → β}
    {seen : κ → Option β} {l : List (α × ℕ)} {p : α × ℕ} (hp : p ∈ l) :
    ∃ b, collect key weight entry seen l (key p.1) = some b := by
  rw [collect_apply]
  apply exists_foldl_improve
  apply List.ne_nil_of_mem (a := entry p)
  exact List.mem_map_of_mem (List.mem_filter.mpr ⟨hp, by simp⟩)

theorem argmax_map (entry : α → β) (weight : β → ℕ) (l : List α) :
    (l.map entry).argmax weight = (l.argmax (fun a => weight (entry a))).map entry := by
  induction l with
  | nil => rfl
  | cons a l ih =>
    rw [List.map_cons, List.argmax_cons, List.argmax_cons, ih]
    cases l.argmax (fun a => weight (entry a)) with
    | none => rfl
    | some c => simp only [Option.map_some]; split <;> rfl

theorem collect_empty (key : α → κ) (weight : β → ℕ) (entry : α × ℕ → β) (l : List (α × ℕ))
    (k : κ) : collect key weight entry (fun _ => none) l k =
      ((l.filter fun p => decide (key p.1 = k)).argmax fun p => weight (entry p)).map entry := by
  rw [collect_apply, foldl_improve_none, argmax_map]

section Best
variable {key : α → κ} {weight : α → ℕ} {weight' : β → ℕ} {entry : α × ℕ → β}

/-- A pass ends with the best element of a group if what the map held before weighs less. -/
theorem collect_eq_best (hweight : ∀ p, weight' (entry p) = weight p.1) {seen : κ → Option β}
    {l : List (α × ℕ)} (hl : Numbered l) {best : α × ℕ} (hmem : best ∈ l)
    (hbest : IsBest key weight l best)
    (hold : ∀ b, seen (key best.1) = some b → weight' b < weight best.1 ∨ b = entry best) :
    collect key weight' entry seen l (key best.1) = some (entry best) := by
  have hargmax := (argmax_eq_some_iff_isBest hl).mpr ⟨hmem, rfl, hbest⟩
  have hentries : ((l.filter fun p => decide (key p.1 = key best.1)).map entry).argmax weight' =
      some (entry best) := by
    rw [argmax_map]
    simp only [hweight, hargmax, Option.map_some]
  rw [collect_apply]
  cases hseen : seen (key best.1) with
  | none => rw [foldl_improve_none, hentries]
  | some b =>
    rw [foldl_improve_some, hentries]
    rcases hold b hseen with hlt | heq
    · exact if_pos (by rwa [hweight])
    · rw [heq]
      exact ite_self _

/-- A pass that starts without an element of the group ends with the best one of the list. -/
theorem collect_of_none (hweight : ∀ p, weight' (entry p) = weight p.1) {seen : κ → Option β}
    {l : List (α × ℕ)} (hl : Numbered l) {p : α × ℕ} (hp : p ∈ l)
    (hseen : seen (key p.1) = none) :
    ∃ best ∈ l, key best.1 = key p.1 ∧ IsBest key weight l best ∧
      collect key weight' entry seen l (key p.1) = some (entry best) := by
  obtain ⟨best, hmem, hkey, hbest⟩ := exists_isBest key weight hp
  refine ⟨best, hmem, hkey, hbest, ?_⟩
  rw [← hkey] at hseen ⊢
  apply collect_eq_best hweight hl hmem hbest
  intro b hb
  rw [hseen] at hb
  cases hb

end Best

end OsirisArm.Library.Selection
