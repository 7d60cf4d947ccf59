import OsirisArm.Library.Selection
import Mathlib.Data.List.Sort

/-! # Selections of several lists

The best elements of several lists together are found among the best elements of each list. So the
lists can be selected from one by one, in any grouping, and the selections merged at the end.
-/

namespace OsirisArm.Library.Selection

variable {α κ : Type*} [DecidableEq κ]

theorem Numbered.ext {l l' : List (α × ℕ)} (hl : Numbered l) (hl' : Numbered l')
    (h : ∀ p, p ∈ l ↔ p ∈ l') : l = l' := by
  have hnodup {l : List (α × ℕ)} (hl : Numbered l) : l.Nodup :=
    hl.imp fun hlt heq => by simp [heq] at hlt
  have hperm := (List.perm_ext_iff_of_nodup (hnodup hl) (hnodup hl')).2 h
  exact hperm.eq_of_pairwise (fun p q _ _ hpq hqp => absurd hpq (Nat.lt_asymm hqp)) hl hl'

omit [DecidableEq κ] in
/-- A heavy element is the best of its group when it is the best of the heavy ones. -/
theorem isBest_filter_heavy {key : α → κ} {weight : α → ℕ} {l : List (α × ℕ)} {heavy : ℕ}
    {p : α × ℕ} (hp : heavy ≤ weight p.1) :
    IsBest key weight (l.filter fun q => heavy ≤ weight q.1) p ↔ IsBest key weight l p := by
  constructor
  · intro h q hq hkey
    by_cases hheavy : heavy ≤ weight q.1
    · exact h q (List.mem_filter.mpr ⟨hq, decide_eq_true hheavy⟩) hkey
    · have hlight : weight q.1 < weight p.1 := by omega
      exact ⟨hlight.le, fun _ => hlight⟩
  · intro h
    exact h.sublist List.filter_sublist

/-- Elements that are not best can be left out before the selection. -/
theorem select_of_select_subset {key : α → κ} {weight : α → ℕ} {l l' : List (α × ℕ)}
    (hl : Numbered l) (hsub : l'.Sublist l) (hbest : ∀ p ∈ select key weight l, p ∈ l') :
    select key weight l' = select key weight l := by
  have hl' := hl.sublist hsub
  refine (hl'.sublist List.filter_sublist).ext (hl.sublist List.filter_sublist) fun p => ?_
  change p ∈ select key weight l' ↔ p ∈ select key weight l
  rw [mem_select, mem_select]
  constructor
  · rintro ⟨hmem, hp⟩
    -- The best element of the group of `p` is in the shorter list too, so it is `p`.
    obtain ⟨c, hc, hkey, hcbest⟩ := exists_isBest key weight (hsub.subset hmem)
    have hcmem := hbest c (mem_select.2 ⟨hc, hcbest⟩)
    obtain rfl := IsBest.unique hl' hcmem hmem hkey (hcbest.sublist hsub) hp
    exact ⟨hc, hcbest⟩
  · rintro ⟨hmem, hp⟩
    exact ⟨hbest p (mem_select.2 ⟨hmem, hp⟩), hp.sublist hsub⟩

theorem map_fst_zipIdx (xs : List α) (n : ℕ) : (xs.zipIdx n).map Prod.fst = xs := by
  induction xs generalizing n with
  | nil => rfl
  | cons x xs ih => rw [List.zipIdx_cons, List.map_cons, ih]

theorem firstBest_eq_zipIdx (key : α → κ) (weight : α → ℕ) (xs : List α) (n : ℕ) :
    firstBest key weight xs = (select key weight (xs.zipIdx n)).map Prod.fst := by
  conv_lhs => rw [← map_fst_zipIdx xs n]
  exact firstBest_map_fst (numbered_zipIdx xs n)

/-- Two lists are selected from together by selecting from each and then from both selections. -/
theorem firstBest_append (key : α → κ) (weight : α → ℕ) (xs ys : List α) :
    firstBest key weight (xs ++ ys) =
      firstBest key weight (firstBest key weight xs ++ firstBest key weight ys) := by
  set first := xs.zipIdx 0
  set second := ys.zipIdx (0 + xs.length)
  have hzip : (xs ++ ys).zipIdx = first ++ second := List.zipIdx_append
  have hnumbered : Numbered (first ++ second) := hzip ▸ numbered_zipIdx (xs ++ ys) 0
  have hsub : (select key weight first ++ select key weight second).Sublist (first ++ second) :=
    List.Sublist.append List.filter_sublist List.filter_sublist
  have hselect : select key weight (select key weight first ++ select key weight second) =
      select key weight (first ++ second) := by
    refine select_of_select_subset hnumbered hsub fun p hp => ?_
    obtain ⟨hmem, hbest⟩ := mem_select.1 hp
    rw [List.mem_append] at hmem ⊢
    refine hmem.imp (fun h => mem_select.2 ⟨h, ?_⟩) fun h => mem_select.2 ⟨h, ?_⟩
    · exact hbest.sublist (List.sublist_append_left first second)
    · exact hbest.sublist (List.sublist_append_right first second)
  calc firstBest key weight (xs ++ ys)
      = (select key weight (first ++ second)).map Prod.fst := by rw [firstBest, hzip]
    _ = (select key weight (select key weight first ++ select key weight second)).map
        Prod.fst := by rw [hselect]
    _ = firstBest key weight
        ((select key weight first ++ select key weight second).map Prod.fst) :=
      (firstBest_map_fst (hnumbered.sublist hsub)).symm
    _ = firstBest key weight (firstBest key weight xs ++ firstBest key weight ys) := by
      rw [List.map_append, firstBest_eq_zipIdx key weight xs 0, firstBest_eq_zipIdx key weight ys]

theorem firstBest_self (key : α → κ) (weight : α → ℕ) (xs : List α) :
    firstBest key weight (firstBest key weight xs) = firstBest key weight xs :=
  firstBest_firstBest fun _ _ _ _ h => h

theorem firstBest_flatten (key : α → κ) (weight : α → ℕ) (parts : List (List α)) :
    firstBest key weight parts.flatten =
      firstBest key weight (parts.flatMap (firstBest key weight)) := by
  induction parts with
  | nil => rfl
  | cons xs parts ih =>
    rw [List.flatten_cons, firstBest_append, ih, List.flatMap_cons]
    -- The selection from the first list is its own selection.
    conv_rhs => rw [firstBest_append, firstBest_self]

end OsirisArm.Library.Selection
