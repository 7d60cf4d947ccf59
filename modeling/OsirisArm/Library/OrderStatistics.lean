import Mathlib.Data.List.Sort
import Mathlib.Algebra.Order.Field.Basic
import Mathlib.Order.Bounds.Basic
import Mathlib.Tactic.Linarith

/-! # Order statistics and medians

The `k`-th order statistic of a list, counted from zero, is a member with at most `k` members below
it and more than `k` members not above it. It does not depend on the order of the list; in the
sorted list it stands at position `k`. A median is described by the members on its two sides.
-/

namespace OsirisArm.Library
variable {α β : Type*} [LinearOrder α] [LinearOrder β]

theorem countP_le_mono (values : List α) {x y : α} (h : x ≤ y) :
    values.countP (· ≤ x) ≤ values.countP (· ≤ y) := by
  apply List.countP_mono_left
  intro z _ hz
  simp only [decide_eq_true_eq] at hz ⊢
  exact hz.trans h

theorem countP_ge_anti (values : List α) {x y : α} (h : x ≤ y) :
    values.countP (y ≤ ·) ≤ values.countP (x ≤ ·) := by
  apply List.countP_mono_left
  intro z _ hz
  simp only [decide_eq_true_eq] at hz ⊢
  exact h.trans hz

structure IsOrderStatistic (values : List α) (k : ℕ) (x : α) : Prop where
  mem : x ∈ values
  below : values.countP (· < x) ≤ k
  notAbove : k < values.countP (· ≤ x)

namespace IsOrderStatistic
variable {values values' : List α} {j k : ℕ} {x y : α}

theorem lt_length (h : IsOrderStatistic values k x) : k < values.length :=
  lt_of_lt_of_le h.notAbove List.countP_le_length

theorem mono (hx : IsOrderStatistic values j x) (hy : IsOrderStatistic values k y) (h : j ≤ k) :
    x ≤ y := by
  by_contra hlt
  have hcount : values.countP (· ≤ y) ≤ values.countP (· < x) := by
    apply List.countP_mono_left
    intro z _ hz
    simp only [decide_eq_true_eq] at hz ⊢
    exact lt_of_le_of_lt hz (not_le.mp hlt)
  have := hx.below
  have := hy.notAbove
  omega

theorem unique (hx : IsOrderStatistic values k x) (hy : IsOrderStatistic values k y) : x = y :=
  le_antisymm (hx.mono hy le_rfl) (hy.mono hx le_rfl)

theorem perm (h : IsOrderStatistic values k x) (hperm : values.Perm values') :
    IsOrderStatistic values' k x where
  mem := hperm.mem_iff.mp h.mem
  below := by
    rw [← hperm.countP_eq]
    exact h.below
  notAbove := by
    rw [← hperm.countP_eq]
    exact h.notAbove

theorem map {f : α → β} (hf : StrictMono f) (h : IsOrderStatistic values k x) :
    IsOrderStatistic (values.map f) k (f x) where
  mem := List.mem_map_of_mem h.mem
  below := by
    rw [List.countP_map]
    simpa [Function.comp_def, hf.lt_iff_lt] using h.below
  notAbove := by
    rw [List.countP_map]
    simpa [Function.comp_def, hf.le_iff_le] using h.notAbove

theorem map_strictAnti {f : α → β} (hf : StrictAnti f) (h : IsOrderStatistic values k x) :
    IsOrderStatistic (values.map f) (values.length - 1 - k) (f x) where
  mem := List.mem_map_of_mem h.mem
  below := by
    have hsplit := List.length_eq_countP_add_countP (l := values) (· ≤ x)
    have habove : (values.map f).countP (· < f x) = values.countP (x < ·) := by
      rw [List.countP_map]
      exact List.countP_congr fun value _ => by simp [hf.lt_iff_gt]
    have hcompl : values.countP (fun value => ¬ decide (value ≤ x)) = values.countP (x < ·) :=
      List.countP_congr fun value _ => by simp
    have hnotAbove := h.notAbove
    omega
  notAbove := by
    have hsplit := List.length_eq_countP_add_countP (l := values) (· < x)
    have hbelow : (values.map f).countP (· ≤ f x) = values.countP (x ≤ ·) := by
      rw [List.countP_map]
      exact List.countP_congr fun value _ => by simp [hf.le_iff_ge]
    have hcompl : values.countP (fun value => ¬ decide (value < x)) = values.countP (x ≤ ·) :=
      List.countP_congr fun value _ => by simp
    have hfirst := h.below
    have hlength := h.lt_length
    omega

/-- Only members in the places before `k` are below the one at `k`. -/
theorem countP_lt_getElem (hsorted : values.SortedLE) (hk : k < values.length) :
    values.countP (· < values[k]) ≤ k := by
  have hlast : (values.drop k).countP (· < values[k]) = 0 := by
    rw [List.countP_eq_zero]
    intro z hz
    obtain ⟨i, hi, rfl⟩ := List.mem_iff_getElem.mp hz
    rw [List.getElem_drop]
    simp only [decide_eq_true_eq, not_lt]
    exact hsorted.getElem_le_getElem_of_le (Nat.le_add_right k i)
  calc values.countP (· < values[k])
      = (values.take k).countP (· < values[k]) + (values.drop k).countP (· < values[k]) := by
        rw [← List.countP_append, List.take_append_drop]
    _ = (values.take k).countP (· < values[k]) := by rw [hlast, Nat.add_zero]
    _ ≤ (values.take k).length := List.countP_le_length
    _ ≤ k := List.length_take_le k values

/-- All members in the places up to `k` are not above the one at `k`. -/
theorem lt_countP_le_getElem (hsorted : values.SortedLE) (hk : k < values.length) :
    k < values.countP (· ≤ values[k]) := by
  have hfirst : (values.take (k + 1)).countP (· ≤ values[k]) = (values.take (k + 1)).length := by
    rw [List.countP_eq_length]
    intro z hz
    obtain ⟨i, hi, rfl⟩ := List.mem_iff_getElem.mp hz
    rw [List.length_take] at hi
    rw [List.getElem_take]
    simp only [decide_eq_true_eq]
    exact hsorted.getElem_le_getElem_of_le (by omega)
  have hlength : (values.take (k + 1)).length = k + 1 := by
    rw [List.length_take]
    omega
  have hle : (values.take (k + 1)).countP (· ≤ values[k]) ≤ values.countP (· ≤ values[k]) :=
    (List.take_sublist _ _).countP_le
  omega

theorem of_sorted (hsorted : values.SortedLE) (hk : k < values.length) :
    IsOrderStatistic values k values[k] :=
  ⟨List.getElem_mem hk, countP_lt_getElem hsorted hk, lt_countP_le_getElem hsorted hk⟩

theorem insertionSort (hk : k < (values.insertionSort (· ≤ ·)).length) :
    IsOrderStatistic values k (values.insertionSort (· ≤ ·))[k] :=
  (of_sorted List.sortedLE_insertionSort hk).perm (List.perm_insertionSort _ values)

theorem exists_of_lt (hk : k < values.length) : ∃ x, IsOrderStatistic values k x :=
  ⟨_, insertionSort (by rwa [List.length_insertionSort])⟩

theorem isLeast (h : IsOrderStatistic values 0 x) : IsLeast {value | value ∈ values} x := by
  refine ⟨h.mem, fun z hz => ?_⟩
  have hnone := List.countP_eq_zero.mp (Nat.le_zero.mp h.below) z hz
  simpa using hnone

theorem isGreatest (h : IsOrderStatistic values (values.length - 1) x) :
    IsGreatest {value | value ∈ values} x := by
  refine ⟨h.mem, fun z hz => ?_⟩
  have hle : values.countP (· ≤ x) ≤ values.length := List.countP_le_length
  have hcount : values.countP (· ≤ x) = values.length := by
    have := h.notAbove
    omega
  have hall := List.countP_eq_length.mp hcount z hz
  simpa using hall

theorem length_le_below_add (h : IsOrderStatistic values k x) :
    values.length ≤ k + values.countP (x ≤ ·) := by
  have hsplit := List.length_eq_countP_add_countP (fun value => decide (value < x)) (l := values)
  have hrest : values.countP (fun value => ¬ decide (value < x)) = values.countP (x ≤ ·) := by
    apply List.countP_congr
    intro value _
    simp
  have := h.below
  omega

/-- If more than half of the values lie between two bounds, so does every middle one. -/
theorem between_of_majority (h : IsOrderStatistic values k x) {low high : α}
    (hmajority : values.length < 2 * values.countP fun value => low ≤ value ∧ value ≤ high)
    (hmiddle : (values.length - 1) / 2 ≤ k ∧ k ≤ values.length / 2) : low ≤ x ∧ x ≤ high := by
  constructor
  · by_contra hlow
    have hdisjoint : values.countP (fun value => low ≤ value ∧ value ≤ high) ≤
        values.countP (fun value => ¬ decide (value ≤ x)) := by
      apply List.countP_mono_left
      intro value _ hvalue
      simp only [decide_eq_true_eq] at hvalue ⊢
      exact fun hle => hlow (hvalue.1.trans hle)
    have hsplit := List.length_eq_countP_add_countP (fun value => decide (value ≤ x)) (l := values)
    have := h.notAbove
    omega
  · by_contra hhigh
    have hbelow : values.countP (fun value => low ≤ value ∧ value ≤ high) ≤
        values.countP (· < x) := by
      apply List.countP_mono_left
      intro value _ hvalue
      simp only [decide_eq_true_eq] at hvalue ⊢
      exact lt_of_le_of_lt hvalue.2 (not_le.mp hhigh)
    have := h.below
    omega

end IsOrderStatistic

variable {K : Type*} [Field K] [LinearOrder K] [IsStrictOrderedRing K]

structure IsMedian (values : List K) (m : K) : Prop where
  between : ∃ least greatest, IsLeast {value | value ∈ values} least ∧
    IsGreatest {value | value ∈ values} greatest ∧ least ≤ m ∧ m ≤ greatest
  halfBelow : values.length ≤ 2 * values.countP (· ≤ m)
  halfAbove : values.length ≤ 2 * values.countP (m ≤ ·)
  odd : values.length % 2 = 1 → IsOrderStatistic values (values.length / 2) m
  even : values.length % 2 = 0 → ∃ x y, IsOrderStatistic values (values.length / 2 - 1) x ∧
    IsOrderStatistic values (values.length / 2) y ∧ m = (x + y) / 2

/-- The mean of the two middle order statistics, which are one for an odd number of values. -/
theorem isMedian_of_middle {values : List K} {x y : K}
    (hx : IsOrderStatistic values ((values.length - 1) / 2) x)
    (hy : IsOrderStatistic values (values.length / 2) y) : IsMedian values ((x + y) / 2) := by
  have hlength : 0 < values.length := lt_of_le_of_lt (Nat.zero_le _) hy.lt_length
  have hle : x ≤ y := hx.mono hy (by omega)
  have hxm : x ≤ (x + y) / 2 := by linarith
  have hmy : (x + y) / 2 ≤ y := by linarith
  exact {
    between := by
      obtain ⟨least, hleast⟩ := IsOrderStatistic.exists_of_lt hlength
      obtain ⟨greatest, hgreatest⟩ :=
        IsOrderStatistic.exists_of_lt (Nat.sub_lt hlength Nat.one_pos)
      exact ⟨least, greatest, hleast.isLeast, hgreatest.isGreatest,
        (hleast.isLeast.2 hx.mem).trans hxm, hmy.trans (hgreatest.isGreatest.2 hy.mem)⟩
    halfBelow := by
      have hcount := countP_le_mono values hxm
      have := hx.notAbove
      omega
    halfAbove := by
      have hcount := countP_ge_anti values hmy
      have := hy.length_le_below_add
      omega
    odd := by
      intro hodd
      have hmiddle : (values.length - 1) / 2 = values.length / 2 := by omega
      rw [hmiddle] at hx
      rw [hx.unique hy, add_self_div_two]
      exact hy
    even := by
      intro heven
      have hmiddle : (values.length - 1) / 2 = values.length / 2 - 1 := by omega
      rw [hmiddle] at hx
      exact ⟨x, y, hx, hy, rfl⟩ }

end OsirisArm.Library
