import OsirisArm.Median
import OsirisArm.Library.OrderStatistics
import Mathlib.Data.Rat.Cast.Order

/-! # The median is the middle of the data -/

namespace OsirisArm
open Library

/-- The number that the double is. -/
def medianValue (values : List ℤ) : ℚ := median values / 2

theorem sorted_isOrderStatistic {values : List ℤ} {k : ℕ} (hk : k < values.length) :
    IsOrderStatistic values k ((values.insertionSort (· ≤ ·)).getD k 0) := by
  have hlength : k < (values.insertionSort (· ≤ ·)).length := by
    rwa [List.length_insertionSort]
  rw [List.getD_eq_getElem _ _ hlength]
  exact .insertionSort hlength

/-- The median of values that are small enough for exact arithmetic is the middle of the data,
whatever their order. -/
theorem median_middle {values : List ℤ} (hne : values ≠ [])
    (hsmall : ∀ value ∈ values, value.natAbs < 2 ^ 52) :
    IsMedian (values.map (Int.cast : ℤ → ℚ)) (medianValue values) ∧
      ∀ values', values.Perm values' → medianValue values' = medianValue values := by
  have hlength : 0 < values.length := List.length_pos_iff.mpr hne
  constructor
  · have hlow := (sorted_isOrderStatistic
      (by omega : (values.length - 1) / 2 < values.length)).map (Int.cast_strictMono (R := ℚ))
    have hhigh := (sorted_isOrderStatistic
      (by omega : values.length / 2 < values.length)).map (Int.cast_strictMono (R := ℚ))
    rw [medianValue, median_of_small hne hsmall, Int.cast_add]
    apply isMedian_of_middle
    · rw [List.length_map]
      exact hlow
    · rw [List.length_map]
      exact hhigh
  · intro values' hperm
    rw [medianValue, medianValue, median_perm hperm]

theorem median_middle_four :
    IsMedian ([9, -2, 4, 5].map (Int.cast : ℤ → ℚ)) (9 / 2) ∧
      medianValue [-2, 4, 5, 9] = 9 / 2 := by
  have hvalue : medianValue [9, -2, 4, 5] = 9 / 2 := by
    rw [medianValue, (by decide : median [9, -2, 4, 5] = 9)]
    norm_num
  obtain ⟨hmedian, hperm⟩ := @median_middle [9, -2, 4, 5] (by decide) (by decide)
  rw [hvalue] at hmedian hperm
  exact ⟨hmedian, hperm _ (by decide)⟩

end OsirisArm
