import Mathlib.Data.List.Sort
import Mathlib.Data.List.GetD
import Mathlib.Algebra.Order.Group.Int
import Mathlib.Algebra.Group.Nat.Defs

/-! # The median of the measured cycles

Medians are doubles. All doubles that occur here are whole numbers of halves, so a double is the
integer that counts its halves; an operation rounds its exact result to 53 binary digits, ties to
even. Sums of two measured values wrap at 64 bits and conversions back to an integer saturate, as
they do on the target.
-/

namespace OsirisArm

/-- The nearest number with at most 53 binary digits. -/
def roundToDigits (m : ℕ) : ℕ :=
  let unit := 2 ^ (Nat.log2 m - 52)
  let quotient := m / unit
  let rest := m % unit
  if unit < 2 * rest ∨ unit = 2 * rest ∧ quotient % 2 = 1 then (quotient + 1) * unit
  else quotient * unit

def roundToDouble (halves : ℤ) : ℤ := halves.sign * roundToDigits halves.natAbs

def wrapInt64 (value : ℤ) : ℤ := Int.bmod value (2 ^ 64)

def truncateToInt64 (halves : ℤ) : ℤ :=
  max (-2 ^ 63) (min (2 ^ 63 - 1) (halves.tdiv 2))

def median (values : List ℤ) : ℤ :=
  let sorted := values.insertionSort (· ≤ ·)
  if values.isEmpty then 0
  else if values.length % 2 = 0 then
    roundToDouble (wrapInt64 (sorted.getD ((values.length - 1) / 2) 0 +
      sorted.getD (values.length / 2) 0))
  else roundToDouble (2 * sorted.getD (values.length / 2) 0)

/-- `static_cast<int64_t>` of the difference of two medians. -/
def medianDifference (minuend subtrahend : List ℤ) : ℤ :=
  truncateToInt64 (roundToDouble (median minuend - median subtrahend))

theorem roundToDouble_of_small {halves : ℤ} (h : halves.natAbs < 2 ^ 53) :
    roundToDouble halves = halves := by
  have hdigits : roundToDigits halves.natAbs = halves.natAbs := by
    have hlog : Nat.log2 halves.natAbs - 52 = 0 := by
      by_cases hzero : halves.natAbs = 0
      · rw [hzero]
        decide
      · have := (Nat.log2_lt hzero).mpr h
        omega
    simp [roundToDigits, hlog, Nat.mod_one]
  rw [roundToDouble, hdigits, Int.sign_mul_natAbs]

theorem wrapInt64_of_small {value : ℤ} (h : -2 ^ 63 ≤ value ∧ value < 2 ^ 63) :
    wrapInt64 value = value := Int.bmod_eq_of_le (by omega) (by omega)

theorem sorted_getD_mem (values : List ℤ) {i : ℕ} (h : i < values.length) :
    (values.insertionSort (· ≤ ·)).getD i 0 ∈ values := by
  have hlength : i < (values.insertionSort (· ≤ ·)).length := by
    rwa [List.length_insertionSort]
  rw [List.getD_eq_getElem _ _ hlength]
  exact (List.mem_insertionSort _).mp (List.getElem_mem hlength)

theorem median_perm {values values' : List ℤ} (h : values.Perm values') :
    median values = median values' := by
  have hsorted : values.insertionSort (· ≤ ·) = values'.insertionSort (· ≤ ·) := by
    apply List.Perm.eq_of_sortedLE List.sortedLE_insertionSort List.sortedLE_insertionSort
    exact (List.perm_insertionSort _ values).trans
      (h.trans (List.perm_insertionSort _ values').symm)
  rw [median, median, hsorted, h.length_eq, h.isEmpty_eq]

/-- The median of small values is the sum of the two middle values, in halves. -/
theorem median_of_small {values : List ℤ} (hne : values ≠ [])
    (h : ∀ value ∈ values, value.natAbs < 2 ^ 52) :
    median values = (values.insertionSort (· ≤ ·)).getD ((values.length - 1) / 2) 0 +
      (values.insertionSort (· ≤ ·)).getD (values.length / 2) 0 := by
  have hlength : 0 < values.length := List.length_pos_iff.mpr hne
  have hempty : ¬ values.isEmpty := by simpa using hne
  have hlow := h _ (sorted_getD_mem values (by omega : (values.length - 1) / 2 < values.length))
  have hhigh := h _ (sorted_getD_mem values (by omega : values.length / 2 < values.length))
  by_cases heven : values.length % 2 = 0
  · rw [median, if_neg hempty, if_pos heven, wrapInt64_of_small (by omega)]
    exact roundToDouble_of_small (by omega)
  · have hmiddle : (values.length - 1) / 2 = values.length / 2 := by omega
    rw [median, if_neg hempty, if_neg heven, hmiddle, ← Int.two_mul]
    exact roundToDouble_of_small (by omega)

theorem median_between {values : List ℤ} {bound : ℕ} (hbound : bound < 2 ^ 50)
    (h : ∀ value ∈ values, 0 ≤ value ∧ value ≤ bound) (hne : values ≠ []) :
    ∃ low ∈ values, ∃ high ∈ values, 2 * low ≤ median values ∧ median values ≤ 2 * high := by
  have hlength : 0 < values.length := List.length_pos_iff.mpr hne
  have hlow := sorted_getD_mem values (by omega : (values.length - 1) / 2 < values.length)
  have hhigh := sorted_getD_mem values (by omega : values.length / 2 < values.length)
  have hsmall : ∀ value ∈ values, value.natAbs < 2 ^ 52 := by
    intro value hvalue
    have := h value hvalue
    omega
  rw [median_of_small hne hsmall]
  rcases le_total ((values.insertionSort (· ≤ ·)).getD ((values.length - 1) / 2) 0)
    ((values.insertionSort (· ≤ ·)).getD (values.length / 2) 0) with hle | hle
  · exact ⟨_, hlow, _, hhigh, by omega, by omega⟩
  · exact ⟨_, hhigh, _, hlow, by omega, by omega⟩

theorem median_mem_range {values : List ℤ} {bound : ℕ} (hbound : bound < 2 ^ 50)
    (h : ∀ value ∈ values, 0 ≤ value ∧ value ≤ bound) :
    0 ≤ median values ∧ median values ≤ 2 * bound := by
  by_cases hne : values = []
  · have hzero : median values = 0 := by
      rw [hne]
      rfl
    omega
  · obtain ⟨low, hlow, high, hhigh, hle, hge⟩ := median_between hbound h hne
    have hlowRange := h low hlow
    have hhighRange := h high hhigh
    omega

theorem tdiv_two_between {halves low high : ℤ} (hlow : 2 * low ≤ halves)
    (hhigh : halves ≤ 2 * high) : low ≤ halves.tdiv 2 ∧ halves.tdiv 2 ≤ high := by
  have hdiv := Int.mul_tdiv_add_tmod halves 2
  have hmod := Int.tmod_lt_of_pos halves (by decide : (0 : ℤ) < 2)
  have hmod' : -2 < halves.tmod 2 := by
    have := Int.lt_tmod_of_pos halves (by decide : (0 : ℤ) < 2)
    omega
  omega

/-- A difference of medians of small values is exact up to the truncation. -/
theorem medianDifference_eq {minuend subtrahend : List ℤ} {bound : ℕ} (hbound : bound < 2 ^ 50)
    (hm : ∀ value ∈ minuend, 0 ≤ value ∧ value ≤ bound)
    (hs : ∀ value ∈ subtrahend, 0 ≤ value ∧ value ≤ bound) :
    medianDifference minuend subtrahend = (median minuend - median subtrahend).tdiv 2 := by
  have h₁ := median_mem_range hbound hm
  have h₂ := median_mem_range hbound hs
  have hround : roundToDouble (median minuend - median subtrahend) =
      median minuend - median subtrahend := roundToDouble_of_small (by omega)
  have hsmall : -(bound : ℤ) ≤ (median minuend - median subtrahend).tdiv 2 ∧
      (median minuend - median subtrahend).tdiv 2 ≤ bound :=
    tdiv_two_between (by omega) (by omega)
  rw [medianDifference, hround, truncateToInt64]
  omega

theorem medianDifference_swap {minuend subtrahend : List ℤ} {bound : ℕ} (hbound : bound < 2 ^ 50)
    (hm : ∀ value ∈ minuend, 0 ≤ value ∧ value ≤ bound)
    (hs : ∀ value ∈ subtrahend, 0 ≤ value ∧ value ≤ bound) :
    medianDifference subtrahend minuend = -medianDifference minuend subtrahend := by
  rw [medianDifference_eq hbound hs hm, medianDifference_eq hbound hm hs, ← Int.neg_tdiv,
    neg_sub]

theorem medianDifference_range {minuend subtrahend : List ℤ} {bound : ℕ} (hbound : bound < 2 ^ 50)
    (hm : ∀ value ∈ minuend, 0 ≤ value ∧ value ≤ bound)
    (hs : ∀ value ∈ subtrahend, 0 ≤ value ∧ value ≤ bound) :
    -bound ≤ medianDifference minuend subtrahend ∧
      medianDifference minuend subtrahend ≤ bound := by
  have h₁ := median_mem_range hbound hm
  have h₂ := median_mem_range hbound hs
  rw [medianDifference_eq hbound hm hs]
  exact tdiv_two_between (by omega) (by omega)

/-- The difference of two medians of small values lies between two differences of values. -/
theorem medianDifference_between {minuend subtrahend : List ℤ} {bound : ℕ}
    (hbound : bound < 2 ^ 50) (hm : ∀ value ∈ minuend, 0 ≤ value ∧ value ≤ bound)
    (hs : ∀ value ∈ subtrahend, 0 ≤ value ∧ value ≤ bound) (hmne : minuend ≠ [])
    (hsne : subtrahend ≠ []) :
    (∃ n ∈ minuend, ∃ t ∈ subtrahend, n - t ≤ medianDifference minuend subtrahend) ∧
      ∃ n ∈ minuend, ∃ t ∈ subtrahend, medianDifference minuend subtrahend ≤ n - t := by
  obtain ⟨low, hlow, high, hhigh, hlowMedian, hhighMedian⟩ := median_between hbound hm hmne
  obtain ⟨low', hlow', high', hhigh', hlowMedian', hhighMedian'⟩ := median_between hbound hs hsne
  rw [medianDifference_eq hbound hm hs]
  obtain ⟨hle, hge⟩ : low - high' ≤ (median minuend - median subtrahend).tdiv 2 ∧
      (median minuend - median subtrahend).tdiv 2 ≤ high - low' :=
    tdiv_two_between (by omega) (by omega)
  exact ⟨⟨low, hlow, high', hhigh', hle⟩, ⟨high, hhigh, low', hlow', hge⟩⟩

end OsirisArm
