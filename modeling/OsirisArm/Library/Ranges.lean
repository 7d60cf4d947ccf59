import Mathlib.Data.List.Basic

/-! # Ranges of a sequence

Positions are counted from the beginning; the length of the sequence is the position behind its last
element. A range goes from a first position up to, and without, a second one.
-/

namespace OsirisArm.Library
variable {α : Type*}

def subrange (xs : List α) (start stop : ℕ) : List α := (xs.drop start).take (stop - start)

theorem subrange_length (xs : List α) (start : ℕ) :
    subrange xs start xs.length = xs.drop start := by
  rw [subrange, ← List.length_drop, List.take_length]

variable [DecidableEq α]

/-- The first position from `start` on that holds `a`, or the end. -/
def findFrom (xs : List α) (start : ℕ) (a : α) : ℕ := start + (xs.drop start).idxOf a

variable {xs : List α} {start : ℕ} {a : α}

theorem le_findFrom : start ≤ findFrom xs start a := Nat.le_add_right _ _

theorem findFrom_le_length (h : start ≤ xs.length) : findFrom xs start a ≤ xs.length := by
  have hidx : (xs.drop start).idxOf a ≤ (xs.drop start).length := List.idxOf_le_length
  rw [List.length_drop] at hidx
  rw [findFrom]
  omega

theorem not_mem_subrange_findFrom : a ∉ subrange xs start (findFrom xs start a) := by
  rw [subrange, findFrom, Nat.add_sub_cancel_left]
  intro hmem
  have hlt := (List.mem_take_iff_idxOf_lt (List.mem_of_mem_take hmem)).mp hmem
  exact Nat.lt_irrefl _ hlt

/-- The range up to the position found, the element and what follows it. -/
theorem drop_eq_subrange_findFrom (h : start ≤ xs.length)
    (hfound : findFrom xs start a ≠ xs.length) :
    xs.drop start =
      subrange xs start (findFrom xs start a) ++ a :: xs.drop (findFrom xs start a + 1) := by
  have hle : findFrom xs start a ≤ xs.length := findFrom_le_length h
  have hlt : (xs.drop start).idxOf a < (xs.drop start).length := by
    rw [List.length_drop]
    rw [findFrom] at hle hfound
    omega
  have hget : (xs.drop start)[(xs.drop start).idxOf a] = a := List.getElem_idxOf hlt
  have hrest : (xs.drop start).drop ((xs.drop start).idxOf a) =
      a :: xs.drop (findFrom xs start a + 1) := by
    rw [List.drop_eq_getElem_cons hlt, hget, List.drop_drop, findFrom, Nat.add_assoc]
  rw [subrange, findFrom, Nat.add_sub_cancel_left, ← findFrom, ← hrest, List.take_append_drop]

end OsirisArm.Library
