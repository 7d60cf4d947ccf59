import Mathlib.Data.List.Basic

/-! # Stores into a list

A list is used as an array of fixed length. Values are stored at once or one after the other, or a
piece is stored again and again until the array is filled with it.
-/

namespace OsirisArm.Library
variable {α : Type*}

/-- The list with `values` in place of its elements from `idx` on. -/
def overwrite (content : List α) (idx : ℕ) (values : List α) : List α :=
  content.take idx ++ values ++ content.drop (idx + values.length)

/-- Store one value after the other. -/
def storeEach : List α → ℕ → List α → List α
  | content, _, [] => content
  | content, idx, value :: rest => storeEach (content.set idx value) (idx + 1) rest

/-- Store a piece `n` times, one behind the other. -/
def fill (piece : List α) : ℕ → List α → List α
  | 0, content => content
  | n + 1, content => overwrite (fill piece n content) (n * piece.length) piece

variable {content values piece : List α} {idx : ℕ}

theorem overwrite_length (h : idx + values.length ≤ content.length) :
    (overwrite content idx values).length = content.length := by
  simp only [overwrite, List.length_append, List.length_take, List.length_drop]
  omega

theorem overwrite_append (first second : List α) (h : idx ≤ content.length) :
    overwrite (overwrite content idx first) (idx + first.length) second =
      overwrite content idx (first ++ second) := by
  have hlength : (content.take idx ++ first).length = idx + first.length := by simp; omega
  simp only [overwrite]
  rw [← hlength, List.take_left, List.drop_length_add_append, List.drop_drop, hlength,
    List.length_append, List.append_assoc (content.take idx), Nat.add_assoc]

theorem storeEach_eq (h : idx + values.length ≤ content.length) :
    storeEach content idx values = overwrite content idx values := by
  induction values generalizing content idx with
  | nil => simp [storeEach, overwrite]
  | cons value rest ih =>
    rw [List.length_cons] at h
    have hset : content.set idx value = overwrite content idx [value] := by
      rw [overwrite, List.set_eq_take_append_cons_drop, if_pos (by omega), List.append_assoc]
      rfl
    have hlength : (overwrite content idx [value]).length = content.length :=
      overwrite_length (by rw [List.length_singleton]; omega)
    have hrest : idx + 1 + rest.length ≤ (overwrite content idx [value]).length := by omega
    rw [storeEach, hset, ih hrest]
    exact overwrite_append [value] rest (by omega)

/-- After `n` stores the list starts with `n` copies of the piece. -/
theorem fill_eq {n : ℕ} (h : n * piece.length ≤ content.length) :
    fill piece n content = overwrite content 0 (List.replicate n piece).flatten := by
  induction n with
  | zero => simp [fill, overwrite]
  | succ n ih =>
    rw [Nat.add_mul, Nat.one_mul] at h
    have hcopies : (List.replicate n piece).flatten.length = n * piece.length := by simp
    have hstep :=
      overwrite_append (List.replicate n piece).flatten piece (Nat.zero_le content.length)
    rw [Nat.zero_add, hcopies] at hstep
    rw [fill, ih (by omega), hstep, List.replicate_succ', List.flatten_append,
      List.flatten_singleton]

theorem fill_length {n : ℕ} (h : n * piece.length ≤ content.length) :
    (fill piece n content).length = content.length := by
  rw [fill_eq h, overwrite_length (by simpa using h)]

/-- An array filled with copies of a piece, but for another one at its end. -/
theorem overwrite_fill {last : List α} {n : ℕ} (hlast : last.length = piece.length)
    (h : content.length = (n + 1) * piece.length) :
    overwrite (fill piece (n + 1) content) (n * piece.length) last =
      (List.replicate n piece).flatten ++ last := by
  have hcopies : (List.replicate n piece).flatten.length = n * piece.length := by simp
  have hfill : fill piece n content =
      (List.replicate n piece).flatten ++ content.drop (n * piece.length) := by
    rw [fill_eq (by rw [h]; exact Nat.mul_le_mul_right _ n.le_succ), overwrite, hcopies,
      Nat.zero_add]
    rfl
  have hend : content.length = n * piece.length + piece.length := by
    rw [h, Nat.add_mul, Nat.one_mul]
  have hpiece : fill piece (n + 1) content = (List.replicate n piece).flatten ++ piece := by
    rw [fill, hfill, overwrite, ← hcopies, List.take_left, List.drop_length_add_append,
      List.drop_drop, hcopies, List.drop_eq_nil_of_le (Nat.le_of_eq hend), List.append_nil]
  rw [hpiece, overwrite, ← hcopies, List.take_left, List.drop_length_add_append, hlast,
    List.drop_length, List.append_nil]

end OsirisArm.Library
