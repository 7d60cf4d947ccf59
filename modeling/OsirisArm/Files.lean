import OsirisArm.Utils
import Mathlib.Data.List.TakeWhile

/-! # Files

The stages of the program read and write files of the working directory. The names of the output
files are made from a given name without its ending.
-/

namespace OsirisArm

/-- The files of the working directory. -/
abbrev Files := Text → Option Text

/-- The file name up to its last dot. -/
def cutFileEnding (filename : Text) : Text :=
  if '.' ∈ filename then ((filename.reverse.dropWhile (· ≠ '.')).drop 1).reverse else filename

theorem cutFileEnding_spec (filename : Text) :
    filename = cutFileEnding filename ∨
      ∃ ending, filename = cutFileEnding filename ++ '.' :: ending := by
  by_cases h : '.' ∈ filename
  · right
    rw [cutFileEnding, if_pos h]
    have hsplit := List.takeWhile_append_dropWhile (p := (· ≠ '.')) (l := filename.reverse)
    have hhead := List.head?_dropWhile_not (· ≠ '.') filename.reverse
    cases hdrop : filename.reverse.dropWhile (· ≠ '.') with
    | nil =>
      rw [List.dropWhile_eq_nil_iff] at hdrop
      simpa using hdrop '.' (List.mem_reverse.mpr h)
    | cons c rest =>
      rw [hdrop] at hsplit hhead
      have hc : c = '.' := by simpa using hhead
      refine ⟨(filename.reverse.takeWhile (· ≠ '.')).reverse, ?_⟩
      have hreverse := congrArg List.reverse hsplit
      rw [List.reverse_reverse, List.reverse_append, List.reverse_cons, hc] at hreverse
      simpa using hreverse.symm
  · exact .inl (if_neg h).symm

theorem append_ne_filename {filename suffix : Text} {c : Char} (hc : c ≠ '.') :
    cutFileEnding filename ++ c :: suffix ≠ filename := by
  intro h
  rcases cutFileEnding_spec filename with hsame | ⟨ending, hending⟩
  · have := congrArg List.length h
    rw [List.length_append, List.length_cons, ← hsame] at this
    omega
  · have hcons := List.append_cancel_left (h.trans hending)
    exact hc (List.cons.inj hcons).1

end OsirisArm
