import Mathlib.Data.Nat.Notation
import Mathlib.Tactic.TypeStar

/-! # Input streams of files

An open file is read in pieces. The stream keeps three state bits: the end of the file was reached,
a read did not deliver what was asked for, or the device failed. Nothing is delivered after any of
them.
-/

namespace OsirisArm.Library
variable {α : Type*}

/-- What follows the contents of a file: its end, or an error of the device. -/
inductive StreamEnd where
  | endOfFile
  | readError
  deriving DecidableEq

/-- An open file: what is left of it, and the state bits. -/
structure FileStream (α : Type*) where
  rest : List α
  ending : StreamEnd
  eofbit : Bool
  failbit : Bool
  badbit : Bool

namespace FileStream

def opened (content : List α) (ending : StreamEnd) : FileStream α :=
  ⟨content, ending, false, false, false⟩

def good (stream : FileStream α) : Bool := !(stream.eofbit || stream.failbit || stream.badbit)

/-- `read`, with the elements counted by `gcount`. A read that fails counts none. -/
def read (stream : FileStream α) (count : ℕ) : List α × FileStream α :=
  if !stream.good then ([], { stream with failbit := true })
  else if count ≤ stream.rest.length then
    (stream.rest.take count, { stream with rest := stream.rest.drop count })
  else
    match stream.ending with
    | .endOfFile => (stream.rest, { stream with rest := [], eofbit := true, failbit := true })
    | .readError => ([], { stream with badbit := true })

variable {stream : FileStream α} {count : ℕ}

theorem read_full (hgood : stream.good = true) (h : count ≤ stream.rest.length) :
    stream.read count =
      (stream.rest.take count, { stream with rest := stream.rest.drop count }) := by
  simp [read, hgood, h]

theorem read_last (hgood : stream.good = true) (hend : stream.ending = .endOfFile)
    (h : stream.rest.length < count) :
    stream.read count =
      (stream.rest, { stream with rest := [], eofbit := true, failbit := true }) := by
  simp [read, hgood, hend, Nat.not_le.mpr h]

theorem read_of_readError (hend : stream.ending = .readError) (count : ℕ) :
    (stream.read count).2.ending = .readError ∧
      (stream.read count).2.eofbit = stream.eofbit := by
  unfold read
  split
  · exact ⟨hend, rfl⟩
  · split
    · exact ⟨hend, rfl⟩
    · rw [hend]
      exact ⟨rfl, rfl⟩

end FileStream
end OsirisArm.Library
