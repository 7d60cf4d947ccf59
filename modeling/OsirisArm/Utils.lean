import OsirisArm.Library.Numerals
import OsirisArm.Library.Lines
import Mathlib.Data.List.Sort
import Mathlib.Algebra.Order.Ring.Int

/-! # Helper functions of the fuzzer

Byte arrays, strings and number conversions. A `char` is a character, a `std::byte` is eight bits
wide. Everything that ends the program early is a `Stop`; undefined behaviour is one of them, since
nothing is known about the program afterwards.
-/

namespace OsirisArm
open Library

abbrev Byte := BitVec 8
abbrev Bytes := List Byte
abbrev Text := List Char

/-- The ways in which the program ends before it is done. -/
inductive Stop where
  | exit (code : ℕ)
  | abort
  | assertion
  | exception
  | undefinedBehaviour
  deriving DecidableEq, Repr

def assert (condition : Bool) : Except Stop Unit :=
  if condition then .ok () else .error .assertion

@[simp] theorem assert_true : assert true = .ok () := rfl
@[simp] theorem assert_false : assert false = .error .assertion := rfl

theorem except_bind_ok {ε α β : Type} {first : Except ε α} {rest : α → Except ε β} {b : β}
    (h : (first >>= rest) = .ok b) : ∃ a, first = .ok a ∧ rest a = .ok b := by
  cases first with
  | error stop => cases h
  | ok a => exact ⟨a, rfl, h⟩

theorem except_map_ok {ε α β : Type} {first : Except ε α} {f : α → β} {b : β}
    (h : first.map f = .ok b) : ∃ a, first = .ok a ∧ f a = b := by
  cases first with
  | error stop => cases h
  | ok a => exact ⟨a, rfl, Except.ok.inj h⟩

def intMin : ℤ := -2147483648
def intMax : ℤ := 2147483647

/-- `std::stoi`: no digits or a value outside `int` throws. -/
def stoi (base : ℕ) (str : Text) : Except Stop ℤ :=
  match strtol base str with
  | some value => if intMin ≤ value ∧ value ≤ intMax then .ok value else .error .exception
  | none => .error .exception

/-- `std::stoll`, converted to the unsigned type its result is stored in. -/
def stoll (base : ℕ) (str : Text) : Except Stop (BitVec 64) :=
  match strtol base str with
  | some value =>
    if -2 ^ 63 ≤ value ∧ value < 2 ^ 63 then .ok (BitVec.ofInt 64 value) else .error .exception
  | none => .error .exception

/-- `std::abs` of an `int`; the absolute value of `INT_MIN` does not exist. -/
def absInt (value : ℤ) : Except Stop ℕ :=
  if value = intMin then .error .undefinedBehaviour else .ok value.natAbs

theorem stoi_printInt {n : ℤ} (h : intMin ≤ n ∧ n ≤ intMax) : stoi 10 (printInt n) = .ok n := by
  simp [stoi, strtol_printInt, h]

theorem stoi_range {base : ℕ} {str : Text} {value : ℤ} (h : stoi base str = .ok value) :
    intMin ≤ value ∧ value ≤ intMax := by
  unfold stoi at h
  split at h
  · split at h
    · next hrange =>
      cases h
      exact hrange
    · cases h
  · cases h

theorem stoll_printHex {n : ℕ} (h : n < 2 ^ 63) :
    stoll 16 (printHex n) = .ok (BitVec.ofNat 64 n) := by
  have hn : -2 ^ 63 ≤ (n : ℤ) ∧ (n : ℤ) < 2 ^ 63 := by omega
  rw [stoll, strtol_printHex]
  simp only [if_pos hn, BitVec.ofInt_natCast]

/-- The loop of `SplitString`; `piece` is what was read since the last delimiter, reversed. -/
def splitFrom {α : Type*} [DecidableEq α] (delimiter : α) : List α → List α → List (List α)
  | [], piece => [piece.reverse]
  | c :: rest, piece =>
    if c = delimiter then piece.reverse :: splitFrom delimiter rest []
    else splitFrom delimiter rest (c :: piece)

def splitString {α : Type*} [DecidableEq α] (inputStr : List α) (delimiter : α) :
    List (List α) := splitFrom delimiter inputStr []

theorem splitString_eq_splitOn {α : Type*} [DecidableEq α] (inputStr : List α) (delimiter : α) :
    splitString inputStr delimiter = inputStr.splitOn delimiter := by
  have general (piece : List α) : splitFrom delimiter inputStr piece =
      (inputStr.splitOn delimiter).modifyHead (piece.reverse ++ ·) := by
    induction inputStr generalizing piece with
    | nil => simp [splitFrom]
    | cons c rest ih =>
      rw [splitFrom, List.splitOn_cons_eq_if_modifyHead]
      by_cases hc : c = delimiter
      · subst hc
        obtain ⟨p, ps, hp⟩ := List.exists_cons_of_ne_nil (List.splitOn_ne_nil c rest)
        simp [ih, hp]
      · obtain ⟨p, ps, hp⟩ := List.exists_cons_of_ne_nil (List.splitOn_ne_nil delimiter rest)
        simp [hc, ih, hp]
  obtain ⟨p, ps, hp⟩ := List.exists_cons_of_ne_nil (List.splitOn_ne_nil delimiter inputStr)
  rw [splitString, general, hp]
  simp

theorem splitString_intercalate {delimiter : Char} {fields : List Text}
    (h : ∀ field ∈ fields, delimiter ∉ field) (hne : fields ≠ []) :
    splitString ([delimiter].intercalate fields) delimiter = fields := by
  rw [splitString_eq_splitOn, List.splitOn_intercalate delimiter h hne]

theorem intercalate_no_newline {fields : List Text} (h : ∀ field ∈ fields, '\n' ∉ field) :
    '\n' ∉ [';'].intercalate fields := by
  intro hmem
  rcases mem_intercalate hmem with hdelimiter | ⟨field, hfield, hmem⟩
  · cases hdelimiter
  · exact h field hfield hmem

theorem splitString_append (first rest : Text) (delimiter : Char) :
    splitString (first ++ delimiter :: rest) delimiter =
      splitString first delimiter ++ splitString rest delimiter := by
  simp only [splitString_eq_splitOn, List.splitOn_append_cons_self]

theorem splitString_of_not_mem {field : Text} {delimiter : Char} (h : delimiter ∉ field) :
    splitString field delimiter = [field] := by
  rw [splitString_eq_splitOn, List.splitOn_eq_singleton h]

theorem not_mem_of_mem_splitString {delimiter : Char} {inputStr field : Text}
    (h : field ∈ splitString inputStr delimiter) : delimiter ∉ field := by
  rw [splitString_eq_splitOn] at h
  exact not_mem_of_mem_splitOn h

/-- Every character of a field is a character of the text it was cut from. -/
theorem mem_of_mem_splitString {delimiter c : Char} {inputStr field : Text}
    (h : field ∈ splitString inputStr delimiter) (hc : c ∈ field) : c ∈ inputStr := by
  rw [splitString_eq_splitOn] at h
  have hjoin : [delimiter].intercalate (inputStr.splitOn delimiter) = inputStr :=
    List.intercalate_splitOn delimiter
  rw [← hjoin]
  generalize inputStr.splitOn delimiter = fields at h
  induction fields with
  | nil => cases h
  | cons f fs ih =>
    cases fs with
    | nil =>
      rw [List.mem_singleton.mp h] at hc
      simpa using hc
    | cons g gs =>
      rw [List.intercalate_cons_cons]
      rcases List.mem_cons.mp h with rfl | h
      · simp [hc]
      · exact List.mem_append_right _ (ih h)

def numberToBytesLE (number : BitVec 64) : ℕ → Bytes
  | 0 => []
  | resultLength + 1 => number.setWidth 8 :: numberToBytesLE (number >>> 8) resultLength

@[simp] theorem numberToBytesLE_length (number : BitVec 64) (n : ℕ) :
    (numberToBytesLE number n).length = n := by
  induction n generalizing number with
  | zero => rfl
  | succ n ih => simp [numberToBytesLE, ih]

/-- The number that a little-endian machine reads from these bytes. -/
def numberFromBytesLE : Bytes → ℕ
  | [] => 0
  | b :: rest => b.toNat + 256 * numberFromBytesLE rest

/-- The same as a number in two's complement. -/
def signedFromBytesLE (bytes : Bytes) : ℤ :=
  Int.bmod (numberFromBytesLE bytes) (2 ^ (8 * bytes.length))

theorem numberFromBytesLE_toBytes (number : BitVec 64) (n : ℕ) :
    numberFromBytesLE (numberToBytesLE number n) = number.toNat % 256 ^ n := by
  induction n generalizing number with
  | zero => simp [numberToBytesLE, numberFromBytesLE, Nat.mod_one]
  | succ n ih =>
    rw [numberToBytesLE, numberFromBytesLE, ih, pow_succ', Nat.mod_mul]
    simp [Nat.shiftRight_eq_div_pow]

end OsirisArm
