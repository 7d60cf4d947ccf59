import OsirisArm.Utils
import OsirisArm.Library.Ranges
import OsirisArm.Library.WhileLoops

/-! # The loop of `SplitString`

Two iterators walk over the string: a piece starts at `start` and goes up to the delimiter found at
`next`. The piece behind the last delimiter is added after the loop.
-/

namespace OsirisArm
open Library

/-- The variables of the loop; an iterator is the position it points to. -/
structure Splitting where
  start : ℕ
  next : ℕ
  results : List Text

def Splitting.begun (inputStr : Text) (delimiter : Char) : Splitting :=
  ⟨0, findFrom inputStr 0 delimiter, []⟩

def splitLoop (inputStr : Text) (delimiter : Char) : WhileLoop Splitting where
  condition splitting := splitting.next != inputStr.length
  body splitting :=
    let results := splitting.results ++ [subrange inputStr splitting.start splitting.next]
    let start := splitting.next + 1
    let next := findFrom inputStr start delimiter
    ⟨start, next, results⟩

/-- What is returned: the results of the loop and the last piece. -/
def Splitting.returned (inputStr : Text) (splitting : Splitting) : List Text :=
  splitting.results ++ [subrange inputStr splitting.start splitting.next]

/-- The loop over the string ends and the function returns these pieces. -/
def SplitReturns (inputStr : Text) (delimiter : Char) (pieces : List Text) : Prop :=
  ∃ final, (splitLoop inputStr delimiter).EndsIn (.begun inputStr delimiter) final ∧
    final.returned inputStr = pieces

variable {inputStr : Text} {delimiter : Char} {splitting : Splitting}

/-- The results together with the pieces of the rest are the pieces of the string. -/
structure Splitting.Splits (inputStr : Text) (delimiter : Char) (splitting : Splitting) :
    Prop where
  inString : splitting.start ≤ inputStr.length
  found : splitting.next = findFrom inputStr splitting.start delimiter
  conserved : splitting.results ++ splitString (inputStr.drop splitting.start) delimiter =
    splitString inputStr delimiter

def Splitting.remaining (inputStr : Text) (splitting : Splitting) : ℕ :=
  inputStr.length + 1 - splitting.start

theorem begun_splits (inputStr : Text) (delimiter : Char) :
    (Splitting.begun inputStr delimiter).Splits inputStr delimiter where
  inString := Nat.zero_le _
  found := rfl
  conserved := rfl

theorem Splitting.Splits.le_next (h : splitting.Splits inputStr delimiter) :
    splitting.start ≤ splitting.next := by
  rw [h.found]
  exact le_findFrom

theorem Splitting.Splits.next_le (h : splitting.Splits inputStr delimiter) :
    splitting.next ≤ inputStr.length := by
  rw [h.found]
  exact findFrom_le_length h.inString

theorem Splitting.Splits.not_mem (h : splitting.Splits inputStr delimiter) :
    delimiter ∉ subrange inputStr splitting.start splitting.next := by
  rw [h.found]
  exact not_mem_subrange_findFrom

theorem Splitting.Splits.pieces (h : splitting.Splits inputStr delimiter)
    (hne : splitting.next ≠ inputStr.length) :
    splitString (inputStr.drop splitting.start) delimiter =
      subrange inputStr splitting.start splitting.next ::
        splitString (inputStr.drop (splitting.next + 1)) delimiter := by
  have hrest : inputStr.drop splitting.start =
      subrange inputStr splitting.start splitting.next ++
        delimiter :: inputStr.drop (splitting.next + 1) := by
    rw [h.found] at hne ⊢
    exact drop_eq_subrange_findFrom h.inString hne
  rw [hrest, splitString_append, splitString_of_not_mem h.not_mem, List.singleton_append]

/-- One round moves the first piece of the rest to the results, and behind its delimiter. -/
theorem Splitting.Splits.round (h : splitting.Splits inputStr delimiter)
    (hcondition : (splitLoop inputStr delimiter).condition splitting = true) :
    ((splitLoop inputStr delimiter).body splitting).Splits inputStr delimiter ∧
      ((splitLoop inputStr delimiter).body splitting).remaining inputStr <
        splitting.remaining inputStr := by
  have hne : splitting.next ≠ inputStr.length := by simpa [splitLoop] using hcondition
  have hle := h.next_le
  have hstart := h.le_next
  constructor
  · exact {
      inString := by
        simp only [splitLoop]
        omega
      found := rfl
      conserved := by
        rw [← h.conserved, h.pieces hne]
        simp [splitLoop] }
  · simp only [splitLoop, Splitting.remaining]
    omega

theorem splitReturns_splitString (inputStr : Text) (delimiter : Char) :
    SplitReturns inputStr delimiter (splitString inputStr delimiter) := by
  obtain ⟨final, hfinal, h, hcondition⟩ := WhileLoop.exists_endsIn_of_measure
    (Splitting.remaining inputStr) (fun _ (h : Splitting.Splits inputStr delimiter _) => h.round)
    (begun_splits inputStr delimiter)
  have hend : final.next = inputStr.length := by simpa [splitLoop] using hcondition
  have hlast : subrange inputStr final.start final.next = inputStr.drop final.start := by
    rw [hend, subrange_length]
  have hpiece : delimiter ∉ inputStr.drop final.start := by
    rw [← hlast]
    exact h.not_mem
  refine ⟨final, hfinal, ?_⟩
  rw [Splitting.returned, hlast, ← h.conserved, splitString_of_not_mem hpiece]

theorem splitString_join (inputStr : Text) (delimiter : Char) :
    [delimiter].intercalate (splitString inputStr delimiter) = inputStr := by
  rw [splitString_eq_splitOn, List.intercalate_splitOn]

theorem splitString_length (inputStr : Text) (delimiter : Char) :
    (splitString inputStr delimiter).length = inputStr.count delimiter + 1 := by
  rw [splitString_eq_splitOn, length_splitOn]

theorem splitString_ne_nil (inputStr : Text) (delimiter : Char) :
    splitString inputStr delimiter ≠ [] := by
  rw [splitString_eq_splitOn]
  exact List.splitOn_ne_nil delimiter inputStr

theorem splitReturns_iff (inputStr : Text) (delimiter : Char) (pieces : List Text) :
    SplitReturns inputStr delimiter pieces ↔ pieces = splitString inputStr delimiter := by
  obtain ⟨final, hfinal, hreturned⟩ := splitReturns_splitString inputStr delimiter
  constructor
  · rintro ⟨final', hfinal', rfl⟩
    rw [hfinal'.unique hfinal, hreturned]
  · rintro rfl
    exact ⟨final, hfinal, hreturned⟩

/-- `SplitString` and joining are inverse to each other: nothing is lost and nothing invented, at
the ends of the string and between adjacent delimiters as well. -/
theorem splitString_inverse (delimiter : Char) :
    (∀ inputStr,
      (∀ pieces, SplitReturns inputStr delimiter pieces ↔
        pieces = splitString inputStr delimiter) ∧
      splitString inputStr delimiter ≠ [] ∧
      (∀ piece ∈ splitString inputStr delimiter, delimiter ∉ piece) ∧
      (splitString inputStr delimiter).length = inputStr.count delimiter + 1 ∧
      [delimiter].intercalate (splitString inputStr delimiter) = inputStr) ∧
    ∀ fields : List Text, fields ≠ [] → (∀ field ∈ fields, delimiter ∉ field) →
      splitString ([delimiter].intercalate fields) delimiter = fields := by
  constructor
  · intro inputStr
    exact ⟨splitReturns_iff inputStr delimiter, splitString_ne_nil inputStr delimiter,
      fun _ hpiece => not_mem_of_mem_splitString hpiece, splitString_length inputStr delimiter,
      splitString_join inputStr delimiter⟩
  · intro fields hne hfields
    exact splitString_intercalate hfields hne

end OsirisArm
