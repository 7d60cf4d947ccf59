import Mathlib.Data.List.Basic

/-! # Fields and lines of a text

Fields are separated by a delimiter, lines are ended by a line feed. Reading a text line by line,
as a `std::getline` loop does, returns a last line without line feed as well, but no empty line
after the last line feed.
-/

namespace OsirisArm.Library
variable {α : Type*} [DecidableEq α]

theorem not_mem_of_mem_splitOn {a : α} {xs piece : List α} (h : piece ∈ xs.splitOn a) :
    a ∉ piece := by
  induction xs generalizing piece with
  | nil =>
    rw [List.splitOn_nil, List.mem_singleton] at h
    simp [h]
  | cons x xs ih =>
    rw [List.splitOn_cons_eq_if_modifyHead] at h
    split at h
    · rcases List.mem_cons.mp h with rfl | h
      · simp
      · exact ih h
    · next hx =>
      obtain ⟨p, ps, hp⟩ := List.exists_cons_of_ne_nil (List.splitOn_ne_nil a xs)
      rw [hp, List.modifyHead_cons] at h
      rcases List.mem_cons.mp h with rfl | h
      · have hxa : a ≠ x := fun he => hx (by simp [he])
        have hpa : a ∉ p := ih (by rw [hp]; exact List.mem_cons_self)
        simp [hxa, hpa]
      · exact ih (by rw [hp]; exact List.mem_cons_of_mem p h)

theorem length_splitOn (a : α) (xs : List α) : (xs.splitOn a).length = xs.count a + 1 := by
  induction xs with
  | nil => rfl
  | cons x xs ih =>
    rw [List.splitOn_cons_eq_if_modifyHead]
    by_cases hx : x = a
    · simp [hx, ih]
    · simp [hx, ih]

omit [DecidableEq α] in
theorem mem_intercalate {a c : α} {fields : List (List α)} (h : c ∈ [a].intercalate fields) :
    c = a ∨ ∃ field ∈ fields, c ∈ field := by
  induction fields with
  | nil => simp at h
  | cons field fields ih =>
    cases fields with
    | nil =>
      rw [List.intercalate_singleton] at h
      exact .inr ⟨field, List.mem_cons_self, h⟩
    | cons next rest =>
      rw [List.intercalate_cons_cons] at h
      rcases List.mem_append.mp h with h | h
      · rcases List.mem_append.mp h with h | h
        · exact .inr ⟨field, List.mem_cons_self, h⟩
        · exact .inl (List.mem_singleton.mp h)
      · rcases ih h with h | ⟨f, hf, h⟩
        · exact .inl h
        · exact .inr ⟨f, List.mem_cons_of_mem field hf, h⟩

theorem splitOn_ended {a : α} {pieces : List (List α)} (h : ∀ piece ∈ pieces, a ∉ piece) :
    (pieces.flatMap (· ++ [a])).splitOn a = pieces ++ [[]] := by
  induction pieces with
  | nil => rfl
  | cons piece pieces ih =>
    rw [List.flatMap_cons, List.append_assoc, List.singleton_append,
      List.splitOn_append_cons_self_of_not_mem (h piece List.mem_cons_self),
      ih (fun p hp => h p (List.mem_cons_of_mem piece hp)), List.cons_append]

/-- The text of a file with the given lines. -/
def fileText (lines : List (List Char)) : List Char := lines.flatMap (· ++ ['\n'])

/-- The lines a reader of the text gets one after the other. -/
def readLines (content : List Char) : List (List Char) :=
  let pieces := content.splitOn '\n'
  if pieces.getLast? = some [] then pieces.dropLast else pieces

@[simp] theorem fileText_nil : fileText [] = [] := rfl

@[simp] theorem fileText_cons (line : List Char) (lines : List (List Char)) :
    fileText (line :: lines) = line ++ '\n' :: fileText lines := by
  simp [fileText]

theorem splitOn_fileText {lines : List (List Char)} (h : ∀ line ∈ lines, '\n' ∉ line) :
    (fileText lines).splitOn '\n' = lines ++ [[]] := by
  induction lines with
  | nil => rfl
  | cons line lines ih =>
    rw [fileText_cons, List.splitOn_append_cons_self_of_not_mem (h line List.mem_cons_self),
      ih (fun l hl => h l (List.mem_cons_of_mem line hl)), List.cons_append]

theorem readLines_fileText {lines : List (List Char)} (h : ∀ line ∈ lines, '\n' ∉ line) :
    readLines (fileText lines) = lines := by
  simp [readLines, splitOn_fileText h]

theorem readLines_no_newline {content line : List Char} (h : line ∈ readLines content) :
    '\n' ∉ line := by
  simp only [readLines] at h
  split at h
  · exact not_mem_of_mem_splitOn (List.dropLast_subset _ h)
  · exact not_mem_of_mem_splitOn h

end OsirisArm.Library
