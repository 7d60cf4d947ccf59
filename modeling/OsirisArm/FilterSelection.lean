import OsirisArm.FilterPasses

/-! # What a filtered file contains

When the maps hold the best line of the file for every key, which is the case after the first pass
of a new object, a line is kept exactly if every active filter accepts it: a filter with a map
accepts the first line of maximal timing of each key, the others decide by the row alone.
-/

namespace OsirisArm
open Library Library.Selection

/-- The verdict of a filter in terms of the file alone. -/
def ResultFilterFunctions.accepts (filter : ResultFilterFunctions)
    (rows : List (ParsedLine × ℕ)) (p : ParsedLine × ℕ) : Bool :=
  match filter.key with
  | some κ => decide (IsBest (lineKey κ) ParsedLine.weight rows p)
  | none => !filter.rejectsRow p.1.data

/-- The numbered lines that all filters accept. -/
def accepted (filters : List ResultFilterFunctions) (rows : List (ParsedLine × ℕ)) :
    List (ParsedLine × ℕ) := rows.filter fun p => filters.all fun f => f.accepts rows p

theorem accepted_sublist {filters : List ResultFilterFunctions} {rows : List (ParsedLine × ℕ)} :
    (accepted filters rows).Sublist rows := List.filter_sublist

/-- A single filter with a map accepts the best line of each key. -/
theorem accepted_key {filter : ResultFilterFunctions} {κ : ResultLineData → Text}
    (h : filter.key = some κ) (rows : List (ParsedLine × ℕ)) :
    accepted [filter] rows = select (lineKey κ) ParsedLine.weight rows := by
  apply List.filter_congr
  intro p _
  simp [ResultFilterFunctions.accepts, h]

theorem accepted_row {filter : ResultFilterFunctions} (h : filter.key = none)
    (rows : List (ParsedLine × ℕ)) :
    accepted [filter] rows = rows.filter fun p => !filter.rejectsRow p.1.data := by
  apply List.filter_congr
  intro p _
  simp [ResultFilterFunctions.accepts, h]

theorem mem_zipIdx_of_mem {rows : List ParsedLine} {row : ParsedLine} (h : row ∈ rows) :
    ∃ i, (row, i) ∈ rows.zipIdx := by
  obtain ⟨i, hi⟩ := List.mem_iff_getElem?.mp h
  exact ⟨i, List.mk_mem_zipIdx_iff_getElem?.mpr hi⟩

namespace ResultFilter
variable {resultFilter after : ResultFilter} {rows : List (ParsedLine × ℕ)}

/-- The maps of the active filters hold the best line for every key of the rows. -/
def HoldsBest (resultFilter : ResultFilter) (rows : List (ParsedLine × ℕ)) : Prop :=
  ∀ f ∈ resultFilter.activeFilters, ∀ κ, f.key = some κ → ∀ p ∈ rows, ∃ best ∈ rows,
    lineKey κ best.1 = lineKey κ p.1 ∧ IsBest (lineKey κ) ParsedLine.weight rows best ∧
      resultFilter.seen f (κ p.1.data) = some (ParsedLine.entry best)

theorem HoldsBest.knows (h : resultFilter.HoldsBest rows) (hrows : Numbered rows)
    {p : ParsedLine × ℕ} (hp : p ∈ rows) : resultFilter.Knows p := by
  intro f hf κ hκ
  obtain ⟨best, hmem, -, -, hseen⟩ := h f hf κ hκ p hp
  refine ⟨_, hseen, fun hnumber => ?_⟩
  rw [hrows.eq_of_number hp hmem hnumber]
  rfl

theorem HoldsBest.rejects (h : resultFilter.HoldsBest rows) (hrows : Numbered rows)
    {p : ParsedLine × ℕ} (hp : p ∈ rows) {f : ResultFilterFunctions}
    (hf : f ∈ resultFilter.activeFilters) : resultFilter.rejects p f = !f.accepts rows p := by
  unfold ResultFilter.rejects ResultFilterFunctions.accepts
  cases hκ : f.key with
  | none => simp
  | some κ =>
    obtain ⟨best, hmem, hkey, hbest, hseen⟩ := h f hf κ hκ p hp
    simp only [hseen, Option.map_some]
    rw [← decide_not, decide_eq_decide]
    constructor
    · intro hne hisBest
      apply hne
      rw [IsBest.unique hrows hmem hp hkey hbest hisBest]
      rfl
    · intro hnot heq
      apply hnot
      have : best = p := hrows.eq_of_number hmem hp (Option.some.inj heq)
      rwa [← this]

theorem HoldsBest.kept (h : resultFilter.HoldsBest rows) (hrows : Numbered rows) :
    resultFilter.kept rows = accepted resultFilter.activeFilters rows := by
  unfold ResultFilter.kept accepted
  apply List.filter_congr
  intro p hp
  rw [List.not_any_eq_all_not, Bool.eq_iff_iff, List.all_eq_true, List.all_eq_true]
  exact forall₂_congr fun f hf => by rw [h.rejects hrows hp hf, Bool.not_not]

/-- Both passes, when the first one leaves the best lines of the file in the maps. -/
theorem applyFilters_holdsBest {rows : List ParsedLine} (hcount : rows.length < 2 ^ 31)
    (hsafe : resultFilter.PassSafe rows)
    (hbest : ∀ after, Collected resultFilter after rows.zipIdx → after.HoldsBest rows.zipIdx) :
    ∃ after, Collected resultFilter after rows.zipIdx ∧
      resultFilter.applyFilters (resultLines rows) =
        ⟨headerline :: (accepted resultFilter.activeFilters rows.zipIdx).map (fun p => p.1.line),
          .ok after⟩ := by
  obtain ⟨after, hrun, hcollected⟩ := prefilterLines_ok 0 (by omega) hsafe
  have hnum : Numbered rows.zipIdx := numbered_zipIdx rows 0
  refine ⟨after, hcollected, ?_⟩
  rw [applyFilters_ok hcount hrun fun p hp => (hbest after hcollected).knows hnum hp,
    (hbest after hcollected).kept hnum, hcollected.1]

/-- The maps of the active filters hold nothing for the keys of the rows. -/
def Unseen (resultFilter : ResultFilter) (rows : List ParsedLine) : Prop :=
  ∀ f ∈ resultFilter.activeFilters, ∀ κ, f.key = some κ → ∀ p ∈ rows,
    resultFilter.seen f (κ p.data) = none

theorem Unseen.holdsBest {rows : List ParsedLine} (h : resultFilter.Unseen rows)
    (hcollected : Collected resultFilter after rows.zipIdx) : after.HoldsBest rows.zipIdx := by
  intro f hf κ hκ p hp
  rw [hcollected.1] at hf
  rw [hcollected.2 f κ hκ, if_pos hf]
  apply collect_of_none entryWeight_entry (numbered_zipIdx rows 0) hp
  exact h f hf κ hκ p.1 (List.fst_mem_of_mem_zipIdx hp)

/-- Two rows with one key of an active filter both have an absolute timing. -/
def Comparable (filters : List ResultFilterFunctions) (rows : List ParsedLine) : Prop :=
  ∀ f ∈ filters, ∀ κ, f.key = some κ → rows.Pairwise fun p q =>
    κ p.data = κ q.data → p.data.timing ≠ intMin ∧ q.data.timing ≠ intMin

theorem Unseen.passSafe_iff {rows : List ParsedLine} (h : resultFilter.Unseen rows) :
    resultFilter.PassSafe rows ↔ Comparable resultFilter.activeFilters rows := by
  refine forall₂_congr fun f hf => forall₂_congr fun κ hκ => and_iff_right fun p hp b hb => ?_
  rw [h f hf κ hκ p hp] at hb
  cases hb

theorem applyFilters_unseen {rows : List ParsedLine} (hunseen : resultFilter.Unseen rows)
    (hcount : rows.length < 2 ^ 31)
    (hcomparable : Comparable resultFilter.activeFilters rows) :
    ∃ after, Collected resultFilter after rows.zipIdx ∧
      resultFilter.applyFilters (resultLines rows) =
        ⟨headerline :: (accepted resultFilter.activeFilters rows.zipIdx).map (fun p => p.1.line),
          .ok after⟩ :=
  applyFilters_holdsBest hcount (hunseen.passSafe_iff.mpr hcomparable) fun _ => hunseen.holdsBest

/-- The same file when it is too long or has rows that cannot be compared. -/
theorem applyFilters_unseen_undefined {rows : List ParsedLine} (hunseen : resultFilter.Unseen rows)
    (h : ¬ (rows.length < 2 ^ 31 ∧ Comparable resultFilter.activeFilters rows)) :
    resultFilter.applyFilters (resultLines rows) = ⟨[], .error .undefinedBehaviour⟩ :=
  applyFilters_undefined (by rwa [hunseen.passSafe_iff])

end ResultFilter
end OsirisArm
