import OsirisArm.FilterCommand

/-! # Filtering twice

The rows a set of filters keeps are kept again when the filtered file is filtered with the same
set: a row that was the best of its key is the best among fewer rows, also under new numbers, and
the other filters look at the row alone.
-/

namespace OsirisArm
open Library Library.Selection

section
variable {filters : List ResultFilterFunctions} {rows : List (ParsedLine × ℕ)}

theorem accepts_sublist {filter : ResultFilterFunctions} {rows' : List (ParsedLine × ℕ)}
    (hsub : rows'.Sublist rows) {p : ParsedLine × ℕ} (h : filter.accepts rows p = true) :
    filter.accepts rows' p = true := by
  unfold ResultFilterFunctions.accepts at h ⊢
  cases hκ : filter.key with
  | none => simpa [hκ] using h
  | some κ =>
    simp only [hκ, decide_eq_true_eq] at h ⊢
    exact h.sublist hsub

theorem accepts_map_number (filter : ResultFilterFunctions) {φ : ℕ → ℕ}
    (hφ : ∀ p ∈ rows, ∀ q ∈ rows, φ p.2 < φ q.2 ↔ p.2 < q.2) {p : ParsedLine × ℕ} (hp : p ∈ rows) :
    filter.accepts (rows.map fun p => (p.1, φ p.2)) (p.1, φ p.2) = filter.accepts rows p := by
  unfold ResultFilterFunctions.accepts
  cases filter.key with
  | none => rfl
  | some κ => exact decide_eq_decide.mpr (isBest_map_number hφ hp)

theorem accepted_renumbered {φ : ℕ → ℕ}
    (hφ : ∀ p ∈ accepted filters rows, ∀ q ∈ accepted filters rows, φ p.2 < φ q.2 ↔ p.2 < q.2) :
    accepted filters ((accepted filters rows).map fun p => (p.1, φ p.2)) =
      (accepted filters rows).map fun p => (p.1, φ p.2) := by
  apply List.filter_eq_self.mpr
  intro q hq
  obtain ⟨p, hp, rfl⟩ := List.mem_map.mp hq
  have haccepts := List.all_eq_true.mp (List.mem_filter.mp hp).2
  rw [List.all_eq_true]
  intro filter hfilter
  rw [accepts_map_number filter hφ hp]
  exact accepts_sublist accepted_sublist (haccepts filter hfilter)

end

theorem filteredRows_filteredRows (filters : List ResultFilterFunctions) (rows : List ParsedLine) :
    filteredRows filters (filteredRows filters rows) = filteredRows filters rows := by
  have hnumbered : Numbered (accepted filters rows.zipIdx) :=
    (numbered_zipIdx rows 0).sublist accepted_sublist
  obtain ⟨φ, hzip, hφ⟩ := zipIdx_renumbers hnumbered
  calc filteredRows filters (filteredRows filters rows)
      = (accepted filters ((accepted filters rows.zipIdx).map fun p => (p.1, φ p.2))).map
          Prod.fst := by rw [filteredRows, filteredRows, hzip]
    _ = ((accepted filters rows.zipIdx).map fun p => (p.1, φ p.2)).map Prod.fst := by
        rw [accepted_renumbered hφ]
    _ = filteredRows filters rows := by
        rw [List.map_map]
        rfl

theorem filteredRows_congr {filters filters' : List ResultFilterFunctions}
    (h : ∀ f, f ∈ filters ↔ f ∈ filters') (rows : List ParsedLine) :
    filteredRows filters rows = filteredRows filters' rows := by
  rw [filteredRows, filteredRows, accepted_congr h]

/-- Two unused objects with the same active filters: filtering the output of the first one with the
second one gives the same bytes. -/
theorem applyFiltersOnFile_idempotent {first second : ResultFilter} (hfirst : first.Unused)
    (hsecond : second.Unused)
    (hactive : ∀ f, f ∈ second.activeFilters ↔ f ∈ first.activeFilters)
    {inputFilename filteredFilename twiceFilename content : Text} {files : Files}
    {rows : List ParsedLine} (hinputName : inputFilename ≠ filteredFilename)
    (hfilteredName : filteredFilename ≠ twiceFilename)
    (hinput : files inputFilename = some content)
    (hcontent : readLines content = resultLines rows) (hcount : rows.length < 2 ^ 31)
    (htimings : ∀ row ∈ rows, intMin < row.data.timing) :
    ∃ filtered after files' after',
      applyFiltersOnFile inputFilename filteredFilename first files =
        (Function.update files filteredFilename (some filtered), .ok after) ∧
      applyFiltersOnFile filteredFilename twiceFilename second
        (Function.update files filteredFilename (some filtered)) = (files', .ok after') ∧
      files' twiceFilename = some filtered := by
  have hrows : Countable rows := ⟨hcount, fun row hrow => (htimings row hrow).ne'⟩
  let kept := filteredRows first.activeFilters rows
  have hkept : Countable kept := hrows.sublist (filteredRows_sublist _ rows)
  obtain ⟨after, -, hrun⟩ := applyFiltersOnFile_unseen (hfirst.unseen rows) hinputName hinput
    hcontent hrows
  obtain ⟨after', -, hrun'⟩ := applyFiltersOnFile_unseen (hsecond.unseen kept) hfilteredName
    (Function.update_self filteredFilename (some (fileText (resultLines kept))) files)
    (readLines_resultLines kept) hkept
  refine ⟨fileText (resultLines kept), after, _, after', hrun, hrun', ?_⟩
  rw [Function.update_self, filteredRows_congr hactive, filteredRows_filteredRows]

theorem applyFiltersOnFile_idempotent_sample :
    let first := ResultFilter.fresh.enableFilters [.uniquePropertyTuples, .removeAllCacheSequences]
    let second := ResultFilter.fresh.enableFilters [.removeAllCacheSequences, .uniquePropertyTuples]
    ∃ filtered after files' after',
      applyFiltersOnFile "results.csv".toList "filtered.csv".toList first sampleFiles =
        (Function.update sampleFiles "filtered.csv".toList (some filtered), .ok after) ∧
      applyFiltersOnFile "filtered.csv".toList "twice.csv".toList second
        (Function.update sampleFiles "filtered.csv".toList (some filtered)) =
          (files', .ok after') ∧
      files' "twice.csv".toList = some filtered :=
  applyFiltersOnFile_idempotent (ResultFilter.unused_fresh.enableFilters _)
    (ResultFilter.unused_fresh.enableFilters _) (fun f => by cases f <;> decide) (by decide)
    (by decide) (Function.update_self _ _ _) (readLines_resultLines sampleRows) (by decide)
    (by decide)

end OsirisArm
