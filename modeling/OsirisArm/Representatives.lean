import OsirisArm.FilterCommand

/-! # Rows that stand for their key

A filter with a map keeps the first row of maximal timing of each key. The prefilters see all rows,
also those another active filter rejects. So a key may lose all its rows when the filters are
combined: exactly when the row chosen for it is rejected.
-/

namespace OsirisArm
open Library Library.Selection

/-- A filter with a map as the only filter of an unused object. -/
theorem applyFiltersOnFile_selects {resultFilter : ResultFilter} (hunused : resultFilter.Unused)
    {filter : ResultFilterFunctions} (hactive : resultFilter.activeFilters = [filter])
    {κ : ResultLineData → Text} (hκ : filter.key = some κ) {rows : List ParsedLine}
    {inputFilename outputFilename content : Text} {files : Files}
    (hnames : inputFilename ≠ outputFilename) (hinput : files inputFilename = some content)
    (hcontent : readLines content = resultLines rows) (hcount : rows.length < 2 ^ 31)
    (htimings : ∀ row ∈ rows, intMin < row.data.timing) :
    ∃ selected after, Selects (lineKey κ) ParsedLine.weight rows.zipIdx selected ∧
      applyFiltersOnFile inputFilename outputFilename resultFilter files =
        (Function.update files outputFilename
          (some (fileText (headerline :: selected.map fun p => p.1.line))), .ok after) := by
  have hrows : Countable rows := ⟨hcount, fun row hrow => (htimings row hrow).ne'⟩
  obtain ⟨after, -, hrun⟩ := applyFiltersOnFile_unseen (hunused.unseen rows) hnames hinput hcontent
    hrows
  refine ⟨select (lineKey κ) ParsedLine.weight rows.zipIdx, after,
    selects_select _ _ (numbered_zipIdx rows 0), ?_⟩
  rw [hrun, hactive, filteredRows, accepted_key hκ, resultLines, List.map_map]
  rfl

theorem applyFiltersOnFile_selects_sample : ∃ selected after,
    Selects (lineKey ResultLineData.propertyTuple) ParsedLine.weight sampleRows.zipIdx selected ∧
      applyFiltersOnFile "results.csv".toList "filtered.csv".toList
        (ResultFilter.fresh.enableFilter .uniquePropertyTuples) sampleFiles =
          (Function.update sampleFiles "filtered.csv".toList
            (some (fileText (headerline :: selected.map fun p => p.1.line))), .ok after) :=
  applyFiltersOnFile_selects (ResultFilter.unused_fresh.enableFilters [.uniquePropertyTuples])
    (ResultFilter.activeFilters_enable_fresh .uniquePropertyTuples) rfl (by decide)
    (Function.update_self _ _ _) (readLines_resultLines sampleRows) (by decide) (by decide)

/-- The row passes the filters that look at rows alone. -/
def PassesRowFilters (filters : List ResultFilterFunctions) (row : ParsedLine) : Prop :=
  ∀ f ∈ filters, f.key = none → f.rejectsRow row.data = false

instance (filters : List ResultFilterFunctions) (row : ParsedLine) :
    Decidable (PassesRowFilters filters row) :=
  inferInstanceAs (Decidable (∀ f ∈ filters, f.key = none → f.rejectsRow row.data = false))

/-- The output has a row with the property tuple of this row. -/
def Represented (resultFilter : ResultFilter) (content : Text) (row : ParsedLine) : Prop :=
  ∃ line ∈ (resultFilter.applyFilters (readLines content)).written.tail, ∃ data,
    resultLineData line = .ok data ∧ data.propertyTuple = row.data.propertyTuple

section
variable {filters : List ResultFilterFunctions} {rows : List ParsedLine}

theorem key_propertyTuple (hpairs : .measurementTriggerExtensionPairs ∉ filters)
    {f : ResultFilterFunctions} (hf : f ∈ filters) {κ : ResultLineData → Text}
    (hκ : f.key = some κ) : f = .uniquePropertyTuples ∧ κ = ResultLineData.propertyTuple := by
  cases f with
  | uniquePropertyTuples =>
    cases hκ
    exact ⟨rfl, rfl⟩
  | measurementTriggerExtensionPairs => exact absurd hf hpairs
  | increaseThresholdTo300 => cases hκ
  | removeCacheResetSequence => cases hκ
  | removeAllCacheSequences => cases hκ

theorem mem_accepted_unique (hunique : .uniquePropertyTuples ∈ filters)
    (hpairs : .measurementTriggerExtensionPairs ∉ filters) {numbered : List (ParsedLine × ℕ)}
    {p : ParsedLine × ℕ} : p ∈ accepted filters numbered ↔ p ∈ numbered ∧
      IsBest (lineKey ResultLineData.propertyTuple) ParsedLine.weight numbered p ∧
        PassesRowFilters filters p.1 := by
  rw [accepted, List.mem_filter, List.all_eq_true]
  refine and_congr_right fun hp => ⟨fun h => ⟨?_, fun f hf hκ => ?_⟩, fun h f hf => ?_⟩
  · exact of_decide_eq_true (h .uniquePropertyTuples hunique)
  · have haccepts := h f hf
    simpa [ResultFilterFunctions.accepts, hκ] using haccepts
  · cases hκ : f.key with
    | none => simp [ResultFilterFunctions.accepts, hκ, h.2 f hf hκ]
    | some κ =>
      obtain ⟨rfl, rfl⟩ := key_propertyTuple hpairs hf hκ
      exact decide_eq_true h.1

theorem comparable_unique (hunique : .uniquePropertyTuples ∈ filters)
    (hpairs : .measurementTriggerExtensionPairs ∉ filters) :
    rows.length < 2 ^ 31 ∧ ResultFilter.Comparable filters rows ↔ PassDefined rows := by
  refine and_congr_right fun _ => ⟨fun h => h _ hunique _ rfl, fun h f hf κ hκ => ?_⟩
  obtain ⟨-, rfl⟩ := key_propertyTuple hpairs hf hκ
  exact h

variable {resultFilter : ResultFilter} {content : Text}

/-- A key is represented by the row chosen for it or not at all. -/
theorem represented_iff_best (hunused : resultFilter.Unused)
    (hunique : .uniquePropertyTuples ∈ resultFilter.activeFilters)
    (hpairs : .measurementTriggerExtensionPairs ∉ resultFilter.activeFilters)
    (hcontent : readLines content = resultLines rows) (row : ParsedLine) :
    Represented resultFilter content row ↔ PassDefined rows ∧ ∃ best ∈ rows.zipIdx,
      best.1.data.propertyTuple = row.data.propertyTuple ∧
        IsBest (lineKey ResultLineData.propertyTuple) ParsedLine.weight rows.zipIdx best ∧
          PassesRowFilters resultFilter.activeFilters best.1 := by
  rw [Represented, hcontent]
  by_cases hdefined : PassDefined rows
  · obtain ⟨hcount, hcomparable⟩ := (comparable_unique hunique hpairs).mpr hdefined
    obtain ⟨after, -, hrun⟩ := ResultFilter.applyFilters_unseen (hunused.unseen rows) hcount
      hcomparable
    rw [hrun, List.tail_cons]
    constructor
    · rintro ⟨line, hline, data, hdata, hkey⟩
      obtain ⟨best, hbest, rfl⟩ := List.mem_map.mp hline
      obtain ⟨hmem, hisBest, hpasses⟩ := (mem_accepted_unique hunique hpairs).mp hbest
      obtain rfl := Except.ok.inj (best.1.parsed.symm.trans hdata)
      exact ⟨hdefined, best, hmem, hkey, hisBest, hpasses⟩
    · rintro ⟨-, best, hmem, hkey, hisBest, hpasses⟩
      have hbest := (mem_accepted_unique hunique hpairs).mpr ⟨hmem, hisBest, hpasses⟩
      exact ⟨best.1.line, List.mem_map_of_mem hbest, best.1.data, best.1.parsed, hkey⟩
  · rw [ResultFilter.applyFilters_unseen_undefined (hunused.unseen rows)
      (by rwa [comparable_unique hunique hpairs])]
    simp [hdefined]

/-- The best row of a key passes a threshold that some row of the key passes. -/
theorem passesRowFilters_best (hfilters : ∀ f ∈ filters, f = .uniquePropertyTuples ∨
      f = .increaseThresholdTo300) {row best : ParsedLine} (hpasses : PassesRowFilters filters row)
    (hweight : row.weight ≤ best.weight) : PassesRowFilters filters best := by
  intro f hf hκ
  rcases hfilters f hf with rfl | rfl
  · cases hκ
  · have hrow := hpasses _ hf hκ
    simp only [ResultFilterFunctions.rejectsRow, filterFunctionIncreaseThreshold300,
      ParsedLine.weight, Bool.and_eq_false_imp, decide_eq_true_eq, decide_eq_false_iff_not]
      at hrow hweight ⊢
    omega

/-- A property tuple of the file has a row in the output if and only if the passes are defined and
the first row of maximal timing with this tuple passes all other active filters. With no other
filter than the threshold this is so whenever a row with the tuple passes. -/
theorem represented_iff (hunused : resultFilter.Unused)
    (hunique : .uniquePropertyTuples ∈ resultFilter.activeFilters)
    (hpairs : .measurementTriggerExtensionPairs ∉ resultFilter.activeFilters)
    (hcontent : readLines content = resultLines rows) {row : ParsedLine} (hrow : row ∈ rows) :
    (Represented resultFilter content row ↔ PassDefined rows ∧ ∃ best ∈ rows.zipIdx,
      best.1.data.propertyTuple = row.data.propertyTuple ∧
        IsBest (lineKey ResultLineData.propertyTuple) ParsedLine.weight rows.zipIdx best ∧
          PassesRowFilters resultFilter.activeFilters best.1) ∧
    ((∀ f ∈ resultFilter.activeFilters, f = .uniquePropertyTuples ∨ f = .increaseThresholdTo300) →
      PassDefined rows → PassesRowFilters resultFilter.activeFilters row →
        Represented resultFilter content row) := by
  have hiff := represented_iff_best hunused hunique hpairs hcontent row
  refine ⟨hiff, fun hfilters hdefined hpasses => hiff.mpr ⟨hdefined, ?_⟩⟩
  obtain ⟨i, hi⟩ := mem_zipIdx_of_mem hrow
  obtain ⟨best, hmem, hkey, hbest⟩ :=
    exists_isBest (lineKey ResultLineData.propertyTuple) ParsedLine.weight hi
  exact ⟨best, hmem, hkey, hbest,
    passesRowFilters_best hfilters hpasses (hbest (row, i) hi hkey.symm).1⟩

end

/-- With the threshold as the only other filter the strongest row of the sample is kept. -/
theorem represented_iff_sample :
    let resultFilter := ResultFilter.fresh.enableFilters
      [.uniquePropertyTuples, .increaseThresholdTo300]
    let content := fileText (resultLines sampleRows)
    (Represented resultFilter content sampleRows[2] ↔ PassDefined sampleRows ∧
      ∃ best ∈ sampleRows.zipIdx,
        best.1.data.propertyTuple = sampleRows[2].data.propertyTuple ∧
          IsBest (lineKey ResultLineData.propertyTuple) ParsedLine.weight sampleRows.zipIdx best ∧
            PassesRowFilters resultFilter.activeFilters best.1) ∧
    Represented resultFilter content sampleRows[2] := by
  obtain ⟨hiff, hthreshold⟩ := represented_iff
    (ResultFilter.unused_fresh.enableFilters [.uniquePropertyTuples, .increaseThresholdTo300])
    (by decide) (by decide) (readLines_resultLines sampleRows)
    (List.getElem_mem (by decide : 2 < sampleRows.length))
  have hdefined : PassDefined sampleRows := ⟨by decide, by decide⟩
  exact ⟨hiff, hthreshold (by decide) hdefined (by decide)⟩

/-- Two rows with one property tuple; the stronger one resets with a cache instruction. -/
def cacheResetRows : List ParsedLine :=
  [{ line := "200;10000;MUL;A;B;I;10001;ADD;C;D;I;10002;CLFLUSH;E;F;I".toList
     data := ⟨200, "MUL".toList, "A".toList, "B".toList, "I".toList, "ADD".toList, "C".toList,
       "D".toList, "I".toList, "CLFLUSH".toList, "E".toList, "F".toList, "I".toList⟩
     parsed := rfl
     noNewline := by decide },
   { line := "100;10000;MUL;A;B;I;10001;ADD;C;D;I;10003;NOP;E;F;I".toList
     data := ⟨100, "MUL".toList, "A".toList, "B".toList, "I".toList, "ADD".toList, "C".toList,
       "D".toList, "I".toList, "NOP".toList, "E".toList, "F".toList, "I".toList⟩
     parsed := rfl
     noNewline := by decide }]

/-- The row without a cache instruction passes, but neither row is kept. -/
theorem cacheReset_not_represented :
    PassesRowFilters [.uniquePropertyTuples, .removeAllCacheSequences] cacheResetRows[1] ∧
      ¬ Represented
        (ResultFilter.fresh.enableFilters [.uniquePropertyTuples, .removeAllCacheSequences])
        (fileText (resultLines cacheResetRows)) cacheResetRows[1] := by
  have hrejected : ∀ p ∈ cacheResetRows.zipIdx,
      IsBest (lineKey ResultLineData.propertyTuple) ParsedLine.weight cacheResetRows.zipIdx p →
        ¬ PassesRowFilters [.uniquePropertyTuples, .removeAllCacheSequences] p.1 := by decide
  constructor
  · decide
  · rw [represented_iff_best (ResultFilter.unused_fresh.enableFilters _) (by decide) (by decide)
      (readLines_resultLines cacheResetRows)]
    rintro ⟨-, best, hbest, -, hisBest, hpasses⟩
    exact hrejected best hbest hisBest hpasses

end OsirisArm
