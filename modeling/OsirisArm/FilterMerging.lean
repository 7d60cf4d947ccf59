import OsirisArm.FilterCommand
import OsirisArm.Library.SelectionMerging

/-! # Filtering in parts

A result file can be filtered in parts: the rows that the filter stage keeps of each part are put
together and filtered again. The result is that of the whole file, wherever it is cut.
-/

namespace OsirisArm

open Library Library.Selection

/-- The rows of the third output file of the filter stage. -/
def stagedRows (rows : List ParsedLine) : List ParsedLine :=
  stageRows .measurementTriggerExtensionPairs (stageRows .uniquePropertyTuples
    (stageRows .removeAllCacheSequences rows))

def withoutCache (rows : List ParsedLine) : List ParsedLine :=
  rows.filter fun row => !filterFunctionRemoveAllCacheSequences row.data

/-- Rows with one property key have one extension key. -/
def KeysRefine (rows : List ParsedLine) : Prop :=
  ∀ p ∈ rows, ∀ q ∈ rows, p.data.propertyTuple = q.data.propertyTuple →
    p.data.extensionPair = q.data.extensionPair

theorem KeysRefine.subset {rows rows' : List ParsedLine} (h : KeysRefine rows)
    (hsub : rows' ⊆ rows) : KeysRefine rows' :=
  fun p hp q hq => h p (hsub hp) q (hsub hq)

theorem stageRows_removeAllCacheSequences (rows : List ParsedLine) :
    stageRows .removeAllCacheSequences rows = withoutCache rows := by
  have hfilter : (fun p : ParsedLine × ℕ =>
      !ResultFilterFunctions.removeAllCacheSequences.rejectsRow p.1.data) =
      (fun row : ParsedLine => !filterFunctionRemoveAllCacheSequences row.data) ∘ Prod.fst := rfl
  rw [stageRows, accepted_row rfl, hfilter, ← List.filter_map, map_fst_zipIdx]
  rfl

theorem stagedRows_sublist (rows : List ParsedLine) : (stagedRows rows).Sublist rows :=
  ((stageRows_sublist _ _).trans (stageRows_sublist _ _)).trans (stageRows_sublist _ _)

theorem flatMap_stagedRows_sublist (parts : List (List ParsedLine)) :
    (parts.flatMap stagedRows).Sublist parts.flatten := by
  induction parts with
  | nil => exact List.Sublist.slnil
  | cons part parts ih => exact (stagedRows_sublist part).append ih

/-- The three stages are one selection among the rows without cache instructions. -/
theorem stagedRows_eq {rows : List ParsedLine} (h : KeysRefine rows) :
    stagedRows rows = firstBest (lineKey ResultLineData.extensionPair) ParsedLine.weight
      (withoutCache rows) := by
  have hrefine : KeysRefine (withoutCache rows) := h.subset List.filter_sublist.subset
  rw [stagedRows, stageRows_key rfl, stageRows_key rfl, stageRows_removeAllCacheSequences]
  exact firstBest_firstBest hrefine

theorem withoutCache_stagedRows (parts : List (List ParsedLine)) :
    withoutCache (parts.flatMap stagedRows) = parts.flatMap stagedRows := by
  refine List.filter_eq_self.2 fun row hrow => ?_
  obtain ⟨part, -, hmem⟩ := List.mem_flatMap.1 hrow
  have hfirst : row ∈ stageRows .removeAllCacheSequences part :=
    ((stageRows_sublist _ _).trans (stageRows_sublist _ _)).subset hmem
  rw [stageRows_removeAllCacheSequences] at hfirst
  exact (List.mem_filter.1 hfirst).2

/-- The parts of a list of rows can be filtered one by one. -/
theorem stagedRows_flatten {parts : List (List ParsedLine)} (h : KeysRefine parts.flatten) :
    stagedRows parts.flatten = stagedRows (parts.flatMap stagedRows) := by
  have hparts : ∀ part ∈ parts, stagedRows part =
      firstBest (lineKey ResultLineData.extensionPair) ParsedLine.weight (withoutCache part) :=
    fun part hpart => stagedRows_eq (h.subset (List.sublist_flatten_of_mem hpart).subset)
  rw [stagedRows_eq h, stagedRows_eq (h.subset (flatMap_stagedRows_sublist parts).subset),
    withoutCache_stagedRows, withoutCache, List.filter_flatten, firstBest_flatten, List.flatMap_map]
  exact congrArg _ (List.flatMap_congr fun part hpart => (hparts part hpart).symm)

/-- The filter stage on each part of a result file writes the rows it keeps of the part; on the
whole file and on the rows kept of the parts it writes the same file. -/
theorem filterStage_parts {parts : List (List ParsedLine)} (hrows : Countable parts.flatten)
    (hkeys : KeysRefine parts.flatten) :
    ∃ kept : List (List ParsedLine), kept.length = parts.length ∧
      (∀ i (hi : i < parts.length) (hi' : i < kept.length) inputFile content files,
        inputFile ≠ [] → files inputFile = some content →
        readLines content = resultLines parts[i] →
        (filterStage inputFile files).1 (filteredFilename inputFile) =
          some (fileText (resultLines kept[i])) ∧ (filterStage inputFile files).2 = .ok ()) ∧
      ∀ wholeFile mergedFile content content' files files', wholeFile ≠ [] → mergedFile ≠ [] →
        files wholeFile = some content → readLines content = resultLines parts.flatten →
        files' mergedFile = some content' → readLines content' = resultLines kept.flatten →
        (filterStage wholeFile files).1 (filteredFilename wholeFile) =
            (filterStage mergedFile files').1 (filteredFilename mergedFile) ∧
          (filterStage wholeFile files).2 = .ok () ∧
          (filterStage mergedFile files').2 = .ok () := by
  have hrun {rows : List ParsedLine} (hcountable : Countable rows) {inputFile content : Text}
      {files : Files} (hname : inputFile ≠ []) (hinput : files inputFile = some content)
      (hcontent : readLines content = resultLines rows) :
      (filterStage inputFile files).1 (filteredFilename inputFile) =
        some (fileText (resultLines (stagedRows rows))) ∧
        (filterStage inputFile files).2 = .ok () := by
    obtain ⟨files2, hstage⟩ := filterStage_run hname hinput hcontent hcountable
    rw [hstage]
    exact ⟨Function.update_self .., rfl⟩
  refine ⟨parts.map stagedRows, List.length_map _,
    fun i hi hi' inputFile content files hname hinput hcontent => ?_,
    fun wholeFile mergedFile content content' files files' hwhole hmerged hinput hcontent hinput'
      hcontent' => ?_⟩
  · rw [List.getElem_map]
    exact hrun (hrows.sublist (List.sublist_flatten_of_mem (List.getElem_mem hi))) hname hinput
      hcontent
  · rw [← List.flatMap_def] at hcontent'
    obtain ⟨hfile, hok⟩ := hrun hrows hwhole hinput hcontent
    obtain ⟨hfile', hok'⟩ :=
      hrun (hrows.sublist (flatMap_stagedRows_sublist parts)) hmerged hinput' hcontent'
    rw [hfile, hfile', stagedRows_flatten hkeys]
    exact ⟨rfl, hok, hok'⟩

/-- The sample rows, cut after the first one. -/
theorem filterStage_parts_sample :
    ∃ kept : List (List ParsedLine), kept.length = 2 ∧
      ∀ content files', files' "merged.csv".toList = some content →
        readLines content = resultLines kept.flatten →
        (filterStage "results.csv".toList sampleFiles).1 (filteredFilename "results.csv".toList) =
          (filterStage "merged.csv".toList files').1 (filteredFilename "merged.csv".toList) := by
  have hrows : Countable [sampleRows.take 1, sampleRows.drop 1].flatten :=
    ⟨by decide, by decide⟩
  have hkeys : KeysRefine [sampleRows.take 1, sampleRows.drop 1].flatten := by
    unfold KeysRefine
    decide
  obtain ⟨kept, hkept, -, hmerged⟩ := filterStage_parts hrows hkeys
  have hinput : sampleFiles "results.csv".toList = some (fileText (resultLines sampleRows)) :=
    Function.update_self ..
  exact ⟨kept, hkept, fun content files' hfiles' hcontent =>
    (hmerged "results.csv".toList "merged.csv".toList _ content sampleFiles files' (by decide)
      (by decide) hinput (readLines_resultLines sampleRows) hfiles' hcontent).1⟩

end OsirisArm
