import OsirisArm.PropertyTuples

/-! # The filter stage of the program

The stage filters a result file three times with one filter object: cache instructions are removed,
then one row is kept for each property tuple and then one for each pair of extensions. The second
selection is done within the groups of the third, so it never removes a row the third would keep.
-/

namespace OsirisArm
open Library Library.Selection

def filterStage (inputFile : Text) (files : Files) : Files × Except Stop Unit :=
  let baseName := cutFileEnding inputFile
  let outputFile1 := baseName ++ "_nocache.csv".toList
  let outputFile2 := baseName ++ "_nocache_filtered_by_all.csv".toList
  let outputFile3 := baseName ++ "_nocache_filtered_by_all_mt_extensionpair.csv".toList
  if inputFile = [] then (files, .error .assertion)
  else
    let resultFilter := ResultFilter.fresh.enableFilter .removeAllCacheSequences
    match applyFiltersOnFile inputFile outputFile1 resultFilter files with
    | (files, .error stop) => (files, .error stop)
    | (files, .ok resultFilter) =>
      let resultFilter := resultFilter.clearAllFilters.enableFilter .uniquePropertyTuples
      match applyFiltersOnFile outputFile1 outputFile2 resultFilter files with
      | (files, .error stop) => (files, .error stop)
      | (files, .ok resultFilter) =>
        let resultFilter :=
          resultFilter.clearAllFilters.enableFilter .measurementTriggerExtensionPairs
        match applyFiltersOnFile outputFile2 outputFile3 resultFilter files with
        | (files, .error stop) => (files, .error stop)
        | (files, .ok _) => (files, .ok ())

/-- The name of the third output file. -/
def filteredFilename (inputFile : Text) : Text :=
  cutFileEnding inputFile ++ "_nocache_filtered_by_all_mt_extensionpair.csv".toList

/-- The extensions of the measurement and of the trigger. -/
def extensions (row : ParsedLine) : Text × Text :=
  (row.data.measurementExtension, row.data.triggerExtension)

/-- The rows that a set of filters keeps. -/
def filteredRows (filters : List ResultFilterFunctions) (rows : List ParsedLine) :
    List ParsedLine := (accepted filters rows.zipIdx).map Prod.fst

theorem filteredRows_sublist (filters : List ResultFilterFunctions) (rows : List ParsedLine) :
    (filteredRows filters rows).Sublist rows := by
  have h : ((accepted filters rows.zipIdx).map Prod.fst).Sublist (rows.zipIdx.map Prod.fst) :=
    accepted_sublist.map Prod.fst
  rwa [List.zipIdx_map_fst] at h

/-- The lines that a stage with one filter keeps. -/
def stageRows (filter : ResultFilterFunctions) (rows : List ParsedLine) : List ParsedLine :=
  (accepted [filter] rows.zipIdx).map Prod.fst

theorem stageRows_sublist (filter : ResultFilterFunctions) (rows : List ParsedLine) :
    (stageRows filter rows).Sublist rows := filteredRows_sublist [filter] rows

theorem stageRows_key {filter : ResultFilterFunctions} {κ : ResultLineData → Text}
    (h : filter.key = some κ) (rows : List ParsedLine) :
    stageRows filter rows = firstBest (lineKey κ) ParsedLine.weight rows := by
  rw [stageRows, accepted_key h]
  rfl

/-- Every timing of the file has an absolute value, and the line numbers fit an `int`. -/
def Countable (rows : List ParsedLine) : Prop :=
  rows.length < 2 ^ 31 ∧ ∀ row ∈ rows, row.data.timing ≠ intMin

theorem Countable.sublist {rows rows' : List ParsedLine} (h : Countable rows)
    (hsub : rows'.Sublist rows) : Countable rows' :=
  ⟨hsub.length_le.trans_lt h.1, fun row hrow => h.2 row (hsub.subset hrow)⟩

theorem Countable.comparable {rows : List ParsedLine} (h : Countable rows)
    (filters : List ResultFilterFunctions) : ResultFilter.Comparable filters rows := by
  intro f _ κ _
  exact List.pairwise_of_forall_mem_list fun p hp q hq _ => ⟨h.2 p hp, h.2 q hq⟩

theorem readLines_resultLines (rows : List ParsedLine) :
    readLines (fileText (resultLines rows)) = resultLines rows := by
  apply readLines_fileText
  intro line hline
  rcases List.mem_cons.mp hline with hheader | hline
  · rw [hheader]
    exact headerline_no_newline
  · obtain ⟨row, -, rfl⟩ := List.mem_map.mp hline
    exact row.noNewline

theorem applyFiltersOnFile_unseen {resultFilter : ResultFilter} {rows : List ParsedLine}
    {inputFilename outputFilename content : Text} {files : Files}
    (hunseen : resultFilter.Unseen rows) (hnames : inputFilename ≠ outputFilename)
    (hinput : files inputFilename = some content)
    (hcontent : readLines content = resultLines rows) (hrows : Countable rows) :
    ∃ after, ResultFilter.Collected resultFilter after rows.zipIdx ∧
      applyFiltersOnFile inputFilename outputFilename resultFilter files =
        (Function.update files outputFilename
          (some (fileText (resultLines (filteredRows resultFilter.activeFilters rows)))),
          .ok after) := by
  obtain ⟨after, hcollected, hrun⟩ :=
    ResultFilter.applyFilters_unseen hunseen hrows.1 (hrows.comparable _)
  refine ⟨after, hcollected, ?_⟩
  unfold applyFiltersOnFile
  simp only [hinput, Function.update_of_ne hnames, Option.getD_some, hcontent, hrun]
  rw [Function.update_idem, resultLines, filteredRows, List.map_map]
  rfl

/-- One stage, with the other filters cleared: the object has not met the keys of its filter. -/
theorem applyFiltersOnFile_stage {resultFilter : ResultFilter} {filter : ResultFilterFunctions}
    {rows : List ParsedLine} {inputFilename outputFilename content : Text} {files : Files}
    (hnames : inputFilename ≠ outputFilename) (hinput : files inputFilename = some content)
    (hcontent : readLines content = resultLines rows)
    (hrows : Countable rows) (hactive : resultFilter.activeFilters = [filter])
    (hunseen : ∀ κ, filter.key = some κ → resultFilter.seen filter = fun _ => none) :
    ∃ after, applyFiltersOnFile inputFilename outputFilename resultFilter files =
        (Function.update files outputFilename
          (some (fileText (resultLines (stageRows filter rows)))), .ok after) ∧
      ∀ g, g ≠ filter → ∀ κ, g.key = some κ → after.seen g = resultFilter.seen g := by
  have hnone : resultFilter.Unseen rows := by
    intro f hf κ hκ p _
    rw [hactive, List.mem_singleton] at hf
    subst hf
    rw [hunseen κ hκ]
  obtain ⟨after, hcollected, hrun⟩ := applyFiltersOnFile_unseen hnone hnames hinput hcontent hrows
  refine ⟨after, ?_, fun g hg κ hκ => ?_⟩
  · rw [hrun, hactive]
    rfl
  · rw [hcollected.2 g κ hκ, if_neg (by simpa [hactive] using hg)]

/-- The rows without a cache instruction, with their places in the file. -/
def noCacheRows (rows : List ParsedLine) : List (ParsedLine × ℕ) :=
  rows.zipIdx.filter fun p => !filterFunctionRemoveAllCacheSequences p.1.data

/-- `selected` holds the first row of maximal timing for each pair of extensions in `rows`, in the
order of `rows`. -/
structure SelectsPairs (rows selected : List (ParsedLine × ℕ)) : Prop where
  inOrder : selected.Sublist rows
  maximal : ∀ p ∈ selected, ∀ q ∈ rows, extensions q.1 = extensions p.1 →
    q.1.data.timing.natAbs ≤ p.1.data.timing.natAbs ∧
      (q.2 < p.2 → q.1.data.timing.natAbs < p.1.data.timing.natAbs)
  onePerPair : ∀ q ∈ rows, ∃! p, p ∈ selected ∧ extensions p.1 = extensions q.1

theorem selectsPairs_select {rows : List (ParsedLine × ℕ)} (h : Numbered rows) :
    SelectsPairs rows (select extensions ParsedLine.weight rows) :=
  have hselects := selects_select extensions ParsedLine.weight h
  ⟨hselects.inOrder, hselects.best, hselects.onePerGroup⟩

theorem stageRows_three {rows : List ParsedLine}
    (hproperties : ∀ p ∈ rows, ∀ q ∈ rows,
      p.data.propertyTuple = q.data.propertyTuple → p.data.properties = q.data.properties)
    (hextensions : ∀ p ∈ rows, ∀ q ∈ rows,
      p.data.extensionPair = q.data.extensionPair → extensions p = extensions q) :
    stageRows .measurementTriggerExtensionPairs (stageRows .uniquePropertyTuples
        (stageRows .removeAllCacheSequences rows)) =
      (select extensions ParsedLine.weight (noCacheRows rows)).map Prod.fst := by
  have hnumbered : Numbered (noCacheRows rows) :=
    (numbered_zipIdx rows 0).sublist List.filter_sublist
  have hfirst : stageRows .removeAllCacheSequences rows = (noCacheRows rows).map Prod.fst := by
    rw [stageRows, accepted_row rfl]
    rfl
  have hmem (row : ParsedLine) (h : row ∈ (noCacheRows rows).map Prod.fst) : row ∈ rows := by
    rw [← hfirst] at h
    exact (stageRows_sublist _ rows).subset h
  have hpairs : ∀ p ∈ (noCacheRows rows).map Prod.fst, ∀ q ∈ (noCacheRows rows).map Prod.fst,
      lineKey ResultLineData.extensionPair p = lineKey ResultLineData.extensionPair q ↔
        extensions p = extensions q := by
    intro p hp q hq
    refine ⟨hextensions p (hmem p hp) q (hmem q hq), fun h => ?_⟩
    obtain ⟨hm, ht⟩ := Prod.mk.inj h
    simp only [lineKey, ResultLineData.extensionPair, hm, ht]
  have hrefines : ∀ p ∈ (noCacheRows rows).map Prod.fst, ∀ q ∈ (noCacheRows rows).map Prod.fst,
      lineKey ResultLineData.propertyTuple p = lineKey ResultLineData.propertyTuple q →
        lineKey ResultLineData.extensionPair p = lineKey ResultLineData.extensionPair q := by
    intro p hp q hq h
    have hproperty := hproperties p (hmem p hp) q (hmem q hq) h
    simp only [ResultLineData.properties, List.cons.injEq] at hproperty
    simp only [lineKey, ResultLineData.extensionPair, hproperty.2.1, hproperty.2.2.2.2.1]
  calc stageRows .measurementTriggerExtensionPairs (stageRows .uniquePropertyTuples
        (stageRows .removeAllCacheSequences rows))
      = firstBest (lineKey ResultLineData.extensionPair) ParsedLine.weight
          (firstBest (lineKey ResultLineData.propertyTuple) ParsedLine.weight
            ((noCacheRows rows).map Prod.fst)) := by
        rw [hfirst, stageRows_key rfl, stageRows_key rfl]
    _ = firstBest extensions ParsedLine.weight ((noCacheRows rows).map Prod.fst) := by
        rw [firstBest_firstBest hrefines, firstBest_congr hpairs]
    _ = (select extensions ParsedLine.weight (noCacheRows rows)).map Prod.fst :=
        firstBest_map_fst hnumbered

/-- The three stages run one after the other, each on the file of the one before. -/
theorem filterStage_run {inputFile content : Text} {files : Files} {rows : List ParsedLine}
    (hname : inputFile ≠ []) (hinput : files inputFile = some content)
    (hcontent : readLines content = resultLines rows) (hrows : Countable rows) :
    ∃ files2, filterStage inputFile files =
      (Function.update files2 (filteredFilename inputFile)
        (some (fileText (resultLines (stageRows .measurementTriggerExtensionPairs
          (stageRows .uniquePropertyTuples (stageRows .removeAllCacheSequences rows)))))),
        .ok ()) := by
  let baseName := cutFileEnding inputFile
  let outputFile1 := baseName ++ "_nocache.csv".toList
  let outputFile2 := baseName ++ "_nocache_filtered_by_all.csv".toList
  let rows1 := stageRows .removeAllCacheSequences rows
  let rows2 := stageRows .uniquePropertyTuples rows1
  let files1 := Function.update files outputFile1 (some (fileText (resultLines rows1)))
  let files2 := Function.update files1 outputFile2 (some (fileText (resultLines rows2)))
  have hrows1 : Countable rows1 := hrows.sublist (stageRows_sublist _ rows)
  have hrows2 : Countable rows2 := hrows1.sublist (stageRows_sublist _ rows1)
  have hname1 : inputFile ≠ outputFile1 := (append_ne_filename (by decide)).symm
  have hname2 : outputFile1 ≠ outputFile2 := fun h =>
    absurd (List.append_cancel_left h) (by decide)
  have hname3 : outputFile2 ≠ filteredFilename inputFile := fun h =>
    absurd (List.append_cancel_left h) (by decide)
  obtain ⟨after1, hrun1, hseen1⟩ := applyFiltersOnFile_stage hname1 hinput hcontent hrows
    (ResultFilter.activeFilters_enable_fresh .removeAllCacheSequences)
    (fun κ hκ => by cases hκ)
  obtain ⟨after2, hrun2, hseen2⟩ := applyFiltersOnFile_stage hname2
    (Function.update_self outputFile1 _ files) (readLines_resultLines rows1) hrows1
    (ResultFilter.activeFilters_enable_clear after1 .uniquePropertyTuples)
    (fun κ hκ => hseen1 _ (by decide) κ hκ)
  obtain ⟨after3, hrun3, -⟩ := applyFiltersOnFile_stage hname3
    (Function.update_self outputFile2 _ files1) (readLines_resultLines rows2) hrows2
    (ResultFilter.activeFilters_enable_clear after2 .measurementTriggerExtensionPairs)
    (fun κ hκ => (hseen2 _ (by decide) κ hκ).trans (hseen1 _ (by decide) κ hκ))
  refine ⟨files2, ?_⟩
  unfold filterStage
  simp only [if_neg hname]
  rw [hrun1]
  simp only
  rw [hrun2]
  simp only
  rw [← filteredFilename, hrun3]

/-- The third output file of the filter stage. -/
theorem filterStage_selects {inputFile content : Text} {files : Files} {rows : List ParsedLine}
    (hname : inputFile ≠ []) (hinput : files inputFile = some content)
    (hcontent : readLines content = resultLines rows)
    (hproperties : ∀ p ∈ rows, ∀ q ∈ rows,
      p.data.propertyTuple = q.data.propertyTuple → p.data.properties = q.data.properties)
    (hextensions : ∀ p ∈ rows, ∀ q ∈ rows,
      p.data.extensionPair = q.data.extensionPair → extensions p = extensions q)
    (hcount : rows.length < 2 ^ 31) (htimings : ∀ row ∈ rows, intMin < row.data.timing) :
    ∃ selected, SelectsPairs (noCacheRows rows) selected ∧
      (filterStage inputFile files).1 (filteredFilename inputFile) =
        some (fileText (headerline :: selected.map fun p => p.1.line)) ∧
      (filterStage inputFile files).2 = .ok () := by
  have hrows : Countable rows := ⟨hcount, fun row hrow => (htimings row hrow).ne'⟩
  have hnumbered : Numbered (noCacheRows rows) :=
    (numbered_zipIdx rows 0).sublist List.filter_sublist
  obtain ⟨files2, hstage⟩ := filterStage_run hname hinput hcontent hrows
  refine ⟨select extensions ParsedLine.weight (noCacheRows rows), selectsPairs_select hnumbered,
    ?_, by rw [hstage]⟩
  rw [hstage]
  change Function.update files2 (filteredFilename inputFile) _ (filteredFilename inputFile) = _
  rw [Function.update_self, stageRows_three hproperties hextensions, resultLines, List.map_map]
  rfl

/-- Two rows of one extension pair and a row with a cache instruction. -/
def sampleRows : List ParsedLine :=
  [{ line := "60;10000;MUL;AB;C;I;10001;ADD;D;E;I;10002;NOP;F;G;I".toList
     data := ⟨60, "MUL".toList, "AB".toList, "C".toList, "I".toList, "ADD".toList, "D".toList,
       "E".toList, "I".toList, "NOP".toList, "F".toList, "G".toList, "I".toList⟩
     parsed := rfl
     noNewline := by decide },
   { line := "-200;10003;SUB;AC;C;I;10001;ADD;D;E;I;10002;NOP;F;G;I".toList
     data := ⟨-200, "SUB".toList, "AC".toList, "C".toList, "I".toList, "ADD".toList, "D".toList,
       "E".toList, "I".toList, "NOP".toList, "F".toList, "G".toList, "I".toList⟩
     parsed := rfl
     noNewline := by decide },
   { line := "900;10003;SUB;AC;C;I;10004;CLFLUSH;D;E;I;10002;NOP;F;G;I".toList
     data := ⟨900, "SUB".toList, "AC".toList, "C".toList, "I".toList, "CLFLUSH".toList,
       "D".toList, "E".toList, "I".toList, "NOP".toList, "F".toList, "G".toList, "I".toList⟩
     parsed := rfl
     noNewline := by decide }]

def sampleFiles : Files :=
  Function.update (fun _ => none) "results.csv".toList (some (fileText (resultLines sampleRows)))

theorem filterStage_selects_sample :
    ∃ selected, SelectsPairs (noCacheRows sampleRows) selected ∧
      (filterStage "results.csv".toList sampleFiles).1 (filteredFilename "results.csv".toList) =
        some (fileText (headerline :: selected.map fun p => p.1.line)) ∧
      (filterStage "results.csv".toList sampleFiles).2 = .ok () :=
  filterStage_selects (by decide) (Function.update_self _ _ _) (readLines_resultLines sampleRows)
    (by decide) (by decide) (by decide) (by decide)

end OsirisArm
