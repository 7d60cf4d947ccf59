import OsirisArm.Refiltering
import OsirisArm.RunScript
import OsirisArm.SearchTests

/-! # Raising the threshold of a finished search

A search keeps differences above its threshold, the threshold filter drops timings below 300. So the
filter makes the result file of a search what a search with the threshold 299 would have written,
also together with other filters: no row it drops is the best of a key that has a row it keeps.
-/

namespace OsirisArm
open Library Library.Selection

/-- The same search with the threshold that the filter amounts to. -/
def Search.raised : Search → Search
  | .withoutAssumptions _ => .withoutAssumptions 299
  | .triggerEqualsMeasurement _ _ => .triggerEqualsMeasurement (-299) 299

def ResultRow.isStrong (row : ResultRow) : Bool := 300 ≤ row.timing.natAbs

namespace Search
variable {σ : Type} {api : ExecutorApi σ} {codeGenerator : CodeGenerator} {speculation : Bool}
  {search : Search} {results : InstructionTriple → TripleTests}

theorem triples_raised (search : Search) (codeGenerator : CodeGenerator) :
    search.raised.triples codeGenerator = search.triples codeGenerator := by
  cases search <;> rfl

theorem thresholds_raised (search : Search) : search.raised.thresholds = (-299, 299) := by
  cases search <;> rfl

theorem Repeatable.raised (h : search.Repeatable api codeGenerator speculation results) :
    search.raised.Repeatable api codeGenerator speculation results := by
  cases search <;> exact h

theorem timing_raised (hnegative : -299 ≤ search.thresholds.1)
    (hpositive : search.thresholds.2 ≤ 299) (tests : TripleTests) :
    (search.timing tests).filter (fun timing => 300 ≤ timing.natAbs) =
      search.raised.timing tests := by
  simp only [timing, thresholds_raised]
  by_cases hstrong : 300 ≤ tests.1.cyclesDifference.natAbs
  · have hlow : tests.1.cyclesDifference < search.thresholds.1 ∨
        tests.1.cyclesDifference > search.thresholds.2 := by omega
    have hhigh : tests.1.cyclesDifference < -299 ∨ tests.1.cyclesDifference > 299 := by omega
    simp only [hlow, hhigh, and_true]
    split
    · split
      · simp [hstrong]
      · rfl
    · rfl
  · have hhigh : ¬ (tests.1.cyclesDifference < -299 ∨ tests.1.cyclesDifference > 299) := by omega
    simp only [hhigh, and_false, if_false]
    split
    · split
      · simpa using hstrong
      · rfl
    · rfl

/-- The strong rows of a search are the rows of the raised one, in the same order. -/
theorem Repeatable.rows_strong (h : search.Repeatable api codeGenerator speculation results)
    (hnegative : -299 ≤ search.thresholds.1) (hpositive : search.thresholds.2 ≤ 299) (s s' : σ) :
    (search.rows api codeGenerator speculation s).filter ResultRow.isStrong =
      search.raised.rows api codeGenerator speculation s' := by
  rw [h.rows, h.raised.rows, triples_raised, List.filter_filterMap]
  congr 1
  funext triple
  rw [← timing_raised hnegative hpositive]
  cases search.timing (results triple) with
  | none => rfl
  | some timing =>
    by_cases hstrong : 300 ≤ timing.natAbs
    · simp only [acceptedRow, Option.map_some, Option.filter_some, ResultRow.isStrong, hstrong,
        decide_true, if_true]
    · simp only [acceptedRow, Option.map_some, Option.filter_some, ResultRow.isStrong, hstrong,
        decide_false, Bool.false_eq_true, if_false, Option.map_none]

end Search

section
variable {filters filters' : List ResultFilterFunctions}

theorem accepted_map_number {rows : List (ParsedLine × ℕ)} {φ : ℕ → ℕ}
    (hφ : ∀ p ∈ rows, ∀ q ∈ rows, φ p.2 < φ q.2 ↔ p.2 < q.2) :
    accepted filters (rows.map fun p => (p.1, φ p.2)) =
      (accepted filters rows).map fun p => (p.1, φ p.2) := by
  rw [accepted, accepted, List.filter_map]
  congr 1
  apply List.filter_congr
  intro p hp
  simp only [Function.comp_apply, accepts_map_number _ hφ hp]

def ParsedLine.isStrong (row : ParsedLine) : Bool := 300 ≤ row.weight

theorem rejectsRow_increaseThresholdTo300 (row : ParsedLine) :
    ResultFilterFunctions.rejectsRow .increaseThresholdTo300 row.data = !row.isStrong := by
  have hstrong : row.isStrong = decide (300 ≤ row.data.timing.natAbs) := rfl
  apply Bool.eq_iff_iff.mpr
  simp only [ResultFilterFunctions.rejectsRow, filterFunctionIncreaseThreshold300, hstrong,
    Bool.and_eq_true, Bool.not_eq_true', decide_eq_true_eq, decide_eq_false_iff_not]
  omega

/-- A strong row is accepted among all rows when it is accepted among the strong ones. -/
theorem accepts_strong (filter : ResultFilterFunctions) (rows : List (ParsedLine × ℕ))
    {p : ParsedLine × ℕ} (hp : p.1.isStrong = true) :
    filter.accepts (rows.filter fun q => q.1.isStrong) p = filter.accepts rows p := by
  unfold ResultFilterFunctions.accepts
  cases filter.key with
  | none => rfl
  | some κ => exact decide_eq_decide.mpr (isBest_filter_heavy (of_decide_eq_true hp))

theorem accepted_strong (h : ∀ f, f ∈ filters ↔ f = .increaseThresholdTo300 ∨ f ∈ filters')
    (rows : List (ParsedLine × ℕ)) :
    accepted filters rows = accepted filters' (rows.filter fun p => p.1.isStrong) := by
  rw [accepted, accepted, List.filter_filter]
  apply List.filter_congr
  intro p _
  by_cases hp : p.1.isStrong = true
  · rw [hp, Bool.and_true]
    apply Bool.eq_iff_iff.mpr
    simp only [List.all_eq_true, accepts_strong _ rows hp]
    constructor
    · intro hall f hf
      exact hall f ((h f).mpr (.inr hf))
    · intro hall f hf
      rcases (h f).mp hf with rfl | hf
      · simp [ResultFilterFunctions.accepts, ResultFilterFunctions.key,
          rejectsRow_increaseThresholdTo300, hp]
      · exact hall f hf
  · rw [Bool.eq_false_of_not_eq_true hp, Bool.and_false]
    apply List.all_eq_false.mpr
    refine ⟨.increaseThresholdTo300, (h _).mpr (.inl rfl), ?_⟩
    simp [ResultFilterFunctions.accepts, ResultFilterFunctions.key,
      rejectsRow_increaseThresholdTo300, hp]

theorem filteredRows_strong (h : ∀ f, f ∈ filters ↔ f = .increaseThresholdTo300 ∨ f ∈ filters')
    (rows : List ParsedLine) :
    filteredRows filters rows = filteredRows filters' (rows.filter ParsedLine.isStrong) := by
  let strong := rows.zipIdx.filter fun p => p.1.isStrong
  have hnumbered : Numbered strong := (numbered_zipIdx rows 0).sublist List.filter_sublist
  obtain ⟨φ, hzip, hφ⟩ := zipIdx_renumbers hnumbered
  have hrows : strong.map Prod.fst = rows.filter ParsedLine.isStrong := by
    rw [← map_fst_zipIdx rows 0, List.filter_map]
    rfl
  calc filteredRows filters rows
      = (accepted filters' strong).map Prod.fst := by rw [filteredRows, accepted_strong h]
    _ = ((accepted filters' strong).map fun p => (p.1, φ p.2)).map Prod.fst := by
        rw [List.map_map]
        rfl
    _ = filteredRows filters' (rows.filter ParsedLine.isStrong) := by
        rw [filteredRows, ← hrows, hzip, accepted_map_number hφ]

end

theorem ParsedLine.line_injective : Function.Injective ParsedLine.line := by
  intro p q h
  have hp := parsedLine_line p
  rw [h, parsedLine_line q] at hp
  exact (Option.some.inj hp).symm

section
variable {codeGenerator : CodeGenerator} {rows : List ResultRow} {parsed parsed' : List ParsedLine}

theorem TestedRows.timing_parsed (h : TestedRows codeGenerator rows) {row : ResultRow}
    (hrow : row ∈ rows) {p : ParsedLine} (hline : p.line = row.csvLine) :
    p.data.timing = row.timing := by
  obtain ⟨-, htiming⟩ := resultLineData_ok p.parsed
  have hrange : intMin ≤ row.timing ∧ row.timing ≤ intMax := by
    have htiming := h.timing row hrow
    unfold intMin intMax
    omega
  rw [hline, (h.rowOf row hrow).csvLine_fields, List.getD_cons_zero, stoi_printInt hrange]
    at htiming
  exact (Except.ok.inj htiming).symm

/-- The strong lines of a result file are those of the strong rows. -/
theorem TestedRows.parsed_strong (h : TestedRows codeGenerator rows)
    (hparsed : parsed.map ParsedLine.line = rows.map ResultRow.csvLine)
    (hparsed' : parsed'.map ParsedLine.line =
      (rows.filter ResultRow.isStrong).map ResultRow.csvLine) :
    parsed.filter ParsedLine.isStrong = parsed' := by
  apply ParsedLine.line_injective.list_map
  rw [hparsed']
  refine map_filter_congr hparsed fun p _ row hrow hline => ?_
  rw [ParsedLine.isStrong, ParsedLine.weight, h.timing_parsed hrow hline, ResultRow.isStrong]

theorem TestedRows.countable (h : TestedRows codeGenerator rows)
    (hparsed : parsed.map ParsedLine.line = rows.map ResultRow.csvLine)
    (hcount : rows.length < 2 ^ 31) : Countable parsed :=
  (derivedFrom_of_lines h hparsed).countable hcount

end

section
variable {σ : Type} {api : ExecutorApi σ} {codeGenerator : CodeGenerator} {speculation : Bool}
  {results : InstructionTriple → Search.TripleTests} {s s' : σ}

/-- Filtering the result file of a search with the threshold filter and further ones writes the
file that the further ones write for the raised search; without further ones that is its result
file. -/
theorem increaseThreshold_raisesSearch (search : Search)
    (h : search.Repeatable api codeGenerator speculation results)
    (hnegative : -299 ≤ search.thresholds.1) (hpositive : search.thresholds.2 ≤ 299)
    (hrange : ∀ row ∈ search.rows api codeGenerator speculation s,
      -5000 ≤ row.timing ∧ row.timing ≤ 5000)
    (hcount : (search.rows api codeGenerator speculation s).length < 2 ^ 31)
    {raising further : ResultFilter} (hraising : raising.Unused) (hfurther : further.Unused)
    (hactive : ∀ f, f ∈ raising.activeFilters ↔
      f = .increaseThresholdTo300 ∨ f ∈ further.activeFilters)
    {inputFile outputFile inputFile' outputFile' : Text} {files files' : Files}
    (hnames : inputFile ≠ outputFile) (hnames' : inputFile' ≠ outputFile')
    (hinput : files inputFile = some (resultFile (search.rows api codeGenerator speculation s)))
    (hinput' : files' inputFile' =
      some (resultFile (search.raised.rows api codeGenerator speculation s'))) :
    ∃ filtered after after',
      applyFiltersOnFile inputFile outputFile raising files =
        (Function.update files outputFile (some filtered), .ok after) ∧
      applyFiltersOnFile inputFile' outputFile' further files' =
        (Function.update files' outputFile' (some filtered), .ok after') ∧
      (further.activeFilters = [] →
        filtered = resultFile (search.raised.rows api codeGenerator speculation s')) := by
  have hrows : TestedRows codeGenerator (search.rows api codeGenerator speculation s) :=
    ⟨fun row hrow => (Search.rows_accepted hrow).rowOf, hrange⟩
  have hstrong := h.rows_strong hnegative hpositive s s'
  rw [← hstrong] at hinput' ⊢
  have hrows' := hrows.filter ResultRow.isStrong
  have hcount' : ((search.rows api codeGenerator speculation s).filter
      ResultRow.isStrong).length < 2 ^ 31 := (List.length_filter_le _ _).trans_lt hcount
  obtain ⟨parsed, hfile, hparsed⟩ := hrows.resultFile_parsed
  obtain ⟨parsed', hfile', hparsed'⟩ := hrows'.resultFile_parsed
  rw [hfile] at hinput
  rw [hfile'] at hinput' ⊢
  obtain ⟨after, -, hrun⟩ := applyFiltersOnFile_unseen (hraising.unseen parsed) hnames hinput
    (readLines_resultLines parsed) (hrows.countable hparsed hcount)
  obtain ⟨after', -, hrun'⟩ := applyFiltersOnFile_unseen (hfurther.unseen parsed') hnames' hinput'
    (readLines_resultLines parsed') (hrows'.countable hparsed' hcount')
  have hkept : filteredRows raising.activeFilters parsed =
      filteredRows further.activeFilters parsed' := by
    rw [filteredRows_strong hactive, hrows.parsed_strong hparsed hparsed']
  refine ⟨_, after, after', hrun, ?_, ?_⟩
  · rw [hrun', hkept]
  · intro hnone
    rw [hkept, hnone]
    simp [filteredRows, accepted]

end

/-- An executor whose trigger tests show longer differences for longer triggers. -/
def lengthApi : ExecutorApi Unit where
  testTriggerSequence trigger _ _ _ _ _ s := .ok (⟨0, 60 + 10 * trigger.length⟩, s)
  testResetSequence _ _ _ _ _ s := .ok (⟨0, 0⟩, s)

theorem lengthApi_repeatable : (Search.withoutAssumptions 50).Repeatable lengthApi nopAndLongReset
    false fun triple => (⟨0, 60 + 10 * triple.trigger.byteRepresentation.length⟩, ⟨0, 0⟩) :=
  fun _ _ _ => ⟨⟨_, rfl⟩, _, rfl⟩

/-- The result files of a search and of the raised one. -/
def searchedFiles : Files :=
  Function.update (Function.update (fun _ => none) "results.csv".toList
      (some (resultFile (Search.rows (.withoutAssumptions 50) lengthApi nopAndLongReset false ()))))
    "raised.csv".toList (some (resultFile
      (Search.rows (.withoutAssumptions 299) lengthApi nopAndLongReset false ())))

/-- With the long sequence as the trigger the difference passes the filter. -/
theorem increaseThreshold_raisesSearch_length : ∃ filtered after after',
    applyFiltersOnFile "results.csv".toList "strong.csv".toList
        (ResultFilter.fresh.enableFilter .increaseThresholdTo300) searchedFiles =
      (Function.update searchedFiles "strong.csv".toList (some filtered), .ok after) ∧
    applyFiltersOnFile "raised.csv".toList "copy.csv".toList ResultFilter.fresh searchedFiles =
      (Function.update searchedFiles "copy.csv".toList (some filtered), .ok after') ∧
    filtered = resultFile
      (Search.rows (.withoutAssumptions 299) lengthApi nopAndLongReset false ()) := by
  have hunused := ResultFilter.unused_fresh
  have hraising : (ResultFilter.fresh.enableFilter .increaseThresholdTo300).Unused :=
    hunused.enableFilters [.increaseThresholdTo300]
  have hactive : ∀ f, f ∈ (ResultFilter.fresh.enableFilter .increaseThresholdTo300).activeFilters ↔
      f = .increaseThresholdTo300 ∨ f ∈ ResultFilter.fresh.activeFilters := by
    intro f
    exact mem_enableFilter
  have hfile : searchedFiles "results.csv".toList = some (resultFile
      (Search.rows (.withoutAssumptions 50) lengthApi nopAndLongReset false ())) := by
    rw [searchedFiles, Function.update_of_ne (by decide), Function.update_self]
  have hfile' : searchedFiles "raised.csv".toList = some (resultFile
      (Search.rows (.withoutAssumptions 299) lengthApi nopAndLongReset false ())) :=
    Function.update_self ..
  have hname : "results.csv".toList ≠ "strong.csv".toList := by decide
  have hname' : "raised.csv".toList ≠ "copy.csv".toList := by decide
  obtain ⟨filtered, after, after', hrun, hrun', hfiltered⟩ :=
    increaseThreshold_raisesSearch (.withoutAssumptions 50) lengthApi_repeatable (by decide)
      (by decide) (by decide) (by decide) hraising hunused hactive hname hname' hfile hfile'
  exact ⟨filtered, after, after', hrun, hrun', hfiltered rfl⟩

end OsirisArm
