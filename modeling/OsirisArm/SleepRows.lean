import OsirisArm.RowFormat

/-! # Sleeps in the rows of a search

Both searches skip triggers that are sleeps, but only the search with equal trigger and measurement
thereby skips sleeping measurements. The confirmation stage skips both, so rows of the other search
can get lost on the way.
-/

namespace OsirisArm
open Library Library.Emission

inductive SearchMode where
  | withoutAssumptions
  | triggerEqualsMeasurement
  deriving DecidableEq

def Search.mode : Search → SearchMode
  | .withoutAssumptions _ => .withoutAssumptions
  | .triggerEqualsMeasurement _ _ => .triggerEqualsMeasurement

/-- No trigger test of the confirmation of these rows ends the program. -/
def ExecutorApi.NeverStops {σ : Type} (api : ExecutorApi σ) (rows : List ResultRow) : Prop :=
  ∀ row ∈ rows, ∀ s, ∃ result, api.testTriggerSequence row.trigger.byteRepresentation
    row.measurement.byteRepresentation row.reset.byteRepresentation true 200
      (if row.reset.isSleep then 1 else 100) s = .ok result

/-- The confirmation stage run on the result file of a search. -/
def confirmSearch {σ : Type} (api : ExecutorApi σ) (codeGenerator : CodeGenerator)
    (shuffle : Shuffle) (rows : List ResultRow) (s : σ) : Emission ConfirmOutput Stop σ :=
  confirmResultsOfFuzzer api codeGenerator shuffle (readLines (resultFile rows)) s

/-- The confirmation stage skips no row: if it ends, every row of the search is in its output, and
it only fails to end if the executor stops it. -/
def ConfirmsEveryRow (codeGenerator : CodeGenerator) (rows : List ResultRow) : Prop :=
  ∀ {σ : Type} (api : ExecutorApi σ) (shuffle : Shuffle) (s : σ),
    ((∃ after, (confirmSearch api codeGenerator shuffle rows s).outcome = .ok after) →
      (rowsWithoutTiming (confirmedFile
        (confirmSearch api codeGenerator shuffle rows s).written)).Perm
          (rows.map fun row => lineWithoutTiming row.csvLine)) ∧
    (api.NeverStops rows →
      ∃ after, (confirmSearch api codeGenerator shuffle rows s).outcome = .ok after)

/-- In a search of this mode sleeps are reset sequences only, whatever the executor does, and the
confirmation stage keeps its rows. -/
def SleepsResetOnly (mode : SearchMode) (codeGenerator : CodeGenerator) : Prop :=
  ∀ {σ : Type} (api : ExecutorApi σ) (speculation : Bool) (search : Search), search.mode = mode →
    ∀ s : σ,
      (∀ row ∈ search.rows api codeGenerator speculation s,
        row.trigger.isSleep = false ∧ row.measurement.isSleep = false) ∧
      ConfirmsEveryRow codeGenerator (search.rows api codeGenerator speculation s)

section Confirm
variable {codeGenerator : CodeGenerator} {rows : List ResultRow}

/-- The rows as the confirmation stage sees them. -/
def confirmRows (rows : List ResultRow) (h : ∀ row ∈ rows, RowOf codeGenerator row) :
    List (ConfirmRow codeGenerator) := rows.pmap (fun _ hrow => hrow.confirmRow) h

theorem confirmRows_line (h : ∀ row ∈ rows, RowOf codeGenerator row) :
    (confirmRows rows h).map ConfirmRow.line = rows.map ResultRow.csvLine := by
  rw [confirmRows, List.map_pmap]
  exact List.pmap_eq_map h

theorem confirmRows_skipped (h : ∀ row ∈ rows, RowOf codeGenerator row) :
    (confirmRows rows h).map ConfirmRow.skipped =
      rows.map fun row => row.trigger.isSleep || row.measurement.isSleep := by
  rw [confirmRows, List.map_pmap]
  exact List.pmap_eq_map (f := fun row => row.trigger.isSleep || row.measurement.isSleep) h

/-- The stage tests the rows that are not skipped in some order, and its output names the tested
ones. -/
theorem confirmSearch_rows {σ : Type} (api : ExecutorApi σ) (shuffle : Shuffle)
    (h : ∀ row ∈ rows, RowOf codeGenerator row) (s : σ) :
    ∃ order : List (ConfirmRow codeGenerator),
      order.Perm ((confirmRows rows h).filter fun row => !row.skipped) ∧
        (confirmSearch api codeGenerator shuffle rows s).outcome =
          (trials (ConfirmRow.test api) order s).outcome ∧
        rowsWithoutTiming (confirmedFile
          (confirmSearch api codeGenerator shuffle rows s).written) =
            ((trials (ConfirmRow.test api) order s).written.map Prod.fst).map
              fun row => lineWithoutTiming row.line := by
  obtain ⟨order, hperm, hrun⟩ := confirmResultsOfFuzzer_rows api shuffle (confirmRows rows h) s
  rw [confirmRows_line h, ← readLines_resultFile h] at hrun
  change confirmSearch api codeGenerator shuffle rows s = _ at hrun
  have hread := (readLines_outputs api codeGenerator shuffle (resultFile rows) s).1
  change readLines (confirmedFile (confirmSearch api codeGenerator shuffle rows s).written) =
    (confirmSearch api codeGenerator shuffle rows s).written.map _ at hread
  rw [hrun, outputs_text] at hread
  refine ⟨order, hperm, by rw [hrun], ?_⟩
  rw [hrun]
  exact rowsWithoutTiming_of_confirmed hread

theorem confirmRows_kept (h : ∀ row ∈ rows, RowOf codeGenerator row)
    (hawake : ∀ row ∈ rows, row.trigger.isSleep = false ∧ row.measurement.isSleep = false) :
    (confirmRows rows h).filter (fun row => !row.skipped) = confirmRows rows h := by
  apply List.filter_eq_self.mpr
  intro row hrow
  have hskipped : row.skipped ∈ rows.map fun row =>
      row.trigger.isSleep || row.measurement.isSleep := by
    rw [← confirmRows_skipped h]
    exact List.mem_map_of_mem hrow
  obtain ⟨source, hsource, heq⟩ := List.mem_map.mp hskipped
  rw [← heq, (hawake source hsource).1, (hawake source hsource).2]
  rfl

theorem confirmRows_lineWithoutTiming (h : ∀ row ∈ rows, RowOf codeGenerator row) :
    (confirmRows rows h).map (fun row => lineWithoutTiming row.line) =
      rows.map fun row => lineWithoutTiming row.csvLine := by
  have hmap := congrArg (List.map lineWithoutTiming) (confirmRows_line h)
  rw [List.map_map, List.map_map] at hmap
  exact hmap

theorem confirmRows_test_total {σ : Type} {api : ExecutorApi σ} (hapi : api.NeverStops rows)
    (h : ∀ row ∈ rows, RowOf codeGenerator row) {row : ConfirmRow codeGenerator}
    (hrow : row ∈ confirmRows rows h) (s : σ) : ∃ result, row.test api s = .ok result := by
  obtain ⟨source, hsource, rfl⟩ := List.mem_pmap.mp hrow
  obtain ⟨⟨result, after⟩, hresult⟩ := hapi source hsource s
  refine ⟨(result.cyclesDifference, after), ?_⟩
  change (api.testTriggerSequence source.trigger.byteRepresentation
    source.measurement.byteRepresentation source.reset.byteRepresentation true 200
    (if source.reset.isSleep then 1 else 100) s >>= _) = _
  rw [hresult]
  rfl

theorem confirmsEveryRow_of_awake (h : ∀ row ∈ rows, RowOf codeGenerator row)
    (hawake : ∀ row ∈ rows, row.trigger.isSleep = false ∧ row.measurement.isSleep = false) :
    ConfirmsEveryRow codeGenerator rows := by
  intro σ api shuffle s
  obtain ⟨order, hperm, houtcome, houtput⟩ := confirmSearch_rows api shuffle h s
  rw [confirmRows_kept h hawake] at hperm
  rw [houtcome, houtput]
  constructor
  · rintro ⟨after, hafter⟩
    rw [trials_all hafter, ← confirmRows_lineWithoutTiming h]
    exact hperm.map _
  · intro hapi
    exact trials_total (fun row hrow s => confirmRows_test_total hapi h (hperm.subset hrow) s) s

end Confirm

theorem not_perm_of_skipped {codeGenerator : CodeGenerator} {rows : List ResultRow} {σ : Type}
    (api : ExecutorApi σ) (shuffle : Shuffle) (h : ∀ row ∈ rows, RowOf codeGenerator row) (s : σ)
    {row : ResultRow} (hrow : row ∈ rows) (hsleep : row.measurement.isSleep = true) :
    ¬ (rowsWithoutTiming (confirmedFile
      (confirmSearch api codeGenerator shuffle rows s).written)).Perm
        (rows.map fun row => lineWithoutTiming row.csvLine) := by
  intro hperm
  obtain ⟨order, horder, -, houtput⟩ := confirmSearch_rows api shuffle h s
  have hwritten := (trials_initial (ConfirmRow.test api) order s).length_le
  have hskipped : ∃ row ∈ confirmRows rows h, row.skipped = true := by
    have hmem : true ∈ (confirmRows rows h).map ConfirmRow.skipped := by
      rw [confirmRows_skipped h]
      exact List.mem_map.mpr ⟨row, hrow, by rw [hsleep, Bool.or_true]⟩
    obtain ⟨row, hrow, hskipped⟩ := List.mem_map.mp hmem
    exact ⟨row, hrow, hskipped⟩
  obtain ⟨skipped, hmem, hskipped⟩ := hskipped
  have hfewer : ((confirmRows rows h).filter fun row => !row.skipped).length <
      (confirmRows rows h).length :=
    List.length_filter_lt_length_iff_exists.mpr ⟨skipped, hmem, by simp [hskipped]⟩
  have hlines := congrArg List.length (confirmRows_line h)
  have hlength := hperm.length_eq
  rw [houtput] at hlength
  rw [List.length_map] at hwritten
  simp only [List.length_map] at hlength hlines
  have hcount := horder.length_eq
  omega

/-- An executor whose trigger tests all take 51 cycles longer and whose reset tests agree. -/
def agreeingApi : ExecutorApi Unit where
  testTriggerSequence _ _ _ _ _ _ s := .ok (⟨0, 51⟩, s)
  testResetSequence _ _ _ _ _ s := .ok (⟨0, 0⟩, s)

theorem agreeingApi_accepts (codeGenerator : CodeGenerator) :
    AcceptsAll agreeingApi codeGenerator false (fun _ => True) 50 51 :=
  fun _ _ _ _ _ _ _ _ => ⟨(), trivial, rfl⟩

/-- Rows name no sleep as trigger or measurement in the search with equal trigger and measurement,
and in both searches if the list has no sleeps or nothing but sleeps. -/
theorem rows_awake {codeGenerator : CodeGenerator} {search : Search}
    (h : search.mode = .triggerEqualsMeasurement ∨
      (∀ i ∈ codeGenerator.instructionList, i.isSleep = false) ∨
        ∀ i ∈ codeGenerator.instructionList, i.isSleep = true)
    {σ : Type} {api : ExecutorApi σ} {speculation : Bool} {s : σ} {row : ResultRow}
    (hrow : row ∈ search.rows api codeGenerator speculation s) :
    row.trigger.isSleep = false ∧ row.measurement.isSleep = false := by
  have haccepted := Search.rows_accepted hrow
  refine ⟨haccepted.trigger_awake, ?_⟩
  rcases h with hmode | hawake | hsleeps
  · cases search with
    | withoutAssumptions threshold => cases hmode
    | triggerEqualsMeasurement negative positive =>
      rw [Search.measurement_eq_trigger hrow]
      exact haccepted.trigger_awake
  · exact hawake row.measurement haccepted.measurement_mem
  · have hasleep := hsleeps row.trigger haccepted.trigger_mem
    rw [haccepted.trigger_awake] at hasleep
    cases hasleep

/-- Sleeps are reset sequences only in the search with equal trigger and measurement, and in the
search without assumptions exactly for lists without sleeps or of sleeps alone. -/
theorem sleepsResetOnly_iff (mode : SearchMode) (codeGenerator : CodeGenerator) :
    SleepsResetOnly mode codeGenerator ↔ mode = .triggerEqualsMeasurement ∨
      (∀ i ∈ codeGenerator.instructionList, i.isSleep = false) ∨
        ∀ i ∈ codeGenerator.instructionList, i.isSleep = true := by
  constructor
  · intro h
    cases mode with
    | triggerEqualsMeasurement => exact .inl rfl
    | withoutAssumptions =>
      right
      by_contra hmixed
      obtain ⟨hsleep, hawake⟩ := not_or.mp hmixed
      push Not at hsleep hawake
      obtain ⟨sleep, hsleep, hasleep⟩ := hsleep
      obtain ⟨awake, hawake, hisAwake⟩ := hawake
      have hrow := (agreeingApi_accepts codeGenerator).mem_rows (s := ()) trivial hsleep hawake
        (by simpa using hisAwake) hawake
      have hnone := ((h agreeingApi false (.withoutAssumptions 50) rfl ()).1 _ hrow).2
      exact hasleep hnone
  · intro h σ api speculation search hmode s
    rw [← hmode] at h
    have hawake (row : ResultRow) (hrow : row ∈ search.rows api codeGenerator speculation s) :
        row.trigger.isSleep = false ∧ row.measurement.isSleep = false := rows_awake h hrow
    exact ⟨hawake, confirmsEveryRow_of_awake
      (fun row hrow => (Search.rows_accepted hrow).rowOf) hawake⟩

def sleepAndNop : CodeGenerator :=
  .ofEntries [(instNop, "busy-sleep".toList), (instNop, "NOP".toList)] (by decide) (by decide)

/-- With a sleep in the list the search without assumptions writes a row that measures the sleep,
and the confirmation stage drops it. -/
theorem sleepMeasurement_dropped :
    (∃ row ∈ (Search.withoutAssumptions 50).rows Executor.api sleepAndNop false
      (.start alternatingTape), row.measurement.assemblyCode = "busy-sleep".toList) ∧
    ¬ (rowsWithoutTiming (confirmedFile (confirmResultsOfFuzzer Executor.api sleepAndNop reversing
      (readLines (resultFile ((Search.withoutAssumptions 50).rows Executor.api sleepAndNop false
        (.start alternatingTape)))) quietExecutor).written)).Perm
          (((Search.withoutAssumptions 50).rows Executor.api sleepAndNop false
            (.start alternatingTape)).map fun row => lineWithoutTiming row.csvLine) := by
  have hshort : ∀ i ∈ sleepAndNop.instructionList, i.byteRepresentation.length ≤ 4 := by decide
  have hsleep : instructionAt 0 (instNop, "busy-sleep".toList) ∈ sleepAndNop.instructionList :=
    List.mem_cons_self
  have hnop : instructionAt 1 (instNop, "NOP".toList) ∈ sleepAndNop.instructionList :=
    List.mem_cons_of_mem _ List.mem_cons_self
  have hrow := (alternatingTape_accepts hshort false).mem_rows onTape_start hsleep hnop (by decide)
    hnop
  refine ⟨⟨_, hrow, rfl⟩, ?_⟩
  exact not_perm_of_skipped Executor.api reversing
    (fun row hrow => (Search.rows_accepted hrow).rowOf) quietExecutor hrow (by decide)

end OsirisArm
