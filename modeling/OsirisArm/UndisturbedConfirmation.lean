import OsirisArm.Confirmation
import OsirisArm.DisturbedRuns

/-! # Confirmation of true effects

If each instruction triple has a true time with and without the trigger, and in every test less than
half of the runs of each page are disturbed, then the confirmation decides by the true difference:
rows with a large one survive any number of rounds and rows with a small one are removed by the
first.
-/

namespace OsirisArm
open Library Library.Emission
open scoped List

/-- The true times of a measurement, a trigger and a reset instruction. -/
abbrev TrueTimes := X86Instruction → X86Instruction → X86Instruction → PageTimes

variable {codeGenerator : CodeGenerator}

namespace ConfirmRow

def times (trueTimes : TrueTimes) (row : ConfirmRow codeGenerator) : PageTimes :=
  trueTimes row.measurement row.trigger row.reset

theorem delimiter_mem (row : ConfirmRow codeGenerator) : ';' ∈ row.line := by
  by_contra hnone
  have hfields := row.fields
  rw [splitString_of_not_mem hnone] at hfields
  cases hfields

theorem splitString_retimed (row : ConfirmRow codeGenerator) (timing : ℤ) :
    ∃ first rest, splitString row.line ';' = first :: rest ∧
      splitString (ConfirmOutput.row row.line timing).text ';' = printInt timing :: rest := by
  have hfields := row.fields
  have hretimed := splitString_confirmed row.delimiter_mem timing
  cases hsplit : splitString row.line ';' with
  | nil =>
    rw [hsplit] at hfields
    cases hfields
  | cons first rest => exact ⟨first, rest, rfl, by rw [hretimed, hsplit, List.tail_cons]⟩

theorem getD_retimed (row : ConfirmRow codeGenerator) (timing : ℤ) (column : ℕ) :
    (splitString (ConfirmOutput.row row.line timing).text ';').getD (column + 1) [] =
      (splitString row.line ';').getD (column + 1) [] := by
  obtain ⟨first, rest, hsplit, hretimed⟩ := row.splitString_retimed timing
  rw [hsplit, hretimed]
  rfl

/-- The row with the timing that a confirmation writes. -/
def retimed (row : ConfirmRow codeGenerator) (timing : ℤ) : ConfirmRow codeGenerator :=
  { row with
    line := (ConfirmOutput.row row.line timing).text
    fields := by
      obtain ⟨first, rest, hsplit, hretimed⟩ := row.splitString_retimed timing
      have hfields := row.fields
      rw [hsplit] at hfields
      rw [hretimed]
      exact hfields
    measurementUid := by rw [row.getD_retimed timing 0, row.measurementUid]
    triggerUid := by rw [row.getD_retimed timing 5, row.triggerUid]
    resetUid := by rw [row.getD_retimed timing 10, row.resetUid]
    noNewline := text_no_newline (.inr ⟨row.line, timing, row.noNewline, rfl⟩) }

def rest (row : ConfirmRow codeGenerator) : Text := lineWithoutTiming row.line

@[simp] theorem retimed_rest (row : ConfirmRow codeGenerator) (timing : ℤ) :
    (row.retimed timing).rest = row.rest := lineWithoutTiming_confirmed row.line timing

@[simp] theorem retimed_times (trueTimes : TrueTimes) (row : ConfirmRow codeGenerator)
    (timing : ℤ) : (row.retimed timing).times trueTimes = row.times trueTimes := rfl

@[simp] theorem retimed_skipped (row : ConfirmRow codeGenerator) (timing : ℤ) :
    (row.retimed timing).skipped = row.skipped := rfl

@[simp] theorem retimed_fits (row : ConfirmRow codeGenerator) (timing : ℤ) :
    (row.retimed timing).Fits ↔ row.Fits := Iff.rfl

/-- The true difference is too large to be missed. -/
def Large (trueTimes : TrueTimes) (slack : ℕ) (row : ConfirmRow codeGenerator) : Prop :=
  row.skipped = false ∧ 50 + 2 * slack < (row.times trueTimes).triggerDifference.natAbs

/-- The true difference can be taken for a large one. -/
def Possible (trueTimes : TrueTimes) (slack : ℕ) (row : ConfirmRow codeGenerator) : Prop :=
  row.skipped = false ∧ 50 < (row.times trueTimes).triggerDifference.natAbs + 2 * slack

instance (trueTimes : TrueTimes) (slack : ℕ) (row : ConfirmRow codeGenerator) :
    Decidable (row.Large trueTimes slack) := inferInstanceAs (Decidable (_ ∧ _))

instance (trueTimes : TrueTimes) (slack : ℕ) (row : ConfirmRow codeGenerator) :
    Decidable (row.Possible trueTimes slack) := inferInstanceAs (Decidable (_ ∧ _))

end ConfirmRow

/-- A round of the loop whose test, if there is one, is undisturbed. -/
def UndisturbedInput (codeGenerator : CodeGenerator) (trueTimes : TrueTimes) (slack : ℕ)
    (input : ConfirmInput) (executor : Executor) : Prop :=
  ∀ measurement trigger reset,
    input.instructions codeGenerator = .ok (measurement, trigger, reset) →
    (trigger.isSleep || measurement.isSleep) = false →
    UndisturbedTest (trueTimes measurement trigger reset) slack 200 executor

/-- A confirmation in which all tests are undisturbed. -/
def UndisturbedRound (codeGenerator : CodeGenerator) (trueTimes : TrueTimes) (slack : ℕ)
    (shuffle : Shuffle) (content : Text) (executor : Executor) : Prop :=
  ∀ inputs, confirmInputs (readLines content).tail = .ok inputs →
    Along (confirmRound Executor.api codeGenerator)
      (UndisturbedInput codeGenerator trueTimes slack) (shuffle.order inputs) executor

section
variable {trueTimes : TrueTimes} {slack : ℕ} {content : Text}
  {rows : List (ConfirmRow codeGenerator)} {shuffle : Shuffle} {executor : Executor}

theorem ConfirmRow.input_instructions (row : ConfirmRow codeGenerator) :
    row.input.instructions codeGenerator = .ok (row.measurement, row.trigger, row.reset) := by
  simp only [ConfirmInput.instructions, ConfirmRow.input,
    CodeGenerator.createInstructionFromUID_mem row.measurement_mem,
    CodeGenerator.createInstructionFromUID_mem row.trigger_mem,
    CodeGenerator.createInstructionFromUID_mem row.reset_mem]
  rfl

theorem ConfirmRow.test_near {row : ConfirmRow codeGenerator} {timing : ℤ}
    {before after : Executor} (hawake : row.skipped = false)
    (hretained : (row.times trueTimes).Retained slack)
    (h : UndisturbedInput codeGenerator trueTimes slack row.input before)
    (htest : row.test Executor.api before = .ok (timing, after)) :
    (timing - (row.times trueTimes).triggerDifference).natAbs ≤ 2 * slack := by
  obtain ⟨⟨result, s⟩, hresult, htest⟩ := except_bind_ok htest
  cases htest
  exact ((h _ _ _ row.input_instructions hawake).trigger_near hretained hresult).2

theorem ConfirmRow.confirmRound_outcome (row : ConfirmRow codeGenerator)
    (htested : row.skipped = false) (executor : Executor) :
    (confirmRound Executor.api codeGenerator row.input executor).outcome =
      (row.test Executor.api executor).map Prod.snd := by
  rw [ConfirmRow.confirmRound_input, if_neg (by simp [htested])]
  cases row.test Executor.api executor with
  | error stop => rfl
  | ok result => rfl

theorem UndisturbedRound.confirmed
    (hround : UndisturbedRound codeGenerator trueTimes slack shuffle content executor)
    (hcontent : readLines content = headerline :: rows.map ConfirmRow.line)
    (hfits : ∀ row ∈ rows, row.skipped = false → row.Fits)
    (hretained : ∀ row ∈ rows, row.skipped = false → (row.times trueTimes).Retained slack) :
    ∃ confirmed : List (ConfirmRow codeGenerator × ℤ),
      readLines (cleanedFile (confirmResultsOfFuzzer Executor.api codeGenerator shuffle
        (readLines content) executor).written) = headerline ::
          (confirmed.filter fun p => 50 < p.2.natAbs).map confirmedLine ∧
      confirmed.map Prod.fst ~ rows.filter (fun row => !row.skipped) ∧
      ∀ p ∈ confirmed, (p.2 - (p.1.times trueTimes).triggerDifference).natAbs ≤ 2 * slack := by
  obtain ⟨shuffled, hperm, hinputs⟩ := exists_perm_of_map
    (shuffle.perm (rows.map ConfirmRow.input))
  have hskip : ∀ row ∈ shuffled, ∀ s, row.skipped = true →
      confirmRound Executor.api codeGenerator row.input s = Emission.pure s := by
    intro row _ s hskipped
    rw [ConfirmRow.confirmRound_input, if_pos hskipped]
  have htest : ∀ row ∈ shuffled, ∀ s, row.skipped = false →
      confirmRound Executor.api codeGenerator row.input s =
        (Emission.lift (row.test Executor.api s)).bind fun tested =>
          .write [ConfirmRow.output (row, tested.1)] tested.2 := by
    intro row _ s htested
    rw [ConfirmRow.confirmRound_input, if_neg (by simp [htested])]
  have hparsed : confirmInputs (readLines content).tail = .ok (rows.map ConfirmRow.input) := by
    rw [hcontent]
    exact ConfirmRow.confirmInputs_lines rows
  have halong := hround _ hparsed
  rw [hinputs] at halong
  have hresults := halong.of_map.tested
    (fun row hrow s hskipped => congrArg Emission.outcome (hskip row hrow s hskipped))
    fun row _ s htested => row.confirmRound_outcome htested s
  have hloop : (confirmResultsOfFuzzer Executor.api codeGenerator shuffle (readLines content)
      executor).written = .header :: ((trials (ConfirmRow.test Executor.api)
        (shuffled.filter fun row => !row.skipped) executor).written.map ConfirmRow.output) := by
    rw [hcontent, confirmResultsOfFuzzer, if_neg (not_not.mpr rfl), bind_ok (s := ()) rfl,
      ConfirmRow.confirmInputs_lines, lift_ok_bind, hinputs, Emission.forEach_map,
      forEach_skip hskip htest]
    rfl
  obtain ⟨after, hafter⟩ := (trials_ok_iff (shuffled.filter fun row => !row.skipped)
    executor).mpr fun row hrow => by
      obtain ⟨hmem, hawake⟩ := List.mem_filter.mp hrow
      exact hfits row (hperm.mem_iff.mp hmem) (by simpa using hawake)
  refine ⟨_, ?_, (List.Perm.of_eq (trials_all hafter)).trans (hperm.filter _), ?_⟩
  · rw [(readLines_outputs Executor.api codeGenerator shuffle content executor).2, hloop,
      cleanedOutputs_text]
  · intro p hp
    obtain ⟨before, after, hundisturbed, hresult⟩ := hresults p hp
    have hfirst := List.mem_map_of_mem (f := Prod.fst) hp
    rw [trials_all hafter] at hfirst
    obtain ⟨hmem, hawake⟩ := List.mem_filter.mp hfirst
    have hawake : p.1.skipped = false := by simpa using hawake
    exact ConfirmRow.test_near hawake (hretained p.1 (hperm.mem_iff.mp hmem) hawake) hundisturbed
      hresult

/-- The rows of the cleaned file. -/
def leftRows (confirmed : List (ConfirmRow codeGenerator × ℤ)) :
    List (ConfirmRow codeGenerator) :=
  (confirmed.filter fun p => 50 < p.2.natAbs).map fun p => p.1.retimed p.2

theorem leftRows_line (confirmed : List (ConfirmRow codeGenerator × ℤ)) :
    (leftRows confirmed).map ConfirmRow.line =
      (confirmed.filter fun p => 50 < p.2.natAbs).map confirmedLine := by
  rw [leftRows, List.map_map]
  rfl

/-- A condition on the instructions picks the same rows whatever their timings are. -/
theorem leftRows_filter {p : ConfirmRow codeGenerator → Bool}
    (hp : ∀ row timing, p (row.retimed timing) = p row)
    (confirmed : List (ConfirmRow codeGenerator × ℤ)) :
    ((leftRows confirmed).filter p).map ConfirmRow.rest =
      (((confirmed.filter fun tested => 50 < tested.2.natAbs).map Prod.fst).filter p).map
        ConfirmRow.rest := by
  rw [leftRows, List.filter_map, List.filter_map, List.map_map, List.map_map]
  have hfilter : (p ∘ fun tested : ConfirmRow codeGenerator × ℤ => tested.1.retimed tested.2) =
      p ∘ Prod.fst := by
    funext tested
    exact hp tested.1 tested.2
  rw [hfilter]
  apply List.map_congr_left
  intro tested _
  exact tested.1.retimed_rest tested.2

section
variable {confirmed : List (ConfirmRow codeGenerator × ℤ)}
  (hperm : confirmed.map Prod.fst ~ rows.filter (fun row => !row.skipped))
  (hnear : ∀ p ∈ confirmed, (p.2 - (p.1.times trueTimes).triggerDifference).natAbs ≤ 2 * slack)
include hperm

theorem confirmed_mem {p : ConfirmRow codeGenerator × ℤ} (hp : p ∈ confirmed) :
    p.1 ∈ rows ∧ p.1.skipped = false := by
  have hmem := hperm.mem_iff.mp (List.mem_map_of_mem (f := Prod.fst) hp)
  simpa using hmem

/-- A condition under which no row is skipped picks the same rows before and after the tests. -/
theorem filter_confirmed {p : ConfirmRow codeGenerator → Bool}
    (hp : ∀ row, p row = true → row.skipped = false) :
    (confirmed.map Prod.fst).filter p ~ rows.filter p := by
  have hrows : (rows.filter fun row => !row.skipped).filter p = rows.filter p := by
    rw [List.filter_filter]
    apply List.filter_congr
    intro row _
    cases hrow : p row with
    | true => simp [hp row hrow]
    | false => simp
  rw [← hrows]
  exact hperm.filter p

include hnear

/-- The rows that are left lie between those with a large true difference and those whose true
difference can be taken for a large one. -/
theorem leftRows_sandwich :
    (rows.filter fun row => row.Large trueTimes slack).map ConfirmRow.rest <+~
        ((leftRows confirmed).filter fun row => row.Large trueTimes slack).map ConfirmRow.rest ∧
      (leftRows confirmed).map ConfirmRow.rest <+~
        (rows.filter fun row => row.Possible trueTimes slack).map ConfirmRow.rest := by
  let large (row : ConfirmRow codeGenerator) : Bool := row.Large trueTimes slack
  let possible (row : ConfirmRow codeGenerator) : Bool := row.Possible trueTimes slack
  have hlarge : ∀ p ∈ confirmed, large p.1 = true → decide (50 < p.2.natAbs) = true := by
    intro p hp hrow
    have := hnear p hp
    have := (of_decide_eq_true hrow).2
    apply decide_eq_true
    omega
  have hpossible : ∀ p ∈ confirmed, decide (50 < p.2.natAbs) = true → possible p.1 = true := by
    intro p hp htiming
    have := hnear p hp
    have := of_decide_eq_true htiming
    apply decide_eq_true
    refine ⟨(confirmed_mem hperm hp).2, ?_⟩
    omega
  obtain ⟨hlow, hhigh⟩ := filter_sandwich hlarge hpossible
  constructor
  · have hagain := hlow.filter large
    rw [List.filter_filter, (by simp : (fun row => large row && large row) = large)] at hagain
    rw [leftRows_filter (p := large) fun _ _ => rfl]
    have hrows := filter_confirmed (p := large) hperm fun row hrow => (of_decide_eq_true hrow).1
    exact (hrows.symm.map _).subperm.trans (hagain.map _).subperm
  · have hall := leftRows_filter (p := fun _ => true) (fun _ _ => rfl) confirmed
    simp only [List.filter_true] at hall
    rw [hall]
    have hrows := filter_confirmed (p := possible) hperm fun row hrow =>
      (of_decide_eq_true hrow).1
    exact (hhigh.map _).subperm.trans (hrows.map _).subperm

end

end

/-- Confirmations, each of the cleaned file of the one before. -/
def confirmRounds (codeGenerator : CodeGenerator) : List (Shuffle × Executor) → Text → Text
  | [], content => content
  | (shuffle, executor) :: rounds, content =>
    confirmRounds codeGenerator rounds (cleanedFile (confirmResultsOfFuzzer Executor.api
      codeGenerator shuffle (readLines content) executor).written)

/-- All tests of all rounds are undisturbed. -/
def UndisturbedRounds (codeGenerator : CodeGenerator) (trueTimes : TrueTimes) (slack : ℕ) :
    List (Shuffle × Executor) → Text → Prop
  | [], _ => True
  | (shuffle, executor) :: rounds, content =>
    UndisturbedRound codeGenerator trueTimes slack shuffle content executor ∧
      UndisturbedRounds codeGenerator trueTimes slack rounds (cleanedFile
        (confirmResultsOfFuzzer Executor.api codeGenerator shuffle (readLines content)
          executor).written)

section
variable {trueTimes : TrueTimes} {slack : ℕ}

/-- The rows of a file can be confirmed. -/
structure Confirmable (trueTimes : TrueTimes) (slack : ℕ) (content : Text)
    (rows : List (ConfirmRow codeGenerator)) : Prop where
  content : readLines content = headerline :: rows.map ConfirmRow.line
  fits : ∀ row ∈ rows, row.skipped = false → row.Fits
  retained : ∀ row ∈ rows, row.skipped = false → (row.times trueTimes).Retained slack

theorem Confirmable.rows_rest {content : Text} {rows : List (ConfirmRow codeGenerator)}
    (h : Confirmable trueTimes slack content rows) :
    rowsWithoutTiming content = rows.map ConfirmRow.rest := by
  rw [rowsWithoutTiming, h.content, List.tail_cons, List.map_map]
  rfl

/-- A round keeps the rows with a large true difference and rows that can have one. -/
theorem Confirmable.round {content : Text} {rows : List (ConfirmRow codeGenerator)}
    {shuffle : Shuffle} {executor : Executor} (h : Confirmable trueTimes slack content rows)
    (hround : UndisturbedRound codeGenerator trueTimes slack shuffle content executor) :
    ∃ left : List (ConfirmRow codeGenerator),
      Confirmable trueTimes slack (cleanedFile (confirmResultsOfFuzzer Executor.api codeGenerator
        shuffle (readLines content) executor).written) left ∧
      (rows.filter fun row => row.Large trueTimes slack).map ConfirmRow.rest <+~
        (left.filter fun row => row.Large trueTimes slack).map ConfirmRow.rest ∧
      left.map ConfirmRow.rest <+~
        (rows.filter fun row => row.Possible trueTimes slack).map ConfirmRow.rest := by
  obtain ⟨confirmed, hcleaned, hperm, hnear⟩ := hround.confirmed h.content h.fits h.retained
  have hleft : ∀ row ∈ leftRows confirmed, ∃ p ∈ confirmed, p.1.retimed p.2 = row := by
    intro row hrow
    obtain ⟨p, hp, rfl⟩ := List.mem_map.mp hrow
    exact ⟨p, (List.mem_filter.mp hp).1, rfl⟩
  refine ⟨leftRows confirmed, ⟨?_, ?_, ?_⟩, leftRows_sandwich hperm hnear⟩
  · rw [hcleaned, leftRows_line]
  · intro row hrow hawake
    obtain ⟨p, hp, rfl⟩ := hleft row hrow
    exact h.fits p.1 (confirmed_mem hperm hp).1 hawake
  · intro row hrow hawake
    obtain ⟨p, hp, rfl⟩ := hleft row hrow
    exact h.retained p.1 (confirmed_mem hperm hp).1 hawake

theorem Confirmable.rounds {content : Text} {rows : List (ConfirmRow codeGenerator)}
    {rounds : List (Shuffle × Executor)} (h : Confirmable trueTimes slack content rows)
    (hrounds : UndisturbedRounds codeGenerator trueTimes slack rounds content) :
    (rows.filter fun row => row.Large trueTimes slack).map ConfirmRow.rest <+~
        rowsWithoutTiming (confirmRounds codeGenerator rounds content) ∧
      rowsWithoutTiming (confirmRounds codeGenerator rounds content) <+~
        rows.map ConfirmRow.rest := by
  induction rounds generalizing content rows with
  | nil =>
    rw [confirmRounds, h.rows_rest]
    exact ⟨(List.filter_sublist.map _).subperm, List.Subperm.refl _⟩
  | cons round rounds ih =>
    obtain ⟨left, hleft, hlarge, hpossible⟩ := h.round hrounds.1
    obtain ⟨hlow, hhigh⟩ := ih hleft hrounds.2
    exact ⟨hlarge.trans hlow,
      hhigh.trans (hpossible.trans (List.filter_sublist.map _).subperm)⟩

/-- After any number of undisturbed rounds, each row whose true difference exceeds 50 by more than
twice the slack is still there as often as at first, and all that is left are rows whose true
difference is above 50 or nearer to it than that. -/
theorem confirmation_byTrueDifference {content : Text} {rows : List (ConfirmRow codeGenerator)}
    (h : Confirmable trueTimes slack content rows) (shuffle : Shuffle) (executor : Executor)
    (rounds : List (Shuffle × Executor))
    (hrounds : UndisturbedRounds codeGenerator trueTimes slack ((shuffle, executor) :: rounds)
      content) :
    let last := confirmRounds codeGenerator ((shuffle, executor) :: rounds) content
    (rows.filter fun row => row.Large trueTimes slack).map ConfirmRow.rest <+~
        rowsWithoutTiming last ∧
      rowsWithoutTiming last <+~
        (rows.filter fun row => row.Possible trueTimes slack).map ConfirmRow.rest := by
  obtain ⟨left, hleft, -, hpossible⟩ := h.round hrounds.1
  exact ⟨(h.rounds hrounds).1, (hleft.rounds hrounds.2).2.trans hpossible⟩

end

/-- The tests of these rows are undisturbed if their cycles are ahead. -/
theorem undisturbed_confirmRows {trueTimes : TrueTimes} {rows : List (ConfirmRow codeGenerator)}
    {executor : Executor} (hawake : ∀ row ∈ rows, row.skipped = false)
    (hretained : ∀ row ∈ rows, (row.times trueTimes).Retained 1)
    (h : executor.Observes executor.runNo
      (rows.flatMap fun row => (row.times trueTimes).cycles 120 80)) :
    Along (confirmRound Executor.api codeGenerator) (UndisturbedInput codeGenerator trueTimes 1)
      (rows.map ConfirmRow.input) executor := by
  induction rows generalizing executor with
  | nil => trivial
  | cons row rows ih =>
    rw [List.forall_mem_cons] at hawake hretained
    obtain ⟨htest, hrest⟩ :=
      UndisturbedTest.of_cycles hretained.1.exact (by decide : 80 < 120) h
    constructor
    · intro measurement trigger reset hinstructions _
      cases row.input_instructions.symm.trans hinstructions
      exact htest
    · intro after hafter
      rw [row.confirmRound_outcome hawake.1] at hafter
      obtain ⟨tested, hresult, rfl⟩ := except_map_ok hafter
      obtain ⟨⟨result, after⟩, hcall, htested⟩ := except_bind_ok hresult
      cases htested
      exact ih hawake.2 hretained.2 (htest.trigger_observes hcall hrest)

/-- A NOP before it makes the measurement 100 cycles faster; longer triggers change nothing. -/
def nopTimes : TrueTimes := fun _ trigger _ =>
  if trigger.byteRepresentation = instNop then ⟨100, 200⟩ else ⟨150, 150⟩

theorem nopTimes_retained (measurement trigger reset : X86Instruction) :
    (nopTimes measurement trigger reset).Retained 1 := by
  unfold nopTimes
  split_ifs
  · decide
  · decide

/-- Eighty of two hundred runs of each page are disturbed. -/
def disturbedExecutor {codeGenerator : CodeGenerator} (trueTimes : TrueTimes)
    (rows : List (ConfirmRow codeGenerator)) : Executor :=
  executorOf (rows.flatMap fun row => (row.times trueTimes).cycles 120 80)

theorem confirmation_byTrueDifference_short :
    (rowsWithoutTiming (confirmRounds nopAndLongReset
      [(reversing, disturbedExecutor nopTimes [longTriggerRow, shortResetRow])]
        (confirmRowsFile [shortResetRow, longTriggerRow]))).Perm [shortResetRow.rest] := by
  have hconfirmable : Confirmable nopTimes 1 (confirmRowsFile [shortResetRow, longTriggerRow])
      [shortResetRow, longTriggerRow] := by
    refine ⟨readLines_confirmRowsFile _, ?_, fun row _ _ => nopTimes_retained ..⟩
    intro row hrow _
    rcases List.mem_pair.mp hrow with rfl | rfl
    · exact ⟨by decide, by decide⟩
    · exact ⟨by decide, by decide⟩
  have hround : UndisturbedRound nopAndLongReset nopTimes 1 reversing
      (confirmRowsFile [shortResetRow, longTriggerRow])
        (disturbedExecutor nopTimes [longTriggerRow, shortResetRow]) := by
    intro inputs hinputs
    rw [readLines_confirmRowsFile, List.tail_cons, ConfirmRow.confirmInputs_lines] at hinputs
    obtain rfl := Except.ok.inj hinputs
    change Along _ _ ([longTriggerRow, shortResetRow].map ConfirmRow.input) _
    apply undisturbed_confirmRows
    · decide
    · intro row _
      exact nopTimes_retained ..
    · exact observes_executorOf _
  obtain ⟨hlarge, hpossible⟩ := confirmation_byTrueDifference hconfirmable reversing
    (disturbedExecutor nopTimes [longTriggerRow, shortResetRow]) [] ⟨hround, trivial⟩
  exact hpossible.antisymm hlarge

end OsirisArm
