import OsirisArm.Core

/-! # Rows of a search

Whatever the executor does, a row names three instructions of the list, its trigger is no sleep and
its timing is the difference of a test that ran without a fault.
-/

namespace OsirisArm
open Library Library.Emission

/-- The two searches with their thresholds. -/
inductive Search where
  | withoutAssumptions (thresholdInCycles : ℤ)
  | triggerEqualsMeasurement (negativeThreshold positiveThreshold : ℤ)

/-- The rows a search writes to the result file, also when it is stopped. -/
def Search.rows {σ : Type} (search : Search) (api : ExecutorApi σ) (codeGenerator : CodeGenerator)
    (executeTriggerOnlyInSpeculation : Bool) (s : σ) : List ResultRow :=
  match search with
  | .withoutAssumptions threshold =>
    (findAndOutputTriggerpairsWithoutAssumptions api codeGenerator executeTriggerOnlyInSpeculation
      threshold s).written
  | .triggerEqualsMeasurement negative positive =>
    csvRows (findAndOutputTriggerpairsWithTriggerEqualsMeasurement api codeGenerator
      executeTriggerOnlyInSpeculation negative positive s).written

section Rows
variable {σ : Type} {api : ExecutorApi σ} {codeGenerator : CodeGenerator} {speculation : Bool}

/-- What is known of a row. -/
structure RowAccepted (api : ExecutorApi σ) (codeGenerator : CodeGenerator) (speculation : Bool)
    (row : ResultRow) : Prop where
  measurement_mem : row.measurement ∈ codeGenerator.instructionList
  trigger_mem : row.trigger ∈ codeGenerator.instructionList
  reset_mem : row.reset ∈ codeGenerator.instructionList
  trigger_awake : row.trigger.isSleep = false
  tested : ∃ (resetExecutionsAmount : ℕ) (before after : σ),
    api.testTriggerSequence row.trigger.byteRepresentation row.measurement.byteRepresentation
      row.reset.byteRepresentation speculation iterationsNo resetExecutionsAmount before =
        .ok (⟨0, row.timing⟩, after)

theorem testTriple_some {negativeThreshold positiveThreshold timing : ℤ} {amount : ℕ}
    {measurement trigger reset : X86Instruction} {s s' : σ}
    (h : testTriple api speculation negativeThreshold positiveThreshold amount measurement trigger
      reset s = .ok (some timing, s')) :
    ∃ (resetExecutionsAmount : ℕ) (after : σ),
      api.testTriggerSequence trigger.byteRepresentation measurement.byteRepresentation
        reset.byteRepresentation speculation iterationsNo resetExecutionsAmount s =
          .ok (⟨0, timing⟩, after) := by
  obtain ⟨⟨result, after⟩, hresult, h⟩ := except_bind_ok h
  simp only at h
  split at h
  · next haccepted =>
    obtain ⟨⟨resetTest, last⟩, -, h⟩ := except_bind_ok h
    simp only at h
    split at h
    · cases h
      obtain ⟨error, difference⟩ := result
      obtain rfl : error = 0 := haccepted.1
      exact ⟨_, after, hresult⟩
    · cases h
  · cases h

theorem forEachInstruction_writes {ω τ : Type} {body : X86Instruction → τ → Emission ω Stop τ}
    (P : ω → Prop)
    (h : ∀ instruction ∈ codeGenerator.instructionList, ∀ s, ∀ w ∈ (body instruction s).written,
      P w) (s : τ) : ∀ w ∈ (codeGenerator.forEachInstruction body s).written, P w := by
  rw [codeGenerator.forEachInstruction_eq]
  exact forEach_writes P h s

theorem mem_csvRows {row : ResultRow} {outputs : List SearchOutput} :
    row ∈ csvRows outputs ↔ .csvRow row ∈ outputs := by
  rw [csvRows, List.mem_filterMap]
  constructor
  · rintro ⟨output, houtput, h⟩
    cases output with
    | csvRow row' =>
      cases h
      exact houtput
    | instructionFile trigger lines => cases h
  · intro h
    exact ⟨.csvRow row, h, rfl⟩

theorem searchTriple_written {threshold : ℤ} {measurement trigger reset : X86Instruction} {s : σ}
    {row : ResultRow}
    (h : row ∈ (searchTriple api speculation threshold measurement trigger reset s).written) :
    ∃ timing s', testTriple api speculation (-threshold) threshold
      resetExecutionsAmountWithoutAssumptions measurement trigger reset s =
        .ok (some timing, s') ∧ row = ⟨timing, measurement, trigger, reset⟩ := by
  unfold searchTriple at h
  cases htested : testTriple api speculation (-threshold) threshold
    resetExecutionsAmountWithoutAssumptions measurement trigger reset s with
  | error e =>
    rw [htested] at h
    cases h
  | ok result =>
    obtain ⟨tested, s'⟩ := result
    rw [htested, lift_ok_bind] at h
    cases tested with
    | none => cases h
    | some timing => exact ⟨timing, s', rfl, List.mem_singleton.mp h⟩

theorem searchReset_cases (api : ExecutorApi σ) (speculation : Bool)
    (negativeThreshold positiveThreshold : ℤ) (trigger reset : X86Instruction)
    (state : σ × List ReportLine) :
    (∃ stop, searchReset api speculation negativeThreshold positiveThreshold trigger reset state =
      .lift (.error stop)) ∨
    (∃ s, searchReset api speculation negativeThreshold positiveThreshold trigger reset state =
      .pure (s, state.2)) ∨
    ∃ timing s, testTriple api speculation negativeThreshold positiveThreshold
        resetExecutionsAmountTriggerEqualsMeasurement trigger trigger reset state.1 =
          .ok (some timing, s) ∧
      searchReset api speculation negativeThreshold positiveThreshold trigger reset state =
        .write [.csvRow ⟨timing, trigger, trigger, reset⟩]
          (s, state.2 ++ [⟨reset.byteRepresentation, timing⟩]) := by
  cases htested : testTriple api speculation negativeThreshold positiveThreshold
    resetExecutionsAmountTriggerEqualsMeasurement trigger trigger reset state.1 with
  | error stop =>
    left
    exact ⟨stop, by rw [searchReset, htested, lift_error_bind]⟩
  | ok result =>
    right
    obtain ⟨tested, s⟩ := result
    cases tested with
    | none =>
      left
      exact ⟨s, by rw [searchReset, htested, lift_ok_bind]⟩
    | some timing =>
      right
      exact ⟨timing, s, rfl, by rw [searchReset, htested, lift_ok_bind]⟩

theorem searchReset_written {negativeThreshold positiveThreshold : ℤ}
    {trigger reset : X86Instruction} {state : σ × List ReportLine} {output : SearchOutput}
    (h : output ∈ (searchReset api speculation negativeThreshold positiveThreshold trigger reset
      state).written) :
    ∃ timing s', testTriple api speculation negativeThreshold positiveThreshold
      resetExecutionsAmountTriggerEqualsMeasurement trigger trigger reset state.1 =
        .ok (some timing, s') ∧ output = .csvRow ⟨timing, trigger, trigger, reset⟩ := by
  obtain ⟨stop, hstop⟩ | ⟨s, hnone⟩ | ⟨timing, s, htested, hwrite⟩ :=
    searchReset_cases api speculation negativeThreshold positiveThreshold trigger reset state
  · rw [hstop] at h
    cases h
  · rw [hnone] at h
    cases h
  · rw [hwrite] at h
    exact ⟨timing, s, htested, List.mem_singleton.mp h⟩

theorem searchTrigger_row {negativeThreshold positiveThreshold : ℤ} {trigger : X86Instruction}
    (htrigger : trigger ∈ codeGenerator.instructionList) {s : σ} {row : ResultRow}
    (h : .csvRow row ∈ (searchTrigger api codeGenerator speculation negativeThreshold
      positiveThreshold trigger s).written) :
    RowAccepted api codeGenerator speculation row ∧ row.measurement = row.trigger := by
  unfold searchTrigger at h
  split at h
  · cases h
  · next hawake =>
    rcases mem_bind_written h with h | ⟨state, -, h⟩
    · refine forEachInstruction_writes (P := fun output => output = .csvRow row →
        RowAccepted api codeGenerator speculation row ∧ row.measurement = row.trigger)
        ?_ _ _ h rfl
      intro reset hreset state output houtput hrow
      obtain ⟨timing, s', htested, rfl⟩ := searchReset_written houtput
      obtain rfl := SearchOutput.csvRow.inj hrow
      obtain ⟨amount, last, htest⟩ := testTriple_some htested
      exact ⟨⟨htrigger, htrigger, hreset, by simpa using hawake, amount, _, last, htest⟩, rfl⟩
    · split at h
      · cases h
      · cases List.mem_singleton.mp h

theorem searchPair_row {threshold : ℤ} {measurement trigger : X86Instruction}
    (hmeasurement : measurement ∈ codeGenerator.instructionList)
    (htrigger : trigger ∈ codeGenerator.instructionList) {s : σ} {row : ResultRow}
    (h : row ∈ (searchPair api codeGenerator speculation threshold measurement trigger s).written) :
    RowAccepted api codeGenerator speculation row := by
  unfold searchPair at h
  split at h
  · cases h
  · next hawake =>
    refine forEachInstruction_writes (RowAccepted api codeGenerator speculation) ?_ s row h
    intro reset hreset s row hrow
    obtain ⟨timing, s', htested, rfl⟩ := searchTriple_written hrow
    obtain ⟨amount, last, htest⟩ := testTriple_some htested
    exact ⟨hmeasurement, htrigger, hreset, by simpa using hawake, amount, _, last, htest⟩

theorem Search.rows_accepted {search : Search} {s : σ} {row : ResultRow}
    (h : row ∈ search.rows api codeGenerator speculation s) :
    RowAccepted api codeGenerator speculation row := by
  cases search with
  | withoutAssumptions threshold =>
    refine forEachInstruction_writes (RowAccepted api codeGenerator speculation) ?_ s row h
    intro measurement hmeasurement s
    apply forEachInstruction_writes
    intro trigger htrigger s row hrow
    exact searchPair_row hmeasurement htrigger hrow
  | triggerEqualsMeasurement negative positive =>
    refine forEachInstruction_writes (P := fun output => output = .csvRow row →
      RowAccepted api codeGenerator speculation row) ?_ s _ (mem_csvRows.mp h) rfl
    intro trigger htrigger s output houtput hrow
    subst hrow
    exact (searchTrigger_row htrigger houtput).1

/-- In the search with equal trigger and measurement they are equal in every row. -/
theorem Search.measurement_eq_trigger {negativeThreshold positiveThreshold : ℤ} {s : σ}
    {row : ResultRow}
    (h : row ∈ (Search.triggerEqualsMeasurement negativeThreshold positiveThreshold).rows api
      codeGenerator speculation s) : row.measurement = row.trigger := by
  refine forEachInstruction_writes (P := fun output => output = .csvRow row →
    row.measurement = row.trigger) ?_ s _ (mem_csvRows.mp h) rfl
  intro trigger htrigger s output houtput hrow
  subst hrow
  exact (searchTrigger_row htrigger houtput).2

end Rows

section Accepting
variable {σ : Type} {api : ExecutorApi σ} {codeGenerator : CodeGenerator} {speculation : Bool}
  {I : σ → Prop} {threshold timing : ℤ}

/-- Every triple of the list is accepted with this timing. -/
def AcceptsAll (api : ExecutorApi σ) (codeGenerator : CodeGenerator) (speculation : Bool)
    (I : σ → Prop) (threshold timing : ℤ) : Prop :=
  ∀ measurement ∈ codeGenerator.instructionList, ∀ trigger ∈ codeGenerator.instructionList,
    ∀ reset ∈ codeGenerator.instructionList, ∀ s, I s → ∃ s', I s' ∧
      testTriple api speculation (-threshold) threshold resetExecutionsAmountWithoutAssumptions
        measurement trigger reset s = .ok (some timing, s')

theorem forEachInstruction_keeps {body : X86Instruction → σ → Emission ResultRow Stop σ}
    (hbody : ∀ i ∈ codeGenerator.instructionList, ∀ s, I s → ∃ s', I s' ∧
      (body i s).outcome = .ok s') {s : σ} (hs : I s) :
    ∃ s', I s' ∧ (codeGenerator.forEachInstruction body s).outcome = .ok s' := by
  rw [codeGenerator.forEachInstruction_eq]
  exact forEach_keeps hbody hs

theorem mem_forEachInstruction {body : X86Instruction → σ → Emission ResultRow Stop σ}
    (hbody : ∀ i ∈ codeGenerator.instructionList, ∀ s, I s → ∃ s', I s' ∧
      (body i s).outcome = .ok s') {i : X86Instruction} (hi : i ∈ codeGenerator.instructionList)
    {row : ResultRow} (hrow : ∀ s, I s → row ∈ (body i s).written) {s : σ} (hs : I s) :
    row ∈ (codeGenerator.forEachInstruction body s).written := by
  rw [codeGenerator.forEachInstruction_eq]
  exact mem_forEach hbody hi hrow hs

theorem AcceptsAll.writes (h : AcceptsAll api codeGenerator speculation I threshold timing)
    {measurement trigger reset : X86Instruction}
    (hmeasurement : measurement ∈ codeGenerator.instructionList)
    (htrigger : trigger ∈ codeGenerator.instructionList)
    (hreset : reset ∈ codeGenerator.instructionList) {s : σ} (hs : I s) : ∃ s', I s' ∧
      searchTriple api speculation threshold measurement trigger reset s =
        .write [⟨timing, measurement, trigger, reset⟩] s' := by
  obtain ⟨s', hs', htest⟩ := h measurement hmeasurement trigger htrigger reset hreset s hs
  exact ⟨s', hs', by rw [searchTriple, htest, lift_ok_bind]⟩

theorem AcceptsAll.searchPair_keeps
    (h : AcceptsAll api codeGenerator speculation I threshold timing)
    {measurement : X86Instruction} (hmeasurement : measurement ∈ codeGenerator.instructionList) :
    ∀ trigger ∈ codeGenerator.instructionList, ∀ s, I s → ∃ s', I s' ∧
      (searchPair api codeGenerator speculation threshold measurement trigger s).outcome =
        .ok s' := by
  intro trigger htrigger s hs
  unfold searchPair
  split
  · exact ⟨s, hs, rfl⟩
  · apply forEachInstruction_keeps _ hs
    intro reset hreset s hs
    obtain ⟨s', hs', hwrite⟩ := h.writes hmeasurement htrigger hreset hs
    exact ⟨s', hs', by rw [hwrite, write_outcome]⟩

theorem AcceptsAll.mem_rows (h : AcceptsAll api codeGenerator speculation I threshold timing)
    {s : σ} (hs : I s) {measurement trigger reset : X86Instruction}
    (hmeasurement : measurement ∈ codeGenerator.instructionList)
    (htrigger : trigger ∈ codeGenerator.instructionList) (hawake : trigger.isSleep = false)
    (hreset : reset ∈ codeGenerator.instructionList) :
    ⟨timing, measurement, trigger, reset⟩ ∈
      (Search.withoutAssumptions threshold).rows api codeGenerator speculation s := by
  apply mem_forEachInstruction (fun m hm s hs => forEachInstruction_keeps (h.searchPair_keeps hm)
    hs) hmeasurement _ hs
  intro s hs
  apply mem_forEachInstruction (h.searchPair_keeps hmeasurement) htrigger _ hs
  intro s hs
  unfold searchPair
  rw [if_neg (by simp [hawake])]
  apply mem_forEachInstruction _ hreset _ hs
  · intro r hr s hs
    obtain ⟨s', hs', hwrite⟩ := h.writes hmeasurement htrigger hr hs
    exact ⟨s', hs', by rw [hwrite, write_outcome]⟩
  · intro s hs
    obtain ⟨s', -, hwrite⟩ := h.writes hmeasurement htrigger hreset hs
    rw [hwrite]
    exact List.mem_singleton_self _

theorem length_forEachInstruction {body : X86Instruction → σ → Emission ResultRow Stop σ} {k : ℕ}
    (hbody : ∀ i ∈ codeGenerator.instructionList, ∀ s, I s → ∃ s', I s' ∧
      (body i s).outcome = .ok s')
    (hwrites : ∀ i ∈ codeGenerator.instructionList, ∀ s, I s → k ≤ (body i s).written.length)
    {s : σ} (hs : I s) : codeGenerator.instructionList.length * k ≤
      (codeGenerator.forEachInstruction body s).written.length := by
  rw [codeGenerator.forEachInstruction_eq]
  exact length_forEach hbody hwrites hs

/-- Without sleeps the file has a row for every triple. -/
theorem AcceptsAll.length_rows (h : AcceptsAll api codeGenerator speculation I threshold timing)
    {s : σ} (hs : I s) (hawake : ∀ i ∈ codeGenerator.instructionList, i.isSleep = false) :
    let n := codeGenerator.instructionList.length
    n * (n * n) ≤
      ((Search.withoutAssumptions threshold).rows api codeGenerator speculation s).length := by
  apply length_forEachInstruction
    (fun m hm s hs => forEachInstruction_keeps (h.searchPair_keeps hm) hs) _ hs
  intro m hm s hs
  apply length_forEachInstruction (h.searchPair_keeps hm) _ hs
  intro t ht s hs
  unfold searchPair
  rw [if_neg (by simp [hawake t ht]), ← Nat.mul_one codeGenerator.instructionList.length]
  apply length_forEachInstruction _ _ hs
  · intro r hr s hs
    obtain ⟨s', hs', hwrite⟩ := h.writes hm ht hr hs
    exact ⟨s', hs', by rw [hwrite, write_outcome]⟩
  · intro r hr s hs
    obtain ⟨s', -, hwrite⟩ := h.writes hm ht hr hs
    rw [hwrite, write_written, List.length_singleton]

end Accepting

/-- Of forty runs the first ten, those of the page with the trigger, are faster. -/
def alternatingTape (runNo : ℕ) : PageRun := .completed (if runNo % 40 < 10 then 100 else 200)

/-- The executor runs from this tape and is between two triples. -/
def OnTape (executor : Executor) : Prop :=
  executor.tape = alternatingTape ∧ executor.runNo % 40 = 0

theorem onTape_start : OnTape (.start alternatingTape) := ⟨rfl, rfl⟩

/-- No instruction of the triple is longer than an A64 word. -/
def ShortTriple (measurement trigger reset : X86Instruction) : Prop :=
  measurement.byteRepresentation.length ≤ 4 ∧ trigger.byteRepresentation.length ≤ 4 ∧
    reset.byteRepresentation.length ≤ 4

theorem testTriggerSequence_onTape {measurement trigger reset : X86Instruction}
    (h : ShortTriple measurement trigger reset) {executor : Executor} (htape : OnTape executor)
    (speculation : Bool) {amount : ℕ} (hamount : amount ≤ 50) :
    ∃ after : Executor, after.tape = alternatingTape ∧ after.runNo % 40 = 20 ∧
      executor.testTriggerSequence trigger.byteRepresentation measurement.byteRepresentation
        reset.byteRepresentation speculation iterationsNo amount = .ok (⟨0, 100⟩, after) := by
  obtain ⟨hmeasurement, htrigger, hreset⟩ := h
  have hlength : amount * reset.byteRepresentation.length ≤ 50 * 4 :=
    Nat.mul_le_mul hamount hreset
  obtain ⟨pages, hpages⟩ := Executor.exists_triggerPages trigger.byteRepresentation
    measurement.byteRepresentation reset.byteRepresentation speculation
    (by omega : amount ≤ 100) (by rw [kPagesize]; omega)
  have hbetween := htape.2
  have hfast : ∀ i < iterationsNo, executor.tape (executor.runNo + i) = .completed 100 := by
    intro i hi
    rw [iterationsNo] at hi
    rw [htape.1, alternatingTape, if_pos (by omega)]
  have hslow : ∀ i < iterationsNo,
      executor.tape (executor.runNo + iterationsNo + i) = .completed 200 := by
    intro i hi
    rw [iterationsNo] at hi ⊢
    rw [htape.1, alternatingTape, if_neg (by omega)]
  have hrun := Executor.comparePages_constant Executor.triggerDifference
    (executor.withCodePages pages.1 pages.2) hfast hslow
  have hdifference : Executor.triggerDifference (List.replicate iterationsNo 100)
      (List.replicate iterationsNo 200) = 100 := by decide
  rw [Executor.testTriggerSequence_of_pages (by omega) hpages, hrun, hdifference]
  refine ⟨{ executor.withCodePages pages.1 pages.2 with
    runNo := executor.runNo + iterationsNo + iterationsNo }, htape.1, ?_, rfl⟩
  change (executor.runNo + 10 + 10) % 40 = 20
  omega

theorem testTriple_onTape {measurement trigger reset : X86Instruction}
    (h : ShortTriple measurement trigger reset) {executor : Executor} (htape : OnTape executor)
    (speculation : Bool) {amount : ℕ} (hamount : amount ≤ 50) :
    ∃ after : Executor, OnTape after ∧ testTriple Executor.api speculation (-50) 50 amount
      measurement trigger reset executor = .ok (some 100, after) := by
  have hamount' : (if reset.isSleep then 1 else amount) ≤ 50 := by split <;> omega
  obtain ⟨middle, htape', hrunNo, htest⟩ := testTriggerSequence_onTape h htape speculation hamount'
  obtain ⟨hmeasurement, htrigger, hreset⟩ := h
  have hlength : ((if reset.isSleep then 1 else amount) + 1) * reset.byteRepresentation.length ≤
      51 * 4 := Nat.mul_le_mul (by omega) hreset
  obtain ⟨page₀, page₁, hpages⟩ := Executor.testResetSequence_of_fits
    trigger.byteRepresentation measurement.byteRepresentation reset.byteRepresentation
    (by omega : (if reset.isSleep then 1 else amount) ≤ 100) (by rw [kPagesize]; omega)
    iterationsNo middle
  have hclean : ∀ i < iterationsNo, middle.tape (middle.runNo + i) = .completed 200 := by
    intro i hi
    rw [iterationsNo] at hi
    rw [htape', alternatingTape, if_neg (by omega)]
  have hnoisy : ∀ i < iterationsNo,
      middle.tape (middle.runNo + iterationsNo + i) = .completed 200 := by
    intro i hi
    rw [iterationsNo] at hi ⊢
    rw [htape', alternatingTape, if_neg (by omega)]
  have hrun := Executor.comparePages_constant Executor.resetDifference
    (middle.withCodePages page₀ page₁) hclean hnoisy
  have hdifference : Executor.resetDifference (List.replicate iterationsNo 200)
      (List.replicate iterationsNo 200) = 0 := by decide
  rw [hrun, hdifference] at hpages
  refine ⟨{ middle.withCodePages page₀ page₁ with
    runNo := middle.runNo + iterationsNo + iterationsNo }, ⟨htape', ?_⟩, ?_⟩
  · change (middle.runNo + 10 + 10) % 40 = 0
    omega
  · unfold testTriple
    change (executor.testTriggerSequence _ _ _ _ _ _ >>= _) = _
    rw [htest]
    change (middle.testResetSequence _ _ _ _ _ >>= _) = _
    rw [hpages]
    rfl

theorem alternatingTape_accepts {codeGenerator : CodeGenerator}
    (h : ∀ i ∈ codeGenerator.instructionList, i.byteRepresentation.length ≤ 4)
    (speculation : Bool) :
    AcceptsAll Executor.api codeGenerator speculation OnTape 50 100 :=
  fun m hm t ht r hr _ hs =>
    testTriple_onTape ⟨h m hm, h t ht, h r hr⟩ hs speculation (by decide)

end OsirisArm
