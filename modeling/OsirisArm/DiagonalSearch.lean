import OsirisArm.SearchRows

/-! # The search with equal trigger and measurement as a diagonal

When the results of the tests depend on the bytes of the sequences alone, both searches write what
they find for each pair of a measurement and a trigger. The search with equal trigger and
measurement visits the diagonal of these pairs.
-/

namespace OsirisArm
open Library Library.Emission

/-- The results of the tests depend on the bytes of the three sequences alone: neither on the state
of the executor nor on how often the reset sequence is executed. -/
structure ResultsByBytes {σ : Type} (api : ExecutorApi σ) (codeGenerator : CodeGenerator)
    (speculation : Bool) (triggerTest resetTest : Bytes → Bytes → Bytes → TestResult) : Prop where
  trigger : ∀ measurement ∈ codeGenerator.instructionList,
    ∀ trigger ∈ codeGenerator.instructionList, ∀ reset ∈ codeGenerator.instructionList,
    ∀ amount ≤ resetExecutionsAmountTriggerEqualsMeasurement, ∀ s, ∃ s',
      api.testTriggerSequence trigger.byteRepresentation measurement.byteRepresentation
        reset.byteRepresentation speculation iterationsNo amount s =
          .ok (triggerTest trigger.byteRepresentation measurement.byteRepresentation
            reset.byteRepresentation, s')
  reset : ∀ measurement ∈ codeGenerator.instructionList,
    ∀ trigger ∈ codeGenerator.instructionList, ∀ reset ∈ codeGenerator.instructionList,
    ∀ amount ≤ resetExecutionsAmountTriggerEqualsMeasurement, ∀ s, ∃ s',
      api.testResetSequence trigger.byteRepresentation measurement.byteRepresentation
        reset.byteRepresentation iterationsNo amount s =
          .ok (resetTest trigger.byteRepresentation measurement.byteRepresentation
            reset.byteRepresentation, s')

section
variable (triggerTest resetTest : Bytes → Bytes → Bytes → TestResult)
  (negativeThreshold positiveThreshold : ℤ)

/-- The difference of a triple that passes both tests. -/
def timingOf (measurement trigger reset : X86Instruction) : Option ℤ :=
  let triggered := triggerTest trigger.byteRepresentation measurement.byteRepresentation
    reset.byteRepresentation
  let resetted := resetTest trigger.byteRepresentation measurement.byteRepresentation
    reset.byteRepresentation
  if triggered.error = 0 ∧ (triggered.cyclesDifference < negativeThreshold ∨
      triggered.cyclesDifference > positiveThreshold) then
    if resetted.error = 0 ∧ -20 < resetted.cyclesDifference ∧ resetted.cyclesDifference < 20 then
      some triggered.cyclesDifference
    else none
  else none

/-- The row of a triple, if it passes both tests. -/
def tripleRows (measurement trigger reset : X86Instruction) : List ResultRow :=
  (timingOf triggerTest resetTest negativeThreshold positiveThreshold measurement trigger
    reset).toList.map fun timing => ⟨timing, measurement, trigger, reset⟩

/-- The rows of a measurement and a trigger. -/
def pairRows (codeGenerator : CodeGenerator) (measurement trigger : X86Instruction) :
    List ResultRow :=
  if trigger.isSleep then []
  else codeGenerator.instructionList.flatMap
    (tripleRows triggerTest resetTest negativeThreshold positiveThreshold measurement trigger)

variable {triggerTest resetTest negativeThreshold positiveThreshold}

theorem mem_pairRows {codeGenerator : CodeGenerator} {measurement trigger : X86Instruction}
    {row : ResultRow} (h : row ∈ pairRows triggerTest resetTest negativeThreshold
      positiveThreshold codeGenerator measurement trigger) :
    row.measurement = measurement ∧ row.trigger = trigger := by
  unfold pairRows at h
  split at h
  · cases h
  · obtain ⟨reset, -, h⟩ := List.mem_flatMap.mp h
    obtain ⟨timing, -, rfl⟩ := List.mem_map.mp h
    exact ⟨rfl, rfl⟩

variable {σ : Type} {api : ExecutorApi σ} {codeGenerator : CodeGenerator} {speculation : Bool}

theorem testTriple_byBytes
    (h : ResultsByBytes api codeGenerator speculation triggerTest resetTest)
    (negativeThreshold positiveThreshold : ℤ) {amount : ℕ}
    (hamount : amount ≤ resetExecutionsAmountTriggerEqualsMeasurement)
    {measurement trigger reset : X86Instruction}
    (hmeasurement : measurement ∈ codeGenerator.instructionList)
    (htrigger : trigger ∈ codeGenerator.instructionList)
    (hreset : reset ∈ codeGenerator.instructionList) (s : σ) :
    ∃ s', testTriple api speculation negativeThreshold positiveThreshold amount measurement trigger
      reset s = .ok (timingOf triggerTest resetTest negativeThreshold positiveThreshold measurement
        trigger reset, s') := by
  have hexecuted : (if reset.isSleep then 1 else amount) ≤
      resetExecutionsAmountTriggerEqualsMeasurement := by
    split
    · decide
    · exact hamount
  obtain ⟨t, htriggered⟩ := h.trigger _ hmeasurement _ htrigger _ hreset _ hexecuted s
  obtain ⟨u, hresetted⟩ := h.reset _ hmeasurement _ htrigger _ hreset _ hexecuted t
  unfold testTriple timingOf
  simp only [htriggered]
  change ∃ s', (if _ ∧ _ then _ else _) = _
  split
  · rw [hresetted]
    change ∃ s', (if _ ∧ _ then _ else _) = _
    split
    · exact ⟨u, rfl⟩
    · exact ⟨u, rfl⟩
  · exact ⟨t, rfl⟩

theorem searchTriple_byBytes
    (h : ResultsByBytes api codeGenerator speculation triggerTest resetTest) (threshold : ℤ)
    {measurement trigger reset : X86Instruction}
    (hmeasurement : measurement ∈ codeGenerator.instructionList)
    (htrigger : trigger ∈ codeGenerator.instructionList)
    (hreset : reset ∈ codeGenerator.instructionList) (s : σ) :
    ∃ s', searchTriple api speculation threshold measurement trigger reset s =
      ⟨tripleRows triggerTest resetTest (-threshold) threshold measurement trigger reset,
        .ok s'⟩ := by
  have hamount : resetExecutionsAmountWithoutAssumptions ≤
      resetExecutionsAmountTriggerEqualsMeasurement := by decide
  obtain ⟨s', htested⟩ := testTriple_byBytes h (-threshold) threshold hamount hmeasurement htrigger
    hreset s
  refine ⟨s', ?_⟩
  rw [searchTriple, htested, lift_ok_bind, tripleRows]
  cases timingOf triggerTest resetTest (-threshold) threshold measurement trigger reset <;> rfl

theorem searchPair_byBytes
    (h : ResultsByBytes api codeGenerator speculation triggerTest resetTest) (threshold : ℤ)
    {measurement trigger : X86Instruction}
    (hmeasurement : measurement ∈ codeGenerator.instructionList)
    (htrigger : trigger ∈ codeGenerator.instructionList) (s : σ) :
    (searchPair api codeGenerator speculation threshold measurement trigger s).written.filterMap
        some = pairRows triggerTest resetTest (-threshold) threshold codeGenerator measurement
          trigger ∧
      ∃ s', (searchPair api codeGenerator speculation threshold measurement trigger s).outcome =
        .ok s' := by
  unfold searchPair pairRows
  split
  · exact ⟨rfl, s, rfl⟩
  · rw [codeGenerator.forEachInstruction_eq]
    apply forEach_filterMap
    intro reset hreset s
    obtain ⟨s', hrun⟩ := searchTriple_byBytes h threshold hmeasurement htrigger hreset s
    rw [hrun]
    exact ⟨List.filterMap_some, s', rfl⟩

theorem rows_withoutAssumptions
    (h : ResultsByBytes api codeGenerator speculation triggerTest resetTest) (threshold : ℤ)
    (s : σ) :
    (Search.withoutAssumptions threshold).rows api codeGenerator speculation s =
      codeGenerator.instructionList.flatMap fun measurement =>
        codeGenerator.instructionList.flatMap fun trigger =>
          pairRows triggerTest resetTest (-threshold) threshold codeGenerator measurement
            trigger := by
  have hmeasurement : ∀ measurement ∈ codeGenerator.instructionList, ∀ s,
      (codeGenerator.forEachInstruction (searchPair api codeGenerator speculation threshold
          measurement) s).written.filterMap some =
        (codeGenerator.instructionList.flatMap fun trigger => pairRows triggerTest resetTest
          (-threshold) threshold codeGenerator measurement trigger) ∧
      ∃ s', (codeGenerator.forEachInstruction (searchPair api codeGenerator speculation threshold
        measurement) s).outcome = .ok s' := by
    intro measurement hmeasurement s
    rw [codeGenerator.forEachInstruction_eq]
    exact forEach_filterMap (fun trigger htrigger s =>
      searchPair_byBytes h threshold hmeasurement htrigger s) s
  have hall := (forEach_filterMap hmeasurement s).1
  rw [List.filterMap_some] at hall
  rw [Search.rows, findAndOutputTriggerpairsWithoutAssumptions,
    codeGenerator.forEachInstruction_eq, hall]

theorem searchReset_byBytes
    (h : ResultsByBytes api codeGenerator speculation triggerTest resetTest)
    (negativeThreshold positiveThreshold : ℤ) {trigger reset : X86Instruction}
    (htrigger : trigger ∈ codeGenerator.instructionList)
    (hreset : reset ∈ codeGenerator.instructionList) (state : σ × List ReportLine) :
    csvRows (searchReset api speculation negativeThreshold positiveThreshold trigger reset
        state).written = tripleRows triggerTest resetTest negativeThreshold positiveThreshold
          trigger trigger reset ∧
      ∃ state', (searchReset api speculation negativeThreshold positiveThreshold trigger reset
        state).outcome = .ok state' := by
  obtain ⟨s', htested⟩ := testTriple_byBytes h negativeThreshold positiveThreshold le_rfl htrigger
    htrigger hreset state.1
  rw [searchReset, htested, lift_ok_bind, tripleRows]
  cases timingOf triggerTest resetTest negativeThreshold positiveThreshold trigger trigger reset
    with
  | none => exact ⟨rfl, _, rfl⟩
  | some timing => exact ⟨rfl, _, rfl⟩

theorem searchTrigger_byBytes
    (h : ResultsByBytes api codeGenerator speculation triggerTest resetTest)
    {trigger : X86Instruction} (htrigger : trigger ∈ codeGenerator.instructionList) (s : σ) :
    csvRows (searchTrigger api codeGenerator speculation negativeThreshold positiveThreshold trigger
        s).written = pairRows triggerTest resetTest negativeThreshold positiveThreshold
          codeGenerator trigger trigger ∧
      ∃ s', (searchTrigger api codeGenerator speculation negativeThreshold positiveThreshold trigger
        s).outcome = .ok s' := by
  unfold searchTrigger pairRows
  split
  · exact ⟨rfl, s, rfl⟩
  · rw [codeGenerator.forEachInstruction_eq]
    obtain ⟨hrows, state, hstate⟩ := forEach_filterMap (fun reset hreset state =>
      searchReset_byBytes h negativeThreshold positiveThreshold htrigger hreset state) (s, [])
    rw [bind_ok hstate, csvRows, List.filterMap_append, hrows]
    split
    · exact ⟨List.append_nil _, state.1, rfl⟩
    · exact ⟨List.append_nil _, state.1, rfl⟩

/-- The search with equal trigger and measurement writes the rows of the pairs with equal sides. -/
theorem rows_triggerEqualsMeasurement
    (h : ResultsByBytes api codeGenerator speculation triggerTest resetTest) (s : σ) :
    (Search.triggerEqualsMeasurement negativeThreshold positiveThreshold).rows api codeGenerator
      speculation s = codeGenerator.instructionList.flatMap fun trigger =>
        pairRows triggerTest resetTest negativeThreshold positiveThreshold codeGenerator trigger
          trigger := by
  rw [Search.rows, findAndOutputTriggerpairsWithTriggerEqualsMeasurement,
    codeGenerator.forEachInstruction_eq]
  exact (forEach_filterMap (fun _ htrigger s => searchTrigger_byBytes h htrigger s) s).1

theorem flatMap_ite_eq {α β : Type} [DecidableEq α] {l : List α} (hl : l.Nodup) {a : α}
    (ha : a ∈ l) (f : α → List β) : (l.flatMap fun b => if b = a then f b else []) = f a := by
  induction l with
  | nil => cases ha
  | cons c cs ih =>
    obtain ⟨hc, hcs⟩ := List.nodup_cons.mp hl
    rw [List.flatMap_cons]
    rcases List.mem_cons.mp ha with rfl | ha
    · have hrest : (cs.flatMap fun b => if b = a then f b else []) = [] := by
        rw [List.flatMap_eq_nil_iff]
        intro b hb
        rw [if_neg]
        rintro rfl
        exact hc hb
      rw [if_pos rfl, hrest, List.append_nil]
    · rw [if_neg (fun h : c = a => hc (h ▸ ha)), List.nil_append, ih hcs ha]

/-- The index of an instruction in the list. -/
def CodeGenerator.indexOf (codeGenerator : CodeGenerator) (instruction : X86Instruction) : ℕ :=
  codeGenerator.instructionList.idxOf instruction

theorem pairRows_diagonal {measurement trigger : X86Instruction}
    (hmeasurement : measurement ∈ codeGenerator.instructionList) :
    ((pairRows triggerTest resetTest negativeThreshold positiveThreshold codeGenerator measurement
        trigger).filter fun row =>
          codeGenerator.indexOf row.measurement = codeGenerator.indexOf row.trigger) =
      if trigger = measurement then pairRows triggerTest resetTest negativeThreshold
        positiveThreshold codeGenerator measurement trigger else [] := by
  split
  · next heq =>
    subst heq
    rw [List.filter_eq_self]
    intro row hrow
    obtain ⟨hm, ht⟩ := mem_pairRows hrow
    rw [hm, ht, decide_eq_true_eq]
  · next hne =>
    rw [List.filter_eq_nil_iff]
    intro row hrow
    obtain ⟨hm, ht⟩ := mem_pairRows hrow
    rw [hm, ht, decide_eq_true_eq]
    intro hidx
    exact hne ((List.idxOf_inj hmeasurement).mp hidx).symm

/-- The search with equal trigger and measurement writes exactly those rows of the search without
assumptions whose measurement and trigger are the same instruction of the list. -/
theorem triggerEqualsMeasurement_diagonal
    (h : ResultsByBytes api codeGenerator speculation triggerTest resetTest) (threshold : ℤ)
    (s s' : σ) :
    (Search.triggerEqualsMeasurement (-threshold) threshold).rows api codeGenerator speculation s =
      ((Search.withoutAssumptions threshold).rows api codeGenerator speculation s').filter
        fun row => codeGenerator.indexOf row.measurement = codeGenerator.indexOf row.trigger := by
  rw [rows_triggerEqualsMeasurement h, rows_withoutAssumptions h, List.filter_flatMap]
  apply List.flatMap_congr
  intro measurement hmeasurement
  rw [List.filter_flatMap]
  simp only [pairRows_diagonal hmeasurement]
  exact (flatMap_ite_eq codeGenerator.instructionList_nodup hmeasurement _).symm

end

/-- An executor whose trigger tests all show a difference of 100 cycles. -/
def constantApi : ExecutorApi Unit where
  testTriggerSequence _ _ _ _ _ _ s := .ok (⟨0, 100⟩, s)
  testResetSequence _ _ _ _ _ s := .ok (⟨0, 0⟩, s)

theorem constantApi_byBytes : ResultsByBytes constantApi twoInstructions false
    (fun _ _ _ => ⟨0, 100⟩) (fun _ _ _ => ⟨0, 0⟩) where
  trigger _ _ _ _ _ _ _ _ _ := ⟨_, rfl⟩
  reset _ _ _ _ _ _ _ _ _ := ⟨_, rfl⟩

theorem triggerEqualsMeasurement_diagonal_constant :
    (Search.triggerEqualsMeasurement (-50) 50).rows constantApi twoInstructions false () =
      ((Search.withoutAssumptions 50).rows constantApi twoInstructions false ()).filter
        fun row => twoInstructions.indexOf row.measurement = twoInstructions.indexOf row.trigger :=
  triggerEqualsMeasurement_diagonal constantApi_byBytes 50 () ()

end OsirisArm
