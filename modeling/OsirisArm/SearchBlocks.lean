import OsirisArm.SearchRows

/-! # The blocks of a search

The search with equal trigger and measurement writes one block for each instruction of the list: the
rows of this trigger and then, if there are any, its instruction file with the same resets and
timings.
-/

namespace OsirisArm
open Library Library.Emission

/-- The line of the instruction file that belongs to a row. -/
def ResultRow.reportLine (row : ResultRow) : ReportLine :=
  ⟨row.reset.byteRepresentation, row.timing⟩

/-- What the rounds of one trigger find. -/
structure Block where
  trigger : X86Instruction
  rows : List ResultRow
  rows_trigger : ∀ row ∈ rows, row.trigger = trigger
  awake : rows ≠ [] → trigger.isSleep = false

def Block.outputs (block : Block) : List SearchOutput :=
  block.rows.map .csvRow ++
    if block.rows = [] then [] else [.instructionFile block.trigger (block.rows.map (·.reportLine))]

@[simp] theorem csvRows_append (first second : List SearchOutput) :
    csvRows (first ++ second) = csvRows first ++ csvRows second := by
  simp [csvRows]

@[simp] theorem csvRows_map (rows : List ResultRow) : csvRows (rows.map .csvRow) = rows := by
  simp [csvRows, List.filterMap_map]

theorem Block.csvRows_outputs (block : Block) : csvRows block.outputs = block.rows := by
  unfold Block.outputs
  split <;> simp [csvRows]

theorem csvRows_blocks (blocks : List Block) :
    csvRows (blocks.flatMap Block.outputs) = blocks.flatMap Block.rows := by
  induction blocks with
  | nil => rfl
  | cons block blocks ih =>
    rw [List.flatMap_cons, csvRows_append, ih, block.csvRows_outputs, List.flatMap_cons]

/-- The rows of one trigger in the result file. -/
def rowsOf (trigger : X86Instruction) (outputs : List SearchOutput) : List ResultRow :=
  (csvRows outputs).filter (·.trigger = trigger)

theorem Block.filter_rows (block : Block) (trigger : X86Instruction) :
    block.rows.filter (·.trigger = trigger) =
      if block.trigger = trigger then block.rows else [] := by
  split
  · next h =>
    apply List.filter_eq_self.mpr
    intro row hrow
    simp [block.rows_trigger row hrow, h]
  · next h =>
    apply List.filter_eq_nil_iff.mpr
    intro row hrow
    simp [block.rows_trigger row hrow, h]

/-- If no trigger has two blocks, its rows are those of its block. -/
theorem rowsOf_blocks {blocks : List Block} (hnodup : (blocks.map Block.trigger).Nodup)
    {block : Block} (hblock : block ∈ blocks) :
    rowsOf block.trigger (blocks.flatMap Block.outputs) = block.rows := by
  rw [rowsOf, csvRows_blocks]
  induction blocks with
  | nil => cases hblock
  | cons first blocks ih =>
    rw [List.map_cons, List.nodup_cons] at hnodup
    rw [List.flatMap_cons, List.filter_append, first.filter_rows]
    rcases List.mem_cons.mp hblock with rfl | hrest
    · have hothers : (blocks.flatMap Block.rows).filter (·.trigger = block.trigger) = [] := by
        apply List.filter_eq_nil_iff.mpr
        intro row hrow
        obtain ⟨other, hother, hrow⟩ := List.mem_flatMap.mp hrow
        have hne : other.trigger ≠ block.trigger := fun h =>
          hnodup.1 (h ▸ List.mem_map_of_mem hother)
        simp [other.rows_trigger row hrow, hne]
      rw [if_pos rfl, hothers, List.append_nil]
    · have hne : first.trigger ≠ block.trigger := fun h =>
        hnodup.1 (h ▸ List.mem_map_of_mem hrest)
      rw [if_neg hne, List.nil_append, ih hnodup.2 hrest]

section
variable {σ : Type} {api : ExecutorApi σ} {codeGenerator : CodeGenerator} {speculation : Bool}
  {negativeThreshold positiveThreshold : ℤ}

/-- One reset: at most one row, and its line at the end of the stream. -/
theorem searchReset_ok {trigger reset : X86Instruction} {state state' : σ × List ReportLine}
    (h : (searchReset api speculation negativeThreshold positiveThreshold trigger reset
      state).outcome = .ok state') :
    ∃ rows : List ResultRow, (searchReset api speculation negativeThreshold positiveThreshold
        trigger reset state).written = rows.map .csvRow ∧
      (∀ row ∈ rows, row.trigger = trigger) ∧
      state'.2 = state.2 ++ rows.map (·.reportLine) := by
  obtain ⟨stop, hstop⟩ | ⟨s, hnone⟩ | ⟨timing, s, -, hwrite⟩ :=
    searchReset_cases api speculation negativeThreshold positiveThreshold trigger reset state
  · rw [hstop] at h
    cases h
  · rw [hnone] at h ⊢
    obtain rfl := Except.ok.inj h
    exact ⟨[], rfl, by simp, by simp⟩
  · rw [hwrite] at h ⊢
    obtain rfl := Except.ok.inj h
    exact ⟨[⟨timing, trigger, trigger, reset⟩], rfl, by simp, rfl⟩

/-- All resets of a trigger: the stream has the lines of the rows. -/
theorem searchResets_ok {trigger : X86Instruction} {resets : List X86Instruction}
    {state state' : σ × List ReportLine}
    (h : (forEach (searchReset api speculation negativeThreshold positiveThreshold trigger) resets
      state).outcome = .ok state') :
    ∃ rows : List ResultRow, (forEach (searchReset api speculation negativeThreshold
        positiveThreshold trigger) resets state).written = rows.map .csvRow ∧
      (∀ row ∈ rows, row.trigger = trigger) ∧
      state'.2 = state.2 ++ rows.map (·.reportLine) := by
  induction resets generalizing state with
  | nil =>
    obtain rfl := Except.ok.inj h
    exact ⟨[], rfl, by simp, by simp⟩
  | cons reset resets ih =>
    obtain ⟨middle, hfirst, hrest, hwritten⟩ := bind_outcome_ok h
    obtain ⟨rows, hrows, htrigger, hstream⟩ := searchReset_ok hfirst
    obtain ⟨rows', hrows', htrigger', hstream'⟩ := ih hrest
    refine ⟨rows ++ rows', ?_, ?_, ?_⟩
    · rw [forEach, hwritten, hrows, hrows', List.map_append]
    · exact List.forall_mem_append.mpr ⟨htrigger, htrigger'⟩
    · rw [hstream', hstream, List.append_assoc, List.map_append]

theorem searchTrigger_ok {trigger : X86Instruction} {s s' : σ}
    (h : (searchTrigger api codeGenerator speculation negativeThreshold positiveThreshold trigger
      s).outcome = .ok s') :
    ∃ block : Block, block.trigger = trigger ∧ (searchTrigger api codeGenerator speculation
      negativeThreshold positiveThreshold trigger s).written = block.outputs := by
  unfold searchTrigger at h ⊢
  by_cases hsleep : trigger.isSleep = true
  · rw [if_pos hsleep]
    exact ⟨⟨trigger, [], by simp, by simp⟩, rfl, rfl⟩
  · rw [if_neg hsleep] at h ⊢
    rw [codeGenerator.forEachInstruction_eq] at h ⊢
    obtain ⟨state, hresets, -, hwritten⟩ := bind_outcome_ok h
    obtain ⟨rows, hrows, htrigger, hstream⟩ := searchResets_ok hresets
    refine ⟨⟨trigger, rows, htrigger, fun _ => by simpa using hsleep⟩, rfl, ?_⟩
    rw [hwritten, hrows, hstream, List.nil_append]
    by_cases hempty : rows = []
    · simp [Block.outputs, hempty]
    · simp [Block.outputs, hempty]

theorem exists_blocks {triggers : List X86Instruction} {parts : List (List SearchOutput)}
    (h : List.Forall₂ (fun trigger part => ∃ s s' : σ, searchTrigger api codeGenerator speculation
      negativeThreshold positiveThreshold trigger s = ⟨part, .ok s'⟩) triggers parts) :
    ∃ blocks : List Block, parts = blocks.map Block.outputs ∧
      blocks.map Block.trigger = triggers ∧ ∀ block ∈ blocks, ∃ s s' : σ, searchTrigger api
        codeGenerator speculation negativeThreshold positiveThreshold block.trigger s =
          ⟨block.outputs, .ok s'⟩ := by
  induction h with
  | nil => exact ⟨[], rfl, rfl, by simp⟩
  | cons hfirst _ ih =>
    obtain ⟨s, s', hrun⟩ := hfirst
    obtain ⟨block, htrigger, hwritten⟩ := searchTrigger_ok (congrArg Emission.outcome hrun)
    obtain ⟨blocks, rfl, rfl, hrounds⟩ := ih
    rw [hrun] at hwritten
    refine ⟨block :: blocks, ?_, ?_, ?_⟩
    · rw [List.map_cons, ← hwritten]
    · rw [List.map_cons, htrigger]
    · rw [List.forall_mem_cons, htrigger, ← hwritten]
      exact ⟨⟨s, s', hrun⟩, hrounds⟩

/-- A search that ends has written one block for each instruction of the list. If every round moves
a clock forward and `P` holds of its rows between its readings, the rows follow one another. -/
theorem search_blocks (clock : σ → ℕ) (P : ℕ → ℕ → List ResultRow → Prop)
    (round : ∀ trigger ∈ codeGenerator.instructionList, ∀ s s',
      (searchTrigger api codeGenerator speculation negativeThreshold positiveThreshold trigger
        s).outcome = .ok s' →
      clock s ≤ clock s' ∧ P (clock s) (clock s') (csvRows (searchTrigger api codeGenerator
        speculation negativeThreshold positiveThreshold trigger s).written))
    {s s' : σ}
    (h : (findAndOutputTriggerpairsWithTriggerEqualsMeasurement api codeGenerator speculation
      negativeThreshold positiveThreshold s).outcome = .ok s') :
    ∃ blocks : List Block, (findAndOutputTriggerpairsWithTriggerEqualsMeasurement api codeGenerator
        speculation negativeThreshold positiveThreshold s).written =
          blocks.flatMap Block.outputs ∧
      blocks.map Block.trigger = codeGenerator.instructionList ∧
      (∀ block ∈ blocks, ∃ s s' : σ, searchTrigger api codeGenerator speculation negativeThreshold
        positiveThreshold block.trigger s = ⟨block.outputs, .ok s'⟩) ∧
      blocks.Pairwise fun block block' => ∃ first last first' last', last ≤ first' ∧
        P first last block.rows ∧ P first' last' block'.rows := by
  rw [findAndOutputTriggerpairsWithTriggerEqualsMeasurement, codeGenerator.forEachInstruction_eq]
    at h ⊢
  have hround : ∀ trigger ∈ codeGenerator.instructionList, ∀ s t part,
      searchTrigger api codeGenerator speculation negativeThreshold positiveThreshold trigger s =
        ⟨part, .ok t⟩ → clock s ≤ clock t ∧ P (clock s) (clock t) (csvRows part) := by
    intro trigger htrigger s t part hrun
    have hwritten := round trigger htrigger s t (congrArg Emission.outcome hrun)
    rwa [hrun] at hwritten
  obtain ⟨-, parts, hparts, hall, -, hpairwise⟩ :=
    forEach_parts (P := fun first last part => P first last (csvRows part)) hround h
  obtain ⟨blocks, rfl, hblocks, hrounds⟩ := exists_blocks hall
  refine ⟨blocks, ?_, hblocks, hrounds, ?_⟩
  · rw [hparts, List.flatMap_def]
  · simpa only [List.pairwise_map, Block.csvRows_outputs] using hpairwise

end

end OsirisArm
