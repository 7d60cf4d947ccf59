import OsirisArm.SearchBlocks
import Mathlib.Data.List.Pairwise

/-! # The output folder of the search

For every trigger with accepted resets the search writes a file into its output folder, named by the
encoding of the trigger bytes. The alphabet of the encoding contains the path separator, and entries
of the instruction list may have equal bytes; apart from these two cases the folder has everything
that is in the result file.
-/

namespace OsirisArm
open Library

abbrev Folder := Text → Option Text

/-- The file that is created or truncated when a path in the folder is opened for writing. Empty
components of the path are ignored. A path that ends in a separator names a directory, and the
folder has no subdirectories; opening such paths fails. -/
def openedFile (path : Text) : Option Text :=
  if path.getLast? = some '/' then none
  else
    match (path.splitOn '/').filter (· ≠ []) with
    | [file] => some file
    | _ => none

theorem openedFile_plain {path : Text} (hne : path ≠ []) (hplain : '/' ∉ path) :
    openedFile path = some path := by
  have hlast : path.getLast? ≠ some '/' := fun h => hplain (List.mem_of_getLast? h)
  rw [openedFile, if_neg hlast, List.splitOn_eq_singleton hplain]
  simp [hne]

theorem openedFile_some {path file : Text} (h : openedFile path = some file) :
    file ≠ [] ∧ '/' ∉ file := by
  unfold openedFile at h
  split at h
  · cases h
  · split at h
    · next component hcomponents =>
      obtain rfl := Option.some.inj h
      have hmem : component ∈ (path.splitOn '/').filter (· ≠ []) := by
        rw [hcomponents]
        exact List.mem_singleton_self _
      rw [List.mem_filter] at hmem
      exact ⟨by simpa using hmem.2, not_mem_of_mem_splitOn hmem.1⟩
    · cases h

/-- Writing the lines of an instruction file; nothing happens if it cannot be opened. -/
def Folder.writeInstructionFile (folder : Folder) (trigger : X86Instruction)
    (lines : List ReportLine) : Folder :=
  match openedFile (base64Encode trigger.byteRepresentation) with
  | some file => Function.update folder file (some (fileText (lines.map ReportLine.text)))
  | none => folder

def Folder.write (folder : Folder) : SearchOutput → Folder
  | .csvRow _ => folder
  | .instructionFile trigger lines => folder.writeInstructionFile trigger lines

/-- The output folder after the search; it is empty before. -/
def outputFolder (outputs : List SearchOutput) : Folder := outputs.foldl Folder.write fun _ => none

/-- Every trigger with rows in the result file has a file in the folder, named by its encoded bytes,
with a line for each of these rows. The name is decoded back to the bytes. -/
def FolderComplete (outputs : List SearchOutput) : Prop :=
  ∀ trigger, rowsOf trigger outputs ≠ [] →
    outputFolder outputs (base64Encode trigger.byteRepresentation) =
      some (fileText ((rowsOf trigger outputs).map fun row => row.reportLine.text)) ∧
    ((base64Encode trigger.byteRepresentation).length < 2 ^ 31 →
      base64Decode (base64Encode trigger.byteRepresentation) = trigger.byteRepresentation)

/-- A name that can be created in the folder as it stands. -/
def Creatable (name : Text) : Prop := name ≠ [] ∧ '/' ∉ name

instance (name : Text) : Decidable (Creatable name) := inferInstanceAs (Decidable (_ ∧ _))

/-- The instructions other than sleeps have creatable names and differ in their bytes. -/
structure Reportable (instructions : List X86Instruction) : Prop where
  creatable : ∀ trigger ∈ instructions, trigger.isSleep = false →
    Creatable (base64Encode trigger.byteRepresentation)
  distinct : instructions.Pairwise fun trigger trigger' =>
    trigger.isSleep = false → trigger'.isSleep = false →
      trigger.byteRepresentation ≠ trigger'.byteRepresentation

namespace Folder
variable (folder : Folder) (trigger : X86Instruction) (lines : List ReportLine) {file : Text}

theorem writeInstructionFile_opened
    (h : openedFile (base64Encode trigger.byteRepresentation) = some file) :
    folder.writeInstructionFile trigger lines file =
      some (fileText (lines.map ReportLine.text)) := by
  simp [writeInstructionFile, h]

theorem writeInstructionFile_other
    (h : openedFile (base64Encode trigger.byteRepresentation) ≠ some file) :
    folder.writeInstructionFile trigger lines file = folder file := by
  cases hopened : openedFile (base64Encode trigger.byteRepresentation) with
  | none => simp [writeInstructionFile, hopened]
  | some opened =>
    have hfile : file ≠ opened := fun hsame => h (hsame ▸ hopened)
    simp [writeInstructionFile, hopened, hfile]

end Folder

theorem creatable_of_outputFolder {outputs : List SearchOutput} {file text : Text}
    (h : outputFolder outputs file = some text) : Creatable file := by
  by_contra hfile
  have hfold (outputs : List SearchOutput) (folder : Folder) :
      outputs.foldl Folder.write folder file = folder file := by
    induction outputs generalizing folder with
    | nil => rfl
    | cons output outputs ih =>
      rw [List.foldl_cons, ih]
      cases output with
      | csvRow row => rfl
      | instructionFile trigger lines =>
        exact folder.writeInstructionFile_other trigger lines fun hopened =>
          hfile (openedFile_some hopened)
  rw [outputFolder, hfold] at h
  cases h

/-- In a complete folder every trigger with a row has a creatable name. -/
theorem FolderComplete.creatable {outputs : List SearchOutput} (h : FolderComplete outputs)
    {row : ResultRow} (hrow : row ∈ csvRows outputs) :
    Creatable (base64Encode row.trigger.byteRepresentation) := by
  have hrows : rowsOf row.trigger outputs ≠ [] :=
    List.ne_nil_of_mem (List.mem_filter.mpr ⟨hrow, by simp⟩)
  exact creatable_of_outputFolder (h row.trigger hrows).1

theorem foldl_write_csvRows (rows : List ResultRow) (folder : Folder) :
    (rows.map SearchOutput.csvRow).foldl Folder.write folder = folder := by
  induction rows with
  | nil => rfl
  | cons row rows ih => exact ih

/-- The blocks of other triggers do not touch the file of a trigger. -/
theorem foldl_write_other {blocks : List Block} {file : Text}
    (hother : ∀ block ∈ blocks, block.rows ≠ [] →
      openedFile (base64Encode block.trigger.byteRepresentation) ≠ some file) (folder : Folder) :
    (blocks.flatMap Block.outputs).foldl Folder.write folder file = folder file := by
  induction blocks generalizing folder with
  | nil => rfl
  | cons block blocks ih =>
    rw [List.forall_mem_cons] at hother
    rw [List.flatMap_cons, List.foldl_append, ih hother.2, Block.outputs, List.foldl_append,
      foldl_write_csvRows]
    split
    · rfl
    · next hne => exact folder.writeInstructionFile_other _ _ (hother.1 hne)

theorem foldl_write_own {block : Block} (hrows : block.rows ≠ []) (folder : Folder)
    (hopened : openedFile (base64Encode block.trigger.byteRepresentation) =
      some (base64Encode block.trigger.byteRepresentation)) :
    block.outputs.foldl Folder.write folder (base64Encode block.trigger.byteRepresentation) =
      some (fileText (block.rows.map fun row => row.reportLine.text)) := by
  rw [Block.outputs, if_neg hrows, List.foldl_append, foldl_write_csvRows]
  have hfile := folder.writeInstructionFile_opened block.trigger
    (block.rows.map (·.reportLine)) hopened
  rw [List.map_map] at hfile
  exact hfile

theorem exists_block {blocks : List Block} {trigger : X86Instruction}
    (h : rowsOf trigger (blocks.flatMap Block.outputs) ≠ []) :
    ∃ block ∈ blocks, block.trigger = trigger ∧ block.rows ≠ [] := by
  obtain ⟨row, hrow⟩ := List.exists_mem_of_ne_nil _ h
  rw [rowsOf, csvRows_blocks, List.mem_filter, List.mem_flatMap] at hrow
  obtain ⟨⟨block, hblock, hrow⟩, htrigger⟩ := hrow
  refine ⟨block, hblock, ?_, List.ne_nil_of_mem hrow⟩
  rw [← block.rows_trigger row hrow]
  simpa using htrigger

theorem folderComplete_of_blocks {blocks : List Block}
    (hnodup : (blocks.map Block.trigger).Nodup) (h : Reportable (blocks.map Block.trigger)) :
    FolderComplete (blocks.flatMap Block.outputs) := by
  intro trigger hrows
  refine ⟨?_, base64Decode_encode⟩
  obtain ⟨block, hblock, rfl, hne⟩ := exists_block hrows
  rw [rowsOf_blocks hnodup hblock]
  have hcreatable := h.creatable _ (List.mem_map_of_mem hblock) (block.awake hne)
  have hopened := openedFile_plain hcreatable.1 hcreatable.2
  obtain ⟨before, after, rfl⟩ := List.append_of_mem hblock
  have hdistinct := h.distinct
  rw [List.pairwise_map, List.pairwise_append, List.pairwise_cons] at hdistinct
  have hafter : ∀ other ∈ after, other.rows ≠ [] →
      openedFile (base64Encode other.trigger.byteRepresentation) ≠
        some (base64Encode block.trigger.byteRepresentation) := by
    intro other hother hrowsOther hsame
    have hcreatableOther := h.creatable _
      (List.mem_map_of_mem (List.mem_append_right _ (List.mem_cons_of_mem _ hother)))
      (other.awake hrowsOther)
    rw [openedFile_plain hcreatableOther.1 hcreatableOther.2] at hsame
    exact hdistinct.2.1.1 other hother (block.awake hne) (other.awake hrowsOther)
      (base64Encode_injective (Option.some.inj hsame)).symm
  rw [outputFolder, List.flatMap_append, List.flatMap_cons, List.foldl_append, List.foldl_append,
    foldl_write_other hafter, foldl_write_own hne _ hopened]

theorem ReportLine.text_no_newline (line : ReportLine) : '\n' ∉ line.text := by
  intro h
  rw [text, List.mem_append, List.mem_cons] at h
  rcases h with hreset | hdelimiter | htiming
  · exact (base64Encode_plain hreset).2 rfl
  · cases hdelimiter
  · exact (printInt_plain htiming).2 rfl

theorem ReportLine.timing_eq {line line' : ReportLine} (h : line.text = line'.text) :
    line.timing = line'.timing := by
  have hreset : ';' ∉ base64Encode line.reset := fun hmem => (base64Encode_plain hmem).1 rfl
  have htiming : ';' ∉ printInt line.timing := fun hmem => (printInt_plain hmem).1 rfl
  have hprint := ((List.append_cons_inj_of_notMem hreset htiming).mp h).2.2
  have hread := strtol_printInt line.timing
  rw [hprint, strtol_printInt] at hread
  exact (Option.some.inj hread).symm

/-- Files with the same text belong to rows with the same timings. -/
theorem timings_eq_of_fileText {rows rows' : List ResultRow}
    (h : fileText (rows.map fun row => row.reportLine.text) =
      fileText (rows'.map fun row => row.reportLine.text)) :
    rows.map ResultRow.timing = rows'.map ResultRow.timing := by
  have hplain (rows : List ResultRow) :
      ∀ line ∈ rows.map fun row => row.reportLine.text, '\n' ∉ line := by
    intro line hline
    obtain ⟨row, -, rfl⟩ := List.mem_map.mp hline
    exact row.reportLine.text_no_newline
  have hlines := congrArg readLines h
  rw [readLines_fileText (hplain rows), readLines_fileText (hplain rows')] at hlines
  clear h
  induction rows generalizing rows' with
  | nil =>
    rw [List.map_nil] at hlines
    rw [List.map_eq_nil_iff.mp hlines.symm]
  | cons row rows ih =>
    cases rows' with
    | nil => cases hlines
    | cons row' rows' =>
      obtain ⟨hfirst, hrest⟩ := List.cons.inj hlines
      rw [List.map_cons, List.map_cons, ih hrest]
      exact congrArg (· :: _) (ReportLine.timing_eq hfirst)

/-- In a complete folder, triggers with different timings have different bytes: the lines of both
are in the file of their name. -/
theorem FolderComplete.bytes_ne {blocks : List Block} (hnodup : (blocks.map Block.trigger).Nodup)
    (h : FolderComplete (blocks.flatMap Block.outputs)) {block block' : Block}
    (hblock : block ∈ blocks) (hblock' : block' ∈ blocks) (hrows : block.rows ≠ [])
    (hrows' : block'.rows ≠ [])
    (htimings : ∀ row ∈ block.rows, ∀ row' ∈ block'.rows, row.timing < row'.timing) :
    block.trigger.byteRepresentation ≠ block'.trigger.byteRepresentation := by
  intro hsame
  have hfile (b : Block) (hb : b ∈ blocks) (hne : b.rows ≠ []) :
      outputFolder (blocks.flatMap Block.outputs) (base64Encode b.trigger.byteRepresentation) =
        some (fileText (b.rows.map fun row => row.reportLine.text)) := by
    rw [← rowsOf_blocks hnodup hb] at hne ⊢
    exact (h b.trigger hne).1
  have htexts := hfile block' hblock' hrows'
  rw [← hsame, hfile block hblock hrows] at htexts
  have hequal := timings_eq_of_fileText (Option.some.inj htexts)
  obtain ⟨row, rows, hcons⟩ := List.exists_cons_of_ne_nil hrows
  obtain ⟨row', rows', hcons'⟩ := List.exists_cons_of_ne_nil hrows'
  rw [hcons, hcons', List.map_cons, List.map_cons] at hequal
  have hless := htimings row (by simp [hcons]) row' (by simp [hcons'])
  exact hless.ne (List.cons.inj hequal).1

/-- The state counts the accepted triples; every triple has a larger timing than the last. -/
def countingApi : ExecutorApi ℕ where
  testTriggerSequence _ _ _ _ _ _ n := .ok (⟨0, 51 + n⟩, n + 1)
  testResetSequence _ _ _ _ _ n := .ok (⟨0, 0⟩, n)

theorem testTriple_counting (measurement trigger reset : X86Instruction) (amount n : ℕ) :
    testTriple countingApi false (-50) 50 amount measurement trigger reset n =
      .ok (some (51 + n), n + 1) := by
  have haccepted : (0 : ℤ) = 0 ∧ ((51 + n : ℤ) < -50 ∨ (51 + n : ℤ) > 50) := by omega
  change (if (0 : ℤ) = 0 ∧ ((51 + n : ℤ) < -50 ∨ (51 + n : ℤ) > 50) then _ else _) = _
  rw [if_pos haccepted]
  rfl

theorem searchReset_counting (trigger reset : X86Instruction) (state : ℕ × List ReportLine) :
    searchReset countingApi false (-50) 50 trigger reset state =
      .write [.csvRow ⟨51 + state.1, trigger, trigger, reset⟩]
        (state.1 + 1, state.2 ++ [⟨reset.byteRepresentation, 51 + state.1⟩]) := by
  rw [searchReset, testTriple_counting, Emission.lift_ok_bind]

/-- The timings of the rows between two states of the executor. -/
def TimedBetween (first last : ℕ) (rows : List ResultRow) : Prop :=
  ∀ row ∈ rows, 51 + first ≤ row.timing ∧ row.timing < 51 + last

theorem searchResets_counting {trigger : X86Instruction} {resets : List X86Instruction}
    {state state' : ℕ × List ReportLine}
    (h : (Emission.forEach (searchReset countingApi false (-50) 50 trigger) resets
      state).outcome = .ok state') :
    state.1 ≤ state'.1 ∧ TimedBetween state.1 state'.1 (csvRows (Emission.forEach
      (searchReset countingApi false (-50) 50 trigger) resets state).written) := by
  have hround : ∀ reset ∈ resets, ∀ (s t : ℕ × List ReportLine) part,
      searchReset countingApi false (-50) 50 trigger reset s = ⟨part, .ok t⟩ →
        s.1 ≤ t.1 ∧ TimedBetween s.1 t.1 (csvRows part) := by
    intro reset _ s t part hrun
    rw [searchReset_counting] at hrun
    obtain ⟨rfl, rfl⟩ : _ = part ∧ _ = t := by simpa [Emission.write] using hrun
    refine ⟨by simp, ?_⟩
    intro row hrow
    obtain rfl : row = _ := by simpa [csvRows] using hrow
    simp
  obtain ⟨hclock, parts, hparts, -, hbetween, -⟩ := Emission.forEach_parts
    (P := fun first last part => TimedBetween first last (csvRows part)) hround h
  refine ⟨hclock, ?_⟩
  intro row hrow
  rw [hparts, mem_csvRows, List.mem_flatten] at hrow
  obtain ⟨part, hpart, hrow⟩ := hrow
  obtain ⟨first, last, hfirst, hlast, htimed⟩ := hbetween part hpart
  obtain ⟨hlow, hhigh⟩ := htimed row (mem_csvRows.mpr hrow)
  omega

variable {codeGenerator : CodeGenerator}

theorem searchTrigger_counting {trigger : X86Instruction} {n n' : ℕ}
    (h : (searchTrigger countingApi codeGenerator false (-50) 50 trigger n).outcome = .ok n') :
    n ≤ n' ∧ TimedBetween n n' (csvRows (searchTrigger countingApi codeGenerator false (-50) 50
      trigger n).written) := by
  unfold searchTrigger at h ⊢
  by_cases hsleep : trigger.isSleep = true
  · rw [if_pos hsleep] at h ⊢
    obtain rfl := Except.ok.inj h
    exact ⟨le_rfl, by simp [TimedBetween, csvRows]⟩
  · rw [if_neg hsleep, codeGenerator.forEachInstruction_eq] at h ⊢
    obtain ⟨state, hresets, hlast, hwritten⟩ := Emission.bind_outcome_ok h
    have hstate : state.1 = n' := by
      split at hlast <;> exact Except.ok.inj hlast
    have hfile : csvRows (if state.2 = [] then (.pure state.1 : Emission SearchOutput Stop ℕ)
        else .write [.instructionFile trigger state.2] state.1).written = [] := by
      split <;> rfl
    rw [hwritten, csvRows_append, hfile, List.append_nil, ← hstate]
    exact searchResets_counting hresets

theorem searchTrigger_counting_row {trigger : X86Instruction}
    (htrigger : trigger ∈ codeGenerator.instructionList) (hawake : trigger.isSleep = false)
    (n : ℕ) : csvRows (searchTrigger countingApi codeGenerator false (-50) 50 trigger n).written ≠
      [] := by
  obtain ⟨reset, resets, hlist⟩ := List.exists_cons_of_ne_nil (List.ne_nil_of_mem htrigger)
  have hrow : .csvRow ⟨51 + n, trigger, trigger, reset⟩ ∈
      (codeGenerator.forEachInstruction (searchReset countingApi false (-50) 50 trigger)
        (n, [])).written := by
    rw [codeGenerator.forEachInstruction_eq, hlist, Emission.forEach, searchReset_counting,
      Emission.bind_ok rfl]
    exact List.mem_cons_self
  apply List.ne_nil_of_mem (mem_csvRows.mpr _)
  · exact ⟨51 + n, trigger, trigger, reset⟩
  · rw [searchTrigger, if_neg (by simp [hawake])]
    exact Emission.mem_bind_of_left hrow _

theorem search_counting_ends (codeGenerator : CodeGenerator) :
    ∃ n, (findAndOutputTriggerpairsWithTriggerEqualsMeasurement countingApi codeGenerator false
      (-50) 50 0).outcome = .ok n := by
  rw [findAndOutputTriggerpairsWithTriggerEqualsMeasurement, codeGenerator.forEachInstruction_eq]
  apply Emission.forEach_total
  intro trigger _ n
  unfold searchTrigger
  split
  · exact ⟨n, rfl⟩
  · have hround (reset : X86Instruction) (state : ℕ × List ReportLine) : ∃ state',
        (searchReset countingApi false (-50) 50 trigger reset state).outcome = .ok state' := by
      rw [searchReset_counting]
      exact ⟨_, rfl⟩
    obtain ⟨state, hstate⟩ := Emission.forEach_total (l := codeGenerator.instructionList)
      (fun reset _ => hround reset) (n, [])
    rw [codeGenerator.forEachInstruction_eq, Emission.bind_ok hstate]
    split
    · exact ⟨_, rfl⟩
    · exact ⟨_, rfl⟩

/-- If the counting executor leaves a complete folder, the list is reportable. -/
theorem reportable_of_counting
    (h : FolderComplete (findAndOutputTriggerpairsWithTriggerEqualsMeasurement countingApi
      codeGenerator false (-50) 50 0).written) : Reportable codeGenerator.instructionList := by
  obtain ⟨n, hend⟩ := search_counting_ends codeGenerator
  obtain ⟨blocks, hwritten, hblocks, hrounds, hpairwise⟩ := search_blocks id TimedBetween
    (fun _ _ _ _ hrun => searchTrigger_counting hrun) hend
  have hnodup : (blocks.map Block.trigger).Nodup := by
    rw [hblocks]
    exact CodeGenerator.instructionList_nodup
  have hrows : ∀ block ∈ blocks, block.trigger.isSleep = false → block.rows ≠ [] := by
    intro block hblock hawake
    obtain ⟨m, m', hround⟩ := hrounds block hblock
    have hmem : block.trigger ∈ codeGenerator.instructionList :=
      hblocks ▸ List.mem_map_of_mem hblock
    have hrow := searchTrigger_counting_row hmem hawake m
    rwa [hround, block.csvRows_outputs] at hrow
  rw [hwritten] at h
  rw [← hblocks]
  constructor
  · intro trigger htrigger hawake
    obtain ⟨block, hblock, rfl⟩ := List.mem_map.mp htrigger
    obtain ⟨row, hrow⟩ := List.exists_mem_of_ne_nil _ (hrows block hblock hawake)
    rw [← block.rows_trigger row hrow]
    apply h.creatable
    rw [csvRows_blocks]
    exact List.mem_flatMap.mpr ⟨block, hblock, hrow⟩
  · rw [List.pairwise_map]
    apply hpairwise.imp_of_mem
    rintro block block' hblock hblock' ⟨first, last, first', last', hlast, htimed, htimed'⟩ hawake
      hawake'
    apply h.bytes_ne hnodup hblock hblock' (hrows block hblock hawake)
      (hrows block' hblock' hawake')
    intro row hrow row' hrow'
    have hhigh := (htimed row hrow).2
    have hlow := (htimed' row' hrow').1
    omega

/-- Whatever the executor does, the folder of a search that ends is complete, if and only if the
instruction list is reportable. -/
theorem folderComplete_iff (codeGenerator : CodeGenerator) :
    (∀ (σ : Type) (api : ExecutorApi σ) (speculation : Bool)
      (negativeThreshold positiveThreshold : ℤ) (s s' : σ),
      (findAndOutputTriggerpairsWithTriggerEqualsMeasurement api codeGenerator speculation
        negativeThreshold positiveThreshold s).outcome = .ok s' →
      FolderComplete (findAndOutputTriggerpairsWithTriggerEqualsMeasurement api codeGenerator
        speculation negativeThreshold positiveThreshold s).written) ↔
    Reportable codeGenerator.instructionList := by
  constructor
  · intro h
    obtain ⟨n, hend⟩ := search_counting_ends codeGenerator
    exact reportable_of_counting (h ℕ countingApi false (-50) 50 0 n hend)
  · intro h σ api speculation negativeThreshold positiveThreshold s s' hend
    obtain ⟨blocks, hwritten, hblocks, -, -⟩ := search_blocks (fun _ => 0)
      (fun _ _ _ => True) (fun _ _ _ _ _ => ⟨le_rfl, trivial⟩) hend
    rw [hwritten]
    apply folderComplete_of_blocks
    · rw [hblocks]
      exact CodeGenerator.instructionList_nodup
    · rw [hblocks]
      exact h

/-- `LDAR X24, [X25]`, the entry `OP/fyA==` of the instruction file. -/
def instLdarX24X25 : Bytes := [0x38, 0xff, 0xdf, 0xc8]

def ldarOnly : CodeGenerator :=
  .ofEntries [(instLdarX24X25, "LDAR X24, [X25]".toList)] (by decide) (by decide)

/-- The accepted pair of `LDAR` with itself is in the result file, but its name in the folder would
be the path `OP/fyA==`. -/
theorem folder_ldar_incomplete :
    ∃ executor, (findAndOutputTriggerpairsWithTriggerEqualsMeasurement Executor.api ldarOnly false
        (-50) 50 (.start alternatingTape)).outcome = .ok executor ∧
      ¬ FolderComplete (findAndOutputTriggerpairsWithTriggerEqualsMeasurement Executor.api ldarOnly
        false (-50) 50 (.start alternatingTape)).written := by
  set ldar := instructionAt 0 (instLdarX24X25, "LDAR X24, [X25]".toList)
  have hlist : ldarOnly.instructionList = [ldar] := rfl
  have hawake : ldar.isSleep = false := by decide
  have hshort : ShortTriple ldar ldar ldar := ⟨by decide, by decide, by decide⟩
  obtain ⟨after, -, htest⟩ := testTriple_onTape hshort onTape_start false
    (by decide : resetExecutionsAmountTriggerEqualsMeasurement ≤ 50)
  have hreset : searchReset Executor.api false (-50) 50 ldar ldar (.start alternatingTape, []) =
      .write [.csvRow ⟨100, ldar, ldar, ldar⟩] (after, [⟨ldar.byteRepresentation, 100⟩]) := by
    rw [searchReset, htest]
    rfl
  have hsearch : findAndOutputTriggerpairsWithTriggerEqualsMeasurement Executor.api ldarOnly false
      (-50) 50 (.start alternatingTape) =
        ⟨[.csvRow ⟨100, ldar, ldar, ldar⟩, .instructionFile ldar [⟨ldar.byteRepresentation, 100⟩]],
          .ok after⟩ := by
    rw [findAndOutputTriggerpairsWithTriggerEqualsMeasurement, ldarOnly.forEachInstruction_eq,
      hlist, Emission.forEach, searchTrigger, ldarOnly.forEachInstruction_eq, hlist,
      Emission.forEach, hreset]
    simp [hawake, Emission.write, Emission.bind, Emission.pure]
  rw [hsearch]
  refine ⟨after, rfl, ?_⟩
  intro hcomplete
  have hrow : (⟨100, ldar, ldar, ldar⟩ : ResultRow) ∈ csvRows [.csvRow ⟨100, ldar, ldar, ldar⟩,
      .instructionFile ldar [⟨ldar.byteRepresentation, 100⟩]] := List.mem_singleton_self _
  have hname : ¬ Creatable (base64Encode ldar.byteRepresentation) := by decide
  exact hname (hcomplete.creatable hrow)

end OsirisArm
