import OsirisArm.ExhaustiveSearch
import OsirisArm.FilterHistory
import OsirisArm.RowFormat

/-! # Chains of stages

A search, any number of confirmation rounds and filter runs follow each other, each on a file of a
stage before. All of them keep the format: the header and rows of the search with a timing of a
trigger test in front.
-/

namespace OsirisArm
open Library Library.Emission Library.Selection

/-- A new filter object after some calls. -/
def ResultFilter.after (calls : List FilterCall) : Except Stop ResultFilter :=
  calls.foldlM (fun resultFilter call => call.run resultFilter) .fresh

/-- The files a chain of stages produces, also those of a stage that was stopped. A filter object
is new or has read files of the chain, and reads a file if `readable` allows it. -/
inductive Produced (codeGenerator : CodeGenerator) (rows : List ResultRow)
    (readable : Text → Prop) : Text → Prop
  | search : Produced codeGenerator rows readable (resultFile rows)
  | confirmed {content : Text} (input : Produced codeGenerator rows readable content)
      (shuffle : Shuffle) (executor : Executor) :
      Produced codeGenerator rows readable (confirmedFile (confirmResultsOfFuzzer Executor.api
        codeGenerator shuffle (readLines content) executor).written)
  | cleaned {content : Text} (input : Produced codeGenerator rows readable content)
      (shuffle : Shuffle) (executor : Executor) :
      Produced codeGenerator rows readable (cleanedFile (confirmResultsOfFuzzer Executor.api
        codeGenerator shuffle (readLines content) executor).written)
  | filtered {content : Text} (input : Produced codeGenerator rows readable content)
      {calls : List FilterCall}
      (earlier : ∀ file, .applyFilters file ∈ calls → Produced codeGenerator rows readable file)
      {resultFilter : ResultFilter} (object : ResultFilter.after calls = .ok resultFilter)
      (hreadable : readable content) :
      Produced codeGenerator rows readable
        (fileText (resultFilter.applyFilters (readLines content)).written)

/-- The file has the header and rows of the search. -/
def WellFormed (rows : List ResultRow) (content : Text) : Prop :=
  ∃ lines, readLines content = headerline :: lines ∧
    ∀ line ∈ lines, ∃ row ∈ rows, RowLine row line

theorem wellFormed_fileText {rows : List ResultRow} {lines : List Text}
    (h : ∀ line ∈ lines, ∃ row ∈ rows, RowLine row line) :
    WellFormed rows (fileText (headerline :: lines)) := by
  refine ⟨lines, readLines_fileText ?_, h⟩
  intro line hline
  rcases List.mem_cons.mp hline with rfl | hline
  · exact headerline_no_newline
  · obtain ⟨row, -, hrow⟩ := h line hline
    exact hrow.noNewline

section Stages
variable {codeGenerator : CodeGenerator} {rows : List ResultRow} {content : Text}
  {resultFilter : ResultFilter}

/-- The difference of a confirmation test is that of a trigger test. -/
theorem TestGives.range {result : ℤ} (h : TestGives Executor.api result) :
    -5000 ≤ result ∧ result ≤ 5000 := by
  obtain ⟨measurement, trigger, reset, before, after, h⟩ := h
  obtain ⟨⟨tested, last⟩, htested, h⟩ := except_bind_ok h
  cases h
  exact Executor.testTriggerSequence_range htested

/-- The confirmation stage accepts the file and writes the header and confirmed rows. -/
theorem WellFormed.confirm (h : WellFormed rows content) (codeGenerator : CodeGenerator)
    (shuffle : Shuffle) (executor : Executor) :
    ∃ outputs, (confirmResultsOfFuzzer Executor.api codeGenerator shuffle (readLines content)
      executor).written = .header :: outputs ∧
        ∀ output ∈ outputs, ∃ row ∈ rows, RowLine row output.text := by
  obtain ⟨lines, hlines, hformat⟩ := h
  rcases confirmResultsOfFuzzer_subperm Executor.api codeGenerator shuffle (readLines content)
    executor with hempty | ⟨outputs, hwritten, houtputs, -⟩
  · rw [hlines, confirmResultsOfFuzzer, if_neg (not_not.mpr rfl), bind_ok (s := ()) rfl] at hempty
    cases hempty
  · refine ⟨outputs, hwritten, ?_⟩
    intro output houtput
    obtain ⟨line, hline, result, hresult, rfl⟩ := houtputs output houtput
    rw [hlines, List.tail_cons] at hline
    obtain ⟨row, hrow, hformat⟩ := hformat line hline
    exact ⟨row, hrow, hformat.confirmed hresult.range⟩

theorem WellFormed.parsed (h : WellFormed rows content)
    (hrows : ∀ row ∈ rows, RowOf codeGenerator row) :
    readLines content = resultLines (fileRows content) := by
  obtain ⟨lines, hlines, hformat⟩ := h
  rw [resultLines, fileRows, hlines, List.tail_cons, map_line_filterMap]
  intro line hline
  obtain ⟨row, hrow, hformat⟩ := hformat line hline
  obtain ⟨timing, hdata⟩ := (hformat.readAs (hrows row hrow)).data
  exact ⟨⟨line, _, hdata, hformat.noNewline⟩, parsedLine_line ⟨line, _, hdata, hformat.noNewline⟩,
    rfl⟩

theorem WellFormed.ne_intMin (h : WellFormed rows content)
    (hrows : ∀ row ∈ rows, RowOf codeGenerator row) :
    ∀ p ∈ fileRows content, p.data.timing ≠ intMin := by
  intro p hp
  have hparsed := h.parsed hrows
  obtain ⟨lines, hlines, hformat⟩ := h
  rw [hlines, resultLines] at hparsed
  have hline : p.line ∈ lines := (List.cons.inj hparsed).2 ▸ List.mem_map_of_mem hp
  obtain ⟨row, -, hformat⟩ := hformat p.line hline
  have htiming := hformat.timing_range p.parsed
  rw [intMin]
  omega

/-- The maps hold no timing without an absolute value. -/
def ResultFilter.Comparing (resultFilter : ResultFilter) : Prop :=
  ∀ f key b, resultFilter.seen f key = some b → b.2 ≠ intMin

/-- Such an object can take all rows whose timings have an absolute value. -/
theorem ResultFilter.Comparing.passSafe (h : resultFilter.Comparing) {rows : List ParsedLine}
    (hrows : ∀ p ∈ rows, p.data.timing ≠ intMin) : resultFilter.PassSafe rows := by
  intro f _ κ _
  refine ⟨fun p hp b hb => ⟨hrows p hp, h f _ b hb⟩, ?_⟩
  exact List.pairwise_of_forall_mem_list fun p hp q hq _ => ⟨hrows p hp, hrows q hq⟩

/-- A call keeps this, if the timings of its file have an absolute value. -/
theorem ResultFilter.Comparing.run (h : resultFilter.Comparing) {call : FilterCall}
    {after : ResultFilter}
    (hfile : ∀ file, call = .applyFilters file → ∀ p ∈ fileRows file, p.data.timing ≠ intMin)
    (hrun : call.run resultFilter = .ok after) : after.Comparing := by
  cases call with
  | enableFilter filter =>
    cases hrun
    intro f key b hb
    rw [seen_enableFilter] at hb
    exact h f key b hb
  | disableFilter filter =>
    cases hrun
    intro f key b hb
    rw [seen_disableFilter] at hb
    exact h f key b hb
  | clearAllFilters =>
    cases hrun
    intro f key b hb
    rw [seen_clearAllFilters] at hb
    exact h f key b hb
  | applyFilters file =>
    have hlines := ResultFilter.applyFilters_wellFormed hrun
    change (resultFilter.applyFilters (readLines file)).outcome = .ok after at hrun
    rw [hlines] at hrun
    obtain ⟨-, hseen⟩ := ResultFilter.applyFilters_collected hrun
    intro f key b hb
    cases hκ : f.key with
    | none => cases f <;> first | cases hb | cases hκ
    | some κ =>
      rw [hseen f κ hκ] at hb
      split at hb
      · rcases collect_cases hb with hold | ⟨p, hp, rfl⟩
        · exact h f key b hold
        · exact hfile file rfl p.1 (List.fst_mem_of_mem_zipIdx hp)
      · exact h f key b hb

theorem ResultFilter.comparing_after {calls : List FilterCall}
    (hfiles : ∀ file, .applyFilters file ∈ calls → ∀ p ∈ fileRows file, p.data.timing ≠ intMin)
    (h : ResultFilter.after calls = .ok resultFilter) : resultFilter.Comparing := by
  have hfresh : ResultFilter.fresh.Comparing := by
    intro f key b hb
    rw [ResultFilter.unused_fresh f] at hb
    cases hb
  unfold ResultFilter.after at h
  generalize ResultFilter.fresh = first at hfresh h
  induction calls generalizing first with
  | nil =>
    cases h
    exact hfresh
  | cons call calls ih =>
    rw [List.foldlM_cons] at h
    obtain ⟨next, hnext, h⟩ := except_bind_ok h
    refine ih (fun file hfile => hfiles file (List.mem_cons_of_mem call hfile)) next ?_ h
    refine hfresh.run (fun file hcall => hfiles file ?_) hnext
    rw [hcall]
    exact List.mem_cons_self

theorem filterRound_written (line : Text) (state : ℕ × ResultFilter) :
    ∀ written ∈ (ResultFilter.filterRound line state).written, written = line := by
  intro written hwritten
  unfold ResultFilter.filterRound at hwritten
  rcases mem_bind_written hwritten with hwritten | ⟨filtered, -, hwritten⟩
  · cases hwritten
  · rcases mem_bind_written hwritten with hwritten | ⟨_, -, hwritten⟩
    · rw [write_written] at hwritten
      split at hwritten
      · cases hwritten
      · exact List.mem_singleton.mp hwritten
    · cases hwritten

theorem applyFilters_written {parsedRows : List ParsedLine} (hcount : parsedRows.length < 2 ^ 31)
    (hsafe : resultFilter.PassSafe parsedRows) :
    ∃ kept, (resultFilter.applyFilters (resultLines parsedRows)).written = headerline :: kept ∧
      ∀ line ∈ kept, line ∈ parsedRows.map ParsedLine.line := by
  obtain ⟨after, hprefilter, -⟩ :=
    ResultFilter.prefilterLines_ok 0 (by rwa [Nat.zero_add]) hsafe
  rw [ResultFilter.applyFilters_resultLines, hprefilter, lift_ok_bind, bind_ok (s := after) rfl]
  refine ⟨_, rfl, ?_⟩
  intro line hline
  rcases mem_bind_written hline with hline | ⟨_, -, hline⟩
  · refine forEach_writes (fun line => line ∈ parsedRows.map ParsedLine.line) ?_ (0, after) line
      hline
    intro input hinput state written hwritten
    rw [filterRound_written input state written hwritten]
    exact hinput
  · cases hline

/-- Less than 2³¹ rows, so that the filters can number them. -/
def FewRows (content : Text) : Prop := (fileRows content).length < 2 ^ 31

theorem Produced.wellFormed (hrows : ∀ row ∈ rows, RowOf codeGenerator row)
    (htimings : ∀ row ∈ rows, -5000 ≤ row.timing ∧ row.timing ≤ 5000)
    (h : Produced codeGenerator rows FewRows content) : WellFormed rows content := by
  induction h with
  | search =>
    apply wellFormed_fileText
    intro line hline
    obtain ⟨row, hrow, rfl⟩ := List.mem_map.mp hline
    exact ⟨row, hrow, (hrows row hrow).rowLine (htimings row hrow)⟩
  | confirmed _ shuffle executor ih =>
    obtain ⟨outputs, hwritten, hformat⟩ := ih.confirm codeGenerator shuffle executor
    rw [hwritten]
    apply wellFormed_fileText
    intro line hline
    obtain ⟨output, houtput, rfl⟩ := List.mem_map.mp hline
    exact hformat output houtput
  | cleaned _ shuffle executor ih =>
    obtain ⟨outputs, hwritten, hformat⟩ := ih.confirm codeGenerator shuffle executor
    rw [hwritten]
    apply wellFormed_fileText
    intro line hline
    obtain ⟨output, houtput, rfl⟩ := List.mem_map.mp hline
    exact hformat output (List.mem_of_mem_filter houtput)
  | filtered _ _ hobject hcount ih hearlier =>
    have hcomparing := ResultFilter.comparing_after
      (fun file hfile => (hearlier file hfile).ne_intMin hrows) hobject
    have hsafe := hcomparing.passSafe (ih.ne_intMin hrows)
    have hparsed := ih.parsed hrows
    obtain ⟨lines, hlines, hformat⟩ := ih
    obtain ⟨kept, hwritten, hkept⟩ := applyFilters_written hcount hsafe
    rw [hparsed, hwritten]
    apply wellFormed_fileText
    intro line hline
    rw [hlines, resultLines] at hparsed
    exact hformat line ((List.cons.inj hparsed).2 ▸ hkept line hline)

end Stages

theorem RowAccepted.timing_range {codeGenerator : CodeGenerator} {speculation : Bool}
    {row : ResultRow} (h : RowAccepted Executor.api codeGenerator speculation row) :
    -5000 ≤ row.timing ∧ row.timing ≤ 5000 := by
  obtain ⟨amount, before, after, htest⟩ := h.tested
  exact Executor.testTriggerSequence_range htest

/-- Every file of a chain of stages that starts with a search has the header, and each of its rows
is read as a row of the search. -/
theorem produced_readAs {codeGenerator : CodeGenerator} {search : Search} {speculation : Bool}
    {executor : Executor} {content : Text}
    (h : Produced codeGenerator (search.rows Executor.api codeGenerator speculation executor)
      FewRows content) :
    ∃ lines, readLines content = headerline :: lines ∧ ∀ line ∈ lines,
      ∃ row ∈ search.rows Executor.api codeGenerator speculation executor,
        ReadAs codeGenerator row line := by
  have hrows (row : ResultRow)
      (hrow : row ∈ search.rows Executor.api codeGenerator speculation executor) :
      RowOf codeGenerator row := (Search.rows_accepted hrow).rowOf
  obtain ⟨lines, hlines, hformat⟩ := h.wellFormed hrows fun row hrow =>
    (Search.rows_accepted hrow).timing_range
  refine ⟨lines, hlines, fun line hline => ?_⟩
  obtain ⟨row, hrow, hline⟩ := hformat line hline
  exact ⟨row, hrow, hline.readAs (hrows row hrow)⟩

/-- A list of `n` times the same instruction. -/
def nops (n : ℕ) (h : n ≤ 65536) : CodeGenerator :=
  .ofEntries (List.replicate n (instNop, "NOP".toList)) (by rwa [List.length_replicate]) (by
    intro entry hentry
    rw [List.eq_of_mem_replicate hentry]
    decide)

theorem length_nops (n : ℕ) (h : n ≤ 65536) : (nops n h).instructionList.length = n := by
  rw [nops, CodeGenerator.ofEntries, List.length_mapIdx, List.length_replicate]

theorem mem_nops {n : ℕ} (h : n ≤ 65536) {i : X86Instruction}
    (hi : i ∈ (nops n h).instructionList) :
    i.isSleep = false ∧ i.byteRepresentation.length ≤ 4 := by
  obtain ⟨idx, hidx, rfl⟩ := List.mem_mapIdx.mp hi
  rw [List.getElem_replicate]
  exact ⟨rfl, Nat.le_refl 4⟩

/-- The rows of a search that accepts all triples of such a list. -/
def nopRows (n : ℕ) (h : n ≤ 65536) : List ResultRow :=
  (Search.withoutAssumptions 50).rows Executor.api (nops n h) false (.start alternatingTape)

theorem length_nopRows (n : ℕ) (h : n ≤ 65536) : n * (n * n) ≤ (nopRows n h).length := by
  have haccepts := alternatingTape_accepts (fun i hi => (mem_nops h hi).2) false
  have hlength := haccepts.length_rows onTape_start fun i hi => (mem_nops h hi).1
  rw [length_nops] at hlength
  exact hlength

theorem readLines_nopRows (n : ℕ) (h : n ≤ 65536) : ∃ parsedRows,
    readLines (resultFile (nopRows n h)) = resultLines parsedRows ∧
      parsedRows.length = (nopRows n h).length ∧
        fileRows (resultFile (nopRows n h)) = parsedRows := by
  have hrows (row : ResultRow) (hrow : row ∈ nopRows n h) : RowOf (nops n h) row :=
    (Search.rows_accepted hrow).rowOf
  have hformed : WellFormed (nopRows n h) (resultFile (nopRows n h)) :=
    Produced.wellFormed hrows (fun row hrow => (Search.rows_accepted hrow).timing_range) .search
  have hparsed := hformed.parsed hrows
  refine ⟨_, hparsed, ?_, rfl⟩
  rw [readLines_resultFile hrows, resultLines] at hparsed
  have hlength := congrArg List.length (List.cons.inj hparsed).2
  rw [List.length_map, List.length_map] at hlength
  exact hlength.symm

/-- A search over two instructions, filtered with an object that has read the file before, and
confirmed. -/
theorem produced_readAs_nop :
    nopRows 2 (by decide) ≠ [] ∧ ∃ resultFilter, ResultFilter.after
        [.applyFilters (resultFile (nopRows 2 (by decide))), .enableFilter .uniquePropertyTuples] =
          .ok resultFilter ∧
      ∃ lines, readLines (cleanedFile (confirmResultsOfFuzzer Executor.api (nops 2 (by decide))
        reversing (readLines (fileText (resultFilter.applyFilters (readLines
          (resultFile (nopRows 2 (by decide))))).written)) quietExecutor).written) =
            headerline :: lines ∧
        ∀ line ∈ lines, ∃ row ∈ nopRows 2 (by decide), ReadAs (nops 2 (by decide)) row line := by
  have hlow := length_nopRows 2 (by decide)
  have hhigh := length_rows_le (nops 2 (by decide)) false 50 (.start alternatingTape)
  rw [length_nops] at hhigh
  change (nopRows 2 (by decide)).length ≤ _ at hhigh
  obtain ⟨parsedRows, hparsed, hlength, hfile⟩ := readLines_nopRows 2 (by decide)
  have hcount : parsedRows.length < 2 ^ 31 := by omega
  obtain ⟨used, -, hrun⟩ := ResultFilter.applyFilters_unseen
    (ResultFilter.unused_fresh.unseen parsedRows) hcount (fun f hf => by cases hf)
  have hafter : ResultFilter.after
      [.applyFilters (resultFile (nopRows 2 (by decide))), .enableFilter .uniquePropertyTuples] =
        .ok (used.enableFilter .uniquePropertyTuples) := by
    change (ResultFilter.fresh.applyFilters (readLines _)).outcome >>= _ = _
    rw [hparsed, hrun]
    rfl
  refine ⟨List.ne_nil_of_length_pos (by omega), _, hafter, produced_readAs (.cleaned
    (.filtered .search (fun file hcall => ?_) hafter ?_) reversing quietExecutor)⟩
  · simp only [List.mem_cons, FilterCall.applyFilters.injEq, reduceCtorEq, List.not_mem_nil,
      or_false] at hcall
    rw [hcall]
    exact .search
  · change (fileRows (resultFile (nopRows 2 (by decide)))).length < 2 ^ 31
    rwa [hfile]

/-- 1291 instructions have more triples than an `int` can count. The filters number the rows of
such a result file with an `int`, and nothing is known of the file they write. -/
theorem not_produced_readAs :
    (ResultFilter.fresh.applyFilters (readLines (resultFile (nopRows 1291 (by decide))))).outcome =
      .error .undefinedBehaviour ∧
    ¬ ∀ content, Produced (nops 1291 (by decide)) (nopRows 1291 (by decide)) (fun _ => True)
      content → ∃ lines, readLines content = headerline :: lines := by
  obtain ⟨parsedRows, hparsed, hlength, -⟩ := readLines_nopRows 1291 (by decide)
  have hlow := length_nopRows 1291 (by decide)
  have hundefined : ResultFilter.fresh.applyFilters (resultLines parsedRows) =
      ⟨[], .error .undefinedBehaviour⟩ :=
    ResultFilter.applyFilters_undefined fun hdefined => by omega
  rw [hparsed, hundefined]
  refine ⟨rfl, fun h => ?_⟩
  have hnew : ResultFilter.after [] = .ok .fresh := rfl
  obtain ⟨lines, hlines⟩ := h _
    (.filtered .search (fun _ hfile => absurd hfile List.not_mem_nil) hnew trivial)
  rw [hparsed, hundefined] at hlines
  cases hlines

end OsirisArm
