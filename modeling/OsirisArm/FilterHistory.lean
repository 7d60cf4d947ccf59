import OsirisArm.FilterCommand

/-! # The filters and the files filtered before

The maps of a filter object are never cleared. After any sequence of calls the map of a filter
holds, for every key, the best line of all files that were filtered while the filter was active. A
later file is filtered as by a new object as long as these lines do not decide about its rows.
-/

namespace OsirisArm
open Library Library.Selection

/-- The calls a filter object gets; a file is given by its content. -/
inductive FilterCall where
  | enableFilter (filter : ResultFilterFunctions)
  | disableFilter (filter : ResultFilterFunctions)
  | clearAllFilters
  | applyFilters (content : Text)

namespace FilterCall

def run (call : FilterCall) (resultFilter : ResultFilter) : Except Stop ResultFilter :=
  match call with
  | .enableFilter filter => .ok (resultFilter.enableFilter filter)
  | .disableFilter filter => .ok (resultFilter.disableFilter filter)
  | .clearAllFilters => .ok resultFilter.clearAllFilters
  | .applyFilters content => (resultFilter.applyFilters (readLines content)).outcome

/-- The filters that are active after a call. -/
def active (call : FilterCall) (filters : List ResultFilterFunctions) :
    List ResultFilterFunctions :=
  match call with
  | .enableFilter filter => if filter ∈ filters then filters else filters ++ [filter]
  | .disableFilter filter => filters.erase filter
  | .clearAllFilters => []
  | .applyFilters _ => filters

end FilterCall

def parsedLine (line : Text) : Option ParsedLine :=
  match h : resultLineData line with
  | .ok data => if hline : '\n' ∈ line then none else some ⟨line, data, h, hline⟩
  | .error _ => none

/-- The rows of a result file. -/
def fileRows (content : Text) : List ParsedLine := (readLines content).tail.filterMap parsedLine

theorem parsedLine_line (row : ParsedLine) : parsedLine row.line = some row := by
  obtain ⟨line, data, hparsed, hline⟩ := row
  unfold parsedLine
  split
  · next data' h =>
    have hdata : data' = data := Except.ok.inj (h.symm.trans hparsed)
    subst hdata
    rw [dif_neg hline]
  · next h =>
    rw [hparsed] at h
    cases h

theorem fileRows_of_lines {content : Text} {rows : List ParsedLine}
    (h : readLines content = resultLines rows) : fileRows content = rows := by
  rw [fileRows, h, resultLines, List.tail_cons, List.filterMap_map]
  have hsome : parsedLine ∘ ParsedLine.line = some := funext parsedLine_line
  rw [hsome, List.filterMap_some]

theorem map_line_filterMap {lines : List Text}
    (h : ∀ line ∈ lines, ∃ row, parsedLine line = some row ∧ row.line = line) :
    (lines.filterMap parsedLine).map ParsedLine.line = lines := by
  induction lines with
  | nil => rfl
  | cons line lines ih =>
    obtain ⟨row, hrow, hline⟩ := h line List.mem_cons_self
    rw [List.filterMap_cons_some hrow, List.map_cons, hline,
      ih fun l hl => h l (List.mem_cons_of_mem line hl)]

namespace ResultFilter
variable {resultFilter after : ResultFilter}

theorem prefilterLines_parsed {lineNo : ℕ} {lines : List Text}
    (h : resultFilter.prefilterLines lineNo lines = .ok after) {line : Text}
    (hline : line ∈ lines) :
    ∃ data, resultLineData line = .ok data := by
  induction lines generalizing lineNo resultFilter with
  | nil => cases hline
  | cons first lines ih =>
    obtain ⟨data, hdata, h⟩ := except_bind_ok h
    obtain ⟨next, -, h⟩ := except_bind_ok h
    obtain ⟨lineNo', -, h⟩ := except_bind_ok h
    rcases List.mem_cons.mp hline with rfl | hline
    · exact ⟨data, hdata⟩
    · exact ih h hline

/-- Only files with the header and sixteen columns in every row are filtered to the end. -/
theorem applyFilters_wellFormed {content : Text}
    (h : (resultFilter.applyFilters (readLines content)).outcome = .ok after) :
    readLines content = resultLines (fileRows content) := by
  cases hlines : readLines content with
  | nil =>
    rw [hlines] at h
    cases h
  | cons header lines =>
    rw [hlines, applyFilters] at h
    split at h
    · cases h
    · next hheader =>
      obtain ⟨next, hprefilter, -⟩ := Emission.bind_outcome_ok h
      have hparsed (line : Text) (hline : line ∈ lines) : ∃ row, parsedLine line = some row ∧
          row.line = line := by
        obtain ⟨data, hdata⟩ := prefilterLines_parsed hprefilter hline
        have hnewline : '\n' ∉ line :=
          readLines_no_newline (by rw [hlines]; exact List.mem_cons_of_mem header hline)
        exact ⟨⟨line, data, hdata, hnewline⟩, parsedLine_line ⟨line, data, hdata, hnewline⟩, rfl⟩
      rw [resultLines, fileRows, hlines, List.tail_cons, map_line_filterMap hparsed,
        not_ne_iff.mp hheader]

/-- A filter that knows the key of a line does not change the object. -/
theorem executeFilterFunction_state {lineNo : ℕ} {data : ResultLineData}
    {filter : ResultFilterFunctions} {state : Bool × ResultFilter}
    (hknown : ∀ κ, filter.key = some κ → ∃ b, resultFilter.seen filter (κ data) = some b)
    (h : resultFilter.executeFilterFunction lineNo data filter = .ok state) :
    state.2 = resultFilter := by
  cases hkey : filter.key with
  | none =>
    rw [executeFilterFunction_row hkey] at h
    cases h
    rfl
  | some κ =>
    obtain ⟨b, hb⟩ := hknown κ hkey
    have hupdate : Function.update (resultFilter.seen filter) (κ data) (some b) =
        resultFilter.seen filter := by
      rw [← hb, Function.update_eq_self]
    rw [executeFilterFunction_key hkey] at h
    obtain ⟨⟨filterOut, seen⟩, hfilter, h⟩ := except_bind_ok h
    have hseen : seen = resultFilter.seen filter := by
      simp only [filterBest, hb, Option.getD_some, hupdate] at hfilter
      split at hfilter
      · obtain ⟨_, -, hfilter⟩ := except_bind_ok hfilter
        cases hfilter
        rfl
      · cases hfilter
        rfl
    cases h
    rw [hseen, withSeen_seen]

/-- A line whose keys the maps know does not change the object. -/
theorem filterLine_state {lineNo : ℕ} {data : ResultLineData} {result : Bool × ResultFilter}
    (hknown : ∀ f ∈ resultFilter.activeFilters, ∀ κ, f.key = some κ →
      ∃ b, resultFilter.seen f (κ data) = some b)
    (h : resultFilter.filterLine lineNo data = .ok result) : result.2 = resultFilter := by
  unfold filterLine at h
  generalize resultFilter.activeFilters = filters at hknown h
  induction filters with
  | nil =>
    cases h
    rfl
  | cons filter filters ih =>
    rw [List.foldlM_cons] at h
    obtain ⟨state, hstate, h⟩ := except_bind_ok h
    have hunchanged : state.2 = resultFilter :=
      executeFilterFunction_state (hknown filter List.mem_cons_self) hstate
    obtain ⟨filterOut, state⟩ := state
    simp only at hunchanged
    subst hunchanged
    cases filterOut with
    | true =>
      cases h.symm.trans (foldlM_rejected filters)
      rfl
    | false => exact ih (fun f hf => hknown f (List.mem_cons_of_mem filter hf)) h

/-- After the first pass the maps know the keys of all rows. -/
theorem Collected.known {rows : List ParsedLine}
    (h : Collected resultFilter after rows.zipIdx) {row : ParsedLine} (hrow : row ∈ rows)
    {f : ResultFilterFunctions} (hf : f ∈ after.activeFilters) {κ : ResultLineData → Text}
    (hκ : f.key = some κ) : ∃ b, after.seen f (κ row.data) = some b := by
  obtain ⟨i, hi⟩ := mem_zipIdx_of_mem hrow
  rw [h.1] at hf
  rw [h.2 f κ hκ, if_pos hf]
  exact exists_collect hi

/-- The second pass leaves the object as it is after the first one. -/
theorem applyFilters_collected {rows : List ParsedLine}
    (h : (resultFilter.applyFilters (resultLines rows)).outcome = .ok after) :
    Collected resultFilter after rows.zipIdx := by
  have hdefined : rows.length < 2 ^ 31 ∧ resultFilter.PassSafe rows := by
    by_contra hnot
    rw [applyFilters_undefined hnot] at h
    cases h
  obtain ⟨next, hrun, hcollected⟩ :=
    prefilterLines_ok 0 (by rw [Nat.zero_add]; exact hdefined.1) hdefined.2
  have hround : ∀ line ∈ rows.map ParsedLine.line, ∀ s s' : ℕ × ResultFilter, s.2 = next →
      (filterRound line s).outcome = .ok s' → s'.2 = next := by
    intro line hline s s' hs hout
    obtain ⟨row, hrow, rfl⟩ := List.mem_map.mp hline
    obtain ⟨filtered, hfiltered, hout, -⟩ := Emission.bind_outcome_ok hout
    obtain ⟨_, -, hout, -⟩ := Emission.bind_outcome_ok hout
    obtain ⟨lineNo, -, hout⟩ := except_bind_ok hout
    rw [Emission.lift_outcome, row.parsed] at hfiltered
    cases hout
    rw [hs] at hfiltered
    exact filterLine_state (fun f hf κ hκ => hcollected.known hrow hf hκ) hfiltered
  rw [applyFilters_resultLines, hrun, Emission.bind_ok rfl] at h
  obtain ⟨_, hwrite, h, -⟩ := Emission.bind_outcome_ok h
  cases hwrite
  obtain ⟨state, hstate, h, -⟩ := Emission.bind_outcome_ok h
  cases h
  rw [(Emission.forEach_invariant (fun s : ℕ × ResultFilter => s.2 = next) (fun _ => True) hround
    (fun _ _ _ _ _ _ => trivial) (0, next) rfl).2 state hstate]
  exact hcollected

end ResultFilter

/-- The rows a call shows to a filter, which is active or not at the time. -/
def FilterCall.rowsFor (call : FilterCall) (filter : ResultFilterFunctions)
    (active : List ResultFilterFunctions) : List (ParsedLine × ℕ) :=
  match call with
  | .applyFilters content => if filter ∈ active then (fileRows content).zipIdx else []
  | .enableFilter _ | .disableFilter _ | .clearAllFilters => []

/-- The rows of the files filtered so far, for each filter. -/
abbrev Earlier := ResultFilterFunctions → List (ParsedLine × ℕ)

/-- The maps hold the best of the earlier rows. -/
def Remembers (resultFilter : ResultFilter) (earlier : Earlier) : Prop :=
  ∀ f κ, f.key = some κ → resultFilter.seen f =
    collect (lineKey κ) entryWeight ParsedLine.entry (fun _ => none) (earlier f)

theorem Remembers.step {call : FilterCall} {resultFilter after : ResultFilter} {earlier : Earlier}
    (h : Remembers resultFilter earlier) (hrun : call.run resultFilter = .ok after) :
    after.activeFilters = call.active resultFilter.activeFilters ∧
      Remembers after fun f => earlier f ++ call.rowsFor f resultFilter.activeFilters := by
  cases call with
  | enableFilter filter =>
    cases hrun
    refine ⟨activeFilters_enableFilter resultFilter filter, fun f κ hκ => ?_⟩
    simp only [seen_enableFilter, h f κ hκ, FilterCall.rowsFor, List.append_nil]
  | disableFilter filter =>
    cases hrun
    refine ⟨rfl, fun f κ hκ => ?_⟩
    simp only [seen_disableFilter, h f κ hκ, FilterCall.rowsFor, List.append_nil]
  | clearAllFilters =>
    cases hrun
    refine ⟨rfl, fun f κ hκ => ?_⟩
    simp only [seen_clearAllFilters, h f κ hκ, FilterCall.rowsFor, List.append_nil]
  | applyFilters content =>
    have hlines := ResultFilter.applyFilters_wellFormed hrun
    change (resultFilter.applyFilters (readLines content)).outcome = .ok after at hrun
    rw [hlines] at hrun
    obtain ⟨hactive, hseen⟩ := ResultFilter.applyFilters_collected hrun
    refine ⟨hactive, fun f κ hκ => ?_⟩
    rw [hseen f κ hκ, h f κ hκ, collect_append]
    simp only [FilterCall.rowsFor]
    split
    · rfl
    · rw [collect_nil]

/-- What filtering the rows leaves and writes is what a new object with the same active filters
leaves and writes, and no assertion fails. -/
def SameAsNew (resultFilter : ResultFilter) (rows : List ParsedLine) : Prop :=
  let used := resultFilter.applyFilters (resultLines rows)
  let new := (ResultFilter.fresh.enableFilters resultFilter.activeFilters).applyFilters
    (resultLines rows)
  used.written = new.written ∧
    used.outcome.map ResultFilter.activeFilters = new.outcome.map ResultFilter.activeFilters ∧
    used.outcome ≠ .error .assertion

/-- No earlier row decides about the file: for every key of an active filter that occurs in the
file and was met before, the best row of the file beats the best earlier one, or it has the same
line number and timing. -/
def Harmless (earlier : Earlier) (active : List ResultFilterFunctions) (rows : List ParsedLine) :
    Prop :=
  ∀ f ∈ active, ∀ κ, f.key = some κ → ∀ new ∈ rows.zipIdx,
    IsBest (lineKey κ) ParsedLine.weight rows.zipIdx new →
    ∀ old, ((earlier f).filter fun p => decide (lineKey κ p.1 = lineKey κ new.1)).argmax
        (fun p => entryWeight (ParsedLine.entry p)) = some old →
      new.1.data.timing ≠ intMin ∧
        (old.1.weight < new.1.weight ∨ ParsedLine.entry old = ParsedLine.entry new)

theorem harmless_of_lt {earlier : Earlier} {active : List ResultFilterFunctions}
    {rows : List ParsedLine}
    (hlt : ∀ f, ∀ old ∈ earlier f, ∀ new ∈ rows, old.1.weight < new.weight)
    (hmin : ∀ new ∈ rows, new.data.timing ≠ intMin) : Harmless earlier active rows := by
  intro f _ κ _ new hnew _ old hold
  have hrow := List.fst_mem_of_mem_zipIdx hnew
  have hmem := (List.mem_filter.mp (List.argmax_mem hold)).1
  exact ⟨hmin new.1 hrow, .inl (hlt f old hmem new.1 hrow)⟩

/-- Every file of the calls is harmless when it is filtered. -/
def HarmlessCalls (earlier : Earlier) (active : List ResultFilterFunctions) :
    List FilterCall → Prop
  | [] => True
  | call :: calls =>
    (match call with
      | .applyFilters content => Harmless earlier active (fileRows content)
      | .enableFilter _ | .disableFilter _ | .clearAllFilters => True) ∧
    HarmlessCalls (fun f => earlier f ++ call.rowsFor f active) (call.active active) calls

/-- Every well-formed file of the calls is filtered as by a new object. -/
def SameAsNewCalls (resultFilter : ResultFilter) : List FilterCall → Prop
  | [] => True
  | call :: calls =>
    (∀ content rows, call = .applyFilters content → readLines content = resultLines rows →
      SameAsNew resultFilter rows) ∧
    ∀ after, call.run resultFilter = .ok after → SameAsNewCalls after calls

theorem timing_range {line : Text} {data : ResultLineData} (h : resultLineData line = .ok data) :
    intMin ≤ data.timing ∧ data.timing ≤ intMax := stoi_range (resultLineData_ok h).2

theorem ParsedLine.ne_intMin_of_weight_le {p q : ParsedLine} (h : p.weight ≤ q.weight)
    (hq : q.data.timing ≠ intMin) : p.data.timing ≠ intMin := by
  intro hp
  have hrange := timing_range q.parsed
  simp only [ParsedLine.weight, hp] at h
  simp only [intMin, intMax] at *
  omega

section Step
variable {resultFilter : ResultFilter} {earlier : Earlier} {rows : List ParsedLine}

/-- What the object holds for the key of a best row is worse or equal to it. -/
theorem Remembers.worse (h : Remembers resultFilter earlier)
    (hharmless : Harmless earlier resultFilter.activeFilters rows) {f : ResultFilterFunctions}
    (hf : f ∈ resultFilter.activeFilters) {κ : ResultLineData → Text} (hκ : f.key = some κ)
    {new : ParsedLine × ℕ} (hnew : new ∈ rows.zipIdx)
    (hbest : IsBest (lineKey κ) ParsedLine.weight rows.zipIdx new) {b : ℕ × ℤ}
    (hb : resultFilter.seen f (lineKey κ new.1) = some b) :
    new.1.data.timing ≠ intMin ∧
      (entryWeight b < new.1.weight ∨ b = ParsedLine.entry new) := by
  rw [h f κ hκ, collect_empty] at hb
  obtain ⟨old, hold, rfl⟩ := Option.map_eq_some_iff.mp hb
  exact hharmless f hf κ hκ new hnew hbest old hold

theorem Remembers.passSafe (h : Remembers resultFilter earlier)
    (hharmless : Harmless earlier resultFilter.activeFilters rows)
    (hcomparable : ResultFilter.Comparable resultFilter.activeFilters rows) :
    resultFilter.PassSafe rows := by
  intro f hf κ hκ
  refine ⟨fun p hp b hb => ?_, hcomparable f hf κ hκ⟩
  obtain ⟨i, hi⟩ := mem_zipIdx_of_mem hp
  obtain ⟨new, hnew, hkey, hbest⟩ := exists_isBest (lineKey κ) ParsedLine.weight hi
  obtain ⟨hmin, hworse⟩ := h.worse hharmless hf hκ hnew hbest (b := b) (by rw [hkey]; exact hb)
  refine ⟨ParsedLine.ne_intMin_of_weight_le (hbest (p, i) hi hkey.symm).1 hmin, ?_⟩
  rcases hworse with hlt | heq
  · intro hbmin
    have hrange := timing_range new.1.parsed
    simp only [entryWeight, hbmin, ParsedLine.weight] at hlt
    simp only [intMin, intMax] at *
    omega
  · rw [heq]
    exact hmin

theorem Remembers.holdsBest (h : Remembers resultFilter earlier)
    (hharmless : Harmless earlier resultFilter.activeFilters rows) {after : ResultFilter}
    (hcollected : ResultFilter.Collected resultFilter after rows.zipIdx) :
    after.HoldsBest rows.zipIdx := by
  intro f hf κ hκ p hp
  rw [hcollected.1] at hf
  obtain ⟨new, hnew, hkey, hbest⟩ := exists_isBest (lineKey κ) ParsedLine.weight hp
  refine ⟨new, hnew, hkey, hbest, ?_⟩
  rw [hcollected.2 f κ hκ, if_pos hf]
  change collect (lineKey κ) entryWeight ParsedLine.entry (resultFilter.seen f) rows.zipIdx
    (lineKey κ p.1) = _
  rw [← hkey]
  exact collect_eq_best entryWeight_entry (numbered_zipIdx rows 0) hnew hbest
    fun b hb => (h.worse hharmless hf hκ hnew hbest hb).2

/-- The step of the run: a harmless file is filtered as by a new object. -/
theorem Remembers.sameAsNew (h : Remembers resultFilter earlier)
    (hharmless : Harmless earlier resultFilter.activeFilters rows) :
    SameAsNew resultFilter rows := by
  have hactive : (ResultFilter.fresh.enableFilters resultFilter.activeFilters).activeFilters =
      resultFilter.activeFilters := activeFilters_enableFilters resultFilter.nodup
  have hunseen := (ResultFilter.unused_fresh.enableFilters resultFilter.activeFilters).unseen rows
  unfold SameAsNew
  by_cases hdefined : rows.length < 2 ^ 31 ∧
      ResultFilter.Comparable resultFilter.activeFilters rows
  · obtain ⟨after, hafter, hrun⟩ := ResultFilter.applyFilters_holdsBest hdefined.1
      (h.passSafe hharmless hdefined.2) fun _ => h.holdsBest hharmless
    obtain ⟨new, hnew, hrun'⟩ := ResultFilter.applyFilters_unseen hunseen hdefined.1
      (by rw [hactive]; exact hdefined.2)
    rw [hrun, hrun', hactive]
    refine ⟨rfl, ?_, by simp⟩
    change Except.ok after.activeFilters = Except.ok new.activeFilters
    rw [hafter.1, hnew.1, hactive]
  · rw [ResultFilter.applyFilters_unseen_undefined hunseen (by rwa [hactive]),
      ResultFilter.applyFilters_undefined]
    · exact ⟨rfl, rfl, by simp⟩
    · rintro ⟨hcount, hsafe⟩
      exact hdefined ⟨hcount, fun f hf κ hκ => (hsafe f hf κ hκ).2⟩

end Step

/-- The run: if all files are harmless, each of them is filtered as by a new object. -/
theorem sameAsNewCalls_of_harmless {calls : List FilterCall} {resultFilter : ResultFilter}
    {earlier : Earlier} (h : Remembers resultFilter earlier)
    (hharmless : HarmlessCalls earlier resultFilter.activeFilters calls) :
    SameAsNewCalls resultFilter calls := by
  induction calls generalizing resultFilter earlier with
  | nil => trivial
  | cons call calls ih =>
    obtain ⟨hfile, hrest⟩ := hharmless
    constructor
    · rintro content rows rfl hlines
      rw [← fileRows_of_lines hlines]
      exact h.sameAsNew hfile
    · intro after hrun
      obtain ⟨hactive, hremembers⟩ := h.step hrun
      exact ih hremembers (hactive ▸ hrest)

theorem remembers_fresh : Remembers ResultFilter.fresh fun _ => [] :=
  fun f _ _ => ResultFilter.unused_fresh f

/-- In every run of calls on a new object whose files are all harmless, each well-formed file is
filtered as by a new object with the same active filters. -/
theorem sameAsNew_of_harmlessCalls {calls : List FilterCall}
    (h : HarmlessCalls (fun _ => []) [] calls) : SameAsNewCalls ResultFilter.fresh calls :=
  sameAsNewCalls_of_harmless remembers_fresh h

def weakRow : ParsedLine where
  line := "100;10000;MUL;A;B;I;10001;ADD;C;D;I;10002;NOP;E;F;I".toList
  data := ⟨100, "MUL".toList, "A".toList, "B".toList, "I".toList, "ADD".toList, "C".toList,
    "D".toList, "I".toList, "NOP".toList, "E".toList, "F".toList, "I".toList⟩
  parsed := rfl
  noNewline := by decide

def strongRow : ParsedLine where
  line := "500;10000;MUL;A;B;I;10001;ADD;C;D;I;10003;SUB;E;F;I".toList
  data := ⟨500, "MUL".toList, "A".toList, "B".toList, "I".toList, "ADD".toList, "C".toList,
    "D".toList, "I".toList, "SUB".toList, "E".toList, "F".toList, "I".toList⟩
  parsed := rfl
  noNewline := by decide

def rowFile (row : ParsedLine) : Text := fileText (resultLines [row])

theorem fileRows_rowFile (row : ParsedLine) : fileRows (rowFile row) = [row] :=
  fileRows_of_lines (readLines_resultLines [row])

/-- A weak row in a first file does no harm to a strong one in a second file. -/
theorem sameAsNew_weak_strong : SameAsNewCalls ResultFilter.fresh
    [.enableFilter .uniquePropertyTuples, .applyFilters (rowFile weakRow),
      .applyFilters (rowFile strongRow)] := by
  apply sameAsNew_of_harmlessCalls
  refine ⟨trivial, harmless_of_lt ?_ ?_, harmless_of_lt ?_ ?_, trivial⟩
  · intro f old hold
    cases hold
  · rw [fileRows_rowFile]
    decide
  · intro f old hold new hnew
    rw [fileRows_rowFile, List.mem_singleton] at hnew
    have hrow : old.1 ∈ [weakRow] := by
      simp only [FilterCall.rowsFor, fileRows_rowFile, List.nil_append] at hold
      split at hold
      · exact List.fst_mem_of_mem_zipIdx hold
      · cases hold
    rw [hnew, List.mem_singleton.mp hrow]
    decide
  · rw [fileRows_rowFile]
    decide

theorem applyFilters_singleton (resultFilter : ResultFilter) (row : ParsedLine) :
    (resultFilter.applyFilters (resultLines [row])).outcome = (do
      let resultFilter ← resultFilter.prefilterLine 0 row.data
      let (_, resultFilter) ← resultFilter.filterLine 0 row.data
      return resultFilter) := by
  have hnext : ResultFilter.nextLineNo 0 = .ok 1 := rfl
  rw [ResultFilter.applyFilters_resultLines]
  simp only [List.map_cons, List.map_nil, ResultFilter.prefilterLines, ResultFilter.filterLines,
    Emission.forEach, ResultFilter.filterRound, row.parsed, hnext]
  cases hprefilter : resultFilter.prefilterLine 0 row.data with
  | error e => simp [Emission.bind, Emission.lift, bind, Except.bind, hprefilter]
  | ok middle =>
    cases hfilter : middle.filterLine 0 row.data <;>
      simp [Emission.bind, Emission.lift, Emission.write, Emission.pure, bind, Except.bind,
        pure, Except.pure, hprefilter, hfilter]

/-- After a strong row in a first file the assertion fails for a weak one in a second file. -/
theorem not_sameAsNew_strong_weak : ¬ SameAsNewCalls ResultFilter.fresh
    [.enableFilter .uniquePropertyTuples, .applyFilters (rowFile strongRow),
      .applyFilters (rowFile weakRow)] := by
  rintro ⟨-, hrest⟩
  obtain ⟨-, hrest⟩ := hrest _ rfl
  obtain ⟨after, hfirst, hsecond⟩ : ∃ after, (FilterCall.applyFilters (rowFile strongRow)).run
      (ResultFilter.fresh.enableFilter .uniquePropertyTuples) = .ok after ∧
        (after.applyFilters (resultLines [weakRow])).outcome = .error .assertion := by
    simp only [FilterCall.run, rowFile, readLines_resultLines, applyFilters_singleton]
    exact ⟨_, rfl, rfl⟩
  obtain ⟨hsame, -⟩ := hrest after hfirst
  exact (hsame _ [weakRow] rfl (readLines_resultLines [weakRow])).2.2 hsecond

end OsirisArm
