import OsirisArm.Filter
import OsirisArm.Library.BestMap

/-! # The two passes of the filters

The first pass leaves, for every active filter with a map, the best line of each key. The second
pass keeps a line if no active filter rejects it. The passes are described for any content of the
maps before the first pass.
-/

namespace OsirisArm
open Library Library.Selection

/-- A line of a result file that the filters can read. -/
structure ParsedLine where
  line : Text
  data : ResultLineData
  parsed : resultLineData line = .ok data
  noNewline : '\n' ∉ line

namespace ParsedLine

def weight (row : ParsedLine) : ℕ := row.data.timing.natAbs

/-- What a prefilter stores for a numbered line. -/
def entry (p : ParsedLine × ℕ) : ℕ × ℤ := (p.2, p.1.data.timing)

end ParsedLine

def entryWeight (e : ℕ × ℤ) : ℕ := e.2.natAbs

theorem entryWeight_entry (p : ParsedLine × ℕ) :
    entryWeight (ParsedLine.entry p) = ParsedLine.weight p.1 := rfl

/-- The key of a filter on parsed lines. -/
def lineKey (κ : ResultLineData → Text) (row : ParsedLine) : Text := κ row.data

/-- The lines of a result file with the given rows. -/
def resultLines (rows : List ParsedLine) : List Text := headerline :: rows.map ParsedLine.line

namespace ResultFilterFunctions

/-- The key of a filter with a map. -/
def key : ResultFilterFunctions → Option (ResultLineData → Text)
  | .uniquePropertyTuples => some ResultLineData.propertyTuple
  | .measurementTriggerExtensionPairs => some ResultLineData.extensionPair
  | .increaseThresholdTo300 | .removeCacheResetSequence | .removeAllCacheSequences => none

/-- The verdict of a filter that looks at the row alone. -/
def rejectsRow (filter : ResultFilterFunctions) (data : ResultLineData) : Bool :=
  match filter with
  | .increaseThresholdTo300 => filterFunctionIncreaseThreshold300 data
  | .removeCacheResetSequence => filterFunctionRemoveCacheResetSequence data
  | .removeAllCacheSequences => filterFunctionRemoveAllCacheSequences data
  | .uniquePropertyTuples | .measurementTriggerExtensionPairs => false

end ResultFilterFunctions

def ResultFilter.seen (resultFilter : ResultFilter) : ResultFilterFunctions → BestSeen
  | .uniquePropertyTuples => resultFilter.bestPropertyTuplesSeen
  | .measurementTriggerExtensionPairs => resultFilter.bestMeasureTriggerExtensionpairSeen
  | .increaseThresholdTo300 | .removeCacheResetSequence | .removeAllCacheSequences =>
    fun _ => none

/-- Comparing a timing with the stored one takes the absolute value of both. -/
def StepSafe (seen : BestSeen) (key : Text) (timing : ℤ) : Prop :=
  ∀ b, seen key = some b → timing ≠ intMin ∧ b.2 ≠ intMin

theorem absInt_ok {value : ℤ} (h : value ≠ intMin) : absInt value = .ok value.natAbs := if_neg h

theorem prefilterBest_safe {seen : BestSeen} {key : Text} {timing : ℤ}
    (h : StepSafe seen key timing) (lineNo : ℕ) :
    prefilterBest seen key lineNo timing =
      .ok (Function.update seen key (improve entryWeight (seen key) (lineNo, timing))) := by
  unfold prefilterBest
  cases hseen : seen key with
  | none => rfl
  | some b =>
    obtain ⟨ht, hb⟩ := h b hseen
    simp only [absInt_ok ht, absInt_ok hb]
    change (if b.2.natAbs < timing.natAbs then Except.ok (Function.update seen key
      (some (lineNo, timing))) else Except.ok seen) = Except.ok (Function.update seen key
        (if b.2.natAbs < timing.natAbs then some (lineNo, timing) else some b))
    split
    · rfl
    · rw [← hseen, Function.update_eq_self]

theorem prefilterBest_undefined {seen : BestSeen} {key : Text} {timing : ℤ}
    (h : ¬ StepSafe seen key timing) (lineNo : ℕ) :
    prefilterBest seen key lineNo timing = .error .undefinedBehaviour := by
  simp only [StepSafe, not_forall] at h
  obtain ⟨b, hseen, hmin⟩ := h
  simp only [prefilterBest, hseen]
  by_cases ht : timing = intMin
  · rw [absInt, if_pos ht]
    rfl
  · have hb : b.2 = intMin := by
      by_contra hb
      exact hmin ⟨ht, hb⟩
    rw [absInt_ok ht, absInt, if_pos hb]
    rfl

namespace ResultFilter
variable {resultFilter : ResultFilter} {lineNo : ℕ} {data : ResultLineData}

/-- The object with another map for a filter. -/
def withSeen (resultFilter : ResultFilter) (filter : ResultFilterFunctions) (seen : BestSeen) :
    ResultFilter :=
  match filter with
  | .uniquePropertyTuples => { resultFilter with bestPropertyTuplesSeen := seen }
  | .measurementTriggerExtensionPairs =>
    { resultFilter with bestMeasureTriggerExtensionpairSeen := seen }
  | .increaseThresholdTo300 | .removeCacheResetSequence | .removeAllCacheSequences => resultFilter

@[simp] theorem activeFilters_withSeen (filter : ResultFilterFunctions) (seen : BestSeen) :
    (resultFilter.withSeen filter seen).activeFilters = resultFilter.activeFilters := by
  cases filter <;> rfl

theorem seen_withSeen {filter g : ResultFilterFunctions} {κ κ' : ResultLineData → Text}
    (hfilter : filter.key = some κ) (hg : g.key = some κ') (seen : BestSeen) :
    (resultFilter.withSeen filter seen).seen g = if g = filter then seen
      else resultFilter.seen g := by
  cases filter <;> cases g <;> simp_all [ResultFilterFunctions.key, withSeen, ResultFilter.seen]

theorem withSeen_seen (filter : ResultFilterFunctions) :
    resultFilter.withSeen filter (resultFilter.seen filter) = resultFilter := by
  cases filter <;> rfl

theorem executePrefilterFunction_key {filter : ResultFilterFunctions}
    {κ : ResultLineData → Text} (h : filter.key = some κ) :
    resultFilter.executePrefilterFunction lineNo data filter =
      (prefilterBest (resultFilter.seen filter) (κ data) lineNo data.timing >>= fun seen =>
        .ok (resultFilter.withSeen filter seen)) := by
  cases filter <;> cases h <;> rfl

theorem executePrefilterFunction_row {filter : ResultFilterFunctions} (h : filter.key = none) :
    resultFilter.executePrefilterFunction lineNo data filter = .ok resultFilter := by
  cases filter <;> first | rfl | cases h

/-- The prefilters of `filters` can process the row. -/
def LineSafe (resultFilter : ResultFilter) (filters : List ResultFilterFunctions)
    (data : ResultLineData) : Prop :=
  ∀ f ∈ filters, ∀ κ, f.key = some κ → StepSafe (resultFilter.seen f) (κ data) data.timing

theorem lineSafe_cons {filter : ResultFilterFunctions} {filters : List ResultFilterFunctions} :
    resultFilter.LineSafe (filter :: filters) data ↔
      (∀ κ, filter.key = some κ →
        StepSafe (resultFilter.seen filter) (κ data) data.timing) ∧
      resultFilter.LineSafe filters data := List.forall_mem_cons

theorem lineSafe_congr {next : ResultFilter} {filters : List ResultFilterFunctions}
    (h : ∀ f ∈ filters, ∀ κ, f.key = some κ → next.seen f = resultFilter.seen f) :
    next.LineSafe filters data ↔ resultFilter.LineSafe filters data := by
  refine forall₂_congr fun f hf => forall₂_congr fun κ hκ => ?_
  rw [h f hf κ hκ]

/-- The map of a filter after a row was entered. -/
def entered (seen : BestSeen) (key : Text) (lineNo : ℕ) (timing : ℤ) : BestSeen :=
  Function.update seen key (improve entryWeight (seen key) (lineNo, timing))

/-- A prefilter that can process the row enters it into its own map. -/
theorem executePrefilterFunction_safe (lineNo : ℕ) {filter : ResultFilterFunctions}
    (h : ∀ κ, filter.key = some κ →
      StepSafe (resultFilter.seen filter) (κ data) data.timing) :
    ∃ next, resultFilter.executePrefilterFunction lineNo data filter = .ok next ∧
      next.activeFilters = resultFilter.activeFilters ∧ ∀ f κ, f.key = some κ →
        next.seen f = if f = filter then
          entered (resultFilter.seen f) (κ data) lineNo data.timing else resultFilter.seen f := by
  cases hkey : filter.key with
  | none =>
    refine ⟨resultFilter, executePrefilterFunction_row hkey, rfl, fun f κ hf => ?_⟩
    have hne : f ≠ filter := by
      rintro rfl
      rw [hkey] at hf
      cases hf
    rw [if_neg hne]
  | some κ₀ =>
    refine ⟨resultFilter.withSeen filter
      (entered (resultFilter.seen filter) (κ₀ data) lineNo data.timing), ?_,
      activeFilters_withSeen filter _, fun f κ hf => ?_⟩
    · rw [executePrefilterFunction_key hkey, prefilterBest_safe (h κ₀ hkey)]
      rfl
    · rw [seen_withSeen hkey hf]
      by_cases he : f = filter
      · subst he
        obtain rfl : κ₀ = κ := Option.some.inj (hkey.symm.trans hf)
        rfl
      · rw [if_neg he, if_neg he]

theorem executePrefilterFunction_undefined {filter : ResultFilterFunctions}
    (h : ¬ ∀ κ, filter.key = some κ →
      StepSafe (resultFilter.seen filter) (κ data) data.timing) :
    resultFilter.executePrefilterFunction lineNo data filter = .error .undefinedBehaviour := by
  push Not at h
  obtain ⟨κ, hkey, hunsafe⟩ := h
  rw [executePrefilterFunction_key hkey, prefilterBest_undefined hunsafe]
  rfl

/-- The prefilters of `filters`, called one after the other, enter the row into their maps. -/
theorem foldlM_prefilter_safe (lineNo : ℕ) {filters : List ResultFilterFunctions}
    (hnodup : filters.Nodup)
    (h : resultFilter.LineSafe filters data) :
    ∃ after, filters.foldlM (fun resultFilter filter =>
        resultFilter.executePrefilterFunction lineNo data filter) resultFilter = .ok after ∧
      after.activeFilters = resultFilter.activeFilters ∧ ∀ f κ, f.key = some κ →
        after.seen f = if f ∈ filters then
          entered (resultFilter.seen f) (κ data) lineNo data.timing else resultFilter.seen f := by
  induction filters generalizing resultFilter with
  | nil => exact ⟨resultFilter, rfl, rfl, fun f κ _ => by simp⟩
  | cons filter filters ih =>
    obtain ⟨hnotin, hnodup⟩ := List.nodup_cons.mp hnodup
    obtain ⟨hsafe, hothers⟩ := lineSafe_cons.mp h
    obtain ⟨next, hstep, hactive, hnext⟩ := executePrefilterFunction_safe lineNo hsafe
    have hrest : next.LineSafe filters data := (lineSafe_congr fun f hf κ hκ => by
      rw [hnext f κ hκ, if_neg (ne_of_mem_of_not_mem hf hnotin)]).mpr hothers
    obtain ⟨after, hrun, hactive', hseen⟩ := ih hnodup hrest
    refine ⟨after, ?_, hactive'.trans hactive, fun f κ hf => ?_⟩
    · rw [List.foldlM_cons, hstep]
      exact hrun
    · rw [hseen f κ hf, hnext f κ hf]
      by_cases he : f = filter
      · rw [if_pos he, if_neg (he ▸ hnotin), if_pos (he ▸ List.mem_cons_self)]
      · rw [if_neg he]
        simp [he]

/-- One prefilter that cannot process the row makes the whole line undefined. -/
theorem foldlM_prefilter_undefined {filters : List ResultFilterFunctions} (hnodup : filters.Nodup)
    (h : ¬ resultFilter.LineSafe filters data) :
    filters.foldlM (fun resultFilter filter =>
      resultFilter.executePrefilterFunction lineNo data filter) resultFilter =
        .error .undefinedBehaviour := by
  induction filters generalizing resultFilter with
  | nil => exact absurd (fun f hf => absurd hf (by simp)) h
  | cons filter filters ih =>
    obtain ⟨hnotin, hnodup⟩ := List.nodup_cons.mp hnodup
    rw [List.foldlM_cons]
    by_cases hsafe : ∀ κ, filter.key = some κ →
        StepSafe (resultFilter.seen filter) (κ data) data.timing
    · obtain ⟨next, hstep, -, hnext⟩ := executePrefilterFunction_safe lineNo hsafe
      rw [hstep]
      apply ih hnodup
      intro hrest
      have hothers : resultFilter.LineSafe filters data := (lineSafe_congr fun f hf κ hκ => by
        rw [hnext f κ hκ, if_neg (ne_of_mem_of_not_mem hf hnotin)]).mp hrest
      exact h (lineSafe_cons.mpr ⟨hsafe, hothers⟩)
    · rw [executePrefilterFunction_undefined hsafe]
      rfl

/-- The prefilter with the key `κ` can process all rows, one after the other. -/
def KeySafe (κ : ResultLineData → Text) (seen : BestSeen) (rows : List ParsedLine) : Prop :=
  (∀ p ∈ rows, StepSafe seen (κ p.data) p.data.timing) ∧
    rows.Pairwise fun p q => κ p.data = κ q.data →
      p.data.timing ≠ intMin ∧ q.data.timing ≠ intMin

/-- After a row was entered the map holds something for its key: its own timing or the old one. -/
theorem entered_self (seen : BestSeen) (key : Text) (lineNo : ℕ) (timing : ℤ) :
    ∃ b, entered seen key lineNo timing key = some b ∧ (b.2 = timing ∨ seen key = some b) := by
  rw [entered, Function.update_self]
  cases seen key with
  | none => exact ⟨_, rfl, .inl rfl⟩
  | some old =>
    by_cases hlt : entryWeight old < entryWeight (lineNo, timing)
    · exact ⟨_, if_pos hlt, .inl rfl⟩
    · exact ⟨_, if_neg hlt, .inr rfl⟩

theorem keySafe_cons {κ : ResultLineData → Text} {seen : BestSeen} {p : ParsedLine}
    {rows : List ParsedLine} (lineNo : ℕ) :
    KeySafe κ seen (p :: rows) ↔ StepSafe seen (κ p.data) p.data.timing ∧
      KeySafe κ (entered seen (κ p.data) lineNo p.data.timing) rows := by
  obtain ⟨b, hb, hfrom⟩ := entered_self seen (κ p.data) lineNo p.data.timing
  constructor
  · rintro ⟨hall, hpairs⟩
    obtain ⟨hp, hpairs⟩ := List.pairwise_cons.mp hpairs
    refine ⟨hall p List.mem_cons_self, fun q hq => ?_, hpairs⟩
    by_cases hkey : κ q.data = κ p.data
    · intro b' hb'
      rw [hkey, hb] at hb'
      cases hb'
      obtain ⟨hpmin, hqmin⟩ := hp q hq hkey.symm
      refine ⟨hqmin, ?_⟩
      rcases hfrom with hfrom | hfrom
      · rwa [hfrom]
      · exact (hall p List.mem_cons_self b hfrom).2
    · intro b' hb'
      rw [entered, Function.update_of_ne hkey] at hb'
      exact hall q (List.mem_cons_of_mem p hq) b' hb'
  · rintro ⟨hp, hall, hpairs⟩
    refine ⟨fun q hq => ?_, List.pairwise_cons.mpr ⟨fun q hq hkey => ?_, hpairs⟩⟩
    · rcases List.mem_cons.mp hq with rfl | hq
      · exact hp
      · intro b' hb'
        by_cases hkey : κ q.data = κ p.data
        · rw [hkey] at hb'
          exact ⟨(hall q hq b (hkey ▸ hb)).1, (hp b' hb').2⟩
        · apply hall q hq b'
          rwa [entered, Function.update_of_ne hkey]
    · obtain ⟨hqmin, hbmin⟩ := hall q hq b (hkey ▸ hb)
      refine ⟨?_, hqmin⟩
      rcases hfrom with hfrom | hfrom
      · rwa [← hfrom]
      · exact (hp b hfrom).1

/-- All active prefilters can process the rows. -/
def PassSafe (resultFilter : ResultFilter) (rows : List ParsedLine) : Prop :=
  ∀ f ∈ resultFilter.activeFilters, ∀ κ, f.key = some κ → KeySafe κ (resultFilter.seen f) rows

/-- `after` is `before` with all rows, numbered from `lineNo`, entered into the maps. -/
def Collected (before after : ResultFilter) (rows : List (ParsedLine × ℕ)) : Prop :=
  after.activeFilters = before.activeFilters ∧ ∀ f κ, f.key = some κ → after.seen f =
    if f ∈ before.activeFilters then
      collect (lineKey κ) entryWeight ParsedLine.entry (before.seen f) rows
    else before.seen f

theorem passSafe_cons {p : ParsedLine} {rows : List ParsedLine} {after : ResultFilter}
    (hactive : after.activeFilters = resultFilter.activeFilters)
    (hseen : ∀ f κ, f.key = some κ → after.seen f = if f ∈ resultFilter.activeFilters then
      entered (resultFilter.seen f) (κ p.data) lineNo p.data.timing else resultFilter.seen f)
    (hline : resultFilter.LineSafe resultFilter.activeFilters p.data) :
    resultFilter.PassSafe (p :: rows) ↔ after.PassSafe rows := by
  unfold PassSafe
  rw [hactive]
  refine forall₂_congr fun f hf => forall₂_congr fun κ hκ => ?_
  rw [keySafe_cons lineNo, hseen f κ hκ, if_pos hf]
  exact and_iff_right (hline f hf κ hκ)

theorem PassSafe.line {p : ParsedLine} {rows : List ParsedLine}
    (h : resultFilter.PassSafe (p :: rows)) :
    resultFilter.LineSafe resultFilter.activeFilters p.data :=
  fun f hf κ hκ => (h f hf κ hκ).1 p List.mem_cons_self

theorem nextLineNo_ok (h : lineNo + 1 < 2 ^ 31) : nextLineNo lineNo = .ok (lineNo + 1) :=
  if_pos (by omega)

theorem prefilterLines_ok (lineNo : ℕ) {rows : List ParsedLine}
    (hcount : lineNo + rows.length < 2 ^ 31)
    (hsafe : resultFilter.PassSafe rows) :
    ∃ after, resultFilter.prefilterLines lineNo (rows.map ParsedLine.line) = .ok after ∧
      Collected resultFilter after (rows.zipIdx lineNo) := by
  induction rows generalizing lineNo resultFilter with
  | nil =>
    refine ⟨resultFilter, rfl, rfl, fun f κ _ => ?_⟩
    rw [List.zipIdx_nil, collect_nil, ite_self]
  | cons p rows ih =>
    rw [List.length_cons] at hcount
    obtain ⟨next, hrun, hactive, hseen⟩ := foldlM_prefilter_safe lineNo
      resultFilter.nodup hsafe.line
    have hnext := (passSafe_cons hactive hseen hsafe.line).mp hsafe
    obtain ⟨after, hrest, hactive', hseen'⟩ := ih (lineNo + 1) (by omega) hnext
    refine ⟨after, ?_, hactive'.trans hactive, fun f κ hκ => ?_⟩
    · rw [List.map_cons, prefilterLines, p.parsed]
      change (resultFilter.prefilterLine lineNo p.data >>= _) = _
      rw [prefilterLine, hrun]
      change (nextLineNo lineNo >>= _) = _
      rw [nextLineNo_ok (by omega)]
      exact hrest
    · rw [hseen' f κ hκ, hactive, hseen f κ hκ]
      split
      · rfl
      · rfl

theorem prefilterLines_undefined (lineNo : ℕ) {rows : List ParsedLine} (hlineNo : lineNo < 2 ^ 31)
    (h : ¬ (lineNo + rows.length < 2 ^ 31 ∧ resultFilter.PassSafe rows)) :
    resultFilter.prefilterLines lineNo (rows.map ParsedLine.line) =
      .error .undefinedBehaviour := by
  induction rows generalizing lineNo resultFilter with
  | nil =>
    exact absurd ⟨by simpa using hlineNo, fun f _ κ _ => ⟨by simp, .nil⟩⟩ h
  | cons p rows ih =>
    rw [List.length_cons] at h
    rw [List.map_cons, prefilterLines, p.parsed]
    change (resultFilter.prefilterLine lineNo p.data >>= _) = _
    by_cases hline : resultFilter.LineSafe resultFilter.activeFilters p.data
    · obtain ⟨next, hrun, hactive, hseen⟩ := foldlM_prefilter_safe lineNo
        resultFilter.nodup hline
      rw [prefilterLine, hrun]
      change (nextLineNo lineNo >>= _) = _
      by_cases hlast : lineNo + 1 < 2 ^ 31
      · rw [nextLineNo_ok hlast]
        apply ih (lineNo + 1) hlast
        rintro ⟨hcount, hsafe⟩
        exact h ⟨by omega, (passSafe_cons hactive hseen hline).mpr hsafe⟩
      · rw [nextLineNo, if_neg (by omega)]
        rfl
    · rw [prefilterLine, foldlM_prefilter_undefined resultFilter.nodup hline]
      rfl

theorem executeFilterFunction_key {filter : ResultFilterFunctions} {κ : ResultLineData → Text}
    (h : filter.key = some κ) :
    resultFilter.executeFilterFunction lineNo data filter =
      (filterBest (resultFilter.seen filter) (κ data) lineNo data.timing >>= fun result =>
        .ok (result.1, resultFilter.withSeen filter result.2)) := by
  cases filter <;> cases h <;> rfl

theorem executeFilterFunction_row {filter : ResultFilterFunctions} (h : filter.key = none) :
    resultFilter.executeFilterFunction lineNo data filter =
      .ok (filter.rejectsRow data, resultFilter) := by
  cases filter <;> first | rfl | cases h

/-- The verdict of a filter on a numbered line. -/
def rejects (resultFilter : ResultFilter) (p : ParsedLine × ℕ) (filter : ResultFilterFunctions) :
    Bool :=
  match filter.key with
  | some κ => decide ((resultFilter.seen filter (κ p.1.data)).map Prod.fst ≠ some p.2)
  | none => filter.rejectsRow p.1.data

/-- The maps know the keys of the line, and the line itself only with its own timing. -/
def Knows (resultFilter : ResultFilter) (p : ParsedLine × ℕ) : Prop :=
  ∀ f ∈ resultFilter.activeFilters, ∀ κ, f.key = some κ → ∃ b,
    resultFilter.seen f (κ p.1.data) = some b ∧ (p.2 = b.1 → p.1.data.timing = b.2)

theorem filterBest_known {seen : BestSeen} {key : Text} {timing : ℤ} {b : ℕ × ℤ}
    (hseen : seen key = some b) (h : lineNo = b.1 → timing = b.2) :
    filterBest seen key lineNo timing =
      .ok (decide ((seen key).map Prod.fst ≠ some lineNo), seen) := by
  have hupdate : Function.update seen key (some b) = seen := by
    rw [← hseen, Function.update_eq_self]
  simp only [filterBest, hseen, Option.getD_some, Option.map_some, hupdate]
  by_cases hline : lineNo = b.1
  · simp [hline, h hline]
  · have hne : b.1 ≠ lineNo := Ne.symm hline
    simp [hline, hne]
    rfl

theorem foldlM_rejected (filters : List ResultFilterFunctions) :
    filters.foldlM (fun (state : Bool × ResultFilter) filter =>
      if state.1 then Except.ok state
      else state.2.executeFilterFunction lineNo data filter) (true, resultFilter) =
        .ok (true, resultFilter) := by
  induction filters with
  | nil => rfl
  | cons filter filters ih => exact ih

theorem filterLine_known {p : ParsedLine × ℕ} (h : resultFilter.Knows p) :
    resultFilter.filterLine p.2 p.1.data =
      .ok (resultFilter.activeFilters.any (resultFilter.rejects p), resultFilter) := by
  unfold filterLine
  unfold Knows at h
  generalize resultFilter.activeFilters = filters at h
  induction filters with
  | nil => rfl
  | cons filter filters ih =>
    have hrun : resultFilter.executeFilterFunction p.2 p.1.data filter =
        .ok (resultFilter.rejects p filter, resultFilter) := by
      unfold rejects
      cases hkey : filter.key with
      | none => exact executeFilterFunction_row hkey
      | some κ =>
        obtain ⟨b, hb, htiming⟩ := h filter List.mem_cons_self κ hkey
        rw [executeFilterFunction_key hkey, filterBest_known hb htiming]
        change Except.ok (_, resultFilter.withSeen filter (resultFilter.seen filter)) = _
        rw [withSeen_seen]
    rw [List.foldlM_cons, List.any_cons]
    simp only [Bool.false_eq_true, if_false, hrun]
    cases resultFilter.rejects p filter with
    | true => exact foldlM_rejected filters
    | false => exact ih fun f hf => h f (List.mem_cons_of_mem filter hf)

/-- The numbered lines that no active filter rejects. -/
def kept (resultFilter : ResultFilter) (rows : List (ParsedLine × ℕ)) : List (ParsedLine × ℕ) :=
  rows.filter fun p => !resultFilter.activeFilters.any (resultFilter.rejects p)

theorem filterRounds_known (lineNo : ℕ) {rows : List ParsedLine}
    (hcount : lineNo + rows.length < 2 ^ 31)
    (h : ∀ p ∈ rows.zipIdx lineNo, resultFilter.Knows p) :
    Emission.forEach filterRound (rows.map ParsedLine.line) (lineNo, resultFilter) =
      ⟨(resultFilter.kept (rows.zipIdx lineNo)).map fun p => p.1.line,
        .ok (lineNo + rows.length, resultFilter)⟩ := by
  induction rows generalizing lineNo with
  | nil => rfl
  | cons p rows ih =>
    rw [List.length_cons] at hcount
    have hrest := ih (lineNo + 1) (by omega) fun q hq =>
      h q (by rw [List.zipIdx_cons]; exact List.mem_cons_of_mem _ hq)
    have hround : filterRound p.line (lineNo, resultFilter) =
        ⟨((resultFilter.kept [(p, lineNo)]).map fun p => p.1.line),
          .ok (lineNo + 1, resultFilter)⟩ := by
      have hline := filterLine_known (h (p, lineNo) (by simp [List.zipIdx_cons]))
      simp only at hline
      simp only [filterRound, p.parsed, nextLineNo_ok (show lineNo + 1 < 2 ^ 31 by omega)]
      change (Emission.lift (resultFilter.filterLine lineNo p.data)).bind _ = _
      rw [hline, Emission.bind_ok rfl]
      simp only [Emission.bind, Emission.write, Emission.lift, kept, List.nil_append,
        List.filter_cons, List.filter_nil]
      cases resultFilter.activeFilters.any (resultFilter.rejects (p, lineNo)) <;> rfl
    have hsplit : resultFilter.kept ((p :: rows).zipIdx lineNo) =
        resultFilter.kept [(p, lineNo)] ++ resultFilter.kept (rows.zipIdx (lineNo + 1)) := by
      rw [List.zipIdx_cons, kept, kept, kept, ← List.filter_append]
      rfl
    have hnumber : lineNo + 1 + rows.length = lineNo + (rows.length + 1) := by omega
    rw [hnumber] at hrest
    rw [List.map_cons, Emission.forEach, hround, Emission.bind_ok rfl, hrest, hsplit,
      List.map_append, List.length_cons]

theorem applyFilters_resultLines (resultFilter : ResultFilter) (rows : List ParsedLine) :
    resultFilter.applyFilters (resultLines rows) =
      (Emission.lift (resultFilter.prefilterLines 0 (rows.map ParsedLine.line))).bind
        fun resultFilter => (Emission.write [headerline] resultFilter).bind fun resultFilter =>
          (filterLines (rows.map ParsedLine.line) resultFilter).bind fun state =>
            Emission.pure state.2 := by
  rw [resultLines, applyFilters, if_neg (not_not.mpr rfl)]

theorem applyFilters_ok {rows : List ParsedLine} {after : ResultFilter}
    (hcount : rows.length < 2 ^ 31)
    (hprefilter : resultFilter.prefilterLines 0 (rows.map ParsedLine.line) = .ok after)
    (hknows : ∀ p ∈ rows.zipIdx, after.Knows p) :
    resultFilter.applyFilters (resultLines rows) =
      ⟨headerline :: (after.kept rows.zipIdx).map (fun p => p.1.line), .ok after⟩ := by
  have hrounds := filterRounds_known 0 (by omega) hknows
  rw [applyFilters_resultLines, hprefilter, Emission.bind_ok rfl, Emission.bind_ok rfl,
    filterLines, hrounds, Emission.bind_ok rfl]
  simp only [Emission.lift_written, Emission.write_written, Emission.pure_written,
    Emission.pure_outcome, List.nil_append, List.append_nil, List.singleton_append]

theorem applyFilters_undefined {rows : List ParsedLine}
    (h : ¬ (rows.length < 2 ^ 31 ∧ resultFilter.PassSafe rows)) :
    resultFilter.applyFilters (resultLines rows) = ⟨[], .error .undefinedBehaviour⟩ := by
  have hprefilter := prefilterLines_undefined 0 (by decide)
    (by rwa [Nat.zero_add] : ¬ (0 + rows.length < 2 ^ 31 ∧ resultFilter.PassSafe rows))
  rw [applyFilters_resultLines, hprefilter]
  rfl

end ResultFilter
end OsirisArm
