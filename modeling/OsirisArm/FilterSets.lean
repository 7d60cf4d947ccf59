import OsirisArm.FilterSelection
import OsirisArm.Library.Switching

/-! # Sets of active filters

A filter is active exactly if it was enabled and neither disabled nor cleared since. The order in
which the filters were enabled does not matter: what a file is filtered to depends on their set.
-/

namespace OsirisArm
open Library Library.Selection

theorem activeFilters_enableFilter (resultFilter : ResultFilter)
    (filter : ResultFilterFunctions) :
    (resultFilter.enableFilter filter).activeFilters =
      if filter ∈ resultFilter.activeFilters then resultFilter.activeFilters
      else resultFilter.activeFilters ++ [filter] := by
  unfold ResultFilter.enableFilter
  split <;> rfl

theorem activeFilters_enableFilters {filters : List ResultFilterFunctions}
    {resultFilter : ResultFilter} (h : (resultFilter.activeFilters ++ filters).Nodup) :
    (resultFilter.enableFilters filters).activeFilters = resultFilter.activeFilters ++ filters := by
  induction filters generalizing resultFilter with
  | nil => exact (List.append_nil _).symm
  | cons filter filters ih =>
    have hactive : (resultFilter.enableFilter filter).activeFilters =
        resultFilter.activeFilters ++ [filter] := by
      rw [activeFilters_enableFilter, if_neg]
      intro hmem
      exact (List.nodup_append.mp h).2.2 filter hmem filter List.mem_cons_self rfl
    have hsplit : resultFilter.activeFilters ++ filter :: filters =
        (resultFilter.enableFilter filter).activeFilters ++ filters := by
      rw [hactive, List.append_assoc]
      rfl
    rw [hsplit] at h ⊢
    exact ih h

theorem mem_enableFilter {resultFilter : ResultFilter} {filter f : ResultFilterFunctions} :
    f ∈ (resultFilter.enableFilter filter).activeFilters ↔
      f = filter ∨ f ∈ resultFilter.activeFilters := by
  rw [activeFilters_enableFilter]
  split
  · next hmem =>
    constructor
    · exact .inr
    · rintro (rfl | h)
      · exact hmem
      · exact h
  · rw [List.mem_append, List.mem_singleton, or_comm]

theorem mem_enableFilters {filters : List ResultFilterFunctions} {resultFilter : ResultFilter}
    {f : ResultFilterFunctions} :
    f ∈ (resultFilter.enableFilters filters).activeFilters ↔
      f ∈ filters ∨ f ∈ resultFilter.activeFilters := by
  induction filters generalizing resultFilter with
  | nil => simp [ResultFilter.enableFilters]
  | cons filter filters ih =>
    rw [List.mem_cons, or_assoc, or_left_comm, ← mem_enableFilter]
    exact ih

theorem mem_disableFilter {resultFilter : ResultFilter} {filter f : ResultFilterFunctions} :
    f ∈ (resultFilter.disableFilter filter).activeFilters ↔
      f ∈ resultFilter.activeFilters ∧ f ≠ filter :=
  resultFilter.nodup.mem_erase_iff.trans and_comm

theorem mem_disableFilters {filters : List ResultFilterFunctions} {resultFilter : ResultFilter}
    {f : ResultFilterFunctions} :
    f ∈ (resultFilter.disableFilters filters).activeFilters ↔
      f ∈ resultFilter.activeFilters ∧ f ∉ filters := by
  induction filters generalizing resultFilter with
  | nil => simp [ResultFilter.disableFilters]
  | cons filter filters ih =>
    rw [List.mem_cons, not_or, ← and_assoc, ← mem_disableFilter]
    exact ih

theorem seen_enableFilter (resultFilter : ResultFilter) (filter : ResultFilterFunctions) :
    (resultFilter.enableFilter filter).seen = resultFilter.seen := by
  unfold ResultFilter.enableFilter
  split
  · rfl
  · funext f
    cases f <;> rfl

theorem seen_enableFilters (filters : List ResultFilterFunctions) (resultFilter : ResultFilter) :
    (resultFilter.enableFilters filters).seen = resultFilter.seen := by
  induction filters generalizing resultFilter with
  | nil => rfl
  | cons filter filters ih => exact (ih _).trans (seen_enableFilter resultFilter filter)

theorem seen_disableFilter (resultFilter : ResultFilter) (filter : ResultFilterFunctions) :
    (resultFilter.disableFilter filter).seen = resultFilter.seen := by
  funext f
  cases f <;> rfl

theorem seen_disableFilters (filters : List ResultFilterFunctions) (resultFilter : ResultFilter) :
    (resultFilter.disableFilters filters).seen = resultFilter.seen := by
  induction filters generalizing resultFilter with
  | nil => rfl
  | cons filter filters ih => exact (ih _).trans (seen_disableFilter resultFilter filter)

theorem seen_clearAllFilters (resultFilter : ResultFilter) :
    resultFilter.clearAllFilters.seen = resultFilter.seen := by
  funext f
  cases f <;> rfl

/-- No filter has met a row yet. -/
def ResultFilter.Unused (resultFilter : ResultFilter) : Prop :=
  ∀ f, resultFilter.seen f = fun _ => none

theorem ResultFilter.Unused.unseen {resultFilter : ResultFilter} (h : resultFilter.Unused)
    (rows : List ParsedLine) : resultFilter.Unseen rows := by
  intro f _ κ _ p _
  rw [h f]

theorem ResultFilter.unused_fresh : ResultFilter.fresh.Unused := by
  intro f
  cases f <;> rfl

theorem ResultFilter.Unused.enableFilters {resultFilter : ResultFilter} (h : resultFilter.Unused)
    (filters : List ResultFilterFunctions) : (resultFilter.enableFilters filters).Unused := by
  intro f
  rw [seen_enableFilters]
  exact h f

/-- The calls that change the active filters. -/
inductive SwitchCall where
  | enableFilter (filter : ResultFilterFunctions)
  | enableFilters (filters : List ResultFilterFunctions)
  | disableFilter (filter : ResultFilterFunctions)
  | disableFilters (filters : List ResultFilterFunctions)
  | clearAllFilters

namespace SwitchCall

def run (resultFilter : ResultFilter) : SwitchCall → ResultFilter
  | .enableFilter filter => resultFilter.enableFilter filter
  | .enableFilters filters => resultFilter.enableFilters filters
  | .disableFilter filter => resultFilter.disableFilter filter
  | .disableFilters filters => resultFilter.disableFilters filters
  | .clearAllFilters => resultFilter.clearAllFilters

def Enables (call : SwitchCall) (filter : ResultFilterFunctions) : Prop :=
  match call with
  | .enableFilter f => filter = f
  | .enableFilters filters => filter ∈ filters
  | .disableFilter _ | .disableFilters _ | .clearAllFilters => False

/-- The call disables the filter or clears all of them. -/
def Disables (call : SwitchCall) (filter : ResultFilterFunctions) : Prop :=
  match call with
  | .enableFilter _ | .enableFilters _ => False
  | .disableFilter f => filter = f
  | .disableFilters filters => filter ∈ filters
  | .clearAllFilters => True

theorem mem_run (resultFilter : ResultFilter) (call : SwitchCall) (f : ResultFilterFunctions) :
    f ∈ (run resultFilter call).activeFilters ↔
      call.Enables f ∨ f ∈ resultFilter.activeFilters ∧ ¬ call.Disables f := by
  cases call with
  | enableFilter filter => simp [run, Enables, Disables, mem_enableFilter]
  | enableFilters filters => simp [run, Enables, Disables, mem_enableFilters]
  | disableFilter filter => simp [run, Enables, Disables, mem_disableFilter]
  | disableFilters filters => simp [run, Enables, Disables, mem_disableFilters]
  | clearAllFilters => simp [run, Enables, Disables, ResultFilter.clearAllFilters]

theorem run_seen (resultFilter : ResultFilter) (call : SwitchCall) :
    (run resultFilter call).seen = resultFilter.seen := by
  cases call with
  | enableFilter filter => exact seen_enableFilter resultFilter filter
  | enableFilters filters => exact seen_enableFilters filters resultFilter
  | disableFilter filter => exact seen_disableFilter resultFilter filter
  | disableFilters filters => exact seen_disableFilters filters resultFilter
  | clearAllFilters => exact seen_clearAllFilters resultFilter

end SwitchCall

/-- A new object after a sequence of calls. -/
def ResultFilter.switched (calls : List SwitchCall) : ResultFilter :=
  calls.foldl SwitchCall.run .fresh

theorem ResultFilter.mem_switched (calls : List SwitchCall) (filter : ResultFilterFunctions) :
    filter ∈ (ResultFilter.switched calls).activeFilters ↔
      LastAdded SwitchCall.Enables SwitchCall.Disables calls filter :=
  mem_foldl_iff (fun filter (resultFilter : ResultFilter) => filter ∈ resultFilter.activeFilters)
    SwitchCall.mem_run (fun _ => List.not_mem_nil) calls filter

theorem ResultFilter.unused_switched (calls : List SwitchCall) :
    (ResultFilter.switched calls).Unused := by
  induction calls using List.reverseRecOn with
  | nil => exact ResultFilter.unused_fresh
  | append_singleton calls call ih =>
    intro f
    rw [ResultFilter.switched, List.foldl_append, List.foldl_cons, List.foldl_nil,
      SwitchCall.run_seen]
    exact ih f

/-- What two sets of filters accept is the same if the sets are. -/
theorem accepted_congr {filters filters' : List ResultFilterFunctions}
    (h : ∀ f, f ∈ filters ↔ f ∈ filters') (rows : List (ParsedLine × ℕ)) :
    accepted filters rows = accepted filters' rows := by
  apply List.filter_congr
  intro p _
  rw [Bool.eq_iff_iff, List.all_eq_true, List.all_eq_true]
  exact forall_congr' fun f => by rw [h f]

/-- Two unused objects with the same active filters write the same rows of a file and end alike. -/
theorem ResultFilter.applyFilters_congr {a b : ResultFilter} (ha : a.Unused) (hb : b.Unused)
    (h : ∀ f, f ∈ a.activeFilters ↔ f ∈ b.activeFilters) (rows : List ParsedLine) :
    (a.applyFilters (resultLines rows)).written = (b.applyFilters (resultLines rows)).written ∧
      (a.applyFilters (resultLines rows)).outcome.map (fun _ => ()) =
        (b.applyFilters (resultLines rows)).outcome.map fun _ => () := by
  have hcomparable : Comparable a.activeFilters rows ↔ Comparable b.activeFilters rows :=
    forall_congr' fun f => by rw [h f]
  by_cases hdefined : rows.length < 2 ^ 31 ∧ Comparable a.activeFilters rows
  · obtain ⟨aafter, -, hruna⟩ := applyFilters_unseen (ha.unseen rows) hdefined.1 hdefined.2
    obtain ⟨bafter, -, hrunb⟩ := applyFilters_unseen (hb.unseen rows) hdefined.1
      (hcomparable.mp hdefined.2)
    rw [hruna, hrunb, accepted_congr h]
    exact ⟨rfl, rfl⟩
  · rw [applyFilters_unseen_undefined (ha.unseen rows) hdefined,
      applyFilters_unseen_undefined (hb.unseen rows) (by rwa [← hcomparable])]
    exact ⟨rfl, rfl⟩

/-- The active filters are without repetition those whose last enabling call is later than their
last disabling or clearing call. Two sequences of calls that end with the same set of active
filters filter every result file alike. -/
theorem ResultFilter.switched_determined (calls : List SwitchCall) :
    (ResultFilter.switched calls).activeFilters.Nodup ∧
    (∀ filter, filter ∈ (ResultFilter.switched calls).activeFilters ↔
      LastAdded SwitchCall.Enables SwitchCall.Disables calls filter) ∧
    ∀ calls', (∀ filter, filter ∈ (ResultFilter.switched calls).activeFilters ↔
        filter ∈ (ResultFilter.switched calls').activeFilters) →
      ∀ inputFilename outputFilename files content rows, files inputFilename = some content →
        readLines content = resultLines rows →
        let run := applyFiltersOnFile inputFilename outputFilename
          (ResultFilter.switched calls) files
        let run' := applyFiltersOnFile inputFilename outputFilename
          (ResultFilter.switched calls') files
        run.1 = run'.1 ∧ run.2.map (fun _ => ()) = run'.2.map fun _ => () := by
  refine ⟨(ResultFilter.switched calls).nodup, ResultFilter.mem_switched calls, ?_⟩
  intro calls' hsame inputFilename outputFilename files content rows hinput hrows
  obtain ⟨hwritten, houtcome⟩ := applyFilters_congr (unused_switched calls)
    (unused_switched calls') hsame rows
  unfold applyFiltersOnFile
  simp only [hinput]
  by_cases hnames : inputFilename = outputFilename
  · -- The output truncates the input, and no header is found.
    subst hnames
    rw [Function.update_self, Option.getD_some]
    exact ⟨rfl, rfl⟩
  · rw [Function.update_of_ne hnames, hinput, Option.getD_some, hrows, hwritten]
    exact ⟨rfl, houtcome⟩

end OsirisArm
