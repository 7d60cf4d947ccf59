import OsirisArm.Core
import OsirisArm.Files
import Mathlib.Data.List.Infix
import Mathlib.Logic.Function.Basic

/-! # Result filters

A filter object reads a result file twice. The first pass lets the prefilters collect, for every
key, the line of the best timing; the second pass drops what a filter rejects. The collected data
lives in the object and is kept from one file to the next.
-/

namespace OsirisArm
open Library

/-- The data of one row of a result file. -/
structure ResultLineData where
  timing : ℤ
  measurementSequence : Text
  measurementCategory : Text
  measurementExtension : Text
  measurementIsaSet : Text
  triggerSequence : Text
  triggerCategory : Text
  triggerExtension : Text
  triggerIsaSet : Text
  resetSequence : Text
  resetCategory : Text
  resetExtension : Text
  resetIsaSet : Text
  deriving DecidableEq

def resultLineData (line : Text) : Except Stop ResultLineData :=
  let lineSplitted := splitString line ';'
  let field (i : ℕ) := lineSplitted.getD i []
  if lineSplitted.length ≠ 16 then .error (.exit 1)
  else do
    let timing ← stoi 10 (field 0)
    return {
      timing := timing
      measurementSequence := field 2
      measurementCategory := field 3
      measurementExtension := field 4
      measurementIsaSet := field 5
      triggerSequence := field 7
      triggerCategory := field 8
      triggerExtension := field 9
      triggerIsaSet := field 10
      resetSequence := field 12
      resetCategory := field 13
      resetExtension := field 14
      resetIsaSet := field 15 }

theorem resultLineData_ok {line : Text} {data : ResultLineData}
    (h : resultLineData line = .ok data) : (splitString line ';').length = 16 ∧
      stoi 10 ((splitString line ';').getD 0 []) = .ok data.timing := by
  simp only [resultLineData] at h
  by_cases hlength : (splitString line ';').length ≠ 16
  · rw [if_pos hlength] at h
    cases h
  · rw [if_neg hlength] at h
    obtain ⟨timing, htiming, h⟩ := except_bind_ok h
    cases h
    exact ⟨not_not.mp hlength, htiming⟩

inductive ResultFilterFunctions where
  | increaseThresholdTo300
  | removeCacheResetSequence
  | removeAllCacheSequences
  | uniquePropertyTuples
  | measurementTriggerExtensionPairs
  deriving DecidableEq

/-- A map from keys to the number and the timing of the best line seen. -/
abbrev BestSeen := Text → Option (ℕ × ℤ)

/-- No filter is active twice. -/
structure ResultFilter where
  bestPropertyTuplesSeen : BestSeen
  bestMeasureTriggerExtensionpairSeen : BestSeen
  activeFilters : List ResultFilterFunctions
  nodup : activeFilters.Nodup

namespace ResultLineData

/-- The nine properties of a row. -/
def properties (data : ResultLineData) : List Text :=
  [data.measurementCategory, data.measurementExtension, data.measurementIsaSet,
    data.triggerCategory, data.triggerExtension, data.triggerIsaSet,
    data.resetCategory, data.resetExtension, data.resetIsaSet]

def propertyTuple (data : ResultLineData) : Text := data.properties.flatten

def extensionPair (data : ResultLineData) : Text :=
  data.measurementExtension ++ data.triggerExtension

end ResultLineData

/-- The common body of the prefilters: a line enters the map if its key is new or its timing is
larger than the best one. -/
def prefilterBest (seen : BestSeen) (key : Text) (lineNo : ℕ) (timing : ℤ) :
    Except Stop BestSeen :=
  match seen key with
  | some (_, currentBestTiming) => do
    let absTiming ← absInt timing
    let absBest ← absInt currentBestTiming
    if absTiming > absBest then return Function.update seen key (some (lineNo, timing))
    else return seen
  | none => .ok (Function.update seen key (some (lineNo, timing)))

/-- The common body of the filters with a prefilter: only the best line of a key passes. Looking a
new key up enters it with zeros. -/
def filterBest (seen : BestSeen) (key : Text) (lineNo : ℕ) (timing : ℤ) :
    Except Stop (Bool × BestSeen) :=
  let best := (seen key).getD (0, 0)
  let seen := Function.update seen key (some best)
  if lineNo = best.1 then do
    assert (timing = best.2)
    return (false, seen)
  else return (true, seen)

def containsText (pattern : String) (text : Text) : Bool := decide (pattern.toList <:+: text)

/-- The texts of instructions that work on the cache. -/
def isCacheSequence (sequence : Text) : Bool :=
  containsText "CLFLUSH" sequence ||
    (containsText "MOV" sequence && containsText "NT" sequence) ||
    containsText "MASKMOV" sequence

def filterFunctionIncreaseThreshold300 (data : ResultLineData) : Bool :=
  -300 < data.timing && data.timing < 300

def filterFunctionRemoveCacheResetSequence (data : ResultLineData) : Bool :=
  isCacheSequence data.resetSequence

def filterFunctionRemoveAllCacheSequences (data : ResultLineData) : Bool :=
  isCacheSequence data.measurementSequence || isCacheSequence data.triggerSequence ||
    isCacheSequence data.resetSequence

namespace ResultFilter

def prefilterFunctionUniquePropertyTuples (lineNo : ℕ) (data : ResultLineData)
    (resultFilter : ResultFilter) : Except Stop ResultFilter := do
  let seen ← prefilterBest resultFilter.bestPropertyTuplesSeen data.propertyTuple lineNo
    data.timing
  return { resultFilter with bestPropertyTuplesSeen := seen }

def prefilterFunctionMeasurementTriggerExtensionPairs (lineNo : ℕ) (data : ResultLineData)
    (resultFilter : ResultFilter) : Except Stop ResultFilter := do
  let seen ← prefilterBest resultFilter.bestMeasureTriggerExtensionpairSeen data.extensionPair
    lineNo data.timing
  return { resultFilter with bestMeasureTriggerExtensionpairSeen := seen }

def filterFunctionUniquePropertyTuples (lineNo : ℕ) (data : ResultLineData)
    (resultFilter : ResultFilter) : Except Stop (Bool × ResultFilter) := do
  let (filterOut, seen) ← filterBest resultFilter.bestPropertyTuplesSeen data.propertyTuple
    lineNo data.timing
  return (filterOut, { resultFilter with bestPropertyTuplesSeen := seen })

def filterFunctionMeasurementTriggerExtensionPairs (lineNo : ℕ) (data : ResultLineData)
    (resultFilter : ResultFilter) : Except Stop (Bool × ResultFilter) := do
  let (filterOut, seen) ← filterBest resultFilter.bestMeasureTriggerExtensionpairSeen
    data.extensionPair lineNo data.timing
  return (filterOut, { resultFilter with bestMeasureTriggerExtensionpairSeen := seen })

def executePrefilterFunction (lineNo : ℕ) (data : ResultLineData)
    (filter : ResultFilterFunctions) (resultFilter : ResultFilter) : Except Stop ResultFilter :=
  match filter with
  | .uniquePropertyTuples => resultFilter.prefilterFunctionUniquePropertyTuples lineNo data
  | .measurementTriggerExtensionPairs =>
    resultFilter.prefilterFunctionMeasurementTriggerExtensionPairs lineNo data
  | .removeAllCacheSequences | .removeCacheResetSequence | .increaseThresholdTo300 =>
    .ok resultFilter

def executeFilterFunction (lineNo : ℕ) (data : ResultLineData) (filter : ResultFilterFunctions)
    (resultFilter : ResultFilter) : Except Stop (Bool × ResultFilter) :=
  match filter with
  | .uniquePropertyTuples => resultFilter.filterFunctionUniquePropertyTuples lineNo data
  | .measurementTriggerExtensionPairs =>
    resultFilter.filterFunctionMeasurementTriggerExtensionPairs lineNo data
  | .removeCacheResetSequence =>
    .ok (filterFunctionRemoveCacheResetSequence data, resultFilter)
  | .removeAllCacheSequences => .ok (filterFunctionRemoveAllCacheSequences data, resultFilter)
  | .increaseThresholdTo300 => .ok (filterFunctionIncreaseThreshold300 data, resultFilter)

def fresh : ResultFilter := ⟨fun _ => none, fun _ => none, [], .nil⟩

def enableFilter (filter : ResultFilterFunctions) (resultFilter : ResultFilter) : ResultFilter :=
  if h : filter ∈ resultFilter.activeFilters then resultFilter
  else { resultFilter with
    activeFilters := resultFilter.activeFilters ++ [filter]
    nodup := by
      rw [List.nodup_append]
      refine ⟨resultFilter.nodup, by simp, fun a ha b hb => ?_⟩
      rw [List.mem_singleton.mp hb]
      exact fun he => h (he ▸ ha) }

@[simp] theorem activeFilters_enable_fresh (filter : ResultFilterFunctions) :
    (fresh.enableFilter filter).activeFilters = [filter] := rfl

def disableFilter (filter : ResultFilterFunctions) (resultFilter : ResultFilter) :
    ResultFilter :=
  { resultFilter with
    activeFilters := resultFilter.activeFilters.erase filter
    nodup := resultFilter.nodup.erase filter }

def clearAllFilters (resultFilter : ResultFilter) : ResultFilter :=
  { resultFilter with activeFilters := [], nodup := .nil }

@[simp] theorem activeFilters_enable_clear (resultFilter : ResultFilter)
    (filter : ResultFilterFunctions) :
    (resultFilter.clearAllFilters.enableFilter filter).activeFilters = [filter] := rfl

def enableFilters (filters : List ResultFilterFunctions) (resultFilter : ResultFilter) :
    ResultFilter := filters.foldl (fun resultFilter filter => resultFilter.enableFilter filter)
      resultFilter

def disableFilters (filters : List ResultFilterFunctions) (resultFilter : ResultFilter) :
    ResultFilter := filters.foldl (fun resultFilter filter => resultFilter.disableFilter filter)
      resultFilter

def nextLineNo (lineNo : ℕ) : Except Stop ℕ :=
  if lineNo < 2 ^ 31 - 1 then .ok (lineNo + 1) else .error .undefinedBehaviour

/-- All active prefilters on one line. -/
def prefilterLine (lineNo : ℕ) (data : ResultLineData) (resultFilter : ResultFilter) :
    Except Stop ResultFilter :=
  resultFilter.activeFilters.foldlM
    (fun resultFilter filter => resultFilter.executePrefilterFunction lineNo data filter)
    resultFilter

def prefilterLines : ℕ → List Text → ResultFilter → Except Stop ResultFilter
  | _, [], resultFilter => .ok resultFilter
  | lineNo, line :: lines, resultFilter => do
    let data ← resultLineData line
    let resultFilter ← resultFilter.prefilterLine lineNo data
    let lineNo ← nextLineNo lineNo
    prefilterLines lineNo lines resultFilter

/-- The active filters on one line; after the first one that rejects it none is called. -/
def filterLine (lineNo : ℕ) (data : ResultLineData) (resultFilter : ResultFilter) :
    Except Stop (Bool × ResultFilter) :=
  resultFilter.activeFilters.foldlM
    (fun (state : Bool × ResultFilter) filter =>
      if state.1 then .ok state else state.2.executeFilterFunction lineNo data filter)
    (false, resultFilter)

/-- One round of the second pass. -/
def filterRound (line : Text) (state : ℕ × ResultFilter) :
    Emission Text Stop (ℕ × ResultFilter) :=
  (Emission.lift (do
    let data ← resultLineData line
    state.2.filterLine state.1 data)).bind fun filtered =>
      (Emission.write (if filtered.1 then [] else [line]) ()).bind fun _ =>
        Emission.lift (do
          let lineNo ← nextLineNo state.1
          return (lineNo, filtered.2))

def filterLines (lines : List Text) (resultFilter : ResultFilter) :
    Emission Text Stop (ℕ × ResultFilter) :=
  Emission.forEach filterRound lines (0, resultFilter)

/-- What filtering a file of the given lines writes to the output file, and the object after it. -/
def applyFilters (inputLines : List Text) (resultFilter : ResultFilter) :
    Emission Text Stop ResultFilter :=
  match inputLines with
  | [] => .lift (.error (.exit 1))
  | header :: lines =>
    if header ≠ headerline then .lift (.error (.exit 1))
    else
      (Emission.lift (resultFilter.prefilterLines 0 lines)).bind fun resultFilter =>
        (Emission.write [headerline] resultFilter).bind fun resultFilter =>
          (filterLines lines resultFilter).bind fun state => .pure state.2

end ResultFilter

/-- The input is opened before the output is created and truncated; both are read and written from
then on. -/
def applyFiltersOnFile (inputFilename outputFilename : Text) (resultFilter : ResultFilter)
    (files : Files) : Files × Except Stop ResultFilter :=
  match files inputFilename with
  | none => (files, .error (.exit 1))
  | some _ =>
    let files := Function.update files outputFilename (some [])
    let filtered := resultFilter.applyFilters (readLines ((files inputFilename).getD []))
    (Function.update files outputFilename (some (fileText filtered.written)), filtered.outcome)

end OsirisArm
