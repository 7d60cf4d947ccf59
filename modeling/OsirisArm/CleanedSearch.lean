import OsirisArm.Cleanup
import OsirisArm.SearchTests

/-! # Searching a cleaned instruction file

Cleaning an instruction file removes the instructions that fault on their own. A test with such an
instruction has no result anyway, so a search with the cleaned file writes the rows of the search
with the original one; only the UIDs in them are new.
-/

namespace OsirisArm
open Library Library.Emission

abbrev InstructionFields := Bytes × Text × Text × Text × Text

/-- An instruction with these fields; its UID does not matter. -/
def X86Instruction.ofFields (fields : InstructionFields) : X86Instruction :=
  ⟨0, fields.1, fields.2.1, fields.2.2.1, fields.2.2.2.1, fields.2.2.2.2⟩

abbrev TripleFields := InstructionFields × InstructionFields × InstructionFields

def InstructionTriple.fields (triple : InstructionTriple) : TripleFields :=
  (triple.measurement.fields, triple.trigger.fields, triple.reset.fields)

def InstructionTriple.ofFields (fields : TripleFields) : InstructionTriple :=
  ⟨.ofFields fields.1, .ofFields fields.2.1, .ofFields fields.2.2⟩

def ResultRow.fields (row : ResultRow) : ℤ × TripleFields :=
  (row.timing, row.measurement.fields, row.trigger.fields, row.reset.fields)

/-- Some of the three instructions have bytes of this kind. -/
def TripleFields.Involves (faults : Bytes → Prop) (fields : TripleFields) : Prop :=
  faults fields.1.1 ∨ faults fields.2.1.1 ∨ faults fields.2.2.1

theorem flatMap_filter_eq {α β : Type} {keep : α → Bool} {p : β → Bool} {f f' : α → List β}
    {l : List α} (hkept : ∀ a, keep a = true → f' a = (f a).filter p)
    (hdropped : ∀ a, keep a = false → (f a).filter p = []) :
    (l.filter keep).flatMap f' = (l.flatMap f).filter p := by
  induction l with
  | nil => rfl
  | cons a l ih =>
    rw [List.flatMap_cons, List.filter_append, ← ih]
    by_cases ha : keep a = true
    · rw [List.filter_cons_of_pos ha, List.flatMap_cons, hkept a ha]
    · rw [List.filter_cons_of_neg ha, hdropped a (Bool.eq_false_of_not_eq_true ha),
        List.nil_append]

namespace Search

/-- The triples of a trigger that is no sleep. -/
def resetTriples (list : List InstructionFields) (measurement trigger : InstructionFields) :
    List TripleFields :=
  if (X86Instruction.ofFields trigger).isSleep then []
  else list.map fun reset => (measurement, trigger, reset)

def fieldTriples (list : List InstructionFields) : Search → List TripleFields
  | .withoutAssumptions _ =>
    list.flatMap fun measurement => list.flatMap (resetTriples list measurement)
  | .triggerEqualsMeasurement _ _ => list.flatMap fun trigger => resetTriples list trigger trigger

theorem map_resetTriples (list : List X86Instruction) (measurement trigger : X86Instruction) :
    (if trigger.isSleep then []
      else list.map fun reset => (⟨measurement, trigger, reset⟩ : InstructionTriple)).map
        InstructionTriple.fields =
      resetTriples (list.map X86Instruction.fields) measurement.fields trigger.fields := by
  have hsleep : (X86Instruction.ofFields trigger.fields).isSleep = trigger.isSleep := rfl
  rw [resetTriples, hsleep]
  split
  · rfl
  · rw [List.map_map, List.map_map]
    rfl

theorem map_triples (search : Search) (codeGenerator : CodeGenerator) :
    (search.triples codeGenerator).map InstructionTriple.fields =
      search.fieldTriples (codeGenerator.instructionList.map X86Instruction.fields) := by
  cases search with
  | withoutAssumptions threshold =>
    simp only [triples, fieldTriples, List.map_flatMap, List.flatMap_map, map_resetTriples]
  | triggerEqualsMeasurement negativeThreshold positiveThreshold =>
    simp only [triples, fieldTriples, List.map_flatMap, List.flatMap_map, map_resetTriples]

section
variable (keep : InstructionFields → Bool)

def keepsTriple (fields : TripleFields) : Bool :=
  keep fields.1 && (keep fields.2.1 && keep fields.2.2)

theorem resetTriples_filter (list : List InstructionFields)
    {measurement trigger : InstructionFields} (hmeasurement : keep measurement = true)
    (htrigger : keep trigger = true) : resetTriples (list.filter keep) measurement trigger =
      (resetTriples list measurement trigger).filter (keepsTriple keep) := by
  unfold resetTriples
  split
  · rfl
  · rw [List.filter_map]
    congr 1
    apply List.filter_congr
    intro reset _
    simp only [Function.comp_apply, keepsTriple, hmeasurement, htrigger, Bool.true_and]

theorem mem_resetTriples {list : List InstructionFields} {measurement trigger : InstructionFields}
    {fields : TripleFields} (h : fields ∈ resetTriples list measurement trigger) :
    fields.1 = measurement ∧ fields.2.1 = trigger := by
  unfold resetTriples at h
  split at h
  · cases h
  · obtain ⟨reset, -, rfl⟩ := List.mem_map.mp h
    exact ⟨rfl, rfl⟩

theorem fieldTriples_filter (search : Search) (list : List InstructionFields) :
    search.fieldTriples (list.filter keep) =
      (search.fieldTriples list).filter (keepsTriple keep) := by
  cases search with
  | withoutAssumptions threshold =>
    apply flatMap_filter_eq
    · intro measurement hmeasurement
      apply flatMap_filter_eq
      · exact fun trigger htrigger => resetTriples_filter keep list hmeasurement htrigger
      · intro trigger htrigger
        apply List.filter_eq_nil_iff.mpr
        intro fields hfields
        simp [keepsTriple, (mem_resetTriples hfields).2, htrigger]
    · intro measurement hmeasurement
      apply List.filter_eq_nil_iff.mpr
      intro fields hfields
      obtain ⟨trigger, -, hmem⟩ := List.mem_flatMap.mp hfields
      simp [keepsTriple, (mem_resetTriples hmem).1, hmeasurement]
  | triggerEqualsMeasurement negativeThreshold positiveThreshold =>
    apply flatMap_filter_eq
    · exact fun trigger htrigger => resetTriples_filter keep list htrigger htrigger
    · intro trigger htrigger
      apply List.filter_eq_nil_iff.mpr
      intro fields hfields
      simp [keepsTriple, (mem_resetTriples hfields).1, htrigger]

end

section
variable {σ : Type} (search : Search) (api : ExecutorApi σ) (speculation : Bool)

/-- What the tests of a triple with these fields give in a state. -/
def fieldTiming (s : σ) (fields : TripleFields) : Option ℤ :=
  match search.test api speculation (.ofFields fields) s with
  | .ok tested => tested.1
  | .error _ => none

theorem test_ofFields (triple : InstructionTriple) :
    search.test api speculation (.ofFields triple.fields) =
      search.test api speculation triple := rfl

variable {search api speculation} {codeGenerator : CodeGenerator} {s₀ : σ}

theorem map_fields_acceptedRow (triple : InstructionTriple) (timing : Option ℤ) :
    (acceptedRow (triple, timing)).map ResultRow.fields =
      timing.map fun timing => (timing, triple.fields) := by
  cases timing <;> rfl

/-- The rows of a search whose tests give the same in every state. -/
theorem rows_fields (h : ∀ triple ∈ search.triples codeGenerator, ∀ s, ∃ s',
      search.test api speculation triple s =
        .ok (search.fieldTiming api speculation s₀ triple.fields, s')) (s : σ) :
    (search.rows api codeGenerator speculation s).map ResultRow.fields =
      (search.fieldTriples (codeGenerator.instructionList.map X86Instruction.fields)).filterMap
        fun fields => (search.fieldTiming api speculation s₀ fields).map (·, fields) := by
  rw [search.rows_eq, trials_repeatable h s, ← map_triples, List.filterMap_map,
    List.filterMap_map, List.map_filterMap]
  congr 1
  funext triple
  exact map_fields_acceptedRow triple _

variable {results : InstructionTriple → TripleTests}

theorem Repeatable.fieldTiming (h : search.Repeatable api codeGenerator speculation results)
    {triple : InstructionTriple} (htriple : triple ∈ search.triples codeGenerator) :
    search.fieldTiming api speculation s₀ triple.fields = search.timing (results triple) := by
  obtain ⟨s', htest⟩ := h.test htriple s₀
  simp only [Search.fieldTiming, test_ofFields, htest]

theorem Repeatable.test_fields (h : search.Repeatable api codeGenerator speculation results)
    (s₀ : σ) (other : CodeGenerator)
    (hother : ∀ fields ∈ search.fieldTriples (other.instructionList.map X86Instruction.fields),
      fields ∈ search.fieldTriples (codeGenerator.instructionList.map X86Instruction.fields)) :
    ∀ triple ∈ search.triples other, ∀ s, ∃ s', search.test api speculation triple s =
      .ok (search.fieldTiming api speculation s₀ triple.fields, s') := by
  intro triple htriple s
  have hmem : triple.fields ∈ (search.triples other).map InstructionTriple.fields :=
    List.mem_map_of_mem htriple
  rw [map_triples] at hmem
  have horiginal := hother _ hmem
  rw [← map_triples] at horiginal
  obtain ⟨original, horiginal, hsame⟩ := List.mem_map.mp horiginal
  rw [← test_ofFields, ← hsame, test_ofFields, h.fieldTiming horiginal]
  exact h.test horiginal s

/-- A search with fewer instructions has the rows of the whole search if each triple that it leaves
out is without a result. -/
theorem Repeatable.rows_filter {keep : InstructionFields → Bool} {fewer : CodeGenerator}
    (h : search.Repeatable api codeGenerator speculation results)
    (hfewer : fewer.instructionList.map X86Instruction.fields =
      (codeGenerator.instructionList.map X86Instruction.fields).filter keep)
    (hnone : ∀ triple ∈ search.triples codeGenerator, keepsTriple keep triple.fields = false →
      search.timing (results triple) = none) (s₁ s₂ : σ) :
    (search.rows api fewer speculation s₁).map ResultRow.fields =
      (search.rows api codeGenerator speculation s₂).map ResultRow.fields := by
  have hall := h.test_fields s₁ codeGenerator fun _ hfields => hfields
  have hkept := h.test_fields s₁ fewer fun fields hfields => by
    rw [hfewer, fieldTriples_filter] at hfields
    exact (List.mem_filter.mp hfields).1
  rw [rows_fields hall, rows_fields hkept, hfewer, fieldTriples_filter, List.filterMap_filter]
  apply List.filterMap_congr
  intro fields hfields
  rw [← map_triples] at hfields
  obtain ⟨triple, htriple, rfl⟩ := List.mem_map.mp hfields
  split
  · rfl
  · next hdropped =>
    rw [h.fieldTiming htriple, hnone triple htriple (Bool.eq_false_of_not_eq_true hdropped)]
    rfl

end

end Search

section
variable {σ : Type} {api : ExecutorApi σ} {codeGenerator : CodeGenerator} {s after : σ}

/-- If it depends on the bytes whether an instruction faults, then those that do not are left. -/
theorem FaultsBy.nonFaulting_eq_filter {faults : Bytes → Prop} [DecidablePred faults]
    (h : FaultsBy faults api codeGenerator s)
    (hout : (faultTests api codeGenerator s).outcome = .ok after) :
    nonFaulting api codeGenerator s =
      codeGenerator.instructionList.filter fun i => !decide (faults i.byteRepresentation) := by
  have hkept : (faultTests api codeGenerator s).written.filter (fun test => test.2.error = 0) =
      (faultTests api codeGenerator s).written.filter fun test =>
        !decide (faults codeGenerator.instructionList[test.1].byteRepresentation) := by
    apply List.filter_congr
    intro test htest
    rw [← decide_not]
    exact decide_eq_decide.mpr (by rw [← h test htest, not_not])
  have hall : (faultTests api codeGenerator s).written.map Prod.fst = List.finRange _ :=
    trials_all hout
  have hplaces : nonFaultingPlaces api codeGenerator s = (List.finRange _).filter fun idx =>
      !decide (faults codeGenerator.instructionList[idx].byteRepresentation) := by
    rw [nonFaultingPlaces, hkept, ← hall, List.filter_map]
    rfl
  have hlist : ((List.finRange _).map fun idx => codeGenerator.instructionList[idx]) =
      codeGenerator.instructionList := List.map_getElem_finRange _
  calc nonFaulting api codeGenerator s
      = ((List.finRange _).map fun idx => codeGenerator.instructionList[idx]).filter fun i =>
          !decide (faults i.byteRepresentation) := by
        rw [nonFaulting, hplaces, List.filter_map]
        rfl
    _ = _ := by rw [hlist]

/-- If instructions that fault on their own fault in every test they take part in, then a search
with the cleaned file finds what a search with the original file finds, in the same order. -/
theorem cleanedSearch_complete (sha256 : Sha256) {search : Search} {speculation : Bool}
    {results : InstructionTriple → Search.TripleTests} {faults : Bytes → Prop}
    {outputFilename : Text} {files cleaned : Files}
    (hrepeatable : search.Repeatable api codeGenerator speculation results)
    (hfaults : FaultsBy faults api codeGenerator s)
    (hspoils : ∀ triple ∈ search.triples codeGenerator, triple.fields.Involves faults →
      (results triple).1.error ≠ 0)
    (hshort : ∀ i ∈ codeGenerator.instructionList, i.byteRepresentation.length ≤ 200)
    (h : outputNonFaultingInstructions api codeGenerator outputFilename s files =
      (cleaned, .ok after))
    (hsome : nonFaulting api codeGenerator s ≠ []) :
    ∃ reloaded, CodeGenerator.load sha256 (cleaned outputFilename) = .ok reloaded ∧
      ∀ s₁ s₂, (search.rows api reloaded speculation s₁).map ResultRow.fields =
        (search.rows api codeGenerator speculation s₂).map ResultRow.fields := by
  classical
  obtain ⟨hreturned, hwritten⟩ := outputNonFaultingInstructions_ok h
  have hsublist := nonFaulting_sublist hreturned
  obtain ⟨reloaded, hload, hfields⟩ := CodeGenerator.load_fileLines sha256
    (hsublist.length_le.trans codeGenerator.length_le) fun i hi =>
      ⟨codeGenerator.plain i (hsublist.subset hi), hshort i (hsublist.subset hi)⟩
  have hkeep : reloaded.instructionList.map X86Instruction.fields =
      (codeGenerator.instructionList.map X86Instruction.fields).filter fun fields =>
        !decide (faults fields.1) := by
    rw [hfields, hfaults.nonFaulting_eq_filter hreturned, List.filter_map]
    rfl
  refine ⟨reloaded, ?_, hrepeatable.rows_filter hkeep fun triple htriple hdropped => ?_⟩
  · rw [hwritten, cleanedText, if_neg (by simpa using hsome), hload]
  · have hinvolves : triple.fields.Involves faults := by
      by_contra hnone
      simp only [TripleFields.Involves, not_or] at hnone
      simp [Search.keepsTriple, hnone] at hdropped
    rw [Search.timing, if_neg (fun haccepted => hspoils triple htriple hinvolves haccepted.1)]

end

def instUdf : Bytes := [0, 0, 0, 0]

def nopAndUdf : CodeGenerator :=
  .ofEntries [(instNop, "NOP".toList), (instUdf, "UDF".toList)] (by decide) (by decide)

def udfResult (triggerSequence measurementSequence resetSequence : Bytes) : TestResult :=
  if triggerSequence = instUdf ∨ measurementSequence = instUdf ∨ resetSequence = instUdf then
    ⟨1, -1⟩
  else ⟨0, 100⟩

/-- An executor on which only this instruction faults, and triggers last 100 cycles. -/
def udfApi : ExecutorApi Unit where
  testTriggerSequence triggerSequence measurementSequence resetSequence _ _ _ _ :=
    .ok (udfResult triggerSequence measurementSequence resetSequence, ())
  testResetSequence _ _ _ _ _ _ := .ok (⟨0, 0⟩, ())

theorem repeatable_udf (search : Search) (codeGenerator : CodeGenerator) (speculation : Bool) :
    search.Repeatable udfApi codeGenerator speculation fun triple =>
      (udfResult triple.trigger.byteRepresentation triple.measurement.byteRepresentation
        triple.reset.byteRepresentation, ⟨0, 0⟩) :=
  fun _ _ _ => ⟨⟨(), rfl⟩, (), rfl⟩

theorem faultsBy_udf : FaultsBy (· = instUdf) udfApi nopAndUdf () := by
  intro test htest
  obtain ⟨last, htested⟩ := trials_tested (testPlace udfApi nopAndUdf)
    (List.finRange nopAndUdf.instructionList.length) ()
  obtain ⟨before, later, hreturned⟩ := htested.mem htest
  let bytes := nopAndUdf.instructionList[test.1].byteRepresentation
  have hresult : udfResult bytes bytes bytes = test.2 :=
    congrArg Prod.fst (Except.ok.inj hreturned)
  rw [← hresult, udfResult]
  simp only [or_self]
  split
  · next hudf => exact iff_of_true (by decide) hudf
  · next hother => exact iff_of_false (by decide) hother

theorem cleanedSearch_complete_udf : ∃ cleaned reloaded,
    outputNonFaultingInstructions udfApi nopAndUdf "cleaned.b64".toList () (fun _ => none) =
      (cleaned, .ok ()) ∧
    CodeGenerator.load (fun _ => ⟨List.replicate 32 0, rfl⟩) (cleaned "cleaned.b64".toList) =
      .ok reloaded ∧
    ((Search.withoutAssumptions 50).rows udfApi reloaded false ()).map ResultRow.fields =
      ((Search.withoutAssumptions 50).rows udfApi nopAndUdf false ()).map ResultRow.fields := by
  have hreturned : (faultTests udfApi nopAndUdf ()).outcome = .ok () :=
    (trials_total (fun _ _ _ => ⟨_, rfl⟩) ()).choose_spec
  have hrun := outputNonFaultingInstructions_returned hreturned "cleaned.b64".toList fun _ => none
  have hsome : nonFaulting udfApi nopAndUdf () ≠ [] := by
    rw [faultsBy_udf.nonFaulting_eq_filter hreturned]
    decide
  obtain ⟨reloaded, hload, hrows⟩ := cleanedSearch_complete (fun _ => ⟨List.replicate 32 0, rfl⟩)
    (repeatable_udf _ _ _) faultsBy_udf (fun triple _ hinvolves => by
      have hudf : triple.trigger.byteRepresentation = instUdf ∨
          triple.measurement.byteRepresentation = instUdf ∨
            triple.reset.byteRepresentation = instUdf := or_left_comm.mp hinvolves
      simp only [udfResult, if_pos hudf]
      decide) (by decide) hrun hsome
  exact ⟨_, reloaded, hrun, hload, hrows () ()⟩

end OsirisArm
