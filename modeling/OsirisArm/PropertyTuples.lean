import OsirisArm.FilterSets

/-! # Property tuples in a filtered file

A file filtered by property tuples should keep, for every row, a row with the same nine properties
and at least its timing. The filter groups rows by the nine properties written one after the other,
so it does so exactly if this text determines the properties.
-/

namespace OsirisArm
open Library Library.Selection

/-- The rows a new filter object with one active filter writes behind the header. -/
def outputRows (filter : ResultFilterFunctions) (rows : List ParsedLine) : List Text :=
  ((ResultFilter.fresh.enableFilter filter).applyFilters (resultLines rows)).written.tail

/-- Every property tuple of the file is found again, with at least the timing it had. -/
def TuplesKept (rows : List ParsedLine) : Prop :=
  ∀ row ∈ rows, ∃ line ∈ outputRows .uniquePropertyTuples rows, ∃ data,
    resultLineData line = .ok data ∧ data.properties = row.data.properties ∧
      row.data.timing.natAbs ≤ data.timing.natAbs

theorem unseen_fresh (filter : ResultFilterFunctions) (rows : List ParsedLine) :
    (ResultFilter.fresh.enableFilter filter).Unseen rows :=
  (ResultFilter.unused_fresh.enableFilters [filter]).unseen rows

/-- The rows can be compared: there are not too many, and no timing without absolute value has to
be compared with another one. -/
def PassDefined (rows : List ParsedLine) : Prop :=
  rows.length < 2 ^ 31 ∧ rows.Pairwise fun p q =>
    p.data.propertyTuple = q.data.propertyTuple →
      p.data.timing ≠ intMin ∧ q.data.timing ≠ intMin

/-- The best rows by property tuple. -/
def bestTuples (rows : List ParsedLine) : List (ParsedLine × ℕ) :=
  select (lineKey ResultLineData.propertyTuple) ParsedLine.weight rows.zipIdx

theorem outputRows_of_defined {rows : List ParsedLine} (h : PassDefined rows) :
    outputRows .uniquePropertyTuples rows = (bestTuples rows).map fun p => p.1.line := by
  have hcomparable : ResultFilter.Comparable [.uniquePropertyTuples] rows := by
    intro f hf κ hκ
    rw [List.mem_singleton.mp hf] at hκ
    cases hκ
    exact h.2
  obtain ⟨after, -, hrun⟩ := ResultFilter.applyFilters_unseen (unseen_fresh _ rows) h.1 hcomparable
  rw [ResultFilter.activeFilters_enable_fresh, accepted_key rfl] at hrun
  rw [outputRows, hrun]
  rfl

theorem outputRows_of_not_defined {rows : List ParsedLine} (h : ¬ PassDefined rows) :
    outputRows .uniquePropertyTuples rows = [] := by
  rw [outputRows, ResultFilter.applyFilters_unseen_undefined (unseen_fresh _ rows)]
  · rfl
  · rintro ⟨hcount, hcomparable⟩
    exact h ⟨hcount, hcomparable .uniquePropertyTuples (by simp) _ rfl⟩

/-- A tuple that is found again is found in the best row of its key. -/
theorem TuplesKept.exists_best {rows : List ParsedLine} (h : TuplesKept rows)
    (hdefined : PassDefined rows) {row : ParsedLine} (hrow : row ∈ rows) :
    ∃ best ∈ bestTuples rows, best.1.data.properties = row.data.properties := by
  obtain ⟨line, hline, data, hdata, hproperties, -⟩ := h row hrow
  rw [outputRows_of_defined hdefined] at hline
  obtain ⟨best, hbest, rfl⟩ := List.mem_map.mp hline
  refine ⟨best, hbest, ?_⟩
  rw [best.1.parsed] at hdata
  cases hdata
  exact hproperties

/-- Rows whose properties, written one after the other, are the same are merged. -/
theorem TuplesKept.properties_eq {rows : List ParsedLine} (h : TuplesKept rows)
    (hdefined : PassDefined rows) {p q : ParsedLine} (hp : p ∈ rows) (hq : q ∈ rows)
    (hkey : p.data.propertyTuple = q.data.propertyTuple) :
    p.data.properties = q.data.properties := by
  obtain ⟨bestp, hbestp, hpropp⟩ := h.exists_best hdefined hp
  obtain ⟨bestq, hbestq, hpropq⟩ := h.exists_best hdefined hq
  obtain ⟨hmemp, hisp⟩ := mem_select.mp hbestp
  obtain ⟨hmemq, hisq⟩ := mem_select.mp hbestq
  have hsame : lineKey ResultLineData.propertyTuple bestp.1 =
      lineKey ResultLineData.propertyTuple bestq.1 := by
    calc bestp.1.data.properties.flatten
        = p.data.properties.flatten := by rw [hpropp]
      _ = q.data.properties.flatten := hkey
      _ = bestq.1.data.properties.flatten := by rw [hpropq]
  rw [← hpropp, ← hpropq, IsBest.unique (numbered_zipIdx rows 0) hmemp hmemq hsame hisp hisq]

/-- No tuple is lost exactly if the passes are defined and different tuples have different keys. -/
theorem tuplesKept_iff (rows : List ParsedLine) :
    TuplesKept rows ↔ PassDefined rows ∧ ∀ p ∈ rows, ∀ q ∈ rows,
      p.data.propertyTuple = q.data.propertyTuple → p.data.properties = q.data.properties := by
  constructor
  · intro h
    have hdefined : PassDefined rows := by
      by_contra hnot
      have hempty : rows = [] := by
        apply List.eq_nil_iff_forall_not_mem.mpr
        intro row hrow
        obtain ⟨line, hline, -⟩ := h row hrow
        rw [outputRows_of_not_defined hnot] at hline
        cases hline
      rw [hempty] at hnot
      exact hnot ⟨by decide, .nil⟩
    exact ⟨hdefined, fun p hp q hq => h.properties_eq hdefined hp hq⟩
  · rintro ⟨hdefined, hinjective⟩ row hrow
    obtain ⟨i, hi⟩ := mem_zipIdx_of_mem hrow
    obtain ⟨best, hmem, hkey, hbest⟩ :=
      exists_isBest (lineKey ResultLineData.propertyTuple) ParsedLine.weight hi
    refine ⟨best.1.line, ?_, best.1.data, best.1.parsed, ?_, ?_⟩
    · rw [outputRows_of_defined hdefined]
      exact List.mem_map_of_mem (mem_select.mpr ⟨hmem, hbest⟩)
    · exact hinjective best.1 (List.fst_mem_of_mem_zipIdx hmem) row hrow hkey
    · exact (hbest (row, i) hi hkey.symm).1

/-- Two rows with the measurement properties `AB`, `C` and `A`, `BC`. -/
def mergedRows : List ParsedLine :=
  [{ line := "200;10000;MUL;AB;C;I;10001;ADD;D;E;I;10002;NOP;F;G;I".toList
     data := ⟨200, "MUL".toList, "AB".toList, "C".toList, "I".toList, "ADD".toList, "D".toList,
       "E".toList, "I".toList, "NOP".toList, "F".toList, "G".toList, "I".toList⟩
     parsed := rfl
     noNewline := by decide },
   { line := "100;10003;MUL;A;BC;I;10001;ADD;D;E;I;10002;NOP;F;G;I".toList
     data := ⟨100, "MUL".toList, "A".toList, "BC".toList, "I".toList, "ADD".toList, "D".toList,
       "E".toList, "I".toList, "NOP".toList, "F".toList, "G".toList, "I".toList⟩
     parsed := rfl
     noNewline := by decide }]

theorem mergedRows_lost : ¬ TuplesKept mergedRows := by
  intro h
  have hdefined : PassDefined mergedRows := by
    refine ⟨by decide, ?_⟩
    simp [mergedRows, intMin]
  have hsame := h.properties_eq hdefined (p := mergedRows[0]) (q := mergedRows[1])
    (by simp [mergedRows]) (by simp [mergedRows]) (by decide)
  exact absurd hsame (by decide)

end OsirisArm
