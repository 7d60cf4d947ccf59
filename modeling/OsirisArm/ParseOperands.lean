import OsirisArm.Utils
import OsirisArm.Library.Combinations
import Mathlib.Data.List.ReduceOption
import Mathlib.Algebra.Order.BigOperators.GroupWithZero.List
import Mathlib.Algebra.Order.Ring.Nat

/-! # Expansion of operands

An instruction of the XML file stands for all combinations of the alternatives of its operands. An
enumeration that is not marked as an amount has no alternatives at all, so that no combination is
left and the instruction is lost.
-/

namespace OsirisArm
open Library

inductive PythonError where
  | keyError
  | attributeError
  | typeError
  | assertionError

/-- The attributes of an XML element. -/
abbrev Attributes := Text → Option Text

def Attributes.get (attrib : Attributes) (key default : String) : Text :=
  (attrib key.toList).getD default.toList

def Attributes.getItem (attrib : Attributes) (key : String) : Except PythonError Text :=
  match attrib key.toList with
  | some value => .ok value
  | none => .error .keyError

/-- An element `<operand>` with the texts of its `<option>` elements. -/
structure OperandNode where
  attrib : Attributes
  text : Option Text
  options : List (Option Text)

/-- An element `<instruction>` with the operands in it, in document order. -/
structure InstructionNode where
  attrib : Attributes
  operands : List OperandNode

def condCodes : List Text :=
  ["EQ", "NE", "CS", "CC", "MI", "PL", "VS", "VC", "HI", "LS", "GE", "LT", "GT", "LE", "AL"].map
    String.toList

/-- A text or `None` in an f-string. -/
def formatText (text : Option Text) : Text := text.getD "None".toList

/-- The alternatives of a register. `upper` is the method of Python strings. -/
def registerAlternatives (upper : Text → Text) (operandNode : OperandNode) :
    Except PythonError (List (Option Text)) :=
  if operandNode.attrib.get "is_enum" "" = "true".toList then
    if operandNode.attrib.get "Optional" "" = "[]".toList then
      .ok (operandNode.options.map fun option =>
        some ("[ ".toList ++ formatText option ++ "  ]".toList))
    else .ok operandNode.options
  else
    match operandNode.text with
    | none => .error .attributeError
    | some _ =>
      let defaultValue := upper (operandNode.attrib.get "default" "x24")
      if operandNode.attrib.get "Optional" "" = "[]".toList then
        .ok [some ("[".toList ++ defaultValue ++ "]".toList)]
      else .ok [some defaultValue]

/-- A text that is joined or extended; `None` is neither. -/
def textOf : Option Text → Except PythonError Text
  | some text => .ok text
  | none => .error .typeError

def enumAlternatives (operandNode : OperandNode) : Except PythonError (List (Option Text)) :=
  if operandNode.attrib.get "Optional" "" = "amount".toList then
    if operandNode.attrib.get "prefix" "" = "true".toList then .ok operandNode.options
    else operandNode.options.mapM fun option =>
      (textOf option).map fun text => some (text ++ "#0".toList)
  else .ok []

/-- The body of the loop over the operands: the list that is appended, if any. -/
def parseOperand (upper : Text → Text) (operandNode : OperandNode) :
    Except PythonError (Option (List (Option Text))) := do
  let operandType ← operandNode.attrib.getItem "type"
  let operandName ← operandNode.attrib.getItem "name"
  if operandType = "reg".toList then
    return some (← registerAlternatives upper operandNode)
  else if operandType = "enum".toList ∧ operandName ≠ "extend".toList then
    return some (← enumAlternatives operandNode)
  else if operandType = "imm".toList ∧ operandName ≠ "amount".toList then
    return some [some (operandNode.attrib.get "default" "#0")]
  else if operandType = "label".toList then
    return some [some (operandNode.attrib.get "default" "Program Label Address")]
  else if operandType = "cond".toList then
    return some (condCodes.map some)
  else return none

def assembleInstruction (asmCode : Text) (combo : List (Option Text)) :
    Except PythonError Text := do
  let parts ← combo.mapM textOf
  return asmCode ++ " ".toList ++ ", ".toList.intercalate parts

def parseOperands (upper : Text → Text) (instrNode : InstructionNode) :
    Except PythonError (List Text) := do
  let asmCode ← instrNode.attrib.getItem "asm"
  let operands ← instrNode.operands.mapM (parseOperand upper)
  (combinations operands.reduceOption).mapM (assembleInstruction asmCode)

namespace OperandNode
variable (operandNode : OperandNode)

def HasType (operandType : String) : Prop :=
  operandNode.attrib "type".toList = some operandType.toList

def HasName (operandName : String) : Prop :=
  operandNode.attrib "name".toList = some operandName.toList

instance (operandType : String) : Decidable (operandNode.HasType operandType) :=
  inferInstanceAs (Decidable (_ = _))

instance (operandName : String) : Decidable (operandNode.HasName operandName) :=
  inferInstanceAs (Decidable (_ = _))

/-- The operands that occur in the file: registers with a text or, as enumerations, with options,
enumerations with options, immediates, labels and conditions. -/
inductive WellFormed : Prop
  | register (operandType : operandNode.HasType "reg")
      (plain : operandNode.attrib.get "is_enum" "" ≠ "true".toList)
      (text : operandNode.text ≠ none)
  | registerEnum (operandType : operandNode.HasType "reg")
      (isEnum : operandNode.attrib.get "is_enum" "" = "true".toList)
      (options : operandNode.options ≠ [])
  | enum (operandType : operandNode.HasType "enum") (options : operandNode.options ≠ [])
  | imm (operandType : operandNode.HasType "imm")
  | label (operandType : operandNode.HasType "label")
  | cond (operandType : operandNode.HasType "cond")

/-- An extension and the amount of a shift are no operands of the assembled text. -/
def Dropped : Prop :=
  operandNode.HasType "enum" ∧ operandNode.HasName "extend" ∨
    operandNode.HasType "imm" ∧ operandNode.HasName "amount"

theorem WellFormed.hasType {operandNode : OperandNode} (h : operandNode.WellFormed) :
    ∃ operandType, operandNode.HasType operandType := by
  cases h with
  | register htype | registerEnum htype | enum htype | imm htype | label htype | cond htype =>
    exact ⟨_, htype⟩

/-- The alternatives that a kept operand stands for. -/
def numberOfAlternatives : ℕ :=
  if operandNode.attrib "type".toList = some "cond".toList then condCodes.length
  else if operandNode.attrib "type".toList = some "enum".toList ∨
      operandNode.attrib "type".toList = some "reg".toList ∧
        operandNode.attrib.get "is_enum" "" = "true".toList then operandNode.options.length
  else 1

/-- The operand has a name, an enumeration other than `extend` is marked as an amount, and every
option that goes into the text as it is has a text. -/
structure Expands : Prop where
  name : operandNode.attrib "name".toList ≠ none
  amount : operandNode.HasType "enum" → ¬ operandNode.HasName "extend" →
    operandNode.attrib.get "Optional" "" = "amount".toList ∧ none ∉ operandNode.options
  register : operandNode.HasType "reg" → operandNode.attrib.get "is_enum" "" = "true".toList →
    operandNode.attrib.get "Optional" "" ≠ "[]".toList → none ∉ operandNode.options

end OperandNode

instance (operandNode : OperandNode) : Decidable operandNode.Dropped :=
  inferInstanceAs (Decidable (operandNode.HasType "enum" ∧ operandNode.HasName "extend" ∨
    operandNode.HasType "imm" ∧ operandNode.HasName "amount"))

/-- The operands whose alternatives are combined. -/
def InstructionNode.kept (instrNode : InstructionNode) : List OperandNode :=
  instrNode.operands.filter fun operandNode => ¬ operandNode.Dropped

/-- The operand is kept, with one text for each of its alternatives. -/
def OperandNode.HasAlternatives (upper : Text → Text) (operandNode : OperandNode)
    (alternatives : List Text) : Prop :=
  parseOperand upper operandNode = .ok (some (alternatives.map some)) ∧
    alternatives.length = operandNode.numberOfAlternatives

/-- The expansion has one text for each combination of alternatives, and there is at least one. -/
def LosesNothing (upper : Text → Text) (instrNode : InstructionNode) : Prop :=
  ∃ asmCode alternatives texts,
    instrNode.attrib "asm".toList = some asmCode ∧
    List.Forall₂ (OperandNode.HasAlternatives upper) instrNode.kept alternatives ∧
    parseOperands upper instrNode = .ok texts ∧ texts ≠ [] ∧
    texts.length = (instrNode.kept.map OperandNode.numberOfAlternatives).prod ∧
    texts = (combinations alternatives).map fun combo =>
      asmCode ++ " ".toList ++ ", ".toList.intercalate combo

section
variable {upper : Text → Text} {operandNode : OperandNode}

theorem parseOperand_unnamed {operandType : String} (htype : operandNode.HasType operandType)
    (hname : operandNode.attrib "name".toList = none) :
    parseOperand upper operandNode = .error .keyError := by
  rw [OperandNode.HasType] at htype
  simp only [parseOperand, Attributes.getItem, htype, hname]
  rfl

theorem parseOperand_register {name : Text} (htype : operandNode.HasType "reg")
    (hname : operandNode.attrib "name".toList = some name) :
    parseOperand upper operandNode = some <$> registerAlternatives upper operandNode := by
  rw [OperandNode.HasType] at htype
  simp only [parseOperand, Attributes.getItem, htype, hname]
  rfl

theorem parseOperand_enum {name : Text} (htype : operandNode.HasType "enum")
    (hname : operandNode.attrib "name".toList = some name) :
    parseOperand upper operandNode =
      if name = "extend".toList then .ok none else some <$> enumAlternatives operandNode := by
  rw [OperandNode.HasType] at htype
  simp only [parseOperand, Attributes.getItem, htype, hname, bind, Except.bind]
  by_cases hextend : name = "extend".toList
  · rw [if_pos hextend, hextend]
    rfl
  · rw [if_neg hextend, if_neg (by decide), if_pos ⟨trivial, hextend⟩]
    rfl

theorem parseOperand_imm {name : Text} (htype : operandNode.HasType "imm")
    (hname : operandNode.attrib "name".toList = some name) :
    parseOperand upper operandNode = if name = "amount".toList then .ok none else
      .ok (some [some (operandNode.attrib.get "default" "#0")]) := by
  rw [OperandNode.HasType] at htype
  simp only [parseOperand, Attributes.getItem, htype, hname, bind, Except.bind]
  by_cases hamount : name = "amount".toList
  · rw [if_pos hamount, hamount]
    rfl
  · have hother : ¬ ("imm".toList = "enum".toList ∧ name ≠ "extend".toList) :=
      fun h => absurd h.1 (by decide)
    rw [if_neg hamount, if_neg (by decide), if_neg hother, if_pos ⟨trivial, hamount⟩]
    rfl

theorem parseOperand_label {name : Text} (htype : operandNode.HasType "label")
    (hname : operandNode.attrib "name".toList = some name) :
    parseOperand upper operandNode =
      .ok (some [some (operandNode.attrib.get "default" "Program Label Address")]) := by
  rw [OperandNode.HasType] at htype
  simp only [parseOperand, Attributes.getItem, htype, hname]
  rfl

theorem parseOperand_cond {name : Text} (htype : operandNode.HasType "cond")
    (hname : operandNode.attrib "name".toList = some name) :
    parseOperand upper operandNode = .ok (some (condCodes.map some)) := by
  rw [OperandNode.HasType] at htype
  simp only [parseOperand, Attributes.getItem, htype, hname]
  rfl

theorem OperandNode.HasType.unique {first second : String} (hfirst : operandNode.HasType first)
    (hsecond : operandNode.HasType second) : first.toList = second.toList :=
  Option.some.inj (hfirst.symm.trans hsecond)

theorem parseOperand_dropped (h : operandNode.Dropped) :
    parseOperand upper operandNode = .ok none := by
  rcases h with ⟨htype, hname⟩ | ⟨htype, hname⟩
  · rw [parseOperand_enum htype hname, if_pos rfl]
  · rw [parseOperand_imm htype hname, if_pos rfl]

theorem numberOfAlternatives_one {operandType : String} (htype : operandNode.HasType operandType)
    (hcond : operandType.toList ≠ "cond".toList) (henum : operandType.toList ≠ "enum".toList)
    (hreg : operandType.toList ≠ "reg".toList ∨
      operandNode.attrib.get "is_enum" "" ≠ "true".toList) :
    operandNode.numberOfAlternatives = 1 := by
  rw [OperandNode.HasType] at htype
  rw [OperandNode.numberOfAlternatives, htype, if_neg, if_neg]
  · rintro (h | ⟨h, hisEnum⟩)
    · exact henum (Option.some.inj h)
    · exact hreg.elim (fun hne => hne (Option.some.inj h)) (fun hne => hne hisEnum)
  · exact fun h => hcond (Option.some.inj h)

theorem numberOfAlternatives_options (h : operandNode.HasType "enum" ∨
    operandNode.HasType "reg" ∧ operandNode.attrib.get "is_enum" "" = "true".toList) :
    operandNode.numberOfAlternatives = operandNode.options.length := by
  have hcond : ¬ operandNode.HasType "cond" := by
    intro hcond
    rcases h with henum | hreg
    · exact absurd (hcond.unique henum) (by decide)
    · exact absurd (hcond.unique hreg.1) (by decide)
  exact (if_neg hcond).trans (if_pos h)

theorem numberOfAlternatives_cond (htype : operandNode.HasType "cond") :
    operandNode.numberOfAlternatives = condCodes.length := if_pos htype

theorem exists_texts {options : List (Option Text)} (h : none ∉ options) :
    ∃ texts : List Text, options = texts.map some := by
  refine ⟨options.filterMap id, ?_⟩
  induction options with
  | nil => rfl
  | cons option options ih =>
    rw [List.mem_cons, not_or] at h
    cases option with
    | none => exact absurd rfl h.1
    | some text => exact congrArg (some text :: ·) (ih h.2)

theorem registerAlternatives_plain (upper : Text → Text) {text : Text}
    (hplain : operandNode.attrib.get "is_enum" "" ≠ "true".toList)
    (htext : operandNode.text = some text) :
    ∃ alternative, registerAlternatives upper operandNode = .ok [some alternative] := by
  rw [registerAlternatives, if_neg hplain, htext]
  dsimp only
  split
  · exact ⟨_, rfl⟩
  · exact ⟨_, rfl⟩

theorem registerAlternatives_enum (upper : Text → Text)
    (hisEnum : operandNode.attrib.get "is_enum" "" = "true".toList)
    (htexts : operandNode.attrib.get "Optional" "" ≠ "[]".toList → none ∉ operandNode.options) :
    ∃ alternatives : List Text, alternatives.length = operandNode.options.length ∧
      registerAlternatives upper operandNode = .ok (alternatives.map some) := by
  rw [registerAlternatives, if_pos hisEnum]
  by_cases hbrackets : operandNode.attrib.get "Optional" "" = "[]".toList
  · rw [if_pos hbrackets]
    refine ⟨operandNode.options.map fun option =>
      "[ ".toList ++ formatText option ++ "  ]".toList, List.length_map _, ?_⟩
    rw [List.map_map]
    rfl
  · obtain ⟨options, hoptions⟩ := exists_texts (htexts hbrackets)
    rw [if_neg hbrackets, hoptions]
    exact ⟨options, (List.length_map _).symm, rfl⟩

theorem enumAlternatives_amount
    (hamount : operandNode.attrib.get "Optional" "" = "amount".toList)
    (htexts : none ∉ operandNode.options) :
    ∃ alternatives : List Text, alternatives.length = operandNode.options.length ∧
      enumAlternatives operandNode = .ok (alternatives.map some) := by
  obtain ⟨options, hoptions⟩ := exists_texts htexts
  rw [enumAlternatives, if_pos hamount, hoptions]
  split
  · exact ⟨options, (List.length_map _).symm, rfl⟩
  · refine ⟨options.map (· ++ "#0".toList), by simp, ?_⟩
    rw [List.mapM_map, List.map_map]
    exact mapM_eq_map fun _ _ => rfl

/-- An operand that expands is kept with one text for each alternative. -/
theorem hasAlternatives_of_expands (upper : Text → Text) (hwf : operandNode.WellFormed)
    (hexpands : operandNode.Expands) (hkept : ¬ operandNode.Dropped) :
    ∃ alternatives, operandNode.HasAlternatives upper alternatives := by
  obtain ⟨name, hname⟩ := Option.ne_none_iff_exists'.mp hexpands.name
  cases hwf with
  | register htype hplain htext =>
    obtain ⟨text, htext⟩ := Option.ne_none_iff_exists'.mp htext
    obtain ⟨alternative, halternative⟩ := registerAlternatives_plain upper hplain htext
    refine ⟨[alternative], ?_, ?_⟩
    · rw [parseOperand_register htype hname, halternative]
      rfl
    · rw [numberOfAlternatives_one htype (by decide) (by decide) (.inr hplain)]
      rfl
  | registerEnum htype hisEnum hoptions =>
    obtain ⟨alternatives, hlength, halternatives⟩ :=
      registerAlternatives_enum upper hisEnum (hexpands.register htype hisEnum)
    refine ⟨alternatives, ?_, ?_⟩
    · rw [parseOperand_register htype hname, halternatives]
      rfl
    · rw [hlength, numberOfAlternatives_options (.inr ⟨htype, hisEnum⟩)]
  | enum htype hoptions =>
    have hextend : ¬ operandNode.HasName "extend" := fun h => hkept (.inl ⟨htype, h⟩)
    obtain ⟨hamount, htexts⟩ := hexpands.amount htype hextend
    obtain ⟨alternatives, hlength, halternatives⟩ := enumAlternatives_amount hamount htexts
    refine ⟨alternatives, ?_, ?_⟩
    · rw [parseOperand_enum htype hname, if_neg, halternatives]
      · rfl
      · rintro rfl
        exact hextend hname
    · rw [hlength, numberOfAlternatives_options (.inl htype)]
  | imm htype =>
    refine ⟨[operandNode.attrib.get "default" "#0"], ?_, ?_⟩
    · rw [parseOperand_imm htype hname, if_neg]
      · rfl
      · rintro rfl
        exact hkept (.inr ⟨htype, hname⟩)
    · rw [numberOfAlternatives_one htype (by decide) (by decide) (.inl (by decide))]
      rfl
  | label htype =>
    refine ⟨[operandNode.attrib.get "default" "Program Label Address"], ?_, ?_⟩
    · rw [parseOperand_label htype hname]
      rfl
    · rw [numberOfAlternatives_one htype (by decide) (by decide) (.inl (by decide))]
      rfl
  | cond htype =>
    exact ⟨condCodes, parseOperand_cond htype hname, (numberOfAlternatives_cond htype).symm⟩

theorem numberOfAlternatives_pos (hwf : operandNode.WellFormed) :
    0 < operandNode.numberOfAlternatives := by
  cases hwf with
  | register htype hplain htext =>
    rw [numberOfAlternatives_one htype (by decide) (by decide) (.inr hplain)]
    exact one_pos
  | registerEnum htype hisEnum hoptions =>
    rw [numberOfAlternatives_options (.inr ⟨htype, hisEnum⟩)]
    exact List.length_pos_of_ne_nil hoptions
  | enum htype hoptions =>
    rw [numberOfAlternatives_options (.inl htype)]
    exact List.length_pos_of_ne_nil hoptions
  | imm htype | label htype =>
    rw [numberOfAlternatives_one htype (by decide) (by decide) (.inl (by decide))]
    exact one_pos
  | cond htype =>
    rw [numberOfAlternatives_cond htype]
    decide

theorem enumAlternatives_texts {alternatives : List (Option Text)}
    (h : enumAlternatives operandNode = .ok alternatives) (hne : alternatives ≠ [])
    (hnone : none ∉ alternatives) :
    operandNode.attrib.get "Optional" "" = "amount".toList ∧ none ∉ operandNode.options := by
  by_cases hamount : operandNode.attrib.get "Optional" "" = "amount".toList
  · refine ⟨hamount, ?_⟩
    rw [enumAlternatives, if_pos hamount] at h
    split at h
    · rwa [Except.ok.inj h]
    · intro hmem
      obtain ⟨_, _, htext⟩ := forall₂_exists_right (mapM_ok_iff.mp h) hmem
      cases htext
  · rw [enumAlternatives, if_neg hamount] at h
    exact absurd (Except.ok.inj h).symm hne

/-- An operand whose alternatives are there, and all have a text, expands. -/
theorem expands_of_parseOperand {operandType : String} {result : Option (List (Option Text))}
    (htype : operandNode.HasType operandType)
    (hresult : parseOperand upper operandNode = .ok result)
    (htexts : ∀ alternatives, result = some alternatives →
      alternatives ≠ [] ∧ none ∉ alternatives) : operandNode.Expands := by
  have hnamed : operandNode.attrib "name".toList ≠ none := by
    intro hname
    rw [parseOperand_unnamed htype hname] at hresult
    cases hresult
  obtain ⟨name, hname⟩ := Option.ne_none_iff_exists'.mp hnamed
  refine ⟨hnamed, ?_, ?_⟩
  · intro henum hextend
    rw [parseOperand_enum henum hname, if_neg] at hresult
    · obtain ⟨alternatives, halternatives, rfl⟩ := except_map_ok hresult
      obtain ⟨hne, hnone⟩ := htexts alternatives rfl
      exact enumAlternatives_texts halternatives hne hnone
    · rintro rfl
      exact hextend hname
  · intro hreg hisEnum hbrackets
    rw [parseOperand_register hreg hname, registerAlternatives, if_pos hisEnum,
      if_neg hbrackets] at hresult
    exact (htexts _ (Except.ok.inj hresult).symm).2

end

section
variable {upper : Text → Text}

theorem assembleInstruction_texts (asmCode : Text) (combo : List Text) :
    assembleInstruction asmCode (combo.map some) =
      .ok (asmCode ++ " ".toList ++ ", ".toList.intercalate combo) := by
  have hparts : (combo.map some).mapM textOf = .ok combo := by
    rw [List.mapM_map]
    exact (mapM_eq_map (g := id) fun _ _ => rfl).trans (by rw [List.map_id])
  rw [assembleInstruction, hparts]
  rfl

/-- `None` cannot be joined. -/
theorem assembleInstruction_ok {asmCode text : Text} {combo : List (Option Text)}
    (h : assembleInstruction asmCode combo = .ok text) : none ∉ combo := by
  intro hmem
  obtain ⟨parts, hparts, _⟩ := except_bind_ok h
  obtain ⟨_, _, hpart⟩ := forall₂_exists_right (mapM_ok_iff.mp hparts) hmem
  cases hpart

/-- The loop over the operands, by induction on them. -/
theorem parseOperand_loop (upper : Text → Text) {operands : List OperandNode}
    (h : ∀ operandNode ∈ operands, operandNode.WellFormed ∧ operandNode.Expands) :
    ∃ results alternatives, operands.mapM (parseOperand upper) = .ok results ∧
      results.reduceOption = alternatives.map (List.map some) ∧
      List.Forall₂ (OperandNode.HasAlternatives upper)
        (operands.filter fun operandNode => ¬ operandNode.Dropped) alternatives := by
  induction operands with
  | nil => exact ⟨[], [], rfl, rfl, .nil⟩
  | cons operandNode operands ih =>
    rw [List.forall_mem_cons] at h
    obtain ⟨results, alternatives, hresults, hreduce, hkept⟩ := ih h.2
    by_cases hdropped : operandNode.Dropped
    · refine ⟨none :: results, alternatives, ?_, hreduce, ?_⟩
      · rw [List.mapM_cons, parseOperand_dropped hdropped, hresults]
        rfl
      · rw [List.filter_cons_of_neg (by simpa using hdropped)]
        exact hkept
    · obtain ⟨texts, htexts⟩ := hasAlternatives_of_expands upper h.1.1 h.1.2 hdropped
      refine ⟨some (texts.map some) :: results, texts :: alternatives, ?_, ?_, ?_⟩
      · rw [List.mapM_cons, htexts.1, hresults]
        rfl
      · rw [List.reduceOption_cons_of_some, hreduce]
        rfl
      · rw [List.filter_cons_of_pos (by simpa using hdropped)]
        exact .cons htexts hkept

/-- An expansion that gives a text at all left out no alternative. -/
theorem expands_of_parseOperands {instrNode : InstructionNode} {texts : List Text}
    (hwf : ∀ operandNode ∈ instrNode.operands, operandNode.WellFormed)
    (hok : parseOperands upper instrNode = .ok texts) (hne : texts ≠ []) :
    instrNode.attrib "asm".toList ≠ none ∧
      ∀ operandNode ∈ instrNode.operands, operandNode.Expands := by
  obtain ⟨asmCode, hasm, hrest⟩ := except_bind_ok hok
  obtain ⟨results, hresults, hcombos⟩ := except_bind_ok hrest
  have hsomeAlternative : ∀ alternatives ∈ results.reduceOption, alternatives ≠ [] := by
    rintro _ hmem rfl
    rw [combinations_eq_nil hmem] at hcombos
    exact hne (Except.ok.inj hcombos).symm
  refine ⟨?_, ?_⟩
  · intro hnone
    rw [Attributes.getItem, hnone] at hasm
    cases hasm
  · intro operandNode hmem
    obtain ⟨result, hresult, hparse⟩ := forall₂_exists_right (mapM_ok_iff.mp hresults) hmem
    obtain ⟨operandType, htype⟩ := (hwf operandNode hmem).hasType
    refine expands_of_parseOperand htype hparse ?_
    rintro alternatives rfl
    have halternatives : alternatives ∈ results.reduceOption :=
      List.reduceOption_mem_iff.mpr hresult
    refine ⟨hsomeAlternative _ halternatives, ?_⟩
    intro hnone
    obtain ⟨combo, hcombo, hnone⟩ := exists_combination_of_mem hsomeAlternative halternatives hnone
    obtain ⟨_, _, htext⟩ := forall₂_exists_right (mapM_ok_iff.mp hcombos) hcombo
    exact assembleInstruction_ok htext hnone

theorem lengths_eq_numberOfAlternatives {operands : List OperandNode}
    {alternatives : List (List Text)}
    (h : List.Forall₂ (OperandNode.HasAlternatives upper) operands alternatives) :
    alternatives.map List.length = operands.map OperandNode.numberOfAlternatives := by
  induction h with
  | nil => rfl
  | cons hfirst _ ih => rw [List.map_cons, List.map_cons, ih, hfirst.2]

theorem losesNothing_of_expands {instrNode : InstructionNode} {asmCode : Text}
    (hasm : instrNode.attrib "asm".toList = some asmCode)
    (hwf : ∀ operandNode ∈ instrNode.operands, operandNode.WellFormed)
    (hexpands : ∀ operandNode ∈ instrNode.operands, operandNode.Expands) :
    LosesNothing upper instrNode := by
  obtain ⟨results, alternatives, hresults, hreduce, hkept⟩ :=
    parseOperand_loop upper fun operandNode hmem =>
      ⟨hwf operandNode hmem, hexpands operandNode hmem⟩
  have hprod : (combinations alternatives).length =
      (instrNode.kept.map OperandNode.numberOfAlternatives).prod := by
    rw [combinations_length, lengths_eq_numberOfAlternatives hkept, InstructionNode.kept]
  refine ⟨asmCode, alternatives, _, hasm, hkept, ?_, ?_, ?_, rfl⟩
  · rw [parseOperands, Attributes.getItem, hasm, hresults]
    change (combinations results.reduceOption).mapM (assembleInstruction asmCode) = _
    rw [hreduce, combinations_map, List.mapM_map]
    exact mapM_eq_map fun combo _ => assembleInstruction_texts asmCode combo
  · intro hnil
    have hlength := congrArg List.length hnil
    rw [List.length_map, hprod] at hlength
    have hpos : ∀ n ∈ instrNode.kept.map OperandNode.numberOfAlternatives, 0 < n := by
      rw [List.forall_mem_map]
      intro operandNode hmem
      exact numberOfAlternatives_pos (hwf operandNode (List.mem_of_mem_filter hmem))
    exact absurd hlength (List.prod_pos hpos).ne'
  · rw [List.length_map, hprod]

end

/-- An instruction whose operands are of the types in the file is expanded without loss exactly if
every enumeration in it is marked as an amount and nothing that is read from it is missing. -/
theorem losesNothing_iff (upper : Text → Text) (instrNode : InstructionNode)
    (hwf : ∀ operandNode ∈ instrNode.operands, operandNode.WellFormed) :
    LosesNothing upper instrNode ↔ instrNode.attrib "asm".toList ≠ none ∧
      ∀ operandNode ∈ instrNode.operands, operandNode.Expands := by
  constructor
  · rintro ⟨_, _, texts, _, _, hok, hne, _⟩
    exact expands_of_parseOperands hwf hok hne
  · rintro ⟨hasm, hexpands⟩
    obtain ⟨asmCode, hasm⟩ := Option.ne_none_iff_exists'.mp hasm
    exact losesNothing_of_expands hasm hwf hexpands

def asciiUpper (text : Text) : Text := text.map Char.toUpper

def attributesOf (entries : List (String × String)) : Attributes := fun key =>
  (entries.find? fun entry => entry.1.toList = key).map fun entry => entry.2.toList

/-- A general register without further attributes. -/
def registerNode (name text : String) : OperandNode where
  attrib := attributesOf [("name", name), ("type", "reg")]
  text := some text.toList
  options := []

theorem registerNode_hasType (name text : String) : (registerNode name text).HasType "reg" := by
  simp [OperandNode.HasType, registerNode, attributesOf]

theorem registerNode_plain (name text : String) :
    (registerNode name text).attrib.get "is_enum" "" ≠ "true".toList := by
  simp [Attributes.get, registerNode, attributesOf]

theorem registerNode_wellFormed (name text : String) : (registerNode name text).WellFormed :=
  .register (registerNode_hasType name text) (registerNode_plain name text) (by simp [registerNode])

theorem registerNode_expands (name text : String) : (registerNode name text).Expands where
  name := by simp [registerNode, attributesOf]
  amount henum := absurd ((registerNode_hasType name text).unique henum) (by decide)
  register _ hisEnum := absurd hisEnum (registerNode_plain name text)

def condNode : OperandNode where
  attrib := attributesOf [("name", "cond"), ("type", "cond"), ("default", "EQ")]
  text := none
  options := []

theorem condNode_hasType : condNode.HasType "cond" := by decide

theorem condNode_expands : condNode.Expands where
  name := by decide
  amount henum := absurd (condNode_hasType.unique henum) (by decide)
  register hreg := absurd (condNode_hasType.unique hreg) (by decide)

/-- The conditional increment, with fifteen alternatives. -/
def cincNode : InstructionNode where
  attrib := attributesOf [("asm", "CINC")]
  operands := [registerNode "Rd" "W0,X0", registerNode "Rn" "W0,X0", condNode]

theorem losesNothing_cinc : LosesNothing asciiUpper cincNode := by
  refine (losesNothing_iff asciiUpper cincNode ?_).mpr ⟨by decide, ?_⟩
  · simp only [cincNode, List.forall_mem_cons]
    exact ⟨registerNode_wellFormed _ _, registerNode_wellFormed _ _, .cond condNode_hasType,
      by simp⟩
  · simp only [cincNode, List.forall_mem_cons]
    exact ⟨registerNode_expands _ _, registerNode_expands _ _, condNode_expands, by simp⟩

/-- The operation of the cache maintenance instruction, which is not marked as an amount. -/
def dcOpNode : OperandNode where
  attrib := attributesOf [("name", "dc_op"), ("type", "enum")]
  text := none
  options := ["IVAC", "ISW", "CISW", "CVAC", "CVAU", "CIVAC", "ZVA", "GVA", "CIGVAC"].map
    fun option => some option.toList

def dcNode : InstructionNode where
  attrib := attributesOf [("asm", "DC")]
  operands := [dcOpNode, registerNode "Xt" "X0,X1,...,X31"]

theorem dc_lost : ¬ ((∀ operandNode ∈ dcNode.operands, operandNode.WellFormed) →
    LosesNothing asciiUpper dcNode) := by
  intro h
  have hwf : ∀ operandNode ∈ dcNode.operands, operandNode.WellFormed := by
    simp only [dcNode, List.forall_mem_cons]
    exact ⟨.enum (by decide) (by simp [dcOpNode]), registerNode_wellFormed _ _, by simp⟩
  obtain ⟨_, _, texts, _, _, hok, hne, _⟩ := h hwf
  have hexpands := (expands_of_parseOperands hwf hok hne).2 dcOpNode List.mem_cons_self
  exact absurd (hexpands.amount (by decide) (by decide)).1 (by decide)

end OsirisArm
