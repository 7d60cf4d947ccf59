import Mathlib.Data.List.Basic

/-! # Scanning a command line

Long options, possibly abbreviated, with and without an argument, short options without one, and
operands between them, as `getopt_long` finds them when it permutes the operands to the end. A
command line that is written word by word is scanned back into its words, and every command line
without an error is written in this way.
-/

namespace OsirisArm.Library.Getopt

structure LongOption where
  name : List Char
  hasArg : Bool
  val : Char
  deriving DecidableEq

/-- What one call returns: the character of the option and its argument. -/
abbrev Returned := Char × Option (List Char)

/-- An exact name, or the beginning of the names of equal options only. -/
def lookup (longOptions : List LongOption) (name : List Char) : Option LongOption :=
  match longOptions.find? (·.name = name) with
  | some found => some found
  | none =>
    match longOptions.filter (name <+: ·.name) with
    | [] => none
    | found :: others =>
      if others.all fun other => other.hasArg = found.hasArg ∧ other.val = found.val then some found
      else none

/-- The name of a long option in a word, and the argument behind an equals sign. -/
def splitWord (word : List Char) : List Char × Option (List Char) :=
  if '=' ∈ word then
    (word.takeWhile (· ≠ '='), some ((word.dropWhile (· ≠ '=')).drop 1))
  else (word, none)

def unknown : Returned := ('?', none)

section
variable (shortOptions : List Char) (longOptions : List LongOption)

/-- The characters behind a single dash. -/
def scanShort (letters : List Char) : List Returned :=
  letters.map fun letter => if letter ∈ shortOptions then (letter, none) else unknown

/-- The returned options and the operands. -/
def getopt : List (List Char) → List Returned × List (List Char)
  | [] => ([], [])
  | ['-', '-'] :: words => ([], words)
  | ('-' :: '-' :: word) :: words =>
    let (name, argument) := splitWord word
    match lookup longOptions name, argument, words with
    | none, _, words => ((unknown :: (getopt words).1), (getopt words).2)
    | some option, some argument, words =>
      let returned := if option.hasArg then (option.val, some argument) else unknown
      (returned :: (getopt words).1, (getopt words).2)
    | some option, none, [] =>
      ([if option.hasArg then unknown else (option.val, none)], [])
    | some option, none, next :: words =>
      if option.hasArg then ((option.val, some next) :: (getopt words).1, (getopt words).2)
      else ((option.val, none) :: (getopt (next :: words)).1, (getopt (next :: words)).2)
  | ('-' :: letter :: letters) :: words =>
    (scanShort shortOptions (letter :: letters) ++ (getopt words).1, (getopt words).2)
  | operand :: words => ((getopt words).1, operand :: (getopt words).2)

end

/-- A name, possibly abbreviated, that is found. -/
structure Named (longOptions : List LongOption) where
  name : List Char
  option : LongOption
  noArgument : '=' ∉ name
  found : lookup longOptions name = some option

/-- What stands on a command line without errors and short options. -/
inductive Word (longOptions : List LongOption) where
  | flag (named : Named longOptions) (hname : named.name ≠ []) (h : named.option.hasArg = false)
  | separate (named : Named longOptions) (hname : named.name ≠ [])
      (h : named.option.hasArg = true) (argument : List Char)
  | joined (named : Named longOptions) (h : named.option.hasArg = true) (argument : List Char)
  | operand (text : List Char) (h : ∀ letters, text = '-' :: letters → letters = [])

namespace Word
variable {longOptions : List LongOption}

def text : Word longOptions → List (List Char)
  | flag named _ _ => ['-' :: '-' :: named.name]
  | separate named _ _ argument => ['-' :: '-' :: named.name, argument]
  | joined named _ argument => ['-' :: '-' :: (named.name ++ '=' :: argument)]
  | operand text _ => [text]

def returned : Word longOptions → List Returned
  | flag named _ _ => [(named.option.val, none)]
  | separate named _ _ argument => [(named.option.val, some argument)]
  | joined named _ argument => [(named.option.val, some argument)]
  | operand _ _ => []

def operands : Word longOptions → List (List Char)
  | operand text _ => [text]
  | _ => []

end Word

theorem splitWord_plain {name : List Char} (h : '=' ∉ name) : splitWord name = (name, none) :=
  if_neg h

theorem splitWord_joined {name argument : List Char} (h : '=' ∉ name) :
    splitWord (name ++ '=' :: argument) = (name, some argument) := by
  have hne : ∀ c ∈ name, decide (c ≠ '=') = true :=
    fun c hc => decide_eq_true fun heq => h (heq ▸ hc)
  rw [splitWord, if_pos (List.mem_append_right _ List.mem_cons_self),
    List.takeWhile_append_of_pos hne, List.dropWhile_append_of_pos hne]
  simp

theorem eq_of_splitWord_none {word name : List Char} (h : splitWord word = (name, none)) :
    word = name ∧ '=' ∉ name := by
  unfold splitWord at h
  split at h
  · cases h
  · next hword =>
    cases h
    exact ⟨rfl, hword⟩

theorem eq_of_splitWord_some {word name argument : List Char}
    (h : splitWord word = (name, some argument)) : word = name ++ '=' :: argument ∧ '=' ∉ name := by
  by_cases hword : '=' ∈ word
  · obtain ⟨before, after, rfl, hbefore⟩ := List.eq_append_cons_of_mem hword
    rw [splitWord_joined hbefore] at h
    cases h
    exact ⟨rfl, hbefore⟩
  · rw [splitWord_plain hword] at h
    cases h

section
variable (shortOptions : List Char) {longOptions : List LongOption}

theorem getopt_operand {text : List Char} (h : ∀ letters, text = '-' :: letters → letters = [])
    (words : List (List Char)) : getopt shortOptions longOptions (text :: words) =
      ((getopt shortOptions longOptions words).1,
        text :: (getopt shortOptions longOptions words).2) := by
  cases text with
  | nil => rw [getopt] <;> simp
  | cons first letters =>
    by_cases hfirst : first = '-'
    · subst hfirst
      rw [h letters rfl, getopt] <;> simp
    · rw [getopt] <;> simp [hfirst]

/-- A word is scanned back, whatever stands behind it. -/
theorem getopt_word (word : Word longOptions) (words : List (List Char)) :
    getopt shortOptions longOptions (word.text ++ words) =
      (word.returned ++ (getopt shortOptions longOptions words).1,
        word.operands ++ (getopt shortOptions longOptions words).2) := by
  cases word with
  | flag named hne h =>
    obtain ⟨first, rest, hname⟩ := List.exists_cons_of_ne_nil hne
    have hsplit := splitWord_plain named.noArgument
    have hfound := named.found
    rw [hname] at hsplit hfound
    simp only [Word.text, hname, List.singleton_append, getopt, hsplit, hfound]
    cases words with
    | nil => simp [h, Word.returned, Word.operands, getopt]
    | cons next words => simp [h, Word.returned, Word.operands]
  | separate named hne h argument =>
    obtain ⟨first, rest, hname⟩ := List.exists_cons_of_ne_nil hne
    have hsplit := splitWord_plain named.noArgument
    have hfound := named.found
    rw [hname] at hsplit hfound
    simp [Word.text, hname, getopt, hsplit, hfound, h, Word.returned, Word.operands]
  | joined named h argument =>
    have hsplit : splitWord (named.name ++ '=' :: argument) = (named.name, some argument) :=
      splitWord_joined named.noArgument
    rw [Word.text, List.singleton_append, getopt]
    · simp [hsplit, named.found, h, Word.returned, Word.operands]
    · simp
  | operand text h =>
    rw [Word.text, List.singleton_append, getopt_operand shortOptions h]
    rfl

theorem getopt_words (line : List (Word longOptions)) (words : List (List Char)) :
    getopt shortOptions longOptions (line.flatMap Word.text ++ words) =
      (line.flatMap Word.returned ++ (getopt shortOptions longOptions words).1,
        line.flatMap Word.operands ++ (getopt shortOptions longOptions words).2) := by
  induction line with
  | nil => rfl
  | cons word line ih =>
    rw [List.flatMap_cons, List.append_assoc, getopt_word, ih]
    simp

theorem getopt_doubleDash (words : List (List Char)) :
    getopt shortOptions longOptions (['-', '-'] :: words) = ([], words) := by
  rw [getopt]

end

/-- The returned options of a word that is none, or of letters behind a single dash. -/
def Failed (shortOptions : List Char) (returned : List Returned) : Prop :=
  returned ≠ [] ∧ ∀ r ∈ returned, r = unknown ∨ r.1 ∈ shortOptions ∧ r.2 = none

theorem failed_unknown (shortOptions : List Char) : Failed shortOptions [unknown] :=
  ⟨List.cons_ne_nil _ _, fun _ hmem => .inl (List.mem_singleton.1 hmem)⟩

theorem failed_scanShort (shortOptions : List Char) (letter : Char) (letters : List Char) :
    Failed shortOptions (scanShort shortOptions (letter :: letters)) := by
  refine ⟨List.cons_ne_nil _ _, fun r hmem => ?_⟩
  obtain ⟨letter, -, rfl⟩ := List.mem_map.1 hmem
  split
  · next hletter => exact .inr ⟨hletter, rfl⟩
  · exact .inl rfl

/-- A command line is empty, or it begins with a double dash, a word or something that fails. -/
@[elab_as_elim]
theorem line_induction (shortOptions : List Char) (longOptions : List LongOption)
    {motive : List (List Char) → Prop} (nil : motive [])
    (doubleDash : ∀ words, motive (['-', '-'] :: words))
    (word : ∀ (word : Word longOptions) (words : List (List Char)),
      motive words → motive (word.text ++ words))
    (failed : ∀ (text : List Char) (words : List (List Char)) (returned : List Returned),
      Failed shortOptions returned → getopt shortOptions longOptions (text :: words) =
        (returned ++ (getopt shortOptions longOptions words).1,
          (getopt shortOptions longOptions words).2) → motive words → motive (text :: words))
    (line : List (List Char)) : motive line := by
  induction line using getopt.induct longOptions with
  | case1 => exact nil
  | case2 words => exact doubleDash words
  | case3 text htext name argument hsplit words hlookup ih =>
    refine failed _ words [unknown] (failed_unknown _) ?_ ih
    rw [getopt]
    · simp [hsplit, hlookup]
    · exact htext
  | case4 text htext name option argument words hlookup hsplit ih =>
    by_cases harg : option.hasArg = true
    · obtain ⟨rfl, hname⟩ := eq_of_splitWord_some hsplit
      exact word (.joined ⟨name, option, hname, hlookup⟩ harg argument) words ih
    · refine failed _ words [unknown] (failed_unknown _) ?_ ih
      rw [getopt]
      · simp [hsplit, hlookup, harg]
      · exact htext
  | case5 text htext name option hlookup hsplit =>
    by_cases harg : option.hasArg = true
    · refine failed _ [] [unknown] (failed_unknown _) ?_ nil
      simp [getopt, hsplit, hlookup, harg]
    · obtain ⟨rfl, hname⟩ := eq_of_splitWord_none hsplit
      exact word (.flag ⟨text, option, hname, hlookup⟩ htext (by simpa using harg)) [] nil
  | case6 text htext name option next words hlookup harg hsplit ih =>
    obtain ⟨rfl, hname⟩ := eq_of_splitWord_none hsplit
    exact word (.separate ⟨text, option, hname, hlookup⟩ htext harg next) words ih
  | case7 text htext name option next words hlookup harg hsplit ih =>
    obtain ⟨rfl, hname⟩ := eq_of_splitWord_none hsplit
    exact word (.flag ⟨text, option, hname, hlookup⟩ htext (by simpa using harg)) (next :: words) ih
  | case8 letter letters words hdash hletter ih =>
    refine failed _ words _ (failed_scanShort _ letter letters) ?_ ih
    rw [getopt]
    all_goals assumption
  | case9 operand words hdash hlong hshort ih =>
    have hoperand : ∀ letters, operand = '-' :: letters → letters = [] := by
      rintro (_ | ⟨letter, letters⟩) heq
      · rfl
      · exact (hshort letter letters heq).elim
    exact word (.operand operand hoperand) words ih

/-- An option of the table, with an argument if it has one. -/
def Returns (longOptions : List LongOption) (returned : Returned) : Prop :=
  ∃ option ∈ longOptions, returned.1 = option.val ∧ returned.2.isSome = option.hasArg

theorem lookup_mem {longOptions : List LongOption} {name : List Char} {option : LongOption}
    (h : lookup longOptions name = some option) : option ∈ longOptions := by
  unfold lookup at h
  split at h
  · next hfound =>
    cases h
    exact List.mem_of_find?_eq_some hfound
  · split at h
    · cases h
    · next found others hfilter =>
      have hmem : found ∈ longOptions.filter (name <+: ·.name) :=
        hfilter ▸ List.mem_cons_self
      split at h
      · cases h
        exact List.mem_of_mem_filter hmem
      · cases h

theorem Word.returns {longOptions : List LongOption} (word : Word longOptions) :
    ∀ returned ∈ word.returned, Returns longOptions returned := by
  intro returned hmem
  cases word with
  | flag named hname h =>
    rw [List.mem_singleton.1 hmem]
    exact ⟨named.option, lookup_mem named.found, rfl, h.symm⟩
  | separate named hname h argument =>
    rw [List.mem_singleton.1 hmem]
    exact ⟨named.option, lookup_mem named.found, rfl, h.symm⟩
  | joined named h argument =>
    rw [List.mem_singleton.1 hmem]
    exact ⟨named.option, lookup_mem named.found, rfl, h.symm⟩
  | operand text h => cases hmem

/-- Whatever the command line is, a call returns an error, a short option or an option of the
table. -/
theorem getopt_returned (shortOptions : List Char) (longOptions : List LongOption)
    (line : List (List Char)) :
    ∀ returned ∈ (getopt shortOptions longOptions line).1, returned = unknown ∨
      returned.1 ∈ shortOptions ∧ returned.2 = none ∨ Returns longOptions returned := by
  induction line using line_induction shortOptions longOptions with
  | nil => simp [getopt]
  | doubleDash words => simp [getopt_doubleDash]
  | word word words ih =>
    rw [getopt_word]
    intro returned hmem
    rcases List.mem_append.1 hmem with hmem | hmem
    · exact .inr (.inr (word.returns returned hmem))
    · exact ih returned hmem
  | failed text words results hfailed hgetopt ih =>
    rw [hgetopt]
    intro returned hmem
    rcases List.mem_append.1 hmem with hmem | hmem
    · rcases hfailed.2 returned hmem with hunknown | hshort
      · exact .inl hunknown
      · exact .inr (.inl hshort)
    · exact ih returned hmem

/-- The command line is written word by word, with operands behind a double dash. -/
def Written (longOptions : List LongOption) (line : List (List Char)) : Prop :=
  ∃ (words : List (Word longOptions)) (rest : List (List Char)),
    line = words.flatMap Word.text ++ rest ∧
      (rest = [] ∨ ∃ operands, rest = ['-', '-'] :: operands)

/-- If a command line is not written, some call returns an error or a short option. -/
theorem exists_failed {shortOptions : List Char} {longOptions : List LongOption}
    {line : List (List Char)} (h : ¬ Written longOptions line) :
    ∃ returned ∈ (getopt shortOptions longOptions line).1,
      returned = unknown ∨ returned.1 ∈ shortOptions ∧ returned.2 = none := by
  induction line using line_induction shortOptions longOptions with
  | nil => exact absurd ⟨[], [], rfl, .inl rfl⟩ h
  | doubleDash words => exact absurd ⟨[], _, rfl, .inr ⟨words, rfl⟩⟩ h
  | word word words ih =>
    have hrest : ¬ Written longOptions words := by
      rintro ⟨line, rest, rfl, hrest⟩
      exact h ⟨word :: line, rest, by rw [List.flatMap_cons, List.append_assoc], hrest⟩
    obtain ⟨returned, hmem, hfailed⟩ := ih hrest
    rw [getopt_word]
    exact ⟨returned, List.mem_append_right _ hmem, hfailed⟩
  | failed text words results hfailed hgetopt ih =>
    obtain ⟨returned, hmem⟩ := List.exists_mem_of_ne_nil results hfailed.1
    rw [hgetopt]
    exact ⟨returned, List.mem_append_left _ hmem, hfailed.2 returned hmem⟩

end OsirisArm.Library.Getopt
