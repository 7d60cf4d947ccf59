import OsirisArm.FolderReport

/-! # The formatted report

The formatted folder has a file for every file of the output folder, in the order in which the
directory is read: the disassembly of the trigger, and for every line the disassembly of the reset
and its timing. The disassembler is a parameter.
-/

namespace OsirisArm
open Library

/-- What the disassembler says about an instruction. -/
structure DisasmInstruction where
  mnemonic : Text
  opStr : Text

def DisasmInstruction.text (instruction : DisasmInstruction) : Text :=
  instruction.mnemonic ++ ' ' :: instruction.opStr

def delimiter : Text := List.replicate 71 '='
def delimiter2 : Text := List.replicate 71 '-'

def triggerTitle : Text :=
  "=================== trigger/measurement instruction ===================".toList
def resetTitle : Text :=
  "========================== reset instructions =========================".toList

/-- A path is quoted when it is written to a stream. -/
def quotedPath (path : Text) : Text :=
  let quote := Char.ofNat 34
  let escape := Char.ofNat 92
  quote :: (path.flatMap fun c => if c = quote ∨ c = escape then [escape, c] else [c]) ++ [quote]

section
variable (disassemble : Bytes → List DisasmInstruction)

/-- The lines for a sequence; `failure` if nothing can be disassembled. -/
def disassembly (failure : Text) (bytes : Bytes) : List Text :=
  match disassemble bytes with
  | [] => [failure]
  | instructions => instructions.map DisasmInstruction.text

def formattedFilename (filename : Text) (uniqueIdx : ℕ) : Text :=
  let name := match disassemble (base64Decode filename) with
    | first :: _ => first.mnemonic ++ '_' :: first.opStr
    | [] => "disasm_err_".toList ++ filename
  name.map (fun c => if c = ' ' then '_' else c) ++ "---".toList ++ printInt uniqueIdx

def triggerLines (filename : Text) : List Text :=
  disassembly disassemble ("DISASM ERR(inst:".toList ++ quotedPath filename ++ [')'])
    (base64Decode filename)

def resetLines (reset : Text) : List Text :=
  disassembly disassemble ("DISASM ERR (inst: ".toList ++ reset ++ [')']) (base64Decode reset)

/-- A line without two fields is read past its end. -/
def formatLine (line : Text) : Except Stop (List Text) :=
  match splitString line ';' with
  | reset :: timing :: _ =>
    .ok (resetLines disassemble reset ++ ["TIMING: ".toList ++ timing, delimiter2])
  | _ => .error .undefinedBehaviour

def formatLines : List Text → Except Stop (List Text)
  | [] => .ok []
  | line :: lines => do
    let formatted ← formatLine disassemble line
    let rest ← formatLines lines
    return formatted ++ rest

/-- The lines of a formatted file. -/
def formatFile (filename content : Text) : Except Stop (List Text) := do
  let lines ← formatLines disassemble (readLines content)
  return [delimiter, triggerTitle, delimiter] ++ triggerLines disassemble filename ++
    [delimiter, resetTitle, delimiter] ++ lines

/-- The loop over the directory; a file whose path cannot be opened is not written. -/
def formatTriggerPairOutput : List (Text × Text) → ℕ → Folder → Except Stop Folder
  | [], _, formatted => .ok formatted
  | (filename, content) :: entries, uniqueIdx, formatted => do
    let lines ← formatFile disassemble filename content
    let formatted := match openedFile (formattedFilename disassemble filename uniqueIdx) with
      | some file => Function.update formatted file (some (fileText lines))
      | none => formatted
    formatTriggerPairOutput entries (uniqueIdx + 1) formatted

end

/-- A reset with its timing. -/
structure ReportEntry where
  reset : List Text
  timing : Text
  deriving DecidableEq

/-- The lines for the trigger and the entries of a formatted file. -/
def readReport (content : Text) : List Text × List ReportEntry :=
  let lines := (readLines content).drop 3
  let entries := splitString ((lines.dropWhile (· ≠ delimiter)).drop 3) delimiter2
  (lines.takeWhile (· ≠ delimiter), entries.dropLast.map fun entry =>
    ⟨entry.dropLast, (entry.getLast?.getD []).drop 8⟩)

/-- Mnemonics begin with a small letter; texts of the disassembler are parts of one line and contain
no path separator. -/
structure PlainDisassembler (disassemble : Bytes → List DisasmInstruction) : Prop where
  mnemonic : ∀ bytes, ∀ instruction ∈ disassemble bytes,
    ∃ first rest, instruction.mnemonic = first :: rest ∧ first.isLower = true
  newline : ∀ bytes, ∀ instruction ∈ disassemble bytes,
    '\n' ∉ instruction.mnemonic ∧ '\n' ∉ instruction.opStr
  separator : ∀ bytes, ∀ instruction ∈ disassemble bytes,
    '/' ∉ instruction.mnemonic ∧ '/' ∉ instruction.opStr

/-- A line that is neither a delimiter nor more than one line. -/
structure Inner (line : Text) : Prop where
  newline : '\n' ∉ line
  head : ∃ first rest, line = first :: rest ∧ first ≠ '=' ∧ first ≠ '-'

theorem Inner.ne_delimiter {line : Text} (h : Inner line) : line ≠ delimiter := by
  obtain ⟨first, rest, rfl, hfirst, -⟩ := h.head
  intro hline
  exact hfirst (List.cons.inj hline).1

theorem Inner.ne_delimiter2 {line : Text} (h : Inner line) : line ≠ delimiter2 := by
  obtain ⟨first, rest, rfl, -, hfirst⟩ := h.head
  intro hline
  exact hfirst (List.cons.inj hline).1

section
variable {disassemble : Bytes → List DisasmInstruction}

theorem inner_text (h : PlainDisassembler disassemble) {bytes : Bytes}
    {instruction : DisasmInstruction} (hmem : instruction ∈ disassemble bytes) :
    Inner instruction.text := by
  obtain ⟨first, rest, hmnemonic, hlower⟩ := h.mnemonic bytes instruction hmem
  obtain ⟨hline, hline'⟩ := h.newline bytes instruction hmem
  constructor
  · rw [DisasmInstruction.text, List.mem_append, List.mem_cons, not_or, not_or]
    exact ⟨hline, by decide, hline'⟩
  · refine ⟨first, rest ++ ' ' :: instruction.opStr, ?_, ?_, ?_⟩
    · rw [DisasmInstruction.text, hmnemonic, List.cons_append]
    all_goals
      rintro rfl
      revert hlower
      decide

/-- All lines for a sequence are inner lines, if the failure message is one. -/
theorem inner_disassembly (h : PlainDisassembler disassemble) {failure : Text}
    (hfailure : Inner failure) (bytes : Bytes) :
    ∀ line ∈ disassembly disassemble failure bytes, Inner line := by
  intro line hline
  unfold disassembly at hline
  split at hline
  · rw [List.mem_singleton.1 hline]
    exact hfailure
  · obtain ⟨instruction, hinstruction, rfl⟩ := List.mem_map.1 hline
    exact inner_text h hinstruction

theorem inner_failure {first : Char} {start : Text} {name : Text} (hfirst : first ≠ '=')
    (hfirst' : first ≠ '-') (hstart : '\n' ∉ first :: start) (hname : '\n' ∉ name) :
    Inner ((first :: start) ++ name ++ [')']) := by
  constructor
  · simp only [List.mem_append, List.mem_singleton, not_or]
    exact ⟨⟨hstart, hname⟩, by decide⟩
  · exact ⟨first, _, by rw [List.append_assoc, List.cons_append], hfirst, hfirst'⟩

theorem newline_quotedPath {path : Text} (h : '\n' ∉ path) : '\n' ∉ quotedPath path := by
  simp only [quotedPath, List.mem_append, List.mem_cons, List.mem_flatMap, List.not_mem_nil,
    or_false, not_or, not_exists, not_and]
  refine ⟨⟨by decide, fun c hc hmem => ?_⟩, by decide⟩
  split at hmem
  · simp only [List.mem_cons, List.not_mem_nil, or_false] at hmem
    rcases hmem with hescape | rfl
    · revert hescape
      decide
    · exact h hc
  · rw [List.mem_singleton] at hmem
    exact h (hmem ▸ hc)

/-- The entry that is written for a line of the report. -/
def ReportLine.entry (disassemble : Bytes → List DisasmInstruction) (line : ReportLine) :
    ReportEntry :=
  ⟨resetLines disassemble (base64Encode line.reset), printInt line.timing⟩

def ReportEntry.lines (entry : ReportEntry) : List Text :=
  entry.reset ++ ["TIMING: ".toList ++ entry.timing]

theorem formatLines_reportLines (lines : List ReportLine) :
    formatLines disassemble (lines.map ReportLine.text) =
      .ok ((lines.map fun line => (line.entry disassemble).lines).flatMap (· ++ [delimiter2])) := by
  induction lines with
  | nil => rfl
  | cons line lines ih =>
    have hreset : ';' ∉ base64Encode line.reset := fun hmem => (base64Encode_plain hmem).1 rfl
    have htiming : ';' ∉ printInt line.timing := fun hmem => (printInt_plain hmem).1 rfl
    have hsplit : splitString line.text ';' = [base64Encode line.reset, printInt line.timing] := by
      rw [ReportLine.text, splitString_append, splitString_of_not_mem hreset,
        splitString_of_not_mem htiming]
      rfl
    have hline : formatLine disassemble line.text =
        .ok ((line.entry disassemble).lines ++ [delimiter2]) := by
      simp [formatLine, hsplit, ReportLine.entry, ReportEntry.lines]
    rw [List.map_cons, formatLines, hline, ih]
    rfl

/-- What is written for a file of the output folder. -/
def formattedLines (disassemble : Bytes → List DisasmInstruction) (filename : Text)
    (lines : List ReportLine) : List Text :=
  [delimiter, triggerTitle, delimiter] ++ triggerLines disassemble filename ++
    [delimiter, resetTitle, delimiter] ++
      (lines.map fun line => (line.entry disassemble).lines).flatMap (· ++ [delimiter2])

theorem formatFile_reportLines (filename : Text) (lines : List ReportLine) :
    formatFile disassemble filename (fileText (lines.map ReportLine.text)) =
      .ok (formattedLines disassemble filename lines) := by
  have hplain : ∀ line ∈ lines.map ReportLine.text, '\n' ∉ line := by
    intro line hline
    obtain ⟨reportLine, -, rfl⟩ := List.mem_map.1 hline
    exact reportLine.text_no_newline
  rw [formatFile, readLines_fileText hplain, formatLines_reportLines]
  rfl

variable (h : PlainDisassembler disassemble)
include h

theorem inner_triggerLines {filename : Text} (hfilename : '\n' ∉ filename) :
    ∀ line ∈ triggerLines disassemble filename, Inner line :=
  inner_disassembly h (inner_failure (by decide) (by decide) (by decide)
    (newline_quotedPath hfilename)) _

theorem inner_entry (line : ReportLine) :
    ∀ inner ∈ (line.entry disassemble).lines, Inner inner := by
  have hreset : '\n' ∉ base64Encode line.reset := fun hmem => (base64Encode_plain hmem).2 rfl
  have htiming : '\n' ∉ printInt line.timing := fun hmem => (printInt_plain hmem).2 rfl
  intro inner hinner
  rw [ReportEntry.lines, List.mem_append, List.mem_singleton] at hinner
  rcases hinner with hinner | rfl
  · exact inner_disassembly h (inner_failure (by decide) (by decide) (by decide) hreset) _ inner
      hinner
  · constructor
    · rw [List.mem_append, not_or]
      exact ⟨by decide, htiming⟩
    · exact ⟨'T', _, rfl, by decide, by decide⟩

theorem newline_formattedLines {filename : Text} (hfilename : '\n' ∉ filename)
    (lines : List ReportLine) :
    ∀ line ∈ formattedLines disassemble filename lines, '\n' ∉ line := by
  have hdelimiter : '\n' ∉ delimiter := by decide
  have hdelimiter2 : '\n' ∉ delimiter2 := by decide
  have htriggerTitle : '\n' ∉ triggerTitle := by decide
  have hresetTitle : '\n' ∉ resetTitle := by decide
  have hentries : ∀ line ∈ (lines.map fun line => (line.entry disassemble).lines).flatMap
      (· ++ [delimiter2]), '\n' ∉ line := by
    intro line hline
    obtain ⟨piece, hpiece, hline⟩ := List.mem_flatMap.1 hline
    obtain ⟨reportLine, -, rfl⟩ := List.mem_map.1 hpiece
    rcases List.mem_append.1 hline with hline | hline
    · exact (inner_entry h reportLine line hline).newline
    · rw [List.mem_singleton.1 hline]
      exact hdelimiter2
  simp only [formattedLines, List.forall_mem_append, List.forall_mem_cons]
  exact ⟨⟨⟨⟨hdelimiter, htriggerTitle, hdelimiter, by simp⟩,
    fun line hline => (inner_triggerLines h hfilename line hline).newline⟩,
    hdelimiter, hresetTitle, hdelimiter, by simp⟩, hentries⟩

/-- The trigger and the entries are read back from the formatted file. -/
theorem readReport_formattedLines {filename : Text} (hfilename : '\n' ∉ filename)
    (lines : List ReportLine) :
    readReport (fileText (formattedLines disassemble filename lines)) =
      (triggerLines disassemble filename, lines.map (ReportLine.entry disassemble)) := by
  have htrigger : ∀ line ∈ triggerLines disassemble filename, decide (line ≠ delimiter) = true :=
    fun line hline => decide_eq_true (inner_triggerLines h hfilename line hline).ne_delimiter
  have hentries : ∀ piece ∈ lines.map fun line => (line.entry disassemble).lines,
      delimiter2 ∉ piece := by
    intro piece hpiece
    obtain ⟨line, -, rfl⟩ := List.mem_map.1 hpiece
    exact fun hmem => (inner_entry h line _ hmem).ne_delimiter2 rfl
  rw [readReport, readLines_fileText (newline_formattedLines h hfilename lines)]
  set entries := (lines.map fun line => (line.entry disassemble).lines).flatMap (· ++ [delimiter2])
    with hset
  have hdrop : (formattedLines disassemble filename lines).drop 3 =
      triggerLines disassemble filename ++ delimiter :: resetTitle :: delimiter :: entries := by
    simp [formattedLines, hset]
  rw [hdrop, List.takeWhile_append_of_pos htrigger, List.dropWhile_append_of_pos htrigger,
    List.takeWhile_cons_of_neg (by simp), List.dropWhile_cons_of_neg (by simp), List.append_nil]
  refine Prod.ext rfl ?_
  change (splitString entries delimiter2).dropLast.map _ = _
  rw [splitString_eq_splitOn, hset, splitOn_ended hentries, List.dropLast_concat, List.map_map]
  refine List.map_congr_left fun line _ => ?_
  simp [ReportEntry.lines, ReportLine.entry]

end

section
variable {disassemble : Bytes → List DisasmInstruction}

theorem dash_printInt_natCast (n : ℕ) : '-' ∉ printInt n := by
  have hnonneg : ¬ ((n : ℤ) < 0) := by omega
  rw [printInt, if_neg hnonneg]
  intro hmem
  obtain ⟨d, hd, hdash⟩ := mem_toDigits (by decide) hmem
  revert hdash
  revert d
  decide

theorem formattedFilename_idx {filename filename' : Text} {i j : ℕ}
    (h : formattedFilename disassemble filename i = formattedFilename disassemble filename' j) :
    i = j := by
  have hlast (filename : Text) (i : ℕ) : ∃ start,
      (formattedFilename disassemble filename i).reverse =
        (printInt i).reverse ++ '-' :: start := by
    rw [formattedFilename, List.reverse_append, List.reverse_append]
    exact ⟨'-' :: '-' :: _, rfl⟩
  have hdash (n : ℕ) : '-' ∉ (printInt n).reverse := by
    rw [List.mem_reverse]
    exact dash_printInt_natCast n
  obtain ⟨start, hstart⟩ := hlast filename i
  obtain ⟨start', hstart'⟩ := hlast filename' j
  rw [h, hstart'] at hstart
  have hpieces := congrArg (List.splitOn '-') hstart
  rw [List.splitOn_append_cons_self_of_not_mem (hdash j),
    List.splitOn_append_cons_self_of_not_mem (hdash i)] at hpieces
  have hread := strtol_printInt i
  rw [← List.reverse_injective (List.cons.inj hpieces).1, strtol_printInt] at hread
  exact_mod_cast (Option.some.inj hread).symm

/-- The name of a formatted file can be created as it stands. -/
theorem openedFile_formattedFilename (h : PlainDisassembler disassemble) {filename : Text}
    (hfilename : '/' ∉ filename) (i : ℕ) :
    openedFile (formattedFilename disassemble filename i) =
      some (formattedFilename disassemble filename i) := by
  have hdigits : '/' ∉ printInt (i : ℤ) := by
    have hnonneg : ¬ ((i : ℤ) < 0) := by omega
    rw [printInt, if_neg hnonneg]
    intro hmem
    obtain ⟨d, hd, hslash⟩ := mem_toDigits (by decide) hmem
    revert hslash
    revert d
    decide
  have hreplaced {name : Text} (hname : '/' ∉ name) :
      '/' ∉ name.map fun c => if c = ' ' then '_' else c := by
    intro hmem
    obtain ⟨c, hc, hslash⟩ := List.mem_map.1 hmem
    split at hslash
    · revert hslash
      decide
    · exact hname (hslash ▸ hc)
  apply openedFile_plain
  · simp [formattedFilename]
  · rw [formattedFilename, List.mem_append, List.mem_append, not_or, not_or]
    refine ⟨⟨hreplaced ?_, by decide⟩, hdigits⟩
    split
    · next first _ hdisassembled =>
      have hplain := h.separator (base64Decode filename) first (by simp [hdisassembled])
      rw [List.mem_append, List.mem_cons, not_or, not_or]
      exact ⟨hplain.1, by decide, hplain.2⟩
    · rw [List.mem_append, not_or]
      exact ⟨by decide, hfilename⟩

/-- The directory, read in some order. -/
structure Lists (folder : Folder) (entries : List (Text × Text)) : Prop where
  nodup : (entries.map Prod.fst).Nodup
  mem : ∀ name text, folder name = some text ↔ (name, text) ∈ entries

/-- A file with report lines, whose name can be created and is one line. -/
def IsReport (entry : Text × Text) : Prop :=
  '/' ∉ entry.1 ∧ '\n' ∉ entry.1 ∧ ∃ lines : List ReportLine,
    entry.2 = fileText (lines.map ReportLine.text)

theorem ReportLine.text_injective : Function.Injective ReportLine.text := by
  intro line line' h
  have htiming := ReportLine.timing_eq h
  rw [ReportLine.text, ReportLine.text, htiming, List.append_left_inj] at h
  have hreset := base64Encode_injective h
  cases line
  cases line'
  cases hreset
  cases htiming
  rfl

theorem reportLines_eq {lines lines' : List ReportLine}
    (h : fileText (lines.map ReportLine.text) = fileText (lines'.map ReportLine.text)) :
    lines = lines' := by
  have hplain (lines : List ReportLine) : ∀ line ∈ lines.map ReportLine.text, '\n' ∉ line := by
    intro line hline
    obtain ⟨reportLine, -, rfl⟩ := List.mem_map.1 hline
    exact reportLine.text_no_newline
  have hlines := congrArg readLines h
  rw [readLines_fileText (hplain lines), readLines_fileText (hplain lines')] at hlines
  exact List.map_injective_iff.2 ReportLine.text_injective hlines

theorem formatTriggerPairOutput_reports (h : PlainDisassembler disassemble)
    {entries : List (Text × Text)} (hentries : ∀ entry ∈ entries, IsReport entry) (uniqueIdx : ℕ)
    (formatted : Folder) :
    ∃ result, formatTriggerPairOutput disassemble entries uniqueIdx formatted = .ok result ∧
      (∀ i (hi : i < entries.length) (lines : List ReportLine),
        entries[i].2 = fileText (lines.map ReportLine.text) →
        result (formattedFilename disassemble entries[i].1 (uniqueIdx + i)) =
          some (fileText (formattedLines disassemble entries[i].1 lines))) ∧
      ∀ file, (∀ i (hi : i < entries.length),
        file ≠ formattedFilename disassemble entries[i].1 (uniqueIdx + i)) →
          result file = formatted file := by
  induction entries generalizing uniqueIdx formatted with
  | nil => exact ⟨formatted, rfl, fun i hi => absurd hi (Nat.not_lt_zero i), fun _ _ => rfl⟩
  | cons entry entries ih =>
    obtain ⟨filename, content⟩ := entry
    rw [List.forall_mem_cons] at hentries
    obtain ⟨⟨hseparator, -, lines, hlines⟩, hentries⟩ := hentries
    obtain rfl : content = fileText (lines.map ReportLine.text) := hlines
    have hopened := openedFile_formattedFilename h hseparator uniqueIdx
    set name := formattedFilename disassemble filename uniqueIdx with hname
    obtain ⟨result, hresult, hwritten, hothers⟩ := ih hentries (uniqueIdx + 1)
      (Function.update formatted name
        (some (fileText (formattedLines disassemble filename lines))))
    have hindex (i : ℕ) : uniqueIdx + 1 + i = uniqueIdx + (i + 1) := by omega
    have hlater : ∀ i (hi : i < entries.length),
        name ≠ formattedFilename disassemble entries[i].1 (uniqueIdx + 1 + i) := by
      intro i hi hsame
      have hidx := formattedFilename_idx hsame
      omega
    refine ⟨result, ?_, ?_, ?_⟩
    · simp only [formatTriggerPairOutput, formatFile_reportLines, ← hname, hopened]
      exact hresult
    · intro i hi lines' hlines'
      cases i with
      | zero =>
        have hsame := hothers name hlater
        rw [Function.update_self] at hsame
        obtain rfl := reportLines_eq hlines'
        exact hsame
      | succ i =>
        have hlater' := hwritten i (by simpa using hi) lines' hlines'
        rw [hindex] at hlater'
        exact hlater'
    · intro file hfile
      have hne : file ≠ name := hfile 0 (by simp)
      rw [hothers file fun i hi => ?_, Function.update_of_ne hne]
      rw [hindex]
      exact hfile (i + 1) (by simpa using hi)

end

/-- The characters of a file name are those of the path that was opened. -/
theorem mem_of_openedFile {path file : Text} (h : openedFile path = some file) {c : Char}
    (hc : c ∈ file) : c ∈ path := by
  unfold openedFile at h
  split at h
  · cases h
  · split at h
    · next component hcomponents =>
      obtain rfl := Option.some.inj h
      have hmem : component ∈ (path.splitOn '/').filter (· ≠ []) := by
        rw [hcomponents]
        exact List.mem_singleton_self _
      rw [← splitString_eq_splitOn, List.mem_filter] at hmem
      exact mem_of_mem_splitString hmem.1 hc
    · cases h

theorem isReport_of_outputFolder {outputs : List SearchOutput} {name text : Text}
    (h : outputFolder outputs name = some text) : IsReport (name, text) := by
  have hstep (folder : Folder) (output : SearchOutput)
      (hfolder : ∀ name text, folder name = some text → IsReport (name, text)) :
      ∀ name text, folder.write output name = some text → IsReport (name, text) := by
    intro name text hwritten
    cases output with
    | csvRow row => exact hfolder name text hwritten
    | instructionFile trigger lines =>
      by_cases hopened : openedFile (base64Encode trigger.byteRepresentation) = some name
      · rw [Folder.write, folder.writeInstructionFile_opened trigger lines hopened] at hwritten
        refine ⟨(openedFile_some hopened).2, fun hmem => ?_, lines, (Option.some.inj hwritten).symm⟩
        exact (base64Encode_plain (mem_of_openedFile hopened hmem)).2 rfl
      · rw [Folder.write, folder.writeInstructionFile_other trigger lines hopened] at hwritten
        exact hfolder name text hwritten
  have hfold (outputs : List SearchOutput) (folder : Folder)
      (hfolder : ∀ name text, folder name = some text → IsReport (name, text)) :
      ∀ name text, outputs.foldl Folder.write folder name = some text → IsReport (name, text) := by
    induction outputs generalizing folder with
    | nil => exact hfolder
    | cons output outputs ih => exact ih _ (hstep folder output hfolder)
  exact hfold outputs _ (fun _ _ hnone => by cases hnone) name text h

theorem Lists.index {folder : Folder} {entries : List (Text × Text)} (h : Lists folder entries)
    {name text : Text} (hname : folder name = some text) :
    ∃ i, ∃ hi : i < entries.length, entries[i] = (name, text) ∧
      ∀ j (hj : j < entries.length), entries[j].1 = name → j = i := by
  obtain ⟨i, hi, hentry⟩ := List.mem_iff_getElem.1 ((h.mem name text).1 hname)
  refine ⟨i, hi, hentry, fun j hj hsame => ?_⟩
  have hnames : (entries.map Prod.fst).get ⟨j, by simpa using hj⟩ =
      (entries.map Prod.fst).get ⟨i, by simpa using hi⟩ := by
    simp [hsame, hentry]
  exact congrArg Fin.val (List.nodup_iff_injective_get.1 h.nodup hnames)

/-- The folder of any search that ends, read in any order: the formatted folder has one file for
each file of the folder and no others, under different names. If the instruction list is
reportable, each trigger with rows in the result file has exactly one of these files, and the
disassembly of the trigger and, in the order of the rows, that of the resets with their timings are
read back from it. -/
theorem formattedReport_complete {σ : Type} {api : ExecutorApi σ} {codeGenerator : CodeGenerator}
    {speculation : Bool} {negativeThreshold positiveThreshold : ℤ} {s s' : σ}
    {disassemble : Bytes → List DisasmInstruction} (hdisassemble : PlainDisassembler disassemble)
    (hend : (findAndOutputTriggerpairsWithTriggerEqualsMeasurement api codeGenerator speculation
      negativeThreshold positiveThreshold s).outcome = .ok s')
    {entries : List (Text × Text)}
    (hentries : Lists (outputFolder (findAndOutputTriggerpairsWithTriggerEqualsMeasurement api
      codeGenerator speculation negativeThreshold positiveThreshold s).written) entries) :
    ∃ formatted, formatTriggerPairOutput disassemble entries 0 (fun _ => none) = .ok formatted ∧
      (∀ file, formatted file ≠ none ↔ ∃ i, ∃ hi : i < entries.length,
        file = formattedFilename disassemble entries[i].1 i) ∧
      (∀ i j (hi : i < entries.length) (hj : j < entries.length),
        formattedFilename disassemble entries[i].1 i =
          formattedFilename disassemble entries[j].1 j → i = j) ∧
      (Reportable codeGenerator.instructionList → ∀ trigger,
        let rows := rowsOf trigger (findAndOutputTriggerpairsWithTriggerEqualsMeasurement api
          codeGenerator speculation negativeThreshold positiveThreshold s).written
        rows ≠ [] → ∃ i, ∃ hi : i < entries.length,
          (∀ j (hj : j < entries.length),
            entries[j].1 = base64Encode trigger.byteRepresentation ↔ j = i) ∧
          ∃ text, formatted (formattedFilename disassemble entries[i].1 i) = some text ∧
            readReport text = (triggerLines disassemble (base64Encode trigger.byteRepresentation),
              rows.map fun row => row.reportLine.entry disassemble)) := by
  have hreports : ∀ entry ∈ entries, IsReport entry := fun entry hentry =>
    isReport_of_outputFolder ((hentries.mem entry.1 entry.2).2 hentry)
  obtain ⟨formatted, hformatted, hwritten, hothers⟩ :=
    formatTriggerPairOutput_reports hdisassemble hreports 0 fun _ => none
  simp only [Nat.zero_add] at hwritten hothers
  refine ⟨formatted, hformatted, fun file => ⟨fun hfile => ?_, ?_⟩,
    fun i j hi hj hsame => formattedFilename_idx hsame, fun hreportable trigger => ?_⟩
  · by_contra hnone
    exact hfile (hothers file fun i hi hsame => hnone ⟨i, hi, hsame⟩)
  · rintro ⟨i, hi, rfl⟩
    obtain ⟨-, -, lines, hlines⟩ := hreports entries[i] (List.getElem_mem hi)
    rw [hwritten i hi lines hlines]
    exact Option.some_ne_none _
  · intro rows hrows
    obtain ⟨blocks, hblocks, htriggers, -, -⟩ := search_blocks (fun _ => 0)
      (fun _ _ _ => True) (fun _ _ _ _ _ => ⟨le_rfl, trivial⟩) hend
    have hcomplete : FolderComplete (blocks.flatMap Block.outputs) := by
      apply folderComplete_of_blocks
      · rw [htriggers]
        exact CodeGenerator.instructionList_nodup
      · rw [htriggers]
        exact hreportable
    rw [← hblocks] at hcomplete
    obtain ⟨i, hi, hentry, honly⟩ := hentries.index (hcomplete trigger hrows).1
    have hname : entries[i].1 = base64Encode trigger.byteRepresentation := by rw [hentry]
    have hlines : entries[i].2 =
        fileText ((rows.map ResultRow.reportLine).map ReportLine.text) := by
      rw [hentry, List.map_map]
      rfl
    have hline : '\n' ∉ base64Encode trigger.byteRepresentation :=
      fun hmem => (base64Encode_plain hmem).2 rfl
    refine ⟨i, hi, fun j hj => ⟨honly j hj, fun hsame => by subst hsame; exact hname⟩, _,
      hwritten i hi _ hlines, ?_⟩
    rw [hname, readReport_formattedLines hdisassemble hline, List.map_map]
    rfl

def nopInstruction : X86Instruction := instructionAt 0 (instNop, "NOP".toList)

def isbInstruction : X86Instruction := instructionAt 1 (instIsbSy, "ISB".toList)

/-- What is opened is a disassembler for the 32-bit instruction set, where the bytes of these A64
instructions are conditional stores. -/
def armDisassembler (bytes : Bytes) : List DisasmInstruction :=
  if bytes = instNop then [⟨"strle".toList, "r2, [r3, #-0x1f]".toList⟩]
  else if bytes = instIsbSy then [⟨"strle".toList, "r3, [r3, #-0xfdf]".toList⟩]
  else []

theorem plain_armDisassembler : PlainDisassembler armDisassembler := by
  have hstore (bytes : Bytes) (instruction : DisasmInstruction)
      (h : instruction ∈ armDisassembler bytes) :
      instruction = ⟨"strle".toList, "r2, [r3, #-0x1f]".toList⟩ ∨
        instruction = ⟨"strle".toList, "r3, [r3, #-0xfdf]".toList⟩ := by
    unfold armDisassembler at h
    split at h
    · exact .inl (List.mem_singleton.1 h)
    · split at h
      · exact .inr (List.mem_singleton.1 h)
      · cases h
  constructor
  all_goals
    intro bytes instruction h
    obtain rfl | rfl := hstore bytes instruction h
  · exact ⟨'s', ['t', 'r', 'l', 'e'], rfl, rfl⟩
  · exact ⟨'s', ['t', 'r', 'l', 'e'], rfl, rfl⟩
  all_goals exact ⟨by decide, by decide⟩

theorem search_twoInstructions :
    findAndOutputTriggerpairsWithTriggerEqualsMeasurement countingApi twoInstructions false
        (-50) 50 0 =
      ⟨[.csvRow ⟨51, nopInstruction, nopInstruction, nopInstruction⟩,
        .csvRow ⟨52, nopInstruction, nopInstruction, isbInstruction⟩,
        .instructionFile nopInstruction [⟨instNop, 51⟩, ⟨instIsbSy, 52⟩],
        .csvRow ⟨53, isbInstruction, isbInstruction, nopInstruction⟩,
        .csvRow ⟨54, isbInstruction, isbInstruction, isbInstruction⟩,
        .instructionFile isbInstruction [⟨instNop, 53⟩, ⟨instIsbSy, 54⟩]], .ok 4⟩ := by
  have hlist : twoInstructions.instructionList = [nopInstruction, isbInstruction] := rfl
  have hnop : nopInstruction.isSleep = false := by decide
  have hisb : isbInstruction.isSleep = false := by decide
  rw [findAndOutputTriggerpairsWithTriggerEqualsMeasurement,
    twoInstructions.forEachInstruction_eq, hlist]
  simp [hnop, hisb, hlist, searchTrigger, twoInstructions.forEachInstruction_eq,
    searchReset_counting, Emission.forEach, Emission.write, Emission.bind, Emission.pure]
  decide

/-- The reports of the two triggers. -/
def nopReport : Text :=
  fileText [(⟨instNop, 51⟩ : ReportLine).text, (⟨instIsbSy, 52⟩ : ReportLine).text]

def isbReport : Text :=
  fileText [(⟨instNop, 53⟩ : ReportLine).text, (⟨instIsbSy, 54⟩ : ReportLine).text]

theorem lists_twoInstructions : Lists (outputFolder
    (findAndOutputTriggerpairsWithTriggerEqualsMeasurement countingApi twoInstructions false
      (-50) 50 0).written)
    [(base64Encode instIsbSy, isbReport), (base64Encode instNop, nopReport)] := by
  have hnop : openedFile (base64Encode nopInstruction.byteRepresentation) =
      some (base64Encode instNop) := openedFile_plain (by decide) (by decide)
  have hisb : openedFile (base64Encode isbInstruction.byteRepresentation) =
      some (base64Encode instIsbSy) := openedFile_plain (by decide) (by decide)
  have hne : base64Encode instIsbSy ≠ base64Encode instNop := by decide
  have hfolder : outputFolder (findAndOutputTriggerpairsWithTriggerEqualsMeasurement
      countingApi twoInstructions false (-50) 50 0).written =
        Function.update (Function.update (fun _ => none) (base64Encode instNop) (some nopReport))
          (base64Encode instIsbSy) (some isbReport) := by
    simp only [search_twoInstructions, outputFolder, List.foldl_cons, List.foldl_nil,
      Folder.write, Folder.writeInstructionFile, hnop, hisb, List.map_cons, List.map_nil]
    rfl
  rw [hfolder]
  constructor
  · simp [hne]
  · intro name text
    by_cases hname : name = base64Encode instIsbSy
    · simp [hname, hne, eq_comm]
    · by_cases hname' : name = base64Encode instNop
      · subst hname'
        rw [Function.update_of_ne hname, Function.update_self]
        simp only [Option.some.injEq, List.mem_cons, Prod.mk.injEq, hname, false_and, true_and,
          false_or, List.not_mem_nil, or_false]
        exact eq_comm
      · simp [hname, hname']

theorem reportable_twoInstructions : Reportable twoInstructions.instructionList :=
  ⟨by decide, by decide⟩

/-- The directory is read in another order than it was written. -/
theorem formattedReport_complete_nop :
    ∃ formatted file text,
      formatTriggerPairOutput armDisassembler
          [(base64Encode instIsbSy, isbReport), (base64Encode instNop, nopReport)] 0
          (fun _ => none) = .ok formatted ∧
        formatted file = some text ∧
        readReport text = (["strle r2, [r3, #-0x1f]".toList],
          [⟨["strle r2, [r3, #-0x1f]".toList], "51".toList⟩,
            ⟨["strle r3, [r3, #-0xfdf]".toList], "52".toList⟩]) := by
  have hend : (findAndOutputTriggerpairsWithTriggerEqualsMeasurement countingApi twoInstructions
      false (-50) 50 0).outcome = .ok 4 := by rw [search_twoInstructions]
  obtain ⟨formatted, hformatted, -, -, hrows⟩ :=
    formattedReport_complete plain_armDisassembler hend lists_twoInstructions
  have hrow : rowsOf nopInstruction (findAndOutputTriggerpairsWithTriggerEqualsMeasurement
      countingApi twoInstructions false (-50) 50 0).written =
        [⟨51, nopInstruction, nopInstruction, nopInstruction⟩,
          ⟨52, nopInstruction, nopInstruction, isbInstruction⟩] := by
    rw [search_twoInstructions]
    decide
  obtain ⟨i, hi, -, text, htext, hread⟩ := hrows reportable_twoInstructions nopInstruction
    (by rw [hrow]; exact List.cons_ne_nil _ _)
  rw [hrow] at hread
  exact ⟨formatted, _, text, hformatted, htext, hread⟩

end OsirisArm
