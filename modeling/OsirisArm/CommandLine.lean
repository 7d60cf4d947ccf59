import OsirisArm.Library.Getopt
import OsirisArm.Utils

/-! # The command line

The options of the program and what is made of them. The order of options and operands does not
matter, long options may be abbreviated, and of several filter arguments the last one counts.
-/

namespace OsirisArm
open Library.Getopt

def longOptions : List LongOption :=
  [⟨"cleanup".toList, false, 'c'⟩, ⟨"all".toList, false, 'a'⟩,
    ⟨"speculation".toList, false, 's'⟩, ⟨"filter".toList, true, 'f'⟩,
    ⟨"confirm".toList, false, '1'⟩]

structure CommandLineArguments where
  cleanup : Bool := false
  all : Bool := false
  speculationTrigger : Bool := false
  filter : Bool := false
  filenameFilter : Text := []
  confirm : Bool := false
  filenameConfirmInput : Text := []
  filenameConfirmOutput : Text := []
  deriving DecidableEq

/-- The switch in the loop; for a help option and for errors the usage is printed. -/
def CommandLineArguments.take (arguments : CommandLineArguments) :
    Returned → Except Stop CommandLineArguments
  | ('0', _) => .ok arguments
  | ('c', _) => .ok { arguments with cleanup := true }
  | ('a', _) => .ok { arguments with all := true }
  | ('s', _) => .ok { arguments with speculationTrigger := true }
  | ('1', _) => .ok { arguments with confirm := true }
  | ('f', some optarg) => .ok { arguments with filter := true, filenameFilter := optarg }
  | ('f', none) => .error .undefinedBehaviour
  | ('h', _) | ('?', _) | (':', _) => .error (.exit 0)
  | _ => .error (.exit 1)

def parseArguments (argv : List Text) : Except Stop CommandLineArguments := do
  let (returned, operands) := getopt ['h'] longOptions argv
  let arguments ← returned.foldlM CommandLineArguments.take {}
  if arguments.confirm then
    match operands with
    | input :: output :: _ =>
      return { arguments with filenameConfirmInput := input, filenameConfirmOutput := output }
    | _ => .error (.exit 1)
  else return arguments

/-- A command line: words, and operands behind a double dash. -/
structure CommandLine where
  words : List (Word longOptions)
  behind : Option (List Text)

/-- The options that are given at least once, and the last filter argument. -/
def givenOptions (returned : List Returned) : CommandLineArguments where
  cleanup := returned.any (·.1 = 'c')
  all := returned.any (·.1 = 'a')
  speculationTrigger := returned.any (·.1 = 's')
  filter := returned.any (·.1 = 'f')
  filenameFilter := (returned.filterMap (·.2)).getLast?.getD []
  confirm := returned.any (·.1 = '1')

namespace CommandLine
variable (commandLine : CommandLine)

def argv : List Text :=
  commandLine.words.flatMap Word.text ++
    match commandLine.behind with
    | some operands => "--".toList :: operands
    | none => []

def returned : List Returned := commandLine.words.flatMap Word.returned

def operands : List Text :=
  commandLine.words.flatMap Word.operands ++ commandLine.behind.getD []

theorem getopt_argv : getopt ['h'] longOptions commandLine.argv =
    (commandLine.returned, commandLine.operands) := by
  rw [argv, getopt_words, returned, operands]
  cases commandLine.behind with
  | none => simp [getopt]
  | some operands => simp [getopt]

end CommandLine

theorem take_givenOptions {returned : List Returned} {next : Returned}
    (h : Returns longOptions next) :
    (givenOptions returned).take next = .ok (givenOptions (returned ++ [next])) := by
  obtain ⟨c, optarg⟩ := next
  obtain ⟨option, hoption, rfl, harg⟩ := h
  simp only [longOptions, List.mem_cons, List.not_mem_nil, or_false] at hoption
  rcases hoption with rfl | rfl | rfl | rfl | rfl
  all_goals
    cases optarg <;> simp_all [givenOptions, CommandLineArguments.take]

/-- No option of the table is a help option or an error. -/
theorem not_failed_of_returns {returned : Returned} (h : Returns longOptions returned) :
    ¬ (returned = unknown ∨ returned.1 ∈ ['h'] ∧ returned.2 = none) := by
  obtain ⟨c, optarg⟩ := returned
  obtain ⟨option, hoption, rfl, -⟩ := h
  simp only [longOptions, List.mem_cons, List.not_mem_nil, or_false] at hoption
  rcases hoption with rfl | rfl | rfl | rfl | rfl
  all_goals simp [unknown]

theorem foldlM_take {returned : List Returned} (h : ∀ r ∈ returned, Returns longOptions r)
    (before : List Returned) :
    returned.foldlM CommandLineArguments.take (givenOptions before) =
      .ok (givenOptions (before ++ returned)) := by
  induction returned generalizing before with
  | nil => rw [List.append_nil]; rfl
  | cons next returned ih =>
    rw [List.foldlM_cons, take_givenOptions (h next List.mem_cons_self)]
    have hrest := ih (fun r hr => h r (List.mem_cons_of_mem next hr)) (before ++ [next])
    rwa [List.append_assoc] at hrest

/-- A returned error or help option ends the program, after any options of the table. -/
theorem foldlM_take_failed {returned : List Returned}
    (h : ∀ r ∈ returned, r = unknown ∨ r.1 ∈ ['h'] ∧ r.2 = none ∨ Returns longOptions r)
    (hfailed : ∃ r ∈ returned, r = unknown ∨ r.1 ∈ ['h'] ∧ r.2 = none)
    (before : List Returned) :
    returned.foldlM CommandLineArguments.take (givenOptions before) = .error (.exit 0) := by
  induction returned generalizing before with
  | nil =>
    obtain ⟨r, hr, -⟩ := hfailed
    cases hr
  | cons next returned ih =>
    rw [List.foldlM_cons]
    rcases h next List.mem_cons_self with rfl | ⟨hshort, hnone⟩ | hreturns
    · rfl
    · obtain ⟨c, optarg⟩ := next
      obtain rfl : c = 'h' := List.mem_singleton.1 hshort
      rfl
    · have hrest : ∃ r ∈ returned, r = unknown ∨ r.1 ∈ ['h'] ∧ r.2 = none := by
        obtain ⟨r, hr, hfailed⟩ := hfailed
        rcases List.mem_cons.1 hr with rfl | hr
        · exact absurd hfailed (not_failed_of_returns hreturns)
        · exact ⟨r, hr, hfailed⟩
      rw [take_givenOptions hreturns]
      exact ih (fun r hr => h r (List.mem_cons_of_mem next hr)) hrest _

/-- A command line of words has the options that are given anywhere in it, and its first two
operands are the files of the confirmation; every other command line ends with the usage. -/
theorem parseArguments_commandLine :
    (∀ commandLine : CommandLine, parseArguments commandLine.argv =
      let arguments := givenOptions commandLine.returned
      if arguments.confirm then
        match commandLine.operands with
        | input :: output :: _ =>
          .ok { arguments with filenameConfirmInput := input, filenameConfirmOutput := output }
        | _ => .error (.exit 1)
      else .ok arguments) ∧
    ∀ argv, (∀ commandLine : CommandLine, commandLine.argv ≠ argv) →
      parseArguments argv = .error (.exit 0) := by
  constructor
  · intro commandLine
    have hreturned : ∀ r ∈ commandLine.returned, Returns longOptions r := by
      intro r hr
      obtain ⟨word, -, hword⟩ := List.mem_flatMap.1 hr
      exact word.returns r hword
    have hfold : commandLine.returned.foldlM CommandLineArguments.take {} =
        .ok (givenOptions commandLine.returned) := foldlM_take hreturned []
    simp only [parseArguments, commandLine.getopt_argv]
    rw [hfold]
    rfl
  · intro argv h
    have hwritten : ¬ Written longOptions argv := by
      rintro ⟨words, rest, rfl, rfl | ⟨operands, rfl⟩⟩
      · exact h ⟨words, none⟩ rfl
      · exact h ⟨words, some operands⟩ rfl
    have hfold : (getopt ['h'] longOptions argv).1.foldlM CommandLineArguments.take {} =
        .error (.exit 0) :=
      foldlM_take_failed (getopt_returned ['h'] longOptions argv) (exists_failed hwritten) []
    simp only [parseArguments]
    rw [hfold]
    rfl

end OsirisArm
