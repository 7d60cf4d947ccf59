import OsirisArm.CodeGenerator
import OsirisArm.Library.FileStreams
import OsirisArm.Library.WhileLoops

/-! # Hashing the instruction file

`CalculateFileHashSHA256` hands the file to the hash function block by block until the stream is at
the end of the file. A read error sets another bit of the stream, which the loop does not look at.
-/

namespace OsirisArm
open Library

def readBufferSize : ℕ := 4096 * 10

/-- The stream, and the blocks that `SHA256_Update` was called with. -/
structure Hashing where
  stream : FileStream Char
  updates : List Text

def Hashing.started (stream : FileStream Char) : Hashing := ⟨stream, []⟩

def hashLoop : WhileLoop Hashing where
  condition hashing := !hashing.stream.eofbit
  body hashing :=
    let (block, stream) := hashing.stream.read readBufferSize
    { stream := stream, updates := hashing.updates ++ [block] }

/-- `CalculateFileHashSHA256` with its reads, if the loop needs no more than `rounds` rounds. -/
def calculateFileHashSHA256Reading (sha256 : Sha256) (file : Option (FileStream Char))
    (rounds : ℕ) : Option Text :=
  match file with
  | none => some []
  | some stream => (hashLoop.run rounds (.started stream)).map fun hashing =>
      (sha256 hashing.updates.flatten).1.flatMap hexByte

theorem readBufferSize_pos : 0 < readBufferSize := by decide

/-- All blocks but the last are full; the last one is short, and empty if the file ends with a full
block. -/
def FullUpToLast (blocks : List Text) : Prop :=
  ∃ full last, blocks = full ++ [last] ∧ (∀ block ∈ full, block.length = readBufferSize) ∧
    last.length < readBufferSize

/-- What the rounds over a readable file keep: nothing is lost between the blocks and the rest. -/
structure Hashing.Reads (content : Text) (hashing : Hashing) : Prop where
  ending : hashing.stream.ending = .endOfFile
  badbit : hashing.stream.badbit = false
  failbit : hashing.stream.failbit = hashing.stream.eofbit
  conserved : hashing.updates.flatten ++ hashing.stream.rest = content
  reading : hashing.stream.eofbit = false →
    ∀ block ∈ hashing.updates, block.length = readBufferSize
  ended : hashing.stream.eofbit = true → hashing.stream.rest = [] ∧ FullUpToLast hashing.updates

/-- The rounds left: one for every element at most, and the one that finds the end. -/
def Hashing.remaining (hashing : Hashing) : ℕ :=
  if hashing.stream.eofbit then 0 else hashing.stream.rest.length + 1

theorem started_reads (content : Text) :
    (Hashing.started (.opened content .endOfFile)).Reads content where
  ending := rfl
  badbit := rfl
  failbit := rfl
  conserved := rfl
  reading := by simp [Hashing.started]
  ended := by simp [Hashing.started, FileStream.opened]

variable {content : Text} {hashing : Hashing}

theorem Hashing.Reads.good (h : hashing.Reads content) (heof : hashing.stream.eofbit = false) :
    hashing.stream.good = true := by
  simp [FileStream.good, h.badbit, h.failbit, heof]

theorem Hashing.Reads.round_full (h : hashing.Reads content)
    (heof : hashing.stream.eofbit = false)
    (hfull : readBufferSize ≤ hashing.stream.rest.length) :
    (hashLoop.body hashing).Reads content ∧
      (hashLoop.body hashing).remaining < hashing.remaining := by
  have hbody : hashLoop.body hashing =
      { stream := { hashing.stream with rest := hashing.stream.rest.drop readBufferSize },
        updates := hashing.updates ++ [hashing.stream.rest.take readBufferSize] } := by
    simp only [hashLoop, FileStream.read_full (h.good heof) hfull]
  have hpos := readBufferSize_pos
  rw [hbody]
  constructor
  · exact {
      ending := h.ending
      badbit := h.badbit
      failbit := h.failbit
      conserved := by simpa using h.conserved
      reading := by
        intro _ block hblock
        rcases List.mem_append.mp hblock with hold | hnew
        · exact h.reading heof block hold
        · rw [List.mem_singleton.mp hnew, List.length_take, Nat.min_eq_left hfull]
      ended := by simp [heof] }
  · simp only [Hashing.remaining, heof, List.length_drop, Bool.false_eq_true, if_false]
    omega

theorem Hashing.Reads.round_last (h : hashing.Reads content)
    (heof : hashing.stream.eofbit = false)
    (hshort : hashing.stream.rest.length < readBufferSize) :
    (hashLoop.body hashing).Reads content ∧
      (hashLoop.body hashing).remaining < hashing.remaining := by
  have hbody : hashLoop.body hashing =
      { stream := { hashing.stream with rest := [], eofbit := true, failbit := true },
        updates := hashing.updates ++ [hashing.stream.rest] } := by
    simp only [hashLoop, FileStream.read_last (h.good heof) h.ending hshort]
  rw [hbody]
  constructor
  · exact {
      ending := h.ending
      badbit := h.badbit
      failbit := rfl
      conserved := by simpa using h.conserved
      reading := by simp
      ended := fun _ => ⟨rfl, hashing.updates, hashing.stream.rest, rfl, h.reading heof, hshort⟩ }
  · simp [Hashing.remaining, heof]

theorem Hashing.Reads.round (h : hashing.Reads content)
    (hcondition : hashLoop.condition hashing = true) :
    (hashLoop.body hashing).Reads content ∧
      (hashLoop.body hashing).remaining < hashing.remaining := by
  have heof : hashing.stream.eofbit = false := by simpa [hashLoop] using hcondition
  rcases Nat.lt_or_ge hashing.stream.rest.length readBufferSize with hshort | hfull
  · exact h.round_last heof hshort
  · exact h.round_full heof hfull

/-- A readable file is hashed as a whole, in full blocks and a short one. -/
theorem hashLoop_of_endOfFile (content : Text) :
    ∃ final, hashLoop.EndsIn (.started (.opened content .endOfFile)) final ∧
      final.updates.flatten = content ∧ FullUpToLast final.updates := by
  obtain ⟨final, hfinal, hreads, hcondition⟩ := WhileLoop.exists_endsIn_of_measure
    Hashing.remaining (fun _ (h : Hashing.Reads content _) => h.round) (started_reads content)
  have heof : final.stream.eofbit = true := by simpa [hashLoop] using hcondition
  obtain ⟨hrest, hblocks⟩ := hreads.ended heof
  refine ⟨final, hfinal, ?_, hblocks⟩
  simpa [hrest] using hreads.conserved

/-- After a read error the loop reads nothing for ever. -/
theorem not_ends_of_readError (content : Text) :
    ¬ hashLoop.Ends (.started (.opened content .readError)) := by
  refine WhileLoop.not_ends_of_invariant
    (I := fun hashing => hashing.stream.ending = .readError ∧ hashing.stream.eofbit = false)
    ?_ ⟨rfl, rfl⟩
  rintro hashing ⟨hending, heof⟩
  obtain ⟨hending', heof'⟩ := FileStream.read_of_readError hending readBufferSize
  exact ⟨by simp [hashLoop, heof], hending', heof'.trans heof⟩

/-- The loop ends, and what it hashed of a file that was read to its end is the whole file. -/
def HashesFile (content : Text) (ending : StreamEnd) : Prop :=
  ∃ final, hashLoop.EndsIn (.started (.opened content ending)) final ∧
    (ending = .endOfFile → final.updates.flatten = content)

theorem hashesFile_iff (content : Text) (ending : StreamEnd) :
    HashesFile content ending ↔ ending = .endOfFile := by
  cases ending with
  | endOfFile =>
    obtain ⟨final, hends, hcontent, _⟩ := hashLoop_of_endOfFile content
    exact ⟨fun _ => rfl, fun _ => ⟨final, hends, fun _ => hcontent⟩⟩
  | readError =>
    constructor
    · rintro ⟨final, hends, _⟩
      exact (not_ends_of_readError content ⟨final, hends⟩).elim
    · intro h
      cases h

/-- A directory can be opened; the first read from it fails. -/
theorem hashesFile_directory : ¬ HashesFile [] .readError := by
  rintro ⟨final, hends, _⟩
  exact not_ends_of_readError [] ⟨final, hends⟩

/-- The hash of a file that can be read to its end is the hash of its content. -/
theorem calculateFileHashSHA256Reading_eq (sha256 : Sha256) (content : Text) :
    ∃ rounds, calculateFileHashSHA256Reading sha256 (some (.opened content .endOfFile)) rounds =
      some (calculateFileHashSHA256 sha256 (some content)) := by
  obtain ⟨final, ⟨rounds, hrun⟩, hcontent, _⟩ := hashLoop_of_endOfFile content
  refine ⟨rounds, ?_⟩
  simp only [calculateFileHashSHA256Reading, hrun, Option.map_some, hcontent,
    calculateFileHashSHA256]

end OsirisArm
