import OsirisArm.Utils

/-! # Code pages

A page of generated code is filled with NOPs and a final RET and then written from its start. A
piece of code that does not leave at least one byte of the page free aborts the program. What a
generator leaves on the page is therefore the concatenation of the pieces it writes.
-/

namespace OsirisArm
open Library

def kPagesize : ℕ := 4096

theorem kPagesize_pos : 0 < kPagesize := by decide

/-- A page and the index behind the last written byte. -/
structure CodePage where
  content : Bytes
  lastWrittenIndex : ℕ
  length_eq : content.length = kPagesize
  index_lt : lastWrittenIndex < kPagesize

theorem CodePage.eq_of_fields {page page' : CodePage} (hcontent : page.content = page'.content)
    (hindex : page.lastWrittenIndex = page'.lastWrittenIndex) : page = page' := by
  cases page
  cases page'
  simp only [CodePage.mk.injEq]
  exact ⟨hcontent, hindex⟩

def initialNop : Bytes := numberToBytesLE 0xD503201F 4

def initialRet : Bytes := numberToBytesLE 0xD65F03C0 4

def blankContent : Bytes := (List.replicate (kPagesize / 4 - 1) initialNop).flatten ++ initialRet

theorem blankContent_length : blankContent.length = kPagesize := by
  have hnop : initialNop.length = 4 := numberToBytesLE_length _ 4
  have hret : initialRet.length = 4 := numberToBytesLE_length _ 4
  rw [blankContent, List.length_append, List.length_flatten, List.map_replicate,
    List.sum_replicate_nat, hnop, hret]
  rfl

def initializeCodePage : CodePage where
  content := blankContent
  lastWrittenIndex := 0
  length_eq := blankContent_length
  index_lt := kPagesize_pos

def addInstructionToCodePage (instructionBytes : Bytes) (page : CodePage) :
    Except Stop CodePage :=
  let pageIdx := page.lastWrittenIndex
  if h : pageIdx + instructionBytes.length < kPagesize then
    .ok {
      content := page.content.take pageIdx ++ instructionBytes ++
        page.content.drop (pageIdx + instructionBytes.length)
      lastWrittenIndex := pageIdx + instructionBytes.length
      length_eq := by
        have := page.length_eq
        simp
        omega
      index_lt := h }
  else .error .abort

/-- One call of `AddInstructionToCodePage` after the other. -/
def addInstructionsToCodePage (instructions : List Bytes) (page : CodePage) :
    Except Stop CodePage :=
  instructions.foldlM (fun page instruction => addInstructionToCodePage instruction page) page

/-- Since its initialisation exactly `bytes` were written to the page. -/
def CodePage.Holds (page : CodePage) (bytes : Bytes) : Prop :=
  page.content = bytes ++ blankContent.drop bytes.length ∧ page.lastWrittenIndex = bytes.length

theorem initializeCodePage_holds : initializeCodePage.Holds [] := ⟨rfl, rfl⟩

theorem CodePage.Holds.length_lt {page : CodePage} {bytes : Bytes} (h : page.Holds bytes) :
    bytes.length < kPagesize := h.2 ▸ page.index_lt

/-- The generator writes `bytes` if they fit and stops the program otherwise. -/
def Emits (generator : CodePage → Except Stop CodePage) (bytes : Bytes) : Prop :=
  ∀ page before, page.Holds before →
    (before.length + bytes.length < kPagesize →
      ∃ page', generator page = .ok page' ∧ page'.Holds (before ++ bytes)) ∧
    (kPagesize ≤ before.length + bytes.length → ∃ stop, generator page = .error stop)

theorem emits_addInstructionToCodePage (bytes : Bytes) :
    Emits (addInstructionToCodePage bytes) bytes := by
  intro page before h
  obtain ⟨hcontent, hidx⟩ := h
  constructor
  · intro hfits
    rw [← hidx] at hfits
    refine ⟨_, dif_pos hfits, ?_, ?_⟩
    · simp only [hidx, hcontent]
      rw [List.take_left, List.drop_length_add_append, List.drop_drop, List.length_append]
    · simp only [hidx, List.length_append]
  · intro hfull
    rw [← hidx] at hfull
    exact ⟨.abort, dif_neg (by omega)⟩

theorem emits_pure : Emits pure [] := by
  intro page before h
  constructor
  · intro _
    exact ⟨page, rfl, by rwa [List.append_nil]⟩
  · intro hfull
    have := h.length_lt
    simp at hfull
    omega

/-- Two generators one after the other write one piece after the other. -/
theorem Emits.bind {first second : CodePage → Except Stop CodePage} {bytes bytes' : Bytes}
    (hfirst : Emits first bytes) (hsecond : Emits second bytes') :
    Emits (fun page => first page >>= second) (bytes ++ bytes') := by
  intro page before h
  rw [List.length_append]
  by_cases hfits : before.length + bytes.length < kPagesize
  · obtain ⟨page', hrun, hpage'⟩ := (hfirst page before h).1 hfits
    have hrest := hsecond page' (before ++ bytes) hpage'
    rw [List.length_append, List.append_assoc, Nat.add_assoc] at hrest
    simp only [hrun]
    exact hrest
  · obtain ⟨stop, hrun⟩ := (hfirst page before h).2 (by omega)
    refine ⟨fun hall => by omega, fun _ => ⟨stop, ?_⟩⟩
    simp only [hrun]
    rfl

theorem emits_addInstructionsToCodePage (instructions : List Bytes) :
    Emits (addInstructionsToCodePage instructions) instructions.flatten := by
  induction instructions with
  | nil => exact emits_pure
  | cons instruction rest ih => exact (emits_addInstructionToCodePage instruction).bind ih

end OsirisArm
