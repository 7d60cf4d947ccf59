import OsirisArm.Timer

/-! # The calling convention of generated pages

A page is called like a function. Its prolog pushes the callee-saved registers and keeps the
address of this frame in X29; its epilog takes the stack pointer from X29, pops the registers in
the opposite order and returns.
-/

namespace OsirisArm
open Library.A64

def prologWords : List Word := wordsOf prologInstructions.flatten
def epilogWords : List Word := wordsOf epilogInstructions.flatten
def serializeWords : List Word := wordsOf serializeInstructions.flatten

/-- The bytes of the frame that the prolog pushes. -/
def frameSize : ℕ := 16 * savedSlots.length

/-- From a call in state `s` the code returns in state `u`. -/
structure Returned (s u : State) : Prop where
  pc : u.pc = s.r 30
  sp : u.sp = s.sp
  r : ∀ n, 19 ≤ n → n ≤ 30 → u.r n = s.r n
  q : ∀ n, 8 ≤ n → n ≤ 15 → u.q n = s.q n

/-- X29 and the frame at the address in X29 are not changed. -/
structure FrameKept (s t : State) : Prop where
  r : t.r 29 = s.r 29
  mem : ∀ i < frameSize, t.mem (s.r 29 + BitVec.ofNat 64 i) = s.mem (s.r 29 + BitVec.ofNat 64 i)

theorem FrameKept.refl (s : State) : FrameKept s s := ⟨rfl, fun _ _ => rfl⟩

theorem FrameKept.trans {s t u : State} (h : FrameKept s t) (h' : FrameKept t u) :
    FrameKept s u := by
  refine ⟨h'.r.trans h.r, ?_⟩
  intro i hi
  have hlast := h'.mem i hi
  rw [h.r] at hlast
  exact hlast.trans (h.mem i hi)

/-- The registers of `origin` are on the stack, at the address in X29. -/
structure Framed (origin t : State) : Prop where
  sp : t.r 29 + BitVec.ofNat 64 frameSize = origin.sp
  aligned : (t.r 29).toNat % 16 = 0
  saved : Saved origin t.mem (t.r 29) savedSlots.reverse

theorem Framed.keep {origin s t : State} (h : Framed origin s) (hkept : FrameKept s t) :
    Framed origin t := by
  constructor
  · rw [hkept.r, h.sp]
  · rw [hkept.r, h.aligned]
  · rw [hkept.r]
    apply h.saved.congr
    rw [List.length_reverse]
    exact hkept.mem

section
variable (arch : Architecture)

theorem execAll_prologSetup (s : State) :
    ∃ t, execAll prologSetup s = some t ∧ t.r 29 = s.sp ∧ t.mem = s.mem := by
  refine ⟨_, rfl, ?_, ?_⟩
  · simp [State.setZ, State.sp]
  · simp

theorem run_prolog {s : State} (haligned : s.sp.toNat % 16 = 0) :
    ∃ t, arch.run prologWords s = some t ∧ Framed s t := by
  have hsame : SameRegisters s s := ⟨fun _ _ => rfl, rfl⟩
  have hempty : Saved s s.mem s.sp [] := trivial
  have hroom : 16 * (savedSlots.length + ([] : List Slot).length) ≤ 2 ^ 64 := by decide
  obtain ⟨u, hpush, halignedu, -, hsp, hsaved, -⟩ := exec_pushes haligned hsame hempty hroom
  obtain ⟨t, hsetup, hr, hmem⟩ := execAll_prologSetup u
  refine ⟨t, ?_, ?_⟩
  · rw [prologWords, arch.run_eq_execAll decode_prolog, execAll_append hpush,
      hsetup]
  · constructor
    · rw [hr, hsp]
      exact BitVec.sub_add_cancel _ _
    · rw [hr, halignedu]
    · rw [hr, hmem]
      simpa using hsaved

theorem execAll_epilogSetup (t : State) :
    ∃ u, execAll epilogSetup t = some u ∧ u.sp = t.r 29 ∧ u.mem = t.mem := by
  refine ⟨_, rfl, ?_, ?_⟩
  · simp [State.sp]
  · simp

theorem run_epilog {s t : State} (h : Framed s t) :
    ∃ u, arch.run epilogWords t = some u ∧ Returned s u := by
  obtain ⟨v, hsetup, hsp, hmem⟩ := execAll_epilogSetup t
  have haligned : v.sp.toNat % 16 = 0 := by rw [hsp, h.aligned]
  have hsaved : Saved s v.mem v.sp savedSlots.reverse := by
    rw [hsp, hmem]
    exact h.saved
  obtain ⟨w, hpop, hrestored, hspw, -, -⟩ := exec_pops (by decide) haligned hsaved
  have hr (n : Reg) (hlow : 19 ≤ n) (hhigh : n ≤ 30) : w.r n = s.r n := by
    have hne : n ≠ 31 := by
      rintro rfl
      exact absurd hhigh (by decide)
    have hmem : n ∈ savedSlots.reverse.flatMap Slot.xs := by
      revert n
      decide
    rw [hrestored.r n hne, if_pos hmem]
  have hq (n : Reg) (hlow : 8 ≤ n) (hhigh : n ≤ 15) : w.q n = s.q n := by
    have hmem : n ∈ savedSlots.reverse.flatMap Slot.qs := by
      revert n
      decide
    rw [hrestored.q n, if_pos hmem]
  refine ⟨{ w with pc := w.z 30 }, ?_, ?_, ?_, hr, hq⟩
  · rw [epilogWords, arch.run_eq_execAll decode_epilog, execAll_append hsetup,
      execAll_append hpop]
    rfl
  · exact hr 30 (by decide) (by decide)
  · calc w.sp = t.r 29 + BitVec.ofNat 64 frameSize := by rw [hspw, hsp, List.length_reverse]; rfl
      _ = s.sp := h.sp

/-- The pieces of code that stand between the sequences of a page. -/
def helperPieces : List (List Word) := [serializeWords, timerStartWords, timerEndWords, resultWords]

/-- Whenever one of the sequences is executed in the body, it keeps the frame. -/
def SequencesKeepFrame (sequences body : List (List Word)) (s : State) : Prop :=
  ∀ before sequence after, body = before ++ sequence :: after → sequence ∈ sequences →
    ∀ u v, arch.run before.flatten s = some u → arch.run sequence u = some v → FrameKept u v

theorem helper_decodes {piece : List Word} (h : piece ∈ helperPieces) :
    ∃ instructions, piece.map decode = instructions.map some ∧ Leaves 29 instructions = true := by
  simp only [helperPieces, List.mem_cons, List.not_mem_nil, or_false] at h
  rcases h with rfl | rfl | rfl | rfl
  · exact ⟨_, decode_serialize, rfl⟩
  · exact ⟨_, decode_timerStart, rfl⟩
  · exact ⟨_, decode_timerEnd, rfl⟩
  · exact ⟨_, decode_result, rfl⟩

theorem run_helper {piece : List Word} (h : piece ∈ helperPieces) (s : State) :
    ∃ t, arch.run piece s = some t ∧ FrameKept s t := by
  obtain ⟨instructions, hdecode, hleaves⟩ := helper_decodes h
  obtain ⟨t, ht, hr, hmem⟩ := arch.run_leaves hdecode hleaves s
  refine ⟨t, ht, hr, ?_⟩
  intro i _
  rw [hmem]

theorem straight_helper {piece : List Word} (h : piece ∈ helperPieces) :
    ∀ w ∈ piece, arch.Straight w := by
  obtain ⟨instructions, hdecode, hleaves⟩ := helper_decodes h
  apply arch.straight_of_decodes hdecode
  intro i hi
  have hi := List.all_eq_true.mp hleaves i hi
  simp only [Bool.and_eq_true, Bool.not_eq_true'] at hi
  exact hi.2

theorem SequencesKeepFrame.tail {sequences body : List (List Word)} {piece : List Word}
    {s u : State} (h : SequencesKeepFrame arch sequences (piece :: body) s)
    (hrun : arch.run piece s = some u) : SequencesKeepFrame arch sequences body u := by
  intro before sequence after hbody hmem v w hv hw
  apply h (piece :: before) sequence after (by rw [hbody, List.cons_append]) hmem v w _ hw
  rw [List.flatten_cons, arch.run_append, hrun]
  exact hv

theorem run_body {sequences body : List (List Word)}
    (hpieces : ∀ piece ∈ body, piece ∈ helperPieces ∨ piece ∈ sequences) {s t : State}
    (hkeep : SequencesKeepFrame arch sequences body s)
    (hrun : arch.run body.flatten s = some t) : FrameKept s t := by
  induction body generalizing s with
  | nil =>
    obtain rfl := Option.some.inj hrun
    exact FrameKept.refl s
  | cons piece body ih =>
    rw [List.forall_mem_cons] at hpieces
    rw [List.flatten_cons, arch.run_append, Option.bind_eq_some_iff] at hrun
    obtain ⟨u, hu, hrest⟩ := hrun
    have hfirst : FrameKept s u := by
      rcases hpieces.1 with hhelper | hsequence
      · obtain ⟨u', hu', hkept⟩ := run_helper arch hhelper s
        obtain rfl := Option.some.inj (hu.symm.trans hu')
        exact hkept
      · exact hkeep [] piece body rfl hsequence s u rfl hu
    exact hfirst.trans (ih hpieces.2 (hkeep.tail arch hu) hrest)

/-- The last word of the epilog. -/
def retWord : Word := 0xD65F03C0

theorem epilogWords_eq : epilogWords = epilogWords.dropLast ++ [retWord] := rfl

theorem straight_prolog : ∀ w ∈ prologWords, arch.Straight w :=
  arch.straight_of_decodes decode_prolog (by decide)

theorem straight_epilog : ∀ w ∈ epilogWords.dropLast, arch.Straight w := by
  have hdecode : epilogWords.dropLast.map decode =
      (epilogSetup ++ savedSlots.reverse.map Slot.pop).map some := rfl
  exact arch.straight_of_decodes hdecode (by decide)

/-- The page is called at its start: the prolog runs, and if the body runs through and the
sequences in it keep the frame, the page returns to its caller. -/
def ObeysCallingConvention (page : CodePage) (sequences body : List (List Word)) : Prop :=
  ∀ base s, s.pc = base → s.sp.toNat % 16 = 0 →
    ∃ s₁, arch.run prologWords s = some s₁ ∧
      (SequencesKeepFrame arch sequences body s₁ → ∀ t, arch.run body.flatten s₁ = some t →
        ∃ u, arch.execute base (wordsOf page.content)
          (prologWords.length + body.flatten.length + epilogWords.length) s = some u ∧
            Returned s u)

theorem obeys_of_words {page : CodePage} {sequences body : List (List Word)} {after : List Word}
    (hpage : wordsOf page.content = prologWords ++ body.flatten ++ epilogWords ++ after)
    (hpieces : ∀ piece ∈ body, piece ∈ helperPieces ∨ piece ∈ sequences)
    (hstraight : ∀ sequence ∈ sequences, ∀ w ∈ sequence, arch.Straight w) :
    ObeysCallingConvention arch page sequences body := by
  intro base s hpc haligned
  obtain ⟨s₁, hprolog, hframed⟩ := run_prolog arch haligned
  refine ⟨s₁, hprolog, ?_⟩
  intro hkeep t hbody
  have hkept := run_body arch hpieces hkeep hbody
  obtain ⟨u, hepilog, hreturned⟩ := run_epilog arch (hframed.keep hkept)
  refine ⟨u, ?_, hreturned⟩
  have hcode : wordsOf page.content =
      (prologWords ++ body.flatten ++ epilogWords.dropLast) ++ retWord :: after := by
    rw [hpage]
    conv_lhs => rw [epilogWords_eq]
    simp only [List.append_assoc, List.singleton_append]
  have hroom : 4 * (wordsOf page.content).length ≤ 2 ^ 64 := by
    have hlength := wordsOf_length_le page.content
    rw [page.length_eq, kPagesize] at hlength
    omega
  have hstraightCode : ∀ w ∈ prologWords ++ body.flatten ++ epilogWords.dropLast,
      arch.Straight w := by
    intro w hw
    simp only [List.mem_append, List.mem_flatten] at hw
    rcases hw with (hw | ⟨piece, hpiece, hw⟩) | hw
    · exact straight_prolog arch w hw
    · rcases hpieces piece hpiece with hhelper | hsequence
      · exact straight_helper arch hhelper w hw
      · exact hstraight piece hsequence w hw
    · exact straight_epilog arch w hw
  have hexecute := arch.execute_eq_run_concat hcode hroom hstraightCode hpc
  have hcount : (prologWords ++ body.flatten ++ epilogWords.dropLast).length + 1 =
      prologWords.length + body.flatten.length + epilogWords.length := by
    rw [List.length_append, List.length_append]
    rfl
  rw [← hcount, hexecute, List.append_assoc _ _ [retWord], ← epilogWords_eq, List.append_assoc,
    arch.run_append, hprolog, Option.bind_some, arch.run_append, hbody, Option.bind_some, hepilog]

/-- What stands between prolog and epilog of a page of `createTestrunCode`. -/
def testrunBody (firstSequence secondSequence measurementSequence : Bytes)
    (firstSequenceExecutionsAmount : ℕ) : List (List Word) :=
  serializeWords :: (List.replicate firstSequenceExecutionsAmount (wordsOf firstSequence) ++
    [serializeWords, wordsOf secondSequence, serializeWords, timerStartWords,
      wordsOf measurementSequence, timerEndWords, resultWords])

/-- What stands between prolog and epilog of a page of `createResetTestrunCode`. -/
def resetTestrunBody (triggerSequence measurementSequence resetSequence : Bytes)
    (resetExecutionsAmount : ℕ) : List (List Word) :=
  [wordsOf triggerSequence, serializeWords] ++
    (List.replicate resetExecutionsAmount (wordsOf resetSequence) ++
      [serializeWords, timerStartWords, wordsOf measurementSequence, timerEndWords, resultWords])

theorem wordsOf_measurementBytes {measurementSequence : Bytes}
    (h : WholeWords measurementSequence) :
    wordsOf (measurementBytes measurementSequence) =
      timerStartWords ++ (wordsOf measurementSequence ++ (timerEndWords ++
        (resultWords ++ epilogWords))) := by
  rw [measurementBytes, wordsOf_append wholeWords_timerStart, wordsOf_append h,
    wordsOf_append wholeWords_timerEnd, wordsOf_append wholeWords_result]
  rfl

theorem wordsOf_testrunBytes {firstSequence secondSequence measurementSequence : Bytes}
    (hfirst : WholeWords firstSequence) (hsecond : WholeWords secondSequence)
    (hmeasurement : WholeWords measurementSequence) (amount : ℕ) :
    wordsOf (testrunBytes firstSequence secondSequence measurementSequence amount) =
      prologWords ++
        (testrunBody firstSequence secondSequence measurementSequence amount).flatten ++
          epilogWords := by
  rw [testrunBytes, wordsOf_append wholeWords_prolog, wordsOf_append wholeWords_serialize,
    wordsOf_append (hfirst.repeated amount), wordsOf_append wholeWords_serialize,
    wordsOf_append hsecond, wordsOf_append wholeWords_serialize, wordsOf_repeated hfirst,
    wordsOf_measurementBytes hmeasurement]
  simp [testrunBody, prologWords, serializeWords]

theorem wordsOf_resetTestrunBytes {triggerSequence measurementSequence resetSequence : Bytes}
    (htrigger : WholeWords triggerSequence) (hmeasurement : WholeWords measurementSequence)
    (hreset : WholeWords resetSequence) (amount : ℕ) :
    wordsOf (resetTestrunBytes triggerSequence measurementSequence resetSequence amount) =
      prologWords ++
        (resetTestrunBody triggerSequence measurementSequence resetSequence amount).flatten ++
          epilogWords := by
  rw [resetTestrunBytes, wordsOf_append wholeWords_prolog, wordsOf_append htrigger,
    wordsOf_append wholeWords_serialize, wordsOf_append (hreset.repeated amount),
    wordsOf_append wholeWords_serialize, wordsOf_repeated hreset,
    wordsOf_measurementBytes hmeasurement]
  simp [resetTestrunBody, prologWords, serializeWords]

/-- A sequence of whole words, each of which goes on with the next one. -/
def StraightSequence (sequence : Bytes) : Prop :=
  WholeWords sequence ∧ ∀ w ∈ wordsOf sequence, arch.Straight w

theorem testrunBytes_wholeWords {firstSequence secondSequence measurementSequence : Bytes}
    (hfirst : WholeWords firstSequence) (hsecond : WholeWords secondSequence)
    (hmeasurement : WholeWords measurementSequence) (amount : ℕ) :
    WholeWords (testrunBytes firstSequence secondSequence measurementSequence amount) := by
  have hrepeated : 4 ∣ amount * firstSequence.length := hfirst.mul_left amount
  rw [WholeWords] at *
  rw [testrunBytes_length]
  omega

theorem resetTestrunBytes_wholeWords {triggerSequence measurementSequence resetSequence : Bytes}
    (htrigger : WholeWords triggerSequence) (hmeasurement : WholeWords measurementSequence)
    (hreset : WholeWords resetSequence) (amount : ℕ) :
    WholeWords (resetTestrunBytes triggerSequence measurementSequence resetSequence amount) := by
  have hrepeated : 4 ∣ amount * resetSequence.length := hreset.mul_left amount
  rw [WholeWords] at *
  rw [resetTestrunBytes_length]
  omega

/-- A generator that writes a prolog, such a body and an epilog makes pages that return. -/
theorem Fills.obeys {result : Except Stop CodePage} {bytes : Bytes} {sequences : List Bytes}
    {body : List (List Word)} {page : CodePage} (h : Fills result bytes) (hpage : result = .ok page)
    (hwhole : WholeWords bytes)
    (hwords : wordsOf bytes = prologWords ++ body.flatten ++ epilogWords)
    (hpieces : ∀ piece ∈ body, piece ∈ helperPieces ∨ piece ∈ sequences.map wordsOf)
    (hsequences : ∀ sequence ∈ sequences, StraightSequence arch sequence) :
    ObeysCallingConvention arch page (sequences.map wordsOf) body := by
  have hcontent : wordsOf page.content = prologWords ++ body.flatten ++ epilogWords ++
      wordsOf (blankContent.drop bytes.length) := by
    rw [(h.holds hpage).1, wordsOf_append hwhole, hwords]
  apply obeys_of_words arch hcontent hpieces
  rw [List.forall_mem_map]
  intro sequence hsequence
  exact (hsequences sequence hsequence).2

theorem createTestrunCode_obeys {firstSequence secondSequence measurementSequence : Bytes}
    {amount : ℕ} {page : CodePage}
    (hsequences : ∀ sequence ∈ [firstSequence, secondSequence, measurementSequence],
      StraightSequence arch sequence)
    (hpage : createTestrunCode firstSequence secondSequence measurementSequence amount = .ok page) :
    ObeysCallingConvention arch page
      ([firstSequence, secondSequence, measurementSequence].map wordsOf)
      (testrunBody firstSequence secondSequence measurementSequence amount) := by
  have hfills := createTestrunCode_fills firstSequence secondSequence measurementSequence
    (createTestrunCode_amount hpage)
  have hfirst := (hsequences firstSequence (by simp)).1
  have hsecond := (hsequences secondSequence (by simp)).1
  have hmeasurement := (hsequences measurementSequence (by simp)).1
  apply hfills.obeys arch hpage (testrunBytes_wholeWords hfirst hsecond hmeasurement amount)
    (wordsOf_testrunBytes hfirst hsecond hmeasurement amount) _ hsequences
  intro piece hpiece
  simp only [testrunBody, List.mem_cons, List.mem_append, List.mem_replicate, List.not_mem_nil,
    or_false] at hpiece
  simp only [helperPieces, List.map_cons, List.map_nil, List.mem_cons, List.not_mem_nil, or_false]
  tauto

theorem createResetTestrunCode_obeys {triggerSequence measurementSequence resetSequence : Bytes}
    {amount : ℕ} {page : CodePage}
    (hsequences : ∀ sequence ∈ [triggerSequence, measurementSequence, resetSequence],
      StraightSequence arch sequence)
    (hpage : createResetTestrunCode triggerSequence measurementSequence resetSequence amount =
      .ok page) :
    ObeysCallingConvention arch page
      ([triggerSequence, measurementSequence, resetSequence].map wordsOf)
      (resetTestrunBody triggerSequence measurementSequence resetSequence amount) := by
  have hfills := createResetTestrunCode_fills triggerSequence measurementSequence resetSequence
    (createResetTestrunCode_amount hpage)
  have htrigger := (hsequences triggerSequence (by simp)).1
  have hmeasurement := (hsequences measurementSequence (by simp)).1
  have hreset := (hsequences resetSequence (by simp)).1
  apply hfills.obeys arch hpage (resetTestrunBytes_wholeWords htrigger hmeasurement hreset amount)
    (wordsOf_resetTestrunBytes htrigger hmeasurement hreset amount) _ hsequences
  intro piece hpiece
  simp only [resetTestrunBody, List.mem_cons, List.mem_append, List.mem_replicate,
    List.not_mem_nil, or_false] at hpiece
  simp only [helperPieces, List.map_cons, List.map_nil, List.mem_cons, List.not_mem_nil, or_false]
  tauto

/-- Prolog and epilog around any body that keeps the frame, and the pages of both generators with
sequences that keep it, return to the caller with the callee-saved registers restored. -/
theorem callingConvention :
    (∀ s : State, s.sp.toNat % 16 = 0 → ∃ s₁, arch.run prologWords s = some s₁ ∧
      ∀ t, FrameKept s₁ t → ∃ u, arch.run epilogWords t = some u ∧ Returned s u) ∧
    (∀ firstSequence secondSequence measurementSequence amount page,
      (∀ sequence ∈ [firstSequence, secondSequence, measurementSequence],
        StraightSequence arch sequence) →
      createTestrunCode firstSequence secondSequence measurementSequence amount = .ok page →
      ObeysCallingConvention arch page
        ([firstSequence, secondSequence, measurementSequence].map wordsOf)
        (testrunBody firstSequence secondSequence measurementSequence amount)) ∧
    (∀ triggerSequence measurementSequence resetSequence amount page,
      (∀ sequence ∈ [triggerSequence, measurementSequence, resetSequence],
        StraightSequence arch sequence) →
      createResetTestrunCode triggerSequence measurementSequence resetSequence amount = .ok page →
      ObeysCallingConvention arch page
        ([triggerSequence, measurementSequence, resetSequence].map wordsOf)
        (resetTestrunBody triggerSequence measurementSequence resetSequence amount)) := by
  refine ⟨?_, ?_, ?_⟩
  · intro s haligned
    obtain ⟨s₁, hprolog, hframed⟩ := run_prolog arch haligned
    exact ⟨s₁, hprolog, fun t hkept => run_epilog arch (hframed.keep hkept)⟩
  · intro _ _ _ _ _ hsequences hpage
    exact createTestrunCode_obeys arch hsequences hpage
  · intro _ _ _ _ _ hsequences hpage
    exact createResetTestrunCode_obeys arch hsequences hpage

end

theorem callingConvention_nop :
    ∃ page u n, createTestrunCode instNop instNop instNop 1 = .ok page ∧
      Architecture.ofDecode.execute 0 (wordsOf page.content) n countingState = some u ∧
      Returned countingState u := by
  have hdecode : (wordsOf instNop).map decode = [Instruction.nop].map some := rfl
  have hstraight : StraightSequence Architecture.ofDecode instNop :=
    ⟨⟨1, rfl⟩, Architecture.ofDecode.straight_of_decodes hdecode (by decide)⟩
  have hfits : (testrunBytes instNop instNop instNop 1).length < kPagesize := by
    rw [testrunBytes_length]
    decide
  obtain ⟨page, hpage, -⟩ :=
    (createTestrunCode_fills instNop instNop instNop (by decide)).1 hfits
  obtain ⟨s₁, -, hreturns⟩ := (callingConvention Architecture.ofDecode).2.1 instNop instNop
    instNop 1 page (by simp [hstraight]) hpage 0 countingState rfl rfl
  have hkeep : SequencesKeepFrame Architecture.ofDecode
      ([instNop, instNop, instNop].map wordsOf) (testrunBody instNop instNop instNop 1) s₁ := by
    intro _ sequence _ _ hmem u v _ hv
    have hnop : sequence = wordsOf instNop := by simpa using hmem
    subst hnop
    have hleaves : Leaves 29 [Instruction.nop] = true := rfl
    obtain ⟨v', hv', hr, hmemory⟩ := Architecture.ofDecode.run_leaves hdecode hleaves u
    obtain rfl := Option.some.inj (hv.symm.trans hv')
    exact ⟨hr, fun i _ => by rw [hmemory]⟩
  have hbody : (testrunBody instNop instNop instNop 1).flatten.map decode =
      (serializeCode ++ [Instruction.nop] ++ serializeCode ++ [Instruction.nop] ++ serializeCode ++
        timerStartCode ++ [Instruction.nop] ++ timerEndCode ++ resultCode).map some := rfl
  have hleaves : Leaves 29 (serializeCode ++ [Instruction.nop] ++ serializeCode ++
      [Instruction.nop] ++ serializeCode ++ timerStartCode ++ [Instruction.nop] ++ timerEndCode ++
        resultCode) = true := rfl
  obtain ⟨t, ht, -⟩ := Architecture.ofDecode.run_leaves hbody hleaves s₁
  obtain ⟨u, hu, hreturned⟩ := hreturns hkeep t ht
  exact ⟨page, u, _, hpage, hu, hreturned⟩

end OsirisArm
