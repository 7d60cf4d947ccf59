import Mathlib.Data.List.Basic
import Mathlib.Data.List.Forall2

/-! # Programs that write while they run

A run writes a list of items and then reaches a state or stops for a reason. What was written
before a stop stays written, as in a file whose stream is flushed after every line.
-/

namespace OsirisArm.Library

structure Emission (ω ε σ : Type*) where
  written : List ω
  outcome : Except ε σ

namespace Emission
variable {α β ω ω' ε σ τ : Type*}

def pure (s : σ) : Emission ω ε σ := ⟨[], .ok s⟩

/-- Write the items `ws` and go on in the state `s`. -/
def write (ws : List ω) (s : σ) : Emission ω ε σ := ⟨ws, .ok s⟩

def lift (r : Except ε σ) : Emission ω ε σ := ⟨[], r⟩

def bind (r : Emission ω ε σ) (f : σ → Emission ω ε τ) : Emission ω ε τ :=
  match r.outcome with
  | .ok s => ⟨r.written ++ (f s).written, (f s).outcome⟩
  | .error e => ⟨r.written, .error e⟩

def mapWritten (f : ω → ω') (r : Emission ω ε σ) : Emission ω' ε σ :=
  ⟨r.written.map f, r.outcome⟩

/-- The loop over a list; a stop in one round ends the loop. -/
def forEach (body : α → σ → Emission ω ε σ) : List α → σ → Emission ω ε σ
  | [], s => pure s
  | a :: as, s => (body a s).bind (forEach body as)

@[simp] theorem pure_written (s : σ) : (pure s : Emission ω ε σ).written = [] := rfl
@[simp] theorem pure_outcome (s : σ) : (pure s : Emission ω ε σ).outcome = .ok s := rfl
@[simp] theorem write_written (ws : List ω) (s : σ) :
    (write ws s : Emission ω ε σ).written = ws := rfl
@[simp] theorem write_outcome (ws : List ω) (s : σ) :
    (write ws s : Emission ω ε σ).outcome = .ok s := rfl
@[simp] theorem lift_written (r : Except ε σ) : (lift r : Emission ω ε σ).written = [] := rfl
@[simp] theorem lift_outcome (r : Except ε σ) : (lift r : Emission ω ε σ).outcome = r := rfl
@[simp] theorem mapWritten_written (f : ω → ω') (r : Emission ω ε σ) :
    (r.mapWritten f).written = r.written.map f := rfl
@[simp] theorem mapWritten_outcome (f : ω → ω') (r : Emission ω ε σ) :
    (r.mapWritten f).outcome = r.outcome := rfl
@[simp] theorem forEach_nil (body : α → σ → Emission ω ε σ) (s : σ) :
    forEach body [] s = pure s := rfl

theorem bind_ok {r : Emission ω ε σ} {s : σ} (h : r.outcome = .ok s)
    (f : σ → Emission ω ε τ) : r.bind f = ⟨r.written ++ (f s).written, (f s).outcome⟩ := by
  simp [bind, h]

theorem bind_error {r : Emission ω ε σ} {e : ε} (h : r.outcome = .error e)
    (f : σ → Emission ω ε τ) : r.bind f = ⟨r.written, .error e⟩ := by
  simp [bind, h]

@[simp] theorem lift_ok_bind (s : σ) (f : σ → Emission ω ε τ) : (lift (.ok s)).bind f = f s := rfl

@[simp] theorem lift_error_bind (e : ε) (f : σ → Emission ω ε τ) :
    (lift (.error e)).bind f = lift (.error e) := rfl

theorem bind_outcome_ok {r : Emission ω ε σ} {f : σ → Emission ω ε τ} {t : τ}
    (h : (r.bind f).outcome = .ok t) :
    ∃ s, r.outcome = .ok s ∧ (f s).outcome = .ok t ∧
      (r.bind f).written = r.written ++ (f s).written := by
  cases hr : r.outcome with
  | ok s =>
    rw [bind_ok hr] at h ⊢
    exact ⟨s, rfl, h, rfl⟩
  | error e =>
    rw [bind_error hr] at h
    cases h

/-- Every item of a sequence is written by one of its two parts. -/
theorem mem_bind_written {r : Emission ω ε σ} {f : σ → Emission ω ε τ} {w : ω}
    (h : w ∈ (r.bind f).written) :
    w ∈ r.written ∨ ∃ s, r.outcome = .ok s ∧ w ∈ (f s).written := by
  cases hr : r.outcome with
  | ok s =>
    rw [bind_ok hr] at h
    rcases List.mem_append.mp h with h | h
    · exact .inl h
    · exact .inr ⟨s, rfl, h⟩
  | error e =>
    rw [bind_error hr] at h
    exact .inl h

theorem mem_bind_of_left {r : Emission ω ε σ} {w : ω} (h : w ∈ r.written)
    (f : σ → Emission ω ε τ) : w ∈ (r.bind f).written := by
  cases hr : r.outcome with
  | ok s =>
    rw [bind_ok hr]
    exact List.mem_append_left _ h
  | error e =>
    rw [bind_error hr]
    exact h

theorem forEach_map {β : Type*} (body : β → σ → Emission ω ε σ) (f : α → β) (l : List α) :
    forEach body (l.map f) = forEach (fun a => body (f a)) l := by
  induction l with
  | nil => rfl
  | cons a as ih =>
    funext s
    rw [List.map_cons, forEach, forEach, ih]

theorem bind_assoc {υ : Type*} (r : Emission ω ε σ) (f : σ → Emission ω ε τ)
    (g : τ → Emission ω ε υ) : (r.bind f).bind g = r.bind fun s => (f s).bind g := by
  cases hr : r.outcome with
  | error e => rw [bind_error hr, bind_error hr, bind_error (e := e) rfl]
  | ok s =>
    rw [bind_ok hr, bind_ok hr]
    cases hf : (f s).outcome with
    | error e => rw [bind_error (e := e) rfl, bind_error hf]
    | ok t => rw [bind_ok (s := t) rfl, bind_ok hf, List.append_assoc]

theorem pure_bind (s : σ) (f : σ → Emission ω ε τ) : (pure s).bind f = f s := rfl

theorem forEach_append (body : α → σ → Emission ω ε σ) (l l' : List α) (s : σ) :
    forEach body (l ++ l') s = (forEach body l s).bind (forEach body l') := by
  induction l generalizing s with
  | nil => rw [List.nil_append, forEach_nil, pure_bind]
  | cons a as ih =>
    rw [List.cons_append, forEach, forEach, bind_assoc]
    congr 1
    funext t
    exact ih t

/-- A loop in a loop is one loop over all pairs of rounds. -/
theorem forEach_flatMap {β : Type*} (body : β → σ → Emission ω ε σ) (f : α → List β)
    (l : List α) : forEach (fun a => forEach body (f a)) l = forEach body (l.flatMap f) := by
  induction l with
  | nil => rfl
  | cons a as ih =>
    funext s
    rw [List.flatMap_cons, forEach_append, forEach, ih]

/-- A loop over the indices of a list that looks up its elements is a loop over the list. -/
theorem forEach_range {indexed : ℕ → σ → Emission ω ε σ} {body : α → σ → Emission ω ε σ}
    {l : List α} (h : ∀ i (hi : i < l.length) s, indexed i s = body l[i] s) :
    forEach indexed (List.range l.length) = forEach body l := by
  induction l generalizing indexed with
  | nil => rfl
  | cons a as ih =>
    funext s
    have hrest : forEach (fun i => indexed (i + 1)) (List.range as.length) = forEach body as :=
      ih fun i hi s => h (i + 1) (by simpa using hi) s
    rw [List.length_cons, List.range_succ_eq_map, forEach, forEach, forEach_map, h 0 (by simp),
      hrest]
    rfl

theorem bind_pure (r : Emission ω ε σ) : r.bind pure = r := by
  obtain ⟨written, outcome⟩ := r
  cases outcome with
  | error e => rfl
  | ok s => exact congrArg (Emission.mk · _) (List.append_nil written)

/-- The output that `pick` takes and the part of the state that `proj` shows. -/
def project {υ : Type*} (pick : ω → Option ω') (proj : σ → υ) (r : Emission ω ε σ) :
    Emission ω' ε υ :=
  ⟨r.written.filterMap pick, r.outcome.map proj⟩

theorem project_bind {υ φ : Type*} {pick : ω → Option ω'} {proj : σ → υ} {proj' : τ → φ}
    {f : σ → Emission ω ε τ} {f' : υ → Emission ω' ε φ}
    (h : ∀ s, (f s).project pick proj' = f' (proj s)) (r : Emission ω ε σ) :
    (r.bind f).project pick proj' = (r.project pick proj).bind f' := by
  obtain ⟨written, outcome⟩ := r
  cases outcome with
  | error e => rfl
  | ok s =>
    rw [bind_ok (s := s) rfl, bind_ok (s := proj s) rfl, ← h s]
    simp [project]

/-- A loop is seen as another loop if each of its rounds is. -/
theorem forEach_project {υ : Type*} {pick : ω → Option ω'} {proj : σ → υ}
    {body : α → σ → Emission ω ε σ} {body' : α → υ → Emission ω' ε υ} {l : List α}
    (h : ∀ a ∈ l, ∀ s, (body a s).project pick proj = body' a (proj s)) (s : σ) :
    (forEach body l s).project pick proj = forEach body' l (proj s) := by
  induction l generalizing s with
  | nil => rfl
  | cons a l ih =>
    rw [forEach, forEach, ← h a List.mem_cons_self s]
    exact project_bind (fun t => ih (fun b hb => h b (List.mem_cons_of_mem a hb)) t) _

/-- The invariant rule of the loop: what one round preserves and writes, the loop does. -/
theorem forEach_invariant {body : α → σ → Emission ω ε σ} {l : List α} (I : σ → Prop)
    (P : ω → Prop)
    (keeps : ∀ a ∈ l, ∀ s s', I s → (body a s).outcome = .ok s' → I s')
    (writes : ∀ a ∈ l, ∀ s, I s → ∀ w ∈ (body a s).written, P w)
    (s : σ) (hs : I s) :
    (∀ w ∈ (forEach body l s).written, P w) ∧
      ∀ s', (forEach body l s).outcome = .ok s' → I s' := by
  induction l generalizing s with
  | nil =>
    refine ⟨by simp, fun s' h => ?_⟩
    cases h
    exact hs
  | cons a as ih =>
    have hrest := ih (fun b hb => keeps b (List.mem_cons_of_mem a hb))
      (fun b hb => writes b (List.mem_cons_of_mem a hb))
    constructor
    · intro w hw
      rcases mem_bind_written hw with hw | ⟨t, ht, hw⟩
      · exact writes a List.mem_cons_self s hs w hw
      · exact (hrest t (keeps a List.mem_cons_self s t hs ht)).1 w hw
    · intro s' h
      obtain ⟨t, ht, hout, -⟩ := bind_outcome_ok h
      exact (hrest t (keeps a List.mem_cons_self s t hs ht)).2 s' hout

/-- The writing half of the invariant rule, for a body whose output needs no invariant. -/
theorem forEach_writes {body : α → σ → Emission ω ε σ} {l : List α} (P : ω → Prop)
    (writes : ∀ a ∈ l, ∀ s, ∀ w ∈ (body a s).written, P w) (s : σ) :
    ∀ w ∈ (forEach body l s).written, P w :=
  (forEach_invariant (fun _ => True) P (fun _ _ _ _ _ _ => trivial)
    (fun a ha s _ => writes a ha s) s trivial).1

/-- A loop whose rounds all end and keep an invariant ends and keeps it. -/
theorem forEach_keeps {body : α → σ → Emission ω ε σ} {l : List α} {I : σ → Prop}
    (keeps : ∀ a ∈ l, ∀ s, I s → ∃ s', I s' ∧ (body a s).outcome = .ok s') {s : σ} (hs : I s) :
    ∃ s', I s' ∧ (forEach body l s).outcome = .ok s' := by
  induction l generalizing s with
  | nil => exact ⟨s, hs, rfl⟩
  | cons a as ih =>
    obtain ⟨t, ht, hout⟩ := keeps a List.mem_cons_self s hs
    obtain ⟨s', hs', hrest⟩ := ih (fun b hb => keeps b (List.mem_cons_of_mem a hb)) ht
    exact ⟨s', hs', by rw [forEach, bind_ok hout, hrest]⟩

/-- What the round of an element always writes is written by such a loop. -/
theorem mem_forEach {body : α → σ → Emission ω ε σ} {l : List α} {I : σ → Prop}
    (keeps : ∀ a ∈ l, ∀ s, I s → ∃ s', I s' ∧ (body a s).outcome = .ok s') {a : α} (ha : a ∈ l)
    {w : ω} (writes : ∀ s, I s → w ∈ (body a s).written) {s : σ} (hs : I s) :
    w ∈ (forEach body l s).written := by
  induction l generalizing s with
  | nil => cases ha
  | cons b bs ih =>
    obtain ⟨t, ht, hout⟩ := keeps b List.mem_cons_self s hs
    rw [forEach, bind_ok hout]
    rcases List.mem_cons.mp ha with rfl | ha
    · exact List.mem_append_left _ (writes s hs)
    · exact List.mem_append_right _
        (ih (fun c hc => keeps c (List.mem_cons_of_mem b hc)) ha ht)

/-- A loop whose rounds all end and write at least `k` items. -/
theorem length_forEach {body : α → σ → Emission ω ε σ} {l : List α} {I : σ → Prop} {k : ℕ}
    (keeps : ∀ a ∈ l, ∀ s, I s → ∃ s', I s' ∧ (body a s).outcome = .ok s')
    (writes : ∀ a ∈ l, ∀ s, I s → k ≤ (body a s).written.length) {s : σ} (hs : I s) :
    l.length * k ≤ (forEach body l s).written.length := by
  induction l generalizing s with
  | nil => simp
  | cons a as ih =>
    obtain ⟨t, ht, hout⟩ := keeps a List.mem_cons_self s hs
    have hfirst := writes a List.mem_cons_self s hs
    have hrest := ih (fun b hb => keeps b (List.mem_cons_of_mem a hb))
      (fun b hb => writes b (List.mem_cons_of_mem a hb)) ht
    rw [forEach, bind_ok hout, List.length_append, List.length_cons, Nat.add_one_mul]
    omega

/-- A loop whose rounds all end and write, up to items that are not looked at, what the element of
the round determines. -/
theorem forEach_filterMap {γ : Type*} {body : α → σ → Emission ω ε σ} {l : List α}
    {f : ω → Option γ} {items : α → List γ}
    (h : ∀ a ∈ l, ∀ s, (body a s).written.filterMap f = items a ∧
      ∃ s', (body a s).outcome = .ok s') (s : σ) :
    (forEach body l s).written.filterMap f = l.flatMap items ∧
      ∃ s', (forEach body l s).outcome = .ok s' := by
  induction l generalizing s with
  | nil => exact ⟨rfl, s, rfl⟩
  | cons a as ih =>
    obtain ⟨hitems, t, ht⟩ := h a List.mem_cons_self s
    obtain ⟨hrest, hend⟩ := ih (fun b hb => h b (List.mem_cons_of_mem a hb)) t
    rw [forEach, bind_ok ht]
    exact ⟨by rw [List.filterMap_append, hitems, hrest, List.flatMap_cons], hend⟩

/-- A loop whose rounds write at most one item each, read off the element of the round. -/
theorem forEach_sublist {γ : Type*} {body : α → σ → Emission ω ε σ} {l : List α} {f : ω → γ}
    {g : α → γ} (h : ∀ a ∈ l, ∀ s, ((body a s).written.map f).Sublist [g a]) (s : σ) :
    ((forEach body l s).written.map f).Sublist (l.map g) := by
  induction l generalizing s with
  | nil => exact .slnil
  | cons a as ih =>
    have hfirst := h a List.mem_cons_self s
    cases hrun : (body a s).outcome with
    | error e =>
      rw [forEach, bind_error hrun]
      exact hfirst.trans (List.singleton_sublist.mpr List.mem_cons_self)
    | ok t =>
      rw [forEach, bind_ok hrun, List.map_append, List.map_cons]
      exact hfirst.append (ih (fun b hb => h b (List.mem_cons_of_mem a hb)) t)

/-- What a finished loop wrote, cut into the parts its rounds wrote. If every round moves a clock
forward and `P` holds of its part between its two readings, the parts follow one another. -/
theorem forEach_parts {body : α → σ → Emission ω ε σ} {l : List α} {clock : σ → ℕ}
    {P : ℕ → ℕ → List ω → Prop}
    (round : ∀ a ∈ l, ∀ s t part, body a s = ⟨part, .ok t⟩ →
      clock s ≤ clock t ∧ P (clock s) (clock t) part)
    {s s' : σ} (h : (forEach body l s).outcome = .ok s') :
    clock s ≤ clock s' ∧ ∃ parts : List (List ω), (forEach body l s).written = parts.flatten ∧
      List.Forall₂ (fun a part => ∃ t t', body a t = ⟨part, .ok t'⟩) l parts ∧
      (∀ part ∈ parts, ∃ first last, clock s ≤ first ∧ last ≤ clock s' ∧ P first last part) ∧
      parts.Pairwise fun part part' => ∃ first last first' last', last ≤ first' ∧
        P first last part ∧ P first' last' part' := by
  induction l generalizing s with
  | nil =>
    obtain rfl := Except.ok.inj h
    exact ⟨Nat.le_refl _, [], rfl, .nil, by simp, .nil⟩
  | cons a as ih =>
    obtain ⟨t, ht, hout, hw⟩ := bind_outcome_ok h
    have hbody : body a s = ⟨(body a s).written, .ok t⟩ := by rw [← ht]
    obtain ⟨hclock, hpart⟩ := round a List.mem_cons_self s t _ hbody
    obtain ⟨hrest, parts, hparts, hall, hbetween, hpairwise⟩ :=
      ih (fun b hb => round b (List.mem_cons_of_mem a hb)) hout
    refine ⟨Nat.le_trans hclock hrest, (body a s).written :: parts, ?_,
      .cons ⟨s, t, hbody⟩ hall, ?_, ?_⟩
    · rw [forEach, hw, hparts, List.flatten_cons]
    · rw [List.forall_mem_cons]
      refine ⟨⟨_, _, Nat.le_refl _, hrest, hpart⟩, ?_⟩
      intro part hmem
      obtain ⟨first, last, hfirst, hlast, hP⟩ := hbetween part hmem
      exact ⟨first, last, Nat.le_trans hclock hfirst, hlast, hP⟩
    · refine .cons ?_ hpairwise
      intro part hmem
      obtain ⟨first, last, hfirst, -, hP⟩ := hbetween part hmem
      exact ⟨_, _, first, last, hfirst, hpart, hP⟩

theorem forEach_total {body : α → σ → Emission ω ε σ} {l : List α}
    (total : ∀ a ∈ l, ∀ s, ∃ s', (body a s).outcome = .ok s') (s : σ) :
    ∃ s', (forEach body l s).outcome = .ok s' := by
  obtain ⟨s', -, hout⟩ := forEach_keeps (I := fun _ => True)
    (fun a ha s _ => (total a ha s).imp fun _ h => ⟨trivial, h⟩) (s := s) trivial
  exact ⟨s', hout⟩

end Emission
end OsirisArm.Library
