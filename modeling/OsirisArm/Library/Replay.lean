import OsirisArm.Library.Trials

/-! # Replaying from a tape

A computation that asks its environment can be replayed by one that reads the answers off a tape: if
the tape holds the answers that the first one got, the second one does the same. The answers are
found from the first computation alone, so they can be put on a tape in advance.
-/

namespace OsirisArm.Library
open Emission
variable {σ τ ω ε α β : Type}

structure TapeReader (σ ω : Type) where
  tape : σ → ℕ → ω
  position : σ → ℕ

/-- A computation that goes on with a result and ends without one. -/
def andThen (first : Option α × σ) (next : α → σ → Option β × σ) : Option β × σ :=
  match first.1 with
  | none => (none, first.2)
  | some a => next a first.2

/-- What a run shows: its outputs, and how it ends as far as `f` tells. -/
def Emission.shown (f : σ → α) (r : Emission β ε σ) : List β × Except ε α :=
  (r.written, r.outcome.map f)

namespace TapeReader
variable (reader : TapeReader σ ω)

/-- These answers are next on the tape. -/
def Reads (s : σ) (answers : List ω) : Prop :=
  ∀ i (h : i < answers.length), reader.tape s (reader.position s + i) = answers[i]

/-- The reader has moved over the answers. -/
structure Advances (s : σ) (answers : List ω) (s' : σ) : Prop where
  tape : reader.tape s' = reader.tape s
  position : reader.position s' = reader.position s + answers.length

/-- From related states, with the right answers on the tape, `high` does what `low` does. -/
def Replays (R : σ → τ → Prop) (high : σ → Except ε (α × σ)) (low : τ → Except ε (α × τ)) : Prop :=
  ∀ t, ∃ answers, ∀ s, R s t → reader.Reads s answers →
    (∃ e, high s = .error e ∧ low t = .error e) ∨
    ∃ a s' t', high s = .ok (a, s') ∧ low t = .ok (a, t') ∧ R s' t' ∧
      reader.Advances s answers s'

variable {reader} {R : σ → τ → Prop}

theorem Reads.left {s : σ} {answers answers' : List ω} (h : reader.Reads s (answers ++ answers')) :
    reader.Reads s answers := by
  intro i hi
  have hread := h i (by simp; omega)
  rwa [List.getElem_append_left hi] at hread

theorem Reads.right {s s' : σ} {answers answers' : List ω}
    (h : reader.Reads s (answers ++ answers')) (hadvances : reader.Advances s answers s') :
    reader.Reads s' answers' := by
  intro i hi
  have hread := h (answers.length + i) (by simp; omega)
  rw [List.getElem_append_right (by omega)] at hread
  rw [hadvances.tape, hadvances.position, Nat.add_assoc, hread]
  simp

theorem Advances.nil (s : σ) : reader.Advances s [] s := ⟨rfl, rfl⟩

theorem Advances.trans {s s' s'' : σ} {answers answers' : List ω}
    (h : reader.Advances s answers s') (h' : reader.Advances s' answers' s'') :
    reader.Advances s (answers ++ answers') s'' := by
  constructor
  · rw [h'.tape, h.tape]
  · rw [h'.position, h.position, List.length_append, Nat.add_assoc]

/-- A reader that never moves and finds nothing: replaying with it is running in lockstep. -/
def blind : TapeReader σ Unit where
  tape _ _ := ()
  position _ := 0

theorem reads_blind (s : σ) (answers : List Unit) : (blind : TapeReader σ Unit).Reads s answers :=
  fun _ _ => rfl

theorem replays_pure (a : α) :
    reader.Replays R (fun s => (.ok (a, s) : Except ε (α × σ))) fun t => .ok (a, t) :=
  fun t => ⟨[], fun s hR _ => .inr ⟨a, s, t, rfl, rfl, hR, .nil s⟩⟩

theorem replays_error (e : ε) :
    reader.Replays R (fun _ => (.error e : Except ε (α × σ))) fun _ => .error e :=
  fun _ => ⟨[], fun _ _ _ => .inl ⟨e, rfl, rfl⟩⟩

theorem Replays.bind {first : σ → Except ε (α × σ)} {first' : τ → Except ε (α × τ)}
    {second : α → σ → Except ε (β × σ)} {second' : α → τ → Except ε (β × τ)}
    (h : reader.Replays R first first') (h' : ∀ a, reader.Replays R (second a) (second' a)) :
    reader.Replays R (fun s => first s >>= fun out => second out.1 out.2)
      fun t => first' t >>= fun out => second' out.1 out.2 := by
  unfold Replays
  beta_reduce
  intro t
  obtain ⟨answers, hfirst⟩ := h t
  cases ht : first' t with
  | error e =>
    refine ⟨answers, fun s hR hreads => .inl ?_⟩
    obtain ⟨e', hs, ht'⟩ | ⟨a, s', t', -, ht', -⟩ := hfirst s hR hreads
    · obtain rfl : e = e' := Except.error.inj (ht.symm.trans ht')
      rw [hs]
      exact ⟨e, rfl, rfl⟩
    · rw [ht] at ht'
      cases ht'
  | ok out =>
    obtain ⟨answers', hsecond⟩ := h' out.1 out.2
    refine ⟨answers ++ answers', fun s hR hreads => ?_⟩
    obtain ⟨e, -, ht'⟩ | ⟨a, s', t', hs, ht', hR', hadvances⟩ := hfirst s hR hreads.left
    · rw [ht] at ht'
      cases ht'
    · obtain rfl : out = (a, t') := Except.ok.inj (ht.symm.trans ht')
      rw [hs]
      obtain ⟨e, hs', ht''⟩ | ⟨b, s'', t'', hs', ht'', hR'', hadvances'⟩ :=
        hsecond s' hR' (hreads.right hadvances)
      · exact .inl ⟨e, hs', ht''⟩
      · exact .inr ⟨b, s'', t'', hs', ht'', hR'', hadvances.trans hadvances'⟩

theorem Replays.andThen {first : σ → Option α × σ} {first' : τ → Option α × τ}
    {next : α → σ → Option β × σ} {next' : α → τ → Option β × τ}
    (h : reader.Replays R (fun s => (.ok (first s) : Except ε _)) fun t => .ok (first' t))
    (h' : ∀ a, reader.Replays R (fun s => (.ok (next a s) : Except ε _)) fun t => .ok (next' a t)) :
    reader.Replays R (fun s => (.ok (Library.andThen (first s) next) : Except ε _))
      fun t => .ok (Library.andThen (first' t) next') := by
  have hnext (a : Option α) : reader.Replays R
      (fun s => (.ok (Library.andThen (a, s) next) : Except ε _))
      fun t => .ok (Library.andThen (a, t) next') := by
    cases a with
    | none => exact replays_pure none
    | some a => exact h' a
  exact h.bind hnext

theorem Replays.map {high : σ → α × σ} {low : τ → α × τ}
    (h : reader.Replays R (fun s => (.ok (high s) : Except ε _)) fun t => .ok (low t))
    (f : α → β) : reader.Replays R (fun s => (.ok (f (high s).1, (high s).2) : Except ε _))
      fun t => .ok (f (low t).1, (low t).2) :=
  h.bind fun a => replays_pure (f a)

theorem Replays.comap {R' : σ → τ → Prop} {high : σ → Except ε (α × σ)}
    {low : τ → Except ε (α × τ)} {f : σ → σ} {g : τ → τ} (h : reader.Replays R high low)
    (hbefore : ∀ s t, R' s t → R (f s) (g t)) (hafter : ∀ s t, R s t → R' s t)
    (hf : ∀ s, reader.Advances s [] (f s)) :
    reader.Replays R' (fun s => high (f s)) fun t => low (g t) := by
  intro t
  obtain ⟨answers, hanswers⟩ := h (g t)
  refine ⟨answers, fun s hst hreads => ?_⟩
  have hreads' : reader.Reads (f s) answers := by
    rw [← List.nil_append answers] at hreads
    exact hreads.right (hf s)
  obtain herror | ⟨a, s', t', hs, ht, hR', hadvances⟩ := hanswers (f s) (hbefore s t hst) hreads'
  · exact .inl herror
  · exact .inr ⟨a, s', t', hs, ht, hafter s' t' hR', (hf s).trans hadvances⟩

variable (reader) in
/-- The same for computations that write outputs: they write the same. -/
def ReplaysWriting (R : σ → τ → Prop) (high : σ → Emission β ε σ) (low : τ → Emission β ε τ) :
    Prop :=
  ∀ t, ∃ answers, ∀ s, R s t → reader.Reads s answers →
    (high s).written = (low t).written ∧
      ((∃ e, (high s).outcome = .error e ∧ (low t).outcome = .error e) ∨
        ∃ s' t', (high s).outcome = .ok s' ∧ (low t).outcome = .ok t' ∧ R s' t' ∧
          reader.Advances s answers s')

theorem replaysWriting_write (outputs : List β) :
    reader.ReplaysWriting R (fun s => (write outputs s : Emission β ε σ))
      fun t => write outputs t :=
  fun t => ⟨[], fun s hR _ => ⟨rfl, .inr ⟨s, t, rfl, rfl, hR, .nil s⟩⟩⟩

theorem replaysWriting_stop (e : ε) :
    reader.ReplaysWriting R (fun _ => (lift (.error e) : Emission β ε σ))
      fun _ => lift (.error e) :=
  fun _ => ⟨[], fun _ _ _ => ⟨rfl, .inl ⟨e, rfl, rfl⟩⟩⟩

theorem ReplaysWriting.bind {first second : σ → Emission β ε σ}
    {first' second' : τ → Emission β ε τ}
    (h : reader.ReplaysWriting R first first') (h' : reader.ReplaysWriting R second second') :
    reader.ReplaysWriting R (fun s => (first s).bind second) fun t => (first' t).bind second' := by
  unfold ReplaysWriting
  beta_reduce
  intro t
  obtain ⟨answers, hfirst⟩ := h t
  cases ht : (first' t).outcome with
  | error e =>
    refine ⟨answers, fun s hR hreads => ?_⟩
    obtain ⟨hwritten, ⟨e', hs, ht'⟩ | ⟨s', t', -, ht', -⟩⟩ := hfirst s hR hreads
    · rw [bind_error hs, bind_error ht', hwritten]
      exact ⟨rfl, .inl ⟨e', rfl, rfl⟩⟩
    · rw [ht] at ht'
      cases ht'
  | ok u =>
    obtain ⟨answers', hsecond⟩ := h' u
    refine ⟨answers ++ answers', fun s hR hreads => ?_⟩
    obtain ⟨hwritten, ⟨e, -, ht'⟩ | ⟨s', t', hs, ht', hR', hadvances⟩⟩ := hfirst s hR hreads.left
    · rw [ht] at ht'
      cases ht'
    · obtain rfl : u = t' := Except.ok.inj (ht.symm.trans ht')
      obtain ⟨hwritten', houtcome⟩ := hsecond s' hR' (hreads.right hadvances)
      rw [bind_ok hs, bind_ok ht', hwritten, hwritten']
      refine ⟨rfl, ?_⟩
      obtain herror | ⟨s'', t'', hs', ht'', hR'', hadvances'⟩ := houtcome
      · exact .inl herror
      · exact .inr ⟨s'', t'', hs', ht'', hR'', hadvances.trans hadvances'⟩

theorem ReplaysWriting.forEach {high : α → σ → Emission β ε σ} {low : α → τ → Emission β ε τ}
    {l : List α} (h : ∀ a ∈ l, reader.ReplaysWriting R (high a) (low a)) :
    reader.ReplaysWriting R (Emission.forEach high l) (Emission.forEach low l) := by
  induction l with
  | nil => exact replaysWriting_write []
  | cons a as ih =>
    exact (h a List.mem_cons_self).bind (ih fun b hb => h b (List.mem_cons_of_mem _ hb))

theorem Replays.writing {γ : Type} {test : σ → Except ε (α × σ)} {test' : τ → Except ε (α × τ)}
    {next : α → σ → Emission γ ε σ} {next' : α → τ → Emission γ ε τ}
    (h : reader.Replays R test test') (h' : ∀ a, reader.ReplaysWriting R (next a) (next' a)) :
    reader.ReplaysWriting R (fun s => (lift (test s)).bind fun out => next out.1 out.2)
      fun t => (lift (test' t)).bind fun out => next' out.1 out.2 := by
  unfold ReplaysWriting
  beta_reduce
  intro t
  obtain ⟨answers, htest⟩ := h t
  cases ht : test' t with
  | error e =>
    refine ⟨answers, fun s hR hreads => ?_⟩
    obtain ⟨e', hs, ht'⟩ | ⟨a, s', t', -, ht', -⟩ := htest s hR hreads
    · obtain rfl : e = e' := Except.error.inj (ht.symm.trans ht')
      rw [hs]
      exact ⟨rfl, .inl ⟨e, rfl, rfl⟩⟩
    · rw [ht] at ht'
      cases ht'
  | ok out =>
    obtain ⟨answers', hnext⟩ := h' out.1 out.2
    refine ⟨answers ++ answers', fun s hR hreads => ?_⟩
    obtain ⟨e, -, ht'⟩ | ⟨a, s', t', hs, ht', hR', hadvances⟩ := htest s hR hreads.left
    · rw [ht] at ht'
      cases ht'
    · obtain rfl : out = (a, t') := Except.ok.inj (ht.symm.trans ht')
      obtain ⟨hwritten, houtcome⟩ := hnext s' hR' (hreads.right hadvances)
      rw [hs, lift_ok_bind, lift_ok_bind]
      refine ⟨hwritten, ?_⟩
      obtain herror | ⟨s'', t'', hs', ht'', hR'', hadvances'⟩ := houtcome
      · exact .inl herror
      · exact .inr ⟨s'', t'', hs', ht'', hR'', hadvances.trans hadvances'⟩

theorem Replays.trials {high : α → σ → Except ε (β × σ)} {low : α → τ → Except ε (β × τ)}
    {l : List α} (h : ∀ a ∈ l, reader.Replays R (high a) (low a)) :
    reader.ReplaysWriting R (Emission.trials high l) (Emission.trials low l) :=
  .forEach fun a ha => (h a ha).writing fun b => replaysWriting_write [(a, b)]

theorem ReplaysWriting.shown {γ : Type} {high : σ → Emission β ε σ} {low : τ → Emission β ε τ}
    {f : σ → γ} {g : τ → γ} (h : reader.ReplaysWriting R high low)
    (hfg : ∀ s t, R s t → f s = g t) (t : τ) :
    ∃ answers, ∀ s, R s t → reader.Reads s answers → (high s).shown f = (low t).shown g := by
  obtain ⟨answers, hanswers⟩ := h t
  refine ⟨answers, fun s hR hreads => ?_⟩
  obtain ⟨hwritten, ⟨e, hs, ht⟩ | ⟨s', t', hs, ht, hR', -⟩⟩ := hanswers s hR hreads
  · rw [Emission.shown, Emission.shown, hwritten, hs, ht]
    rfl
  · rw [Emission.shown, Emission.shown, hwritten, hs, ht, Except.map, Except.map, hfg s' t' hR']

theorem ReplaysWriting.shown_blind {γ : Type} {high : σ → Emission β ε σ}
    {low : τ → Emission β ε τ} {f : σ → γ} {g : τ → γ} (h : blind.ReplaysWriting R high low)
    (hfg : ∀ s t, R s t → f s = g t) {s : σ} {t : τ} (hR : R s t) :
    (high s).shown f = (low t).shown g := by
  obtain ⟨answers, hanswers⟩ := h.shown hfg t
  exact hanswers s hR (reads_blind s answers)

end TapeReader
end OsirisArm.Library
