import OsirisArm.Library.Emission
import Mathlib.Data.List.Perm.Basic

/-! # Tests of the elements of a list

A loop tests the elements of a list one after the other, each in the state its predecessor left, and
writes every element with its result. The first test that stops ends the loop, so the tested
elements are a prefix of the list.
-/

namespace OsirisArm.Library.Emission
variable {α β ω ε σ : Type*}

/-- Test the elements one after the other and write each with its result. -/
def trials (test : α → σ → Except ε (β × σ)) : List α → σ → Emission (α × β) ε σ :=
  forEach fun a s => (lift (test a s)).bind fun result => write [(a, result.1)] result.2

/-- The tests lead from one state to the other with these results. -/
inductive Tested (test : α → σ → Except ε (β × σ)) : σ → List (α × β) → σ → Prop
  | nil (s : σ) : Tested test s [] s
  | cons {a : α} {b : β} {s t u : σ} {rest : List (α × β)} (first : test a s = .ok (b, t))
      (others : Tested test t rest u) : Tested test s ((a, b) :: rest) u

variable {test : α → σ → Except ε (β × σ)}

theorem trials_cons_ok {a : α} {b : β} {s t : σ} (h : test a s = .ok (b, t)) (as : List α) :
    trials test (a :: as) s =
      ⟨(a, b) :: (trials test as t).written, (trials test as t).outcome⟩ := by
  rw [trials, forEach, h, bind_ok (s := t) rfl]
  rfl

theorem trials_cons_error {a : α} {e : ε} {s : σ} (h : test a s = .error e) (as : List α) :
    trials test (a :: as) s = ⟨[], .error e⟩ := by
  rw [trials, forEach, h]
  rfl

theorem trials_tested (test : α → σ → Except ε (β × σ)) (l : List α) (s : σ) :
    ∃ t, Tested test s (trials test l s).written t := by
  induction l generalizing s with
  | nil => exact ⟨s, .nil s⟩
  | cons a as ih =>
    cases h : test a s with
    | error e =>
      rw [trials_cons_error h]
      exact ⟨s, .nil s⟩
    | ok result =>
      obtain ⟨t, ht⟩ := ih result.2
      rw [trials_cons_ok h]
      exact ⟨t, .cons h ht⟩

theorem trials_initial (test : α → σ → Except ε (β × σ)) (l : List α) (s : σ) :
    (trials test l s).written.map Prod.fst <+: l := by
  induction l generalizing s with
  | nil => exact List.prefix_rfl
  | cons a as ih =>
    cases h : test a s with
    | error e =>
      rw [trials_cons_error h]
      exact List.nil_prefix
    | ok result =>
      rw [trials_cons_ok h, List.map_cons, List.prefix_cons_inj]
      exact ih result.2

theorem trials_all {l : List α} {s s' : σ} (h : (trials test l s).outcome = .ok s') :
    (trials test l s).written.map Prod.fst = l := by
  induction l generalizing s with
  | nil => rfl
  | cons a as ih =>
    cases htest : test a s with
    | error e =>
      rw [trials_cons_error htest] at h
      cases h
    | ok result =>
      rw [trials_cons_ok htest] at h ⊢
      rw [List.map_cons, ih h]

theorem trials_ok {l : List α} {s s' : σ} (h : (trials test l s).outcome = .ok s') :
    Tested test s (trials test l s).written s' := by
  induction l generalizing s with
  | nil =>
    obtain rfl := Except.ok.inj h
    exact .nil s
  | cons a as ih =>
    cases htest : test a s with
    | error e =>
      rw [trials_cons_error htest] at h
      cases h
    | ok result =>
      rw [trials_cons_ok htest] at h ⊢
      exact .cons htest (ih h)

theorem Tested.mem {s t : σ} {results : List (α × β)} (h : Tested test s results t) {a : α} {b : β}
    (hmem : (a, b) ∈ results) : ∃ before after, test a before = .ok (b, after) := by
  induction h with
  | nil s => cases hmem
  | @cons a' b' s t u rest hfirst _ ih =>
    rcases List.mem_cons.mp hmem with heq | hrest
    · cases heq
      exact ⟨s, t, hfirst⟩
    · exact ih hrest

theorem trials_total {l : List α} (total : ∀ a ∈ l, ∀ s, ∃ result, test a s = .ok result)
    (s : σ) : ∃ s', (trials test l s).outcome = .ok s' := by
  apply forEach_total
  intro a ha s
  obtain ⟨result, hresult⟩ := total a ha s
  exact ⟨result.2, by rw [hresult, bind_ok (s := result) rfl]; rfl⟩

theorem trials_repeatable {result : α → β} {l : List α}
    (h : ∀ a ∈ l, ∀ s, ∃ s', test a s = .ok (result a, s')) (s : σ) :
    (trials test l s).written = l.map fun a => (a, result a) := by
  induction l generalizing s with
  | nil => rfl
  | cons a as ih =>
    obtain ⟨t, hfirst⟩ := h a List.mem_cons_self s
    rw [trials_cons_ok hfirst, List.map_cons, ih (fun b hb => h b (List.mem_cons_of_mem _ hb)) t]

/-- A loop that tests each element and writes what the result calls for. -/
theorem forEach_trials {body : α → σ → Emission ω ε σ} {items : α × β → List ω} {l : List α}
    (h : ∀ a ∈ l, ∀ s, body a s =
      (lift (test a s)).bind fun result => write (items (a, result.1)) result.2) (s : σ) :
    forEach body l s =
      ⟨(trials test l s).written.flatMap items, (trials test l s).outcome⟩ := by
  induction l generalizing s with
  | nil => rfl
  | cons a as ih =>
    have hrest := ih fun b hb => h b (List.mem_cons_of_mem a hb)
    rw [forEach, h a List.mem_cons_self]
    cases hrun : test a s with
    | error e =>
      rw [trials_cons_error hrun]
      rfl
    | ok result =>
      rw [trials_cons_ok hrun, lift_ok_bind, bind_ok (s := result.2) rfl, hrest,
        List.flatMap_cons]
      rfl

/-- A loop that skips some elements and tests the others is a loop of tests. -/
theorem forEach_skip {body : α → σ → Emission ω ε σ} {skip : α → Bool} {item : α × β → ω}
    {l : List α}
    (hskip : ∀ a ∈ l, ∀ s, skip a = true → body a s = pure s)
    (htest : ∀ a ∈ l, ∀ s, skip a = false → body a s =
      (lift (test a s)).bind fun result => write [item (a, result.1)] result.2) (s : σ) :
    forEach body l s = (trials test (l.filter fun a => !skip a) s).mapWritten item := by
  induction l generalizing s with
  | nil => rfl
  | cons a as ih =>
    have hrest := ih (fun b hb => hskip b (List.mem_cons_of_mem a hb))
      (fun b hb => htest b (List.mem_cons_of_mem a hb))
    cases ha : skip a with
    | true =>
      rw [forEach, hskip a List.mem_cons_self s ha, bind_ok (s := s) rfl, hrest,
        List.filter_cons_of_neg (by simp [ha])]
      rfl
    | false =>
      rw [forEach, htest a List.mem_cons_self s ha, List.filter_cons_of_pos (by simp [ha])]
      cases hrun : test a s with
      | error e =>
        rw [trials_cons_error hrun]
        rfl
      | ok result =>
        rw [trials_cons_ok hrun, bind_ok (s := result.2) rfl, hrest]
        rfl

/-- The condition holds for each element in the state in which its round of the loop starts. -/
def Along (body : α → σ → Emission ω ε σ) (P : α → σ → Prop) : List α → σ → Prop
  | [], _ => True
  | a :: as, s => P a s ∧ ∀ t, (body a s).outcome = .ok t → Along body P as t

theorem Along.of_map {body : α → σ → Emission ω ε σ} {P : α → σ → Prop} {f : β → α} {l : List β}
    {s : σ} (h : Along body P (l.map f) s) :
    Along (fun b => body (f b)) (fun b => P (f b)) l s := by
  induction l generalizing s with
  | nil => trivial
  | cons b l ih => exact ⟨h.1, fun t ht => ih (h.2 t ht)⟩

/-- The tests of a loop start in states in which the condition holds for their elements. -/
theorem Along.tested {body : α → σ → Emission ω ε σ} {P : α → σ → Prop} {skip : α → Bool}
    {l : List α} (hskip : ∀ a ∈ l, ∀ s, skip a = true → (body a s).outcome = .ok s)
    (htest : ∀ a ∈ l, ∀ s, skip a = false → (body a s).outcome = (test a s).map Prod.snd) {s : σ}
    (h : Along body P l s) :
    ∀ tested ∈ (trials test (l.filter fun a => !skip a) s).written,
      ∃ before after, P tested.1 before ∧ test tested.1 before = .ok (tested.2, after) := by
  induction l generalizing s with
  | nil => simp [trials]
  | cons a l ih =>
    have ih := @ih (fun b hb => hskip b (List.mem_cons_of_mem a hb))
      fun b hb => htest b (List.mem_cons_of_mem a hb)
    cases ha : skip a with
    | true =>
      rw [List.filter_cons_of_neg (by simp [ha])]
      exact ih (h.2 s (hskip a List.mem_cons_self s ha))
    | false =>
      rw [List.filter_cons_of_pos (by simp [ha])]
      cases hresult : test a s with
      | error e => simp [trials_cons_error hresult]
      | ok result =>
        rw [trials_cons_ok hresult, List.forall_mem_cons]
        refine ⟨⟨s, result.2, h.1, hresult⟩, ih (h.2 _ ?_)⟩
        rw [htest a List.mem_cons_self s ha, hresult]
        rfl

/-- If the results decide rightly about sure and about impossible elements, then the elements that
are decided for lie between the sure and the possible ones. -/
theorem filter_sandwich {tests : List (α × β)} {decided : α × β → Bool} {sure possible : α → Bool}
    (hsure : ∀ t ∈ tests, sure t.1 = true → decided t = true)
    (hpossible : ∀ t ∈ tests, decided t = true → possible t.1 = true) :
    ((tests.map Prod.fst).filter sure).Sublist ((tests.filter decided).map Prod.fst) ∧
      ((tests.filter decided).map Prod.fst).Sublist ((tests.map Prod.fst).filter possible) := by
  constructor
  · have hfilter : tests.filter (sure ∘ Prod.fst) =
        (tests.filter decided).filter (sure ∘ Prod.fst) := by
      rw [List.filter_filter]
      apply List.filter_congr
      intro t ht
      cases h : sure t.1 with
      | true => simp [h, hsure t ht h]
      | false => simp [h]
    rw [List.filter_map, hfilter]
    exact List.filter_sublist.map _
  · have hfilter : tests.filter decided =
        (tests.filter (possible ∘ Prod.fst)).filter decided := by
      rw [List.filter_filter]
      apply List.filter_congr
      intro t ht
      cases h : decided t with
      | true => simp [hpossible t ht h]
      | false => simp
    rw [List.filter_map, hfilter]
    exact List.filter_sublist.map _

/-- A permutation of a list of images comes from a permutation of the list. -/
theorem exists_perm_of_map {f : α → β} {l : List α} {images : List β}
    (h : images.Perm (l.map f)) : ∃ l' : List α, l'.Perm l ∧ images = l'.map f := by
  have hrelated : List.Forall₂ (fun b a => b = f a) (l.map f) l := by
    rw [List.forall₂_map_left_iff]
    exact List.forall₂_same.mpr fun _ _ => rfl
  obtain ⟨l', hl', hperm⟩ := List.perm_comp_forall₂ h hrelated
  refine ⟨l', hperm, ?_⟩
  rwa [← List.forall₂_eq_eq_eq, List.forall₂_map_right_iff]

end OsirisArm.Library.Emission
