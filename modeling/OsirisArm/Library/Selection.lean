import Mathlib.Data.List.MinMax
import Mathlib.Data.List.Nodup
import Mathlib.Data.Finset.Max
import Mathlib.Data.Prod.Lex

/-! # The first best element of each group

The elements of a list are numbered in increasing order and fall into groups by a key. An element
is best when no element of its group weighs more and no earlier one weighs as much. Choosing the
best of each group depends on the order of the numbers only, and choosing first in small groups
and then in large ones is the same as choosing in the large ones at once.
-/

namespace OsirisArm.Library.Selection
variable {α κ κ' : Type*} [DecidableEq κ] [DecidableEq κ']

/-- The numbers grow along the list. -/
def Numbered (l : List (α × ℕ)) : Prop := l.Pairwise (fun p q => p.2 < q.2)

/-- `p` is the first element of maximal weight in its group. -/
def IsBest (key : α → κ) (weight : α → ℕ) (l : List (α × ℕ)) (p : α × ℕ) : Prop :=
  ∀ q ∈ l, key q.1 = key p.1 → weight q.1 ≤ weight p.1 ∧ (q.2 < p.2 → weight q.1 < weight p.1)

instance (key : α → κ) (weight : α → ℕ) (l : List (α × ℕ)) (p : α × ℕ) :
    Decidable (IsBest key weight l p) :=
  inferInstanceAs (Decidable (∀ q ∈ l, _))

def select (key : α → κ) (weight : α → ℕ) (l : List (α × ℕ)) : List (α × ℕ) :=
  l.filter (fun p => decide (IsBest key weight l p))

/-- The best element of each group of a plain list, in the order of the list. -/
def firstBest (key : α → κ) (weight : α → ℕ) (xs : List α) : List α :=
  (select key weight xs.zipIdx).map Prod.fst

theorem mem_select {key : α → κ} {weight : α → ℕ} {l : List (α × ℕ)} {p : α × ℕ} :
    p ∈ select key weight l ↔ p ∈ l ∧ IsBest key weight l p := by
  simp [select]

theorem Numbered.sublist {l l' : List (α × ℕ)} (hl : Numbered l) (h : l'.Sublist l) :
    Numbered l' := List.Pairwise.sublist h hl

theorem numbered_zipIdx (xs : List α) (n : ℕ) : Numbered (xs.zipIdx n) := by
  induction xs generalizing n with
  | nil => exact .nil
  | cons x xs ih =>
    rw [List.zipIdx_cons]
    refine List.pairwise_cons.mpr ⟨fun q hq => ?_, ih (n + 1)⟩
    have := List.le_snd_of_mem_zipIdx hq
    exact this

theorem Numbered.eq_of_number {l : List (α × ℕ)} (hl : Numbered l) {p q : α × ℕ}
    (hp : p ∈ l) (hq : q ∈ l) (h : p.2 = q.2) : p = q := by
  induction l with
  | nil => cases hp
  | cons r l ih =>
    obtain ⟨hr, hl⟩ := List.pairwise_cons.mp hl
    rcases List.mem_cons.mp hp with hpr | hp <;> rcases List.mem_cons.mp hq with hqr | hq
    · rw [hpr, hqr]
    · exact absurd h (by rw [hpr]; exact (hr q hq).ne)
    · exact absurd h (by rw [hqr]; exact (hr p hp).ne')
    · exact ih hl hp hq

theorem exists_isBest (key : α → κ) (weight : α → ℕ) {l : List (α × ℕ)} {b : α × ℕ}
    (hb : b ∈ l) : ∃ c ∈ l, key c.1 = key b.1 ∧ IsBest key weight l c := by
  classical
  -- The order compares weights first and prefers the smaller number among equal weights.
  let rank : α × ℕ → ℕ ×ₗ ℕᵒᵈ := fun p => toLex (weight p.1, OrderDual.toDual p.2)
  let group := (l.filter (fun q => decide (key q.1 = key b.1))).toFinset
  have hgroup : group.Nonempty := ⟨b, by simp [group, hb]⟩
  obtain ⟨c, hc, hmax⟩ := group.exists_max_image rank hgroup
  have hc' : c ∈ l ∧ key c.1 = key b.1 := by simpa [group] using hc
  refine ⟨c, hc'.1, hc'.2, fun q hq hkey => ?_⟩
  have hle := hmax q (by simp [group, hq, hkey, hc'.2])
  rcases (Prod.Lex.le_iff).mp hle with hlt | ⟨heq, hnum⟩
  · have hlt : weight q.1 < weight c.1 := hlt
    exact ⟨hlt.le, fun _ => hlt⟩
  · have heq : weight q.1 = weight c.1 := heq
    have hnum : c.2 ≤ q.2 := hnum
    exact ⟨heq.le, fun h => absurd h (not_lt.mpr hnum)⟩

omit [DecidableEq κ] in
theorem IsBest.unique {key : α → κ} {weight : α → ℕ} {l : List (α × ℕ)} (hl : Numbered l)
    {p q : α × ℕ} (hp : p ∈ l) (hq : q ∈ l) (hkey : key p.1 = key q.1)
    (hbp : IsBest key weight l p) (hbq : IsBest key weight l q) : p = q := by
  have hpq := hbp q hq hkey.symm
  have hqp := hbq p hp hkey
  apply hl.eq_of_number hp hq
  by_contra hne
  rcases Nat.lt_or_gt_of_ne hne with h | h
  · have := hqp.2 h
    omega
  · have := hpq.2 h
    omega

/-- `selected` holds the first element of maximal weight of each group, in the order of the
list. -/
structure Selects (key : α → κ) (weight : α → ℕ) (l selected : List (α × ℕ)) : Prop where
  inOrder : selected.Sublist l
  best : ∀ p ∈ selected, IsBest key weight l p
  onePerGroup : ∀ q ∈ l, ∃! p, p ∈ selected ∧ key p.1 = key q.1

theorem selects_select (key : α → κ) (weight : α → ℕ) {l : List (α × ℕ)} (hl : Numbered l) :
    Selects key weight l (select key weight l) where
  inOrder := List.filter_sublist
  best := fun _ hp => (mem_select.mp hp).2
  onePerGroup := by
    intro q hq
    obtain ⟨best, hmem, hkey, hbest⟩ := exists_isBest key weight hq
    refine ⟨best, ⟨mem_select.mpr ⟨hmem, hbest⟩, hkey⟩, fun p ⟨hp, hpkey⟩ => ?_⟩
    obtain ⟨hpmem, hpbest⟩ := mem_select.mp hp
    exact IsBest.unique hl hpmem hmem (hpkey.trans hkey.symm) hpbest hbest

/-- Choosing in small groups first does not change the choice in large groups. -/
theorem select_select {fine : α → κ} {coarse : α → κ'} {weight : α → ℕ} {l : List (α × ℕ)}
    (refines : ∀ p ∈ l, ∀ q ∈ l, fine p.1 = fine q.1 → coarse p.1 = coarse q.1) :
    select coarse weight (select fine weight l) = select coarse weight l := by
  unfold select
  rw [List.filter_filter]
  apply List.filter_congr
  intro a ha
  rw [Bool.eq_iff_iff]
  simp only [Bool.and_eq_true, decide_eq_true_eq]
  constructor
  · rintro ⟨hcoarse, hfine⟩ b hb hkey
    obtain ⟨c, hc, hcb, hbest⟩ := exists_isBest fine weight hb
    have hcsel : c ∈ l.filter (fun p => decide (IsBest fine weight l p)) := by simp [hc, hbest]
    obtain ⟨hle, hlt⟩ := hcoarse c hcsel ((refines c hc b hb hcb).trans hkey)
    obtain ⟨hbc, hbc'⟩ := hbest b hb hcb.symm
    refine ⟨hbc.trans hle, fun hba => ?_⟩
    -- Either the best of the small group is at or after `a`, then `b` is before it, or it is
    -- before `a` itself.
    by_cases hca : c.2 < a.2
    · exact hbc.trans_lt (hlt hca)
    · exact (hbc' (by omega)).trans_le hle
  · intro h
    exact ⟨fun b hb hkey => h b (List.mem_filter.mp hb).1 hkey,
      fun b hb hkey => h b hb (refines b hb a ha hkey)⟩

omit [DecidableEq κ] in
/-- The best element of its group stays the best one when others leave. -/
theorem IsBest.sublist {key : α → κ} {weight : α → ℕ} {l l' : List (α × ℕ)} {p : α × ℕ}
    (h : IsBest key weight l p) (hsub : l'.Sublist l) : IsBest key weight l' p :=
  fun q hq => h q (hsub.subset hq)

omit [DecidableEq κ] in
/-- Renumbering that keeps the order of the numbers keeps the best elements. -/
theorem isBest_map_number {key : α → κ} {weight : α → ℕ} {l : List (α × ℕ)} {φ : ℕ → ℕ}
    (hφ : ∀ p ∈ l, ∀ q ∈ l, φ p.2 < φ q.2 ↔ p.2 < q.2) {p : α × ℕ} (hp : p ∈ l) :
    IsBest key weight (l.map fun p => (p.1, φ p.2)) (p.1, φ p.2) ↔ IsBest key weight l p := by
  simp only [IsBest, List.forall_mem_map]
  exact forall₂_congr fun q hq => by rw [hφ q hq p hp]

theorem select_map_number {key : α → κ} {weight : α → ℕ} {l : List (α × ℕ)} (φ : ℕ → ℕ)
    (hφ : ∀ p ∈ l, ∀ q ∈ l, φ p.2 < φ q.2 ↔ p.2 < q.2) :
    select key weight (l.map (fun p => (p.1, φ p.2))) =
      (select key weight l).map (fun p => (p.1, φ p.2)) := by
  unfold select
  rw [List.filter_map]
  congr 1
  apply List.filter_congr
  intro p hp
  rw [Function.comp_apply, decide_eq_decide]
  exact isBest_map_number hφ hp

/-- Numbering a numbered list afresh is a renumbering that keeps the order. -/
theorem zipIdx_renumbers {l : List (α × ℕ)} (hl : Numbered l) :
    ∃ φ : ℕ → ℕ, (l.map Prod.fst).zipIdx = l.map (fun p => (p.1, φ p.2)) ∧
      ∀ p ∈ l, ∀ q ∈ l, φ p.2 < φ q.2 ↔ p.2 < q.2 := by
  have hsorted : (l.map Prod.snd).Pairwise (· < ·) := List.pairwise_map.mpr hl
  have hnodup : (l.map Prod.snd).Nodup := hsorted.imp ne_of_lt
  have hidx (i : ℕ) (hi : i < l.length) : (l.map Prod.snd).idxOf (l[i]).2 = i := by
    have h := hnodup.idxOf_getElem i (by simpa using hi)
    simpa using h
  refine ⟨fun n => (l.map Prod.snd).idxOf n, ?_, ?_⟩
  · apply List.ext_getElem
    · simp
    · intro i h₁ h₂
      have hi : i < l.length := by simpa using h₂
      simp [List.getElem_zipIdx, hidx i hi]
  · intro p hp q hq
    obtain ⟨i, hi, rfl⟩ := List.getElem_of_mem hp
    obtain ⟨j, hj, rfl⟩ := List.getElem_of_mem hq
    simp only [hidx i hi, hidx j hj]
    have hmono (a b : ℕ) (ha : a < l.length) (hb : b < l.length) (h : a < b) :
        (l[a]).2 < (l[b]).2 := List.pairwise_iff_getElem.mp hl a b ha hb h
    constructor
    · exact hmono i j hi hj
    · intro h
      by_contra hn
      rcases Nat.lt_or_ge j i with hji | hij
      · have := hmono j i hj hi hji
        omega
      · have : i = j := by omega
        subst this
        omega

theorem firstBest_map_fst {key : α → κ} {weight : α → ℕ} {l : List (α × ℕ)} (hl : Numbered l) :
    firstBest key weight (l.map Prod.fst) = (select key weight l).map Prod.fst := by
  obtain ⟨φ, hzip, hφ⟩ := zipIdx_renumbers hl
  rw [firstBest, hzip, select_map_number φ hφ, List.map_map]
  rfl

/-- The two-stage choice on plain lists, each stage numbering its input afresh. -/
theorem firstBest_firstBest {fine : α → κ} {coarse : α → κ'} {weight : α → ℕ} {xs : List α}
    (refines : ∀ x ∈ xs, ∀ y ∈ xs, fine x = fine y → coarse x = coarse y) :
    firstBest coarse weight (firstBest fine weight xs) = firstBest coarse weight xs := by
  have hnum : Numbered (select fine weight xs.zipIdx) :=
    (numbered_zipIdx xs 0).sublist List.filter_sublist
  have hmem (p : α × ℕ) (hp : p ∈ xs.zipIdx) : p.1 ∈ xs := List.fst_mem_of_mem_zipIdx hp
  calc firstBest coarse weight (firstBest fine weight xs)
      = (select coarse weight (select fine weight xs.zipIdx)).map Prod.fst :=
        firstBest_map_fst hnum
    _ = firstBest coarse weight xs := by
        rw [select_select (fun p hp q hq => refines p.1 (hmem p hp) q.1 (hmem q hq))]
        rfl

theorem firstBest_congr {key : α → κ} {key' : α → κ'} {weight : α → ℕ} {xs : List α}
    (h : ∀ x ∈ xs, ∀ y ∈ xs, key x = key y ↔ key' x = key' y) :
    firstBest key weight xs = firstBest key' weight xs := by
  unfold firstBest select
  congr 1
  apply List.filter_congr
  intro p hp
  rw [decide_eq_decide]
  exact forall₂_congr fun q hq => by
    rw [h q.1 (List.fst_mem_of_mem_zipIdx hq) p.1 (List.fst_mem_of_mem_zipIdx hp)]

omit [DecidableEq κ] in
/-- The running maximum over a numbered list ends at the first element of maximal weight. -/
theorem argmax_first {weight : α → ℕ} {l : List (α × ℕ)} (hl : Numbered l) {p : α × ℕ}
    (h : l.argmax (fun q => weight q.1) = some p) :
    p ∈ l ∧ ∀ q ∈ l, weight q.1 ≤ weight p.1 ∧ (q.2 < p.2 → weight q.1 < weight p.1) := by
  induction l generalizing p with
  | nil => cases h
  | cons a l ih =>
    obtain ⟨ha, hl⟩ := List.pairwise_cons.mp hl
    rw [List.argmax_cons] at h
    cases hc : l.argmax (fun q => weight q.1) with
    | none =>
      rw [hc] at h
      cases h
      rw [List.argmax_eq_none] at hc
      simp [hc]
    | some c =>
      obtain ⟨hcl, hmax⟩ := ih hl hc
      rw [hc] at h
      simp only at h
      split at h
      · next hlt =>
        cases h
        refine ⟨List.mem_cons_of_mem a hcl, fun q hq => ?_⟩
        rcases List.mem_cons.mp hq with rfl | hq
        · exact ⟨hlt.le, fun _ => hlt⟩
        · exact hmax q hq
      · next hlt =>
        cases h
        refine ⟨List.mem_cons_self, fun q hq => ?_⟩
        rcases List.mem_cons.mp hq with rfl | hq
        · exact ⟨le_rfl, fun h => absurd h (lt_irrefl _)⟩
        · have h₁ := (hmax q hq).1
          have h₂ := ha q hq
          exact ⟨by omega, fun h => by omega⟩

/-- The running maximum over the elements of a group ends at the best one. -/
theorem argmax_eq_some_iff_isBest {key : α → κ} {weight : α → ℕ} {l : List (α × ℕ)}
    (hl : Numbered l) {k : κ} {p : α × ℕ} :
    (l.filter (fun q => decide (key q.1 = k))).argmax (fun q => weight q.1) = some p ↔
      p ∈ l ∧ key p.1 = k ∧ IsBest key weight l p := by
  have forward {c : α × ℕ} (h : (l.filter (fun q => decide (key q.1 = k))).argmax
      (fun q => weight q.1) = some c) : c ∈ l ∧ key c.1 = k ∧ IsBest key weight l c := by
    obtain ⟨hc, hmax⟩ := argmax_first (hl.sublist List.filter_sublist) h
    have hc' : c ∈ l ∧ key c.1 = k := by simpa using hc
    exact ⟨hc'.1, hc'.2, fun q hq hqc => hmax q (by simp [hq, hqc, hc'.2])⟩
  refine ⟨forward, fun ⟨hp, hkey, hbest⟩ => ?_⟩
  cases hres : (l.filter (fun q => decide (key q.1 = k))).argmax (fun q => weight q.1) with
  | none =>
    rw [List.argmax_eq_none] at hres
    have hmem : p ∈ l.filter (fun q => decide (key q.1 = k)) := by simp [hp, hkey]
    rw [hres] at hmem
    cases hmem
  | some c =>
    obtain ⟨hc, hckey, hcbest⟩ := forward hres
    rw [IsBest.unique hl hc hp (hckey.trans hkey.symm) hcbest hbest]

end OsirisArm.Library.Selection
