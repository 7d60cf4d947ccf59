import Mathlib.Data.List.Basic
import Mathlib.Data.Nat.Init
import Mathlib.Algebra.Order.Group.Int
import Mathlib.Algebra.Group.Nat.Defs

/-! # Printing and reading numbers

Numbers are printed without leading zeros, negative ones with a minus sign. They are read as
`strtol` of the C library reads them: leading blanks, a sign, for base sixteen an optional `0x`,
then the longest run of digits; what follows the digits is ignored.
-/

namespace OsirisArm.Library

def digitValue (c : Char) : Option ℕ :=
  if c.isDigit then some (c.toNat - 48)
  else if c.isLower then some (c.toNat - 87)
  else if c.isUpper then some (c.toNat - 55)
  else none

def isDigitOf (base : ℕ) (c : Char) : Bool :=
  match digitValue c with
  | some d => d < base
  | none => false

/-- The value of the longest prefix of digits, in front of which `value` has been read. -/
def readDigits (base : ℕ) : List Char → ℕ → ℕ
  | [], value => value
  | c :: cs, value =>
    match digitValue c with
    | some d => if d < base then readDigits base cs (base * value + d) else value
    | none => value

/-- The white space of the C locale. -/
def isSpace (c : Char) : Bool :=
  c = ' ' || c = '\t' || c = '\n' || c = '\r' || c.toNat = 11 || c.toNat = 12

def skipHexPrefix : List Char → List Char
  | '0' :: x :: c :: cs =>
    if (x = 'x' ∨ x = 'X') ∧ isDigitOf 16 c then c :: cs else '0' :: x :: c :: cs
  | cs => cs

def splitSign : List Char → Bool × List Char
  | '-' :: cs => (true, cs)
  | '+' :: cs => (false, cs)
  | cs => (false, cs)

/-- `strtol` with an unbounded result; `none` when there is no digit to read. -/
def strtol (base : ℕ) (text : List Char) : Option ℤ :=
  let signed := splitSign (text.dropWhile isSpace)
  let digits := if base = 16 then skipHexPrefix signed.2 else signed.2
  match digits with
  | [] => none
  | c :: _ =>
    if isDigitOf base c then
      some (if signed.1 then -(readDigits base digits 0 : ℤ) else (readDigits base digits 0 : ℤ))
    else none

/-- The decimal text of an integer, as `std::to_string` writes it. -/
def printInt (n : ℤ) : List Char :=
  if n < 0 then '-' :: Nat.toDigits 10 n.natAbs else Nat.toDigits 10 n.natAbs

/-- The lower-case hexadecimal text of a number, as `std::hex` writes it. -/
def printHex (n : ℕ) : List Char := Nat.toDigits 16 n

theorem digitValue_digitChar {n : ℕ} (h : n < 16) : digitValue n.digitChar = some n := by
  have key : ∀ k : Fin 16, digitValue (Nat.digitChar k) = some k.val := by decide
  exact key ⟨n, h⟩

theorem mem_toDigits {b n : ℕ} (hb : 1 < b) {c : Char} (h : c ∈ Nat.toDigits b n) :
    ∃ d, d < b ∧ c = d.digitChar := by
  induction n using Nat.strong_induction_on with
  | _ n ih =>
    rw [Nat.toDigits_eq_if hb] at h
    split at h
    · next hn => exact ⟨n, hn, List.mem_singleton.mp h⟩
    · next hn =>
      rcases List.mem_append.mp h with h | h
      · exact ih (n / b) (Nat.div_lt_self (by omega) hb) h
      · exact ⟨n % b, Nat.mod_lt n (by omega), List.mem_singleton.mp h⟩

/-- Reading the digits of `n` leaves the reader with the value `n` in front of the rest. -/
theorem readDigits_toDigits {b : ℕ} (hb : 1 < b) (hb' : b ≤ 16) (n : ℕ) (rest : List Char) :
    readDigits b (Nat.toDigits b n ++ rest) 0 = readDigits b rest n := by
  induction n using Nat.strong_induction_on generalizing rest with
  | _ n ih =>
    rw [Nat.toDigits_eq_if hb]
    split
    · next hn =>
      rw [List.singleton_append, readDigits, digitValue_digitChar (by omega)]
      simp [hn]
    · next hn =>
      have hmod : n % b < b := Nat.mod_lt n (by omega)
      rw [List.append_assoc, ih (n / b) (Nat.div_lt_self (by omega) hb), List.singleton_append,
        readDigits, digitValue_digitChar (by omega)]
      simp [hmod, Nat.div_add_mod]

private theorem digitChar_plain {d : ℕ} (h : d < 16) :
    isSpace d.digitChar = false ∧ d.digitChar ≠ '-' ∧ d.digitChar ≠ '+' ∧
      d.digitChar ≠ 'x' ∧ d.digitChar ≠ 'X' ∧ d.digitChar ≠ ';' ∧ d.digitChar ≠ '\n' := by
  have key : ∀ k : Fin 16, isSpace (Nat.digitChar k) = false ∧ Nat.digitChar k ≠ '-' ∧
      Nat.digitChar k ≠ '+' ∧ Nat.digitChar k ≠ 'x' ∧ Nat.digitChar k ≠ 'X' ∧
      Nat.digitChar k ≠ ';' ∧ Nat.digitChar k ≠ '\n' := by decide
  exact key ⟨d, h⟩

theorem isDigitOf_digitChar {b d : ℕ} (hb : b ≤ 16) (h : d < b) :
    isDigitOf b d.digitChar = true := by
  simp [isDigitOf, digitValue_digitChar (by omega : d < 16), h]

/-- Every character of the text is a digit. -/
def AllDigits (b : ℕ) (text : List Char) : Prop := ∀ c ∈ text, ∃ d, d < b ∧ c = d.digitChar

theorem allDigits_toDigits {b : ℕ} (hb : 1 < b) (n : ℕ) : AllDigits b (Nat.toDigits b n) :=
  fun _ hc => mem_toDigits hb hc

theorem skipHexPrefix_of_digits {text : List Char} (h : AllDigits 16 text) :
    skipHexPrefix text = text := by
  unfold skipHexPrefix
  split
  · next x c cs =>
    obtain ⟨d, hd, rfl⟩ := h x (by simp)
    obtain ⟨-, -, -, hx, hX, -, -⟩ := digitChar_plain hd
    simp [hx, hX]
  · rfl

theorem strtol_of_digits {b : ℕ} (hb : b ≤ 16) {text : List Char} (hne : text ≠ [])
    (h : AllDigits b text) : strtol b text = some (readDigits b text 0 : ℤ) := by
  obtain ⟨c, cs, rfl⟩ := List.exists_cons_of_ne_nil hne
  obtain ⟨d, hd, rfl⟩ := h c List.mem_cons_self
  obtain ⟨hspace, hminus, hplus, -⟩ := digitChar_plain (d := d) (by omega)
  have hdrop : (d.digitChar :: cs).dropWhile isSpace = d.digitChar :: cs := by
    rw [List.dropWhile_cons, hspace]
    rfl
  have hsign : splitSign (d.digitChar :: cs) = (false, d.digitChar :: cs) := by
    unfold splitSign
    split <;> simp_all
  have hhex : (if b = 16 then skipHexPrefix (d.digitChar :: cs) else d.digitChar :: cs) =
      d.digitChar :: cs := by
    split
    · next hb => exact skipHexPrefix_of_digits (hb ▸ h)
    · rfl
  simp [strtol, hdrop, hsign, hhex, isDigitOf_digitChar hb hd]

theorem strtol_toDigits {b : ℕ} (hb : 1 < b) (hb' : b ≤ 16) (n : ℕ) :
    strtol b (Nat.toDigits b n) = some (n : ℤ) := by
  have hread : readDigits b (Nat.toDigits b n) 0 = n := by
    have h := readDigits_toDigits hb hb' n []
    rwa [List.append_nil] at h
  rw [strtol_of_digits hb' Nat.toDigits_ne_nil (allDigits_toDigits hb n), hread]

/-- The last `width` digits of `n`. -/
def fixedDigits (b : ℕ) : ℕ → ℕ → List Char
  | 0, _ => []
  | width + 1, n => fixedDigits b width (n / b) ++ [(n % b).digitChar]

theorem fixedDigits_zero {b : ℕ} (width : ℕ) :
    fixedDigits b width 0 = List.replicate width '0' := by
  induction width with
  | zero => rfl
  | succ width ih => rw [fixedDigits, Nat.zero_div, ih, Nat.zero_mod, List.replicate_succ']; rfl

/-- Padding with zeros writes a number with all digits of the width. -/
theorem leftpad_toDigits {b : ℕ} (hb : 1 < b) {width n : ℕ} (h : n < b ^ (width + 1)) :
    (Nat.toDigits b n).leftpad (width + 1) '0' = fixedDigits b (width + 1) n := by
  induction width generalizing n with
  | zero =>
    have hn : n < b := by simpa using h
    rw [Nat.toDigits_of_lt_base hn, fixedDigits, Nat.mod_eq_of_lt hn]
    rfl
  | succ width ih =>
    by_cases hn : n < b
    · rw [Nat.toDigits_of_lt_base hn, fixedDigits, Nat.div_eq_of_lt hn, Nat.mod_eq_of_lt hn,
        fixedDigits_zero]
      simp [List.leftpad]
    · have hdiv : n / b < b ^ (width + 1) := by
        apply Nat.div_lt_of_lt_mul
        rwa [← Nat.pow_succ']
      rw [fixedDigits, ← ih hdiv, Nat.toDigits_eq_if hb, if_neg hn]
      simp [List.leftpad]

theorem fixedDigits_append {b : ℕ} (v : ℕ) {w m n : ℕ} (hn : n < b ^ w) :
    fixedDigits b (v + w) (m * b ^ w + n) = fixedDigits b v m ++ fixedDigits b w n := by
  induction w generalizing n with
  | zero =>
    have : n = 0 := by simpa using hn
    simp [this, fixedDigits]
  | succ w ih =>
    have hb : 0 < b := by
      rcases Nat.eq_zero_or_pos b with rfl | hb
      · simp at hn
      · exact hb
    have hdiv : (m * b ^ (w + 1) + n) / b = m * b ^ w + n / b := by
      rw [Nat.pow_succ, ← Nat.mul_assoc, Nat.mul_comm _ b, Nat.mul_add_div hb]
    have hmod : (m * b ^ (w + 1) + n) % b = n % b := by
      rw [Nat.pow_succ, ← Nat.mul_assoc, Nat.mul_add_mod_self_right]
    rw [← Nat.add_assoc, fixedDigits, fixedDigits, hdiv, hmod,
      ih (Nat.div_lt_of_lt_mul (by rwa [← Nat.pow_succ'])), List.append_assoc]

theorem allDigits_fixedDigits {b : ℕ} (hb : 0 < b) (width n : ℕ) :
    AllDigits b (fixedDigits b width n) := by
  induction width generalizing n with
  | zero => simp [AllDigits, fixedDigits]
  | succ width ih =>
    intro c hc
    rcases List.mem_append.mp hc with hc | hc
    · exact ih (n / b) c hc
    · exact ⟨n % b, Nat.mod_lt n hb, List.mem_singleton.mp hc⟩

theorem readDigits_fixedDigits {b : ℕ} (hb : 0 < b) (hb' : b ≤ 16) {width n : ℕ}
    (h : n < b ^ width) (rest : List Char) :
    readDigits b (fixedDigits b width n ++ rest) 0 = readDigits b rest n := by
  induction width generalizing n rest with
  | zero =>
    have : n = 0 := by simpa using h
    simp [this, fixedDigits]
  | succ width ih =>
    have hmod : n % b < b := Nat.mod_lt n hb
    rw [fixedDigits, List.append_assoc, ih (Nat.div_lt_of_lt_mul (by rwa [← Nat.pow_succ'])),
      List.singleton_append, readDigits, digitValue_digitChar (by omega)]
    simp [hmod, Nat.div_add_mod]

theorem fixedDigits_injective {b : ℕ} (hb : 0 < b) (hb' : b ≤ 16) {width n m : ℕ}
    (hn : n < b ^ width) (hm : m < b ^ width)
    (h : fixedDigits b width n = fixedDigits b width m) : n = m := by
  have hreadn := readDigits_fixedDigits hb hb' hn []
  have hreadm := readDigits_fixedDigits hb hb' hm []
  rw [h, hreadm] at hreadn
  exact hreadn.symm

theorem strtol_fixedDigits {b : ℕ} (hb : 0 < b) (hb' : b ≤ 16) {width n : ℕ}
    (h : n < b ^ (width + 1)) : strtol b (fixedDigits b (width + 1) n) = some (n : ℤ) := by
  have hread := readDigits_fixedDigits hb hb' h []
  rw [List.append_nil] at hread
  rw [strtol_of_digits hb' (by simp [fixedDigits]) (allDigits_fixedDigits hb _ _), hread]
  rfl

theorem strtol_printHex (n : ℕ) : strtol 16 (printHex n) = some (n : ℤ) :=
  strtol_toDigits (by decide) (by decide) n

theorem strtol_printInt (n : ℤ) : strtol 10 (printInt n) = some n := by
  by_cases hn : n < 0
  · obtain ⟨c, cs, hcs⟩ := List.exists_cons_of_ne_nil
      (Nat.toDigits_ne_nil (n := n.natAbs) (b := 10))
    obtain ⟨d, hd, hc⟩ : ∃ d, d < 10 ∧ c = d.digitChar :=
      mem_toDigits (n := n.natAbs) (by decide) (by rw [hcs]; simp)
    have hread : readDigits 10 (Nat.toDigits 10 n.natAbs) 0 = n.natAbs := by
      have h := readDigits_toDigits (b := 10) (by decide) (by decide) n.natAbs []
      rwa [List.append_nil] at h
    have hdrop : ('-' :: Nat.toDigits 10 n.natAbs).dropWhile isSpace =
        '-' :: Nat.toDigits 10 n.natAbs := by
      rw [List.dropWhile_cons]
      rfl
    rw [printInt, if_pos hn, strtol, hdrop]
    simp only [splitSign, show ¬ (10 : ℕ) = 16 by decide, if_false, if_true, hread]
    rw [hcs]
    simp only [hc, isDigitOf_digitChar (by decide : 10 ≤ 16) hd, if_true]
    congr 1
    omega
  · rw [printInt, if_neg hn, strtol_toDigits (by decide) (by decide)]
    congr 1
    omega

theorem printHex_plain {n : ℕ} {c : Char} (h : c ∈ printHex n) : c ≠ ';' ∧ c ≠ '\n' := by
  obtain ⟨d, hd, rfl⟩ := mem_toDigits (by decide) h
  exact (digitChar_plain hd).2.2.2.2.2

theorem printInt_plain {n : ℤ} {c : Char} (h : c ∈ printInt n) : c ≠ ';' ∧ c ≠ '\n' := by
  have hdigits : c ∈ Nat.toDigits 10 n.natAbs → c ≠ ';' ∧ c ≠ '\n' := by
    intro hc
    obtain ⟨d, hd, rfl⟩ := mem_toDigits (by decide) hc
    exact (digitChar_plain (by omega : d < 16)).2.2.2.2.2
  unfold printInt at h
  split at h
  · rcases List.mem_cons.mp h with rfl | h
    · decide
    · exact hdigits h
  · exact hdigits h

end OsirisArm.Library
