import OsirisArm.Utils

/-! # Base64 as the fuzzer reads and writes it

The encoder and the decoder come from two versions of one public routine. The decoder stops at the
first character outside the alphabet and drops what a started group cannot fill.
-/

namespace OsirisArm

def base64Chars : List Char :=
  "ABCDEFGHIJKLMNOPQRSTUVWXYZabcdefghijklmnopqrstuvwxyz0123456789+/".toList

def isBase64 (c : Char) : Bool := c.isAlphanum || c = '+' || c = '/'

/-- `base64_chars.find(c)` stored in an `unsigned char`; a character that is not found gives the
low byte of `std::string::npos`. -/
def base64Find (c : Char) : Byte :=
  match base64Chars.idxOf? c with
  | some i => BitVec.ofNat 8 i
  | none => 255

/-- The alphabet character of a six-bit value. -/
def base64Char (index : Byte) : Char := base64Chars.getD index.toNat '?'

/-- The three bytes of a group of four alphabet positions. -/
def char3 (a₀ a₁ a₂ a₃ : Byte) : Bytes :=
  [(a₀ <<< 2) + ((a₁ &&& 0x30) >>> 4),
    ((a₁ &&& 0xf) <<< 4) + ((a₂ &&& 0x3c) >>> 2),
    ((a₂ &&& 0x3) <<< 6) + a₃]

/-- What the decoder makes of the `i` characters of an unfinished group. -/
def base64Tail (group : List Char) : Bytes :=
  let find (j : ℕ) : Byte := base64Find (group.getD j (Char.ofNat 0))
  (char3 (find 0) (find 1) (find 2) (find 3)).take (group.length - 1)

/-- The decoding loop: `inLen` is the countdown, `group` holds the characters of the group that
is being read. Reading past the end gives a zero byte, which is outside the alphabet. -/
def base64DecodeFrom : ℤ → List Char → Text → Bytes
  | _, group, [] => base64Tail group
  | inLen, group, c :: rest =>
    if inLen ≠ 0 ∧ c ≠ '=' ∧ isBase64 c then
      match group with
      | [c₀, c₁, c₂] =>
        char3 (base64Find c₀) (base64Find c₁) (base64Find c₂) (base64Find c) ++
          base64DecodeFrom (inLen - 1) [] rest
      | _ => base64DecodeFrom (inLen - 1) (group ++ [c]) rest
    else base64Tail group

/-- The length is kept in an `int`. -/
def base64Decode (encodedString : Text) : Bytes :=
  base64DecodeFrom (Int.bmod encodedString.length (2 ^ 32)) [] encodedString

def base64Encode : Bytes → Text
  | [] => []
  | [b₀] =>
    [base64Char ((b₀ &&& 0xfc) >>> 2), base64Char ((b₀ &&& 0x03) <<< 4), '=', '=']
  | [b₀, b₁] =>
    [base64Char ((b₀ &&& 0xfc) >>> 2),
      base64Char (((b₀ &&& 0x03) <<< 4) + ((b₁ &&& 0xf0) >>> 4)),
      base64Char ((b₁ &&& 0x0f) <<< 2), '=']
  | b₀ :: b₁ :: b₂ :: rest =>
    base64Char ((b₀ &&& 0xfc) >>> 2) ::
      base64Char (((b₀ &&& 0x03) <<< 4) + ((b₁ &&& 0xf0) >>> 4)) ::
      base64Char (((b₁ &&& 0x0f) <<< 2) + ((b₂ &&& 0xc0) >>> 6)) ::
      base64Char (b₂ &&& 0x3f) :: base64Encode rest

theorem base64Chars_length : base64Chars.length = 64 := by decide

theorem base64Chars_nodup : base64Chars.Nodup := by decide +kernel

theorem base64Chars_kind {c : Char} (h : c ∈ base64Chars) : isBase64 c = true ∧ c ≠ '=' := by
  have hall : base64Chars.all (fun c => isBase64 c && c ≠ '=') = true := by decide +kernel
  simpa using List.all_eq_true.mp hall c h

theorem base64Char_eq_getElem {index : Byte} (h : index.toNat < base64Chars.length) :
    base64Char index = base64Chars[index.toNat] := by
  rw [base64Char, List.getD_eq_getElem?_getD, List.getElem?_eq_getElem h, Option.getD_some]

theorem base64Char_spec {index : Byte} (h : index.toNat < 64) :
    isBase64 (base64Char index) = true ∧ base64Char index ≠ '=' ∧
      base64Find (base64Char index) = index := by
  have hindex : index.toNat < base64Chars.length := base64Chars_length ▸ h
  have hchar := base64Char_eq_getElem hindex
  have hmem : base64Char index ∈ base64Chars := hchar ▸ List.getElem_mem _
  obtain ⟨hkind, hpad⟩ := base64Chars_kind hmem
  refine ⟨hkind, hpad, ?_⟩
  have hfind : base64Chars.idxOf? (base64Char index) = some index.toNat := by
    rw [hchar, List.idxOf?_eq_some_iff]
    refine ⟨hindex, rfl, ?_⟩
    intro j hj heq
    have hsame : j = index.toNat := base64Chars_nodup.getElem_inj_iff.mp heq
    omega
  rw [base64Find, hfind]
  simp

theorem base64Char_mem {index : Byte} (h : index.toNat < 64) : base64Char index ∈ base64Chars := by
  have hindex : index.toNat < base64Chars.length := base64Chars_length ▸ h
  rw [base64Char_eq_getElem hindex]
  exact List.getElem_mem hindex

theorem exists_base64Char {c : Char} (h : c ∈ base64Chars) :
    ∃ index : Byte, index.toNat < 64 ∧ base64Char index = c := by
  obtain ⟨i, hi, rfl⟩ := List.getElem_of_mem h
  have hi' : i < 64 := base64Chars_length ▸ hi
  have hnat : (BitVec.ofNat 8 i).toNat = i := by
    rw [BitVec.toNat_ofNat]
    omega
  refine ⟨BitVec.ofNat 8 i, by rwa [hnat], ?_⟩
  rw [base64Char_eq_getElem (by rwa [hnat])]
  simp only [hnat]

section Bits
variable (b : Byte)

/-- The fields of a byte, checked for all 256 of them. -/
structure FieldsOf : Prop where
  high6 : ((b &&& 0xfc) >>> 2).toNat = b.toNat / 4
  low2 : ((b &&& 0x03) <<< 4).toNat = b.toNat % 4 * 16
  high4 : ((b &&& 0xf0) >>> 4).toNat = b.toNat / 16
  low4 : ((b &&& 0x0f) <<< 2).toNat = b.toNat % 16 * 4
  high2 : ((b &&& 0xc0) >>> 6).toNat = b.toNat / 64
  low6 : (b &&& 0x3f).toNat = b.toNat % 64
  shift2 : (b <<< 2).toNat = b.toNat * 4 % 256
  mid2 : ((b &&& 0x30) >>> 4).toNat = b.toNat / 16 % 4
  nibble : ((b &&& 0xf) <<< 4).toNat = b.toNat % 16 * 16
  mid4 : ((b &&& 0x3c) >>> 2).toNat = b.toNat / 4 % 16
  shift6 : ((b &&& 0x3) <<< 6).toNat = b.toNat % 4 * 64

theorem fieldsOf : FieldsOf b := by
  have all : ∀ b : Byte, ((b &&& 0xfc) >>> 2).toNat = b.toNat / 4 ∧
      ((b &&& 0x03) <<< 4).toNat = b.toNat % 4 * 16 ∧
      ((b &&& 0xf0) >>> 4).toNat = b.toNat / 16 ∧
      ((b &&& 0x0f) <<< 2).toNat = b.toNat % 16 * 4 ∧
      ((b &&& 0xc0) >>> 6).toNat = b.toNat / 64 ∧
      (b &&& 0x3f).toNat = b.toNat % 64 ∧
      (b <<< 2).toNat = b.toNat * 4 % 256 ∧
      ((b &&& 0x30) >>> 4).toNat = b.toNat / 16 % 4 ∧
      ((b &&& 0xf) <<< 4).toNat = b.toNat % 16 * 16 ∧
      ((b &&& 0x3c) >>> 2).toNat = b.toNat / 4 % 16 ∧
      ((b &&& 0x3) <<< 6).toNat = b.toNat % 4 * 64 := by
    decide +kernel
  obtain ⟨h₁, h₂, h₃, h₄, h₅, h₆, h₇, h₈, h₉, h₁₀, h₁₁⟩ := all b
  exact ⟨h₁, h₂, h₃, h₄, h₅, h₆, h₇, h₈, h₉, h₁₀, h₁₁⟩

end Bits

section Groups
variable (b₀ b₁ b₂ : Byte) {a₀ a₁ a₂ a₃ : Byte}

def sextet0 : Byte := (b₀ &&& 0xfc) >>> 2
def sextet1 : Byte := ((b₀ &&& 0x03) <<< 4) + ((b₁ &&& 0xf0) >>> 4)
def sextet2 : Byte := ((b₁ &&& 0x0f) <<< 2) + ((b₂ &&& 0xc0) >>> 6)
def sextet3 : Byte := b₂ &&& 0x3f

def byte0 (a₀ a₁ : Byte) : Byte := (a₀ <<< 2) + ((a₁ &&& 0x30) >>> 4)
def byte1 (a₁ a₂ : Byte) : Byte := ((a₁ &&& 0xf) <<< 4) + ((a₂ &&& 0x3c) >>> 2)
def byte2 (a₂ a₃ : Byte) : Byte := ((a₂ &&& 0x3) <<< 6) + a₃

theorem toNat_sextet0 : (sextet0 b₀).toNat = b₀.toNat / 4 := (fieldsOf b₀).high6

theorem toNat_sextet1 : (sextet1 b₀ b₁).toNat = b₀.toNat % 4 * 16 + b₁.toNat / 16 := by
  have h₀ := b₀.isLt
  have h₁ := b₁.isLt
  rw [sextet1, BitVec.toNat_add, (fieldsOf b₀).low2, (fieldsOf b₁).high4]
  omega

theorem toNat_sextet2 : (sextet2 b₁ b₂).toNat = b₁.toNat % 16 * 4 + b₂.toNat / 64 := by
  have h₁ := b₁.isLt
  have h₂ := b₂.isLt
  rw [sextet2, BitVec.toNat_add, (fieldsOf b₁).low4, (fieldsOf b₂).high2]
  omega

theorem toNat_sextet3 : (sextet3 b₂).toNat = b₂.toNat % 64 := (fieldsOf b₂).low6

theorem toNat_byte0 (h₀ : a₀.toNat < 64) (h₁ : a₁.toNat < 64) :
    (byte0 a₀ a₁).toNat = a₀.toNat * 4 + a₁.toNat / 16 := by
  rw [byte0, BitVec.toNat_add, (fieldsOf _).shift2, (fieldsOf _).mid2]
  omega

theorem toNat_byte1 (h₂ : a₂.toNat < 64) :
    (byte1 a₁ a₂).toNat = a₁.toNat % 16 * 16 + a₂.toNat / 4 := by
  rw [byte1, BitVec.toNat_add, (fieldsOf _).nibble, (fieldsOf _).mid4]
  omega

theorem toNat_byte2 (h₃ : a₃.toNat < 64) :
    (byte2 a₂ a₃).toNat = a₂.toNat % 4 * 64 + a₃.toNat := by
  rw [byte2, BitVec.toNat_add, (fieldsOf _).shift6]
  omega

theorem sextet_lt : (sextet0 b₀).toNat < 64 ∧ (sextet1 b₀ b₁).toNat < 64 ∧
    (sextet2 b₁ b₂).toNat < 64 ∧ (sextet3 b₂).toNat < 64 := by
  have h₀ := b₀.isLt
  have h₁ := b₁.isLt
  have h₂ := b₂.isLt
  rw [toNat_sextet0, toNat_sextet1, toNat_sextet2, toNat_sextet3]
  omega

/-- The bytes of a group are those its positions were made from. -/
theorem bytes_sextets : byte0 (sextet0 b₀) (sextet1 b₀ b₁) = b₀ ∧
    byte1 (sextet1 b₀ b₁) (sextet2 b₁ b₂) = b₁ ∧ byte2 (sextet2 b₁ b₂) (sextet3 b₂) = b₂ := by
  have h₀ := b₀.isLt
  have h₁ := b₁.isLt
  obtain ⟨hlt₀, hlt₁, hlt₂, hlt₃⟩ := sextet_lt b₀ b₁ b₂
  refine ⟨?_, ?_, ?_⟩
  · apply BitVec.eq_of_toNat_eq
    rw [toNat_byte0 hlt₀ hlt₁, toNat_sextet0, toNat_sextet1]
    omega
  · apply BitVec.eq_of_toNat_eq
    rw [toNat_byte1 hlt₂, toNat_sextet1, toNat_sextet2]
    omega
  · apply BitVec.eq_of_toNat_eq
    rw [toNat_byte2 hlt₃, toNat_sextet2, toNat_sextet3]
    omega

/-- The positions of a group are those its bytes were made from. -/
theorem sextets_bytes (h₀ : a₀.toNat < 64) (h₁ : a₁.toNat < 64) (h₂ : a₂.toNat < 64)
    (h₃ : a₃.toNat < 64) : sextet0 (byte0 a₀ a₁) = a₀ ∧
      sextet1 (byte0 a₀ a₁) (byte1 a₁ a₂) = a₁ ∧ sextet2 (byte1 a₁ a₂) (byte2 a₂ a₃) = a₂ ∧
      sextet3 (byte2 a₂ a₃) = a₃ := by
  refine ⟨?_, ?_, ?_, ?_⟩
  · apply BitVec.eq_of_toNat_eq
    rw [toNat_sextet0, toNat_byte0 h₀ h₁]
    omega
  · apply BitVec.eq_of_toNat_eq
    rw [toNat_sextet1, toNat_byte0 h₀ h₁, toNat_byte1 h₂]
    omega
  · apply BitVec.eq_of_toNat_eq
    rw [toNat_sextet2, toNat_byte1 h₂, toNat_byte2 h₃]
    omega
  · apply BitVec.eq_of_toNat_eq
    rw [toNat_sextet3, toNat_byte2 h₃]
    omega

theorem unused_bits (a : Byte) : (a &&& 0xf = 0 ↔ a.toNat % 16 = 0) ∧
    (a &&& 0x3 = 0 ↔ a.toNat % 4 = 0) := by
  revert a
  decide +kernel

theorem base64Encode_group (rest : Bytes) :
    base64Encode (b₀ :: b₁ :: b₂ :: rest) = base64Char (sextet0 b₀) ::
      base64Char (sextet1 b₀ b₁) :: base64Char (sextet2 b₁ b₂) :: base64Char (sextet3 b₂) ::
        base64Encode rest := rfl

theorem base64Encode_onePad : base64Encode [b₀, b₁] =
    [base64Char (sextet0 b₀), base64Char (sextet1 b₀ b₁), base64Char (sextet2 b₁ 0), '='] := by
  have hzero : sextet2 b₁ 0 = (b₁ &&& 0x0f) <<< 2 := by simp [sextet2]
  rw [hzero]
  rfl

theorem base64Encode_twoPads : base64Encode [b₀] =
    [base64Char (sextet0 b₀), base64Char (sextet1 b₀ 0), '=', '='] := by
  have hzero : sextet1 b₀ 0 = (b₀ &&& 0x03) <<< 4 := by simp [sextet1]
  rw [hzero]
  rfl

end Groups

section Decoding
variable {inLen : ℤ} {a₀ a₁ a₂ a₃ : Byte}

/-- A character of the alphabet is added to a group that is not full. -/
theorem decodeFrom_base64Char (hlen : inLen ≠ 0) {index : Byte}
    (h : index.toNat < 64) {group : List Char} (hgroup : group.length ≤ 2) (rest : Text) :
    base64DecodeFrom inLen group (base64Char index :: rest) =
      base64DecodeFrom (inLen - 1) (group ++ [base64Char index]) rest := by
  obtain ⟨halpha, hpad, -⟩ := base64Char_spec h
  rw [base64DecodeFrom, if_pos ⟨hlen, hpad, halpha⟩]
  rintro c₀ c₁ c₂ rfl
  simp at hgroup

theorem decodeFrom_pad (inLen : ℤ) (group : List Char) (rest : Text) :
    base64DecodeFrom inLen group ('=' :: rest) = base64Tail group := by
  simp [base64DecodeFrom]

/-- The fourth character of a group is decoded together with the first three. -/
theorem decodeFrom_group (hlen : inLen < 0 ∨ 4 ≤ inLen) (h₀ : a₀.toNat < 64) (h₁ : a₁.toNat < 64)
    (h₂ : a₂.toNat < 64) (h₃ : a₃.toNat < 64) (rest : Text) :
    base64DecodeFrom inLen [] (base64Char a₀ :: base64Char a₁ :: base64Char a₂ ::
      base64Char a₃ :: rest) =
        byte0 a₀ a₁ :: byte1 a₁ a₂ :: byte2 a₂ a₃ :: base64DecodeFrom (inLen - 4) [] rest := by
  obtain ⟨halpha, hpad, hfind₃⟩ := base64Char_spec h₃
  have hcount : inLen - 1 - 1 - 1 - 1 = inLen - 4 := by omega
  rw [decodeFrom_base64Char (by omega) h₀ (by simp), decodeFrom_base64Char (by omega) h₁ (by simp),
    decodeFrom_base64Char (by omega) h₂ (by simp)]
  simp only [List.nil_append, List.cons_append]
  rw [base64DecodeFrom, if_pos ⟨by omega, hpad, halpha⟩, hfind₃, (base64Char_spec h₀).2.2,
    (base64Char_spec h₁).2.2, (base64Char_spec h₂).2.2, hcount]
  rfl

theorem decodeFrom_onePad (hlen : inLen < 0 ∨ 4 ≤ inLen) (h₀ : a₀.toNat < 64)
    (h₁ : a₁.toNat < 64) (h₂ : a₂.toNat < 64) :
    base64DecodeFrom inLen [] [base64Char a₀, base64Char a₁, base64Char a₂, '='] =
      [byte0 a₀ a₁, byte1 a₁ a₂] := by
  rw [decodeFrom_base64Char (by omega) h₀ (by simp), decodeFrom_base64Char (by omega) h₁ (by simp),
    decodeFrom_base64Char (by omega) h₂ (by simp), decodeFrom_pad]
  change [byte0 (base64Find (base64Char a₀)) (base64Find (base64Char a₁)),
    byte1 (base64Find (base64Char a₁)) (base64Find (base64Char a₂))] = _
  rw [(base64Char_spec h₀).2.2, (base64Char_spec h₁).2.2, (base64Char_spec h₂).2.2]

theorem decodeFrom_twoPads (hlen : inLen < 0 ∨ 4 ≤ inLen) (h₀ : a₀.toNat < 64)
    (h₁ : a₁.toNat < 64) :
    base64DecodeFrom inLen [] [base64Char a₀, base64Char a₁, '=', '='] = [byte0 a₀ a₁] := by
  rw [decodeFrom_base64Char (by omega) h₀ (by simp), decodeFrom_base64Char (by omega) h₁ (by simp),
    decodeFrom_pad]
  change [byte0 (base64Find (base64Char a₀)) (base64Find (base64Char a₁))] = _
  rw [(base64Char_spec h₀).2.2, (base64Char_spec h₁).2.2]

end Decoding

/-- The decoder inverts the encoder, whatever the countdown starts from, as long as it does not
reach zero before the end. -/
theorem decodeFrom_encode (b : Bytes) (inLen : ℤ)
    (h : inLen < 0 ∨ (base64Encode b).length ≤ inLen) :
    base64DecodeFrom inLen [] (base64Encode b) = b := by
  induction b using base64Encode.induct generalizing inLen with
  | case1 => rfl
  | case2 b₀ =>
    obtain ⟨h₀, h₁, -, -⟩ := sextet_lt b₀ 0 0
    rw [base64Encode_twoPads] at h ⊢
    simp only [List.length_cons, List.length_nil] at h
    rw [decodeFrom_twoPads (by omega) h₀ h₁, (bytes_sextets b₀ 0 0).1]
  | case3 b₀ b₁ =>
    obtain ⟨h₀, h₁, h₂, -⟩ := sextet_lt b₀ b₁ 0
    rw [base64Encode_onePad] at h ⊢
    simp only [List.length_cons, List.length_nil] at h
    rw [decodeFrom_onePad (by omega) h₀ h₁ h₂, (bytes_sextets b₀ b₁ 0).1,
      (bytes_sextets b₀ b₁ 0).2.1]
  | case4 b₀ b₁ b₂ rest ih =>
    obtain ⟨h₀, h₁, h₂, h₃⟩ := sextet_lt b₀ b₁ b₂
    obtain ⟨hbyte₀, hbyte₁, hbyte₂⟩ := bytes_sextets b₀ b₁ b₂
    rw [base64Encode_group] at h ⊢
    simp only [List.length_cons] at h
    rw [decodeFrom_group (by omega) h₀ h₁ h₂ h₃, ih _ (by omega), hbyte₀, hbyte₁, hbyte₂]

/-- The countdown of a text whose length fits an `int` starts from its length. -/
theorem base64Decode_eq {s : Text} (h : s.length < 2 ^ 31) :
    base64Decode s = base64DecodeFrom s.length [] s := by
  have hbmod : Int.bmod s.length (2 ^ 32) = s.length := Int.bmod_eq_of_le (by omega) (by omega)
  rw [base64Decode, hbmod]

/-- The decoder of the fuzzer inverts its encoder as long as the length fits an `int`. -/
theorem base64Decode_encode {b : Bytes} (h : (base64Encode b).length < 2 ^ 31) :
    base64Decode (base64Encode b) = b := by
  rw [base64Decode_eq h]
  exact decodeFrom_encode b _ (Or.inr le_rfl)

theorem base64Encode_length (b : Bytes) : (base64Encode b).length = (b.length + 2) / 3 * 4 := by
  fun_induction base64Encode b with
  | case1 => rfl
  | case2 b₀ => simp
  | case3 b₀ b₁ => simp
  | case4 b₀ b₁ b₂ rest ih =>
    simp only [List.length_cons, ih]
    omega

theorem base64Encode_injective : Function.Injective base64Encode := by
  intro b b' h
  rw [← decodeFrom_encode b (-1) (by simp), ← decodeFrom_encode b' (-1) (by simp), h]

/-- Groups of four characters of the alphabet; the last group may be padded, and then the bits that
no byte uses are zero. -/
inductive PaddedGroups : Text → Prop
  | nil : PaddedGroups []
  | twoPads {c₀ c₁ : Char} (h₀ : c₀ ∈ base64Chars) (h₁ : c₁ ∈ base64Chars)
      (unused : base64Find c₁ &&& 0xf = 0) : PaddedGroups [c₀, c₁, '=', '=']
  | onePad {c₀ c₁ c₂ : Char} (h₀ : c₀ ∈ base64Chars) (h₁ : c₁ ∈ base64Chars)
      (h₂ : c₂ ∈ base64Chars) (unused : base64Find c₂ &&& 0x3 = 0) :
      PaddedGroups [c₀, c₁, c₂, '=']
  | group {c₀ c₁ c₂ c₃ : Char} {rest : Text} (h₀ : c₀ ∈ base64Chars) (h₁ : c₁ ∈ base64Chars)
      (h₂ : c₂ ∈ base64Chars) (h₃ : c₃ ∈ base64Chars) (others : PaddedGroups rest) :
      PaddedGroups (c₀ :: c₁ :: c₂ :: c₃ :: rest)

/-- The encoder inverts the decoder on padded groups, as long as the countdown does not reach zero
before the end. -/
theorem encode_decodeFrom {s : Text} (h : PaddedGroups s) (inLen : ℤ)
    (hlength : inLen < 0 ∨ s.length ≤ inLen) : base64Encode (base64DecodeFrom inLen [] s) = s := by
  induction h generalizing inLen with
  | nil => rfl
  | twoPads h₀ h₁ unused =>
    obtain ⟨a₀, hlt₀, rfl⟩ := exists_base64Char h₀
    obtain ⟨a₁, hlt₁, rfl⟩ := exists_base64Char h₁
    simp only [List.length_cons, List.length_nil] at hlength
    rw [(base64Char_spec hlt₁).2.2, (unused_bits a₁).1] at unused
    have hlast : sextet1 (byte0 a₀ a₁) 0 = a₁ := by
      apply BitVec.eq_of_toNat_eq
      rw [toNat_sextet1, toNat_byte0 hlt₀ hlt₁]
      change _ + 0 / 16 = _
      omega
    rw [decodeFrom_twoPads (by omega) hlt₀ hlt₁, base64Encode_twoPads, hlast,
      (sextets_bytes hlt₀ hlt₁ hlt₁ hlt₁).1]
  | onePad h₀ h₁ h₂ unused =>
    obtain ⟨a₀, hlt₀, rfl⟩ := exists_base64Char h₀
    obtain ⟨a₁, hlt₁, rfl⟩ := exists_base64Char h₁
    obtain ⟨a₂, hlt₂, rfl⟩ := exists_base64Char h₂
    simp only [List.length_cons, List.length_nil] at hlength
    rw [(base64Char_spec hlt₂).2.2, (unused_bits a₂).2] at unused
    obtain ⟨hfirst, hsecond, -, -⟩ := sextets_bytes hlt₀ hlt₁ hlt₂ hlt₂
    have hlast : sextet2 (byte1 a₁ a₂) 0 = a₂ := by
      apply BitVec.eq_of_toNat_eq
      rw [toNat_sextet2, toNat_byte1 hlt₂]
      change _ + 0 / 64 = _
      omega
    rw [decodeFrom_onePad (by omega) hlt₀ hlt₁ hlt₂, base64Encode_onePad, hlast, hfirst, hsecond]
  | group h₀ h₁ h₂ h₃ others ih =>
    obtain ⟨a₀, hlt₀, rfl⟩ := exists_base64Char h₀
    obtain ⟨a₁, hlt₁, rfl⟩ := exists_base64Char h₁
    obtain ⟨a₂, hlt₂, rfl⟩ := exists_base64Char h₂
    obtain ⟨a₃, hlt₃, rfl⟩ := exists_base64Char h₃
    simp only [List.length_cons] at hlength
    obtain ⟨hfirst, hsecond, hthird, hfourth⟩ := sextets_bytes hlt₀ hlt₁ hlt₂ hlt₃
    rw [decodeFrom_group (by omega) hlt₀ hlt₁ hlt₂ hlt₃, base64Encode_group, hfirst, hsecond,
      hthird, hfourth, ih _ (by omega)]

theorem paddedGroups_encode (b : Bytes) : PaddedGroups (base64Encode b) := by
  induction b using base64Encode.induct with
  | case1 => exact .nil
  | case2 b₀ =>
    obtain ⟨h₀, h₁, -, -⟩ := sextet_lt b₀ 0 0
    rw [base64Encode_twoPads]
    refine .twoPads (base64Char_mem h₀) (base64Char_mem h₁) ?_
    rw [(base64Char_spec h₁).2.2, (unused_bits _).1, toNat_sextet1]
    change (_ + 0 / 16) % 16 = 0
    omega
  | case3 b₀ b₁ =>
    obtain ⟨h₀, h₁, h₂, -⟩ := sextet_lt b₀ b₁ 0
    rw [base64Encode_onePad]
    refine .onePad (base64Char_mem h₀) (base64Char_mem h₁) (base64Char_mem h₂) ?_
    rw [(base64Char_spec h₂).2.2, (unused_bits _).2, toNat_sextet2]
    change (_ + 0 / 64) % 4 = 0
    omega
  | case4 b₀ b₁ b₂ rest ih =>
    obtain ⟨h₀, h₁, h₂, h₃⟩ := sextet_lt b₀ b₁ b₂
    exact .group (base64Char_mem h₀) (base64Char_mem h₁) (base64Char_mem h₂) (base64Char_mem h₃) ih

/-- Encoder and decoder are inverse to each other on byte strings and on padded groups. -/
theorem base64_roundTrip :
    (∀ b : Bytes, (base64Encode b).length < 2 ^ 31 → base64Decode (base64Encode b) = b) ∧
      ∀ s : Text, PaddedGroups s → s.length < 2 ^ 31 → base64Encode (base64Decode s) = s := by
  refine ⟨fun b h => base64Decode_encode h, fun s hs h => ?_⟩
  rw [base64Decode_eq h]
  exact encode_decodeFrom hs _ (Or.inr le_rfl)

/-- The bytes of a NOP, and the text `AA==`. -/
theorem base64_roundTrip_nop :
    base64Decode (base64Encode [0x1f, 0x20, 0x03, 0xd5]) = [0x1f, 0x20, 0x03, 0xd5] ∧
      base64Encode (base64Decode ['A', 'A', '=', '=']) = ['A', 'A', '=', '='] :=
  ⟨base64_roundTrip.1 _ (by decide),
    base64_roundTrip.2 _ (.twoPads (by decide) (by decide) (by decide)) (by decide)⟩

theorem PaddedGroups.chars {s : Text} (h : PaddedGroups s) {c : Char} (hc : c ∈ s) :
    c ∈ base64Chars ∨ c = '=' := by
  induction h with
  | nil => cases hc
  | twoPads h₀ h₁ =>
    simp only [List.mem_cons, List.not_mem_nil, or_false] at hc
    rcases hc with rfl | rfl | rfl | rfl
    · exact .inl h₀
    · exact .inl h₁
    all_goals exact .inr rfl
  | onePad h₀ h₁ h₂ =>
    simp only [List.mem_cons, List.not_mem_nil, or_false] at hc
    rcases hc with rfl | rfl | rfl | rfl
    · exact .inl h₀
    · exact .inl h₁
    · exact .inl h₂
    · exact .inr rfl
  | group h₀ h₁ h₂ h₃ _ ih =>
    simp only [List.mem_cons] at hc
    rcases hc with rfl | rfl | rfl | rfl | hc
    · exact .inl h₀
    · exact .inl h₁
    · exact .inl h₂
    · exact .inl h₃
    · exact ih hc

theorem base64Encode_chars {b : Bytes} {c : Char} (h : c ∈ base64Encode b) :
    isBase64 c = true ∨ c = '=' := by
  rcases (paddedGroups_encode b).chars h with hc | hc
  · obtain ⟨index, hlt, rfl⟩ := exists_base64Char hc
    exact .inl (base64Char_spec hlt).1
  · exact .inr hc

theorem base64Encode_plain {b : Bytes} {c : Char} (h : c ∈ base64Encode b) :
    c ≠ ';' ∧ c ≠ '\n' := by
  rcases base64Encode_chars h with halpha | rfl
  · constructor <;> rintro rfl <;> simp [isBase64] at halpha
  · decide

end OsirisArm
