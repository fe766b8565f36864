/-
  UTF-8 texts as lists of bytes, and the decoding that never fails (`String::from_utf8_lossy`).

  Where the bytes at the front are no character, the decoder takes as many of them as could have
  begun one and puts U+FFFD in their place. `fromUtf8Lossy_encode`: a text is read back.
-/
import Mathlib.Data.List.Basic
import Mathlib.Data.Nat.Bitwise

namespace Utf8

/-- The bytes of a text. -/
def encode (text : String) : List UInt8 := text.toList.flatMap String.utf8EncodeChar

/-- The character at the front of the bytes. -/
def decodeChar? (bytes : List UInt8) : Option Char := bytes.toByteArray.utf8DecodeChar? 0

/-- Whether a byte may follow the first byte of a character. -/
def follows (first second : UInt8) : Bool :=
  if first < 0xC2 then false
  else if first = 0xE0 then 0xA0 ≤ second && second ≤ 0xBF
  else if first = 0xED then 0x80 ≤ second && second ≤ 0x9F
  else if first = 0xF0 then 0x90 ≤ second && second ≤ 0xBF
  else if first = 0xF4 then 0x80 ≤ second && second ≤ 0x8F
  else if first < 0xF4 then 0x80 ≤ second && second ≤ 0xBF
  else false

/-- How many bytes at the front could have begun a character, if they are none. -/
def invalidLength : List UInt8 → Nat
  | first :: second :: rest =>
    if follows first second then
      match rest with
      | third :: _ => if 0x80 ≤ third && third ≤ 0xBF then 3 else 2
      | [] => 2
    else 1
  | _ => 1

theorem invalidLength_pos (bytes : List UInt8) : 0 < invalidLength bytes := by
  unfold invalidLength
  split
  · split
    · split
      · split <;> omega
      · omega
    · omega
  · omega

def lossyChars (bytes : List UInt8) : List Char :=
  if _hne : bytes = [] then []
  else match decodeChar? bytes with
    | some c => c :: lossyChars (bytes.drop c.utf8Size)
    | none => '\uFFFD' :: lossyChars (bytes.drop (invalidLength bytes))
termination_by bytes.length
decreasing_by
  all_goals
    have hpos := List.length_pos_iff_ne_nil.mpr _hne
    rw [List.length_drop]
  · have := c.utf8Size_pos
    omega
  · have := invalidLength_pos bytes
    omega

/-- `String::from_utf8_lossy`. -/
def fromUtf8Lossy (bytes : List UInt8) : String := String.ofList (lossyChars bytes)

theorem encode_append (a b : String) : encode (a ++ b) = encode a ++ encode b := by
  rw [encode, String.toList_append, List.flatMap_append]
  rfl

/-- Characters below 128 are one byte each. -/
theorem length_encode_ascii {chars : List Char} (h : chars.all (·.toNat < 128) = true) :
    (encode (String.ofList chars)).length = chars.length := by
  rw [encode, String.toList_ofList]
  induction chars with
  | nil => rfl
  | cons c chars ih =>
    rw [List.all_cons, Bool.and_eq_true, decide_eq_true_eq] at h
    have hsize : c.utf8Size = 1 := by
      rw [Char.utf8Size_eq_one_iff, UInt32.le_iff_toNat_le]
      exact Nat.le_of_lt_succ h.1
    rw [List.flatMap_cons, List.length_append, String.length_utf8EncodeChar, hsize, ih h.2,
      List.length_cons, Nat.add_comm]

theorem decodeChar?_append (c : Char) (rest : List UInt8) :
    decodeChar? (String.utf8EncodeChar c ++ rest) = some c := by
  rw [decodeChar?, List.toByteArray_append, ByteArray.utf8DecodeChar?_utf8EncodeChar_append]

theorem lossyChars_flatMap (chars : List Char) :
    lossyChars (chars.flatMap String.utf8EncodeChar) = chars := by
  induction chars with
  | nil => simp [lossyChars]
  | cons c chars ih =>
    have hne : String.utf8EncodeChar c ++ chars.flatMap String.utf8EncodeChar ≠ [] := by
      have hpos := c.utf8Size_pos
      rw [← String.length_utf8EncodeChar c] at hpos
      simp [List.ne_nil_of_length_pos hpos]
    have hdrop : (String.utf8EncodeChar c ++ chars.flatMap String.utf8EncodeChar).drop c.utf8Size =
        chars.flatMap String.utf8EncodeChar := by
      rw [← String.length_utf8EncodeChar c, List.drop_left]
    rw [List.flatMap_cons, lossyChars, dif_neg hne, decodeChar?_append]
    simp only [hdrop, ih]

/-- A text is read back. -/
theorem fromUtf8Lossy_encode (text : String) : fromUtf8Lossy (encode text) = text := by
  rw [fromUtf8Lossy, encode, lossyChars_flatMap, String.ofList_toList]

theorem le_or (x m : UInt8) : m ≤ x ||| m := by
  rw [UInt8.le_iff_toNat_le, UInt8.toNat_or]
  exact Nat.right_le_or

/-- A byte below 128 stands for itself. -/
theorem mem_utf8EncodeChar {c : Char} {b : UInt8} (hb : b < 128) (h : b ∈ String.utf8EncodeChar c) :
    c.toNat = b.toNat := by
  have habsurd : ∀ x m : UInt8, 128 ≤ m → b ≠ x ||| m := by
    intro x m hm heq
    have hle := le_or x m
    rw [← heq, UInt8.le_iff_toNat_le] at hle
    rw [UInt8.le_iff_toNat_le] at hm
    rw [UInt8.lt_iff_toNat_lt] at hb
    omega
  obtain hsize | hsize | hsize | hsize := c.utf8Size_eq
  · rw [String.utf8EncodeChar_eq_singleton hsize, List.mem_singleton] at h
    have hval := UInt32.le_iff_toNat_le.mp (Char.utf8Size_eq_one_iff.mp hsize)
    have hbyte := congrArg UInt8.toNat h
    rw [UInt32.toNat_toUInt8] at hbyte
    have hmax : (127 : UInt32).toNat = 127 := rfl
    have htoNat : c.toNat = c.val.toNat := rfl
    omega
  · rw [String.utf8EncodeChar_eq_cons_cons hsize] at h
    simp only [List.mem_cons, List.not_mem_nil, or_false] at h
    obtain h | h := h
    all_goals exact absurd h (habsurd _ _ (by decide))
  · rw [String.utf8EncodeChar_eq_cons_cons_cons hsize] at h
    simp only [List.mem_cons, List.not_mem_nil, or_false] at h
    obtain h | h | h := h
    all_goals exact absurd h (habsurd _ _ (by decide))
  · rw [String.utf8EncodeChar_eq_cons_cons_cons_cons hsize] at h
    simp only [List.mem_cons, List.not_mem_nil, or_false] at h
    obtain h | h | h | h := h
    all_goals exact absurd h (habsurd _ _ (by decide))

theorem not_mem_encode {text : String} {b : UInt8} (hb : b < 128)
    (h : ∀ c ∈ text.toList, c.toNat ≠ b.toNat) : b ∉ encode text := by
  intro hmem
  obtain ⟨c, hc, hbc⟩ := List.mem_flatMap.mp hmem
  exact h c hc (mem_utf8EncodeChar hb hbc)

/-- A text is its list of characters, as a literal is. -/
theorem not_mem_encode_ofList {chars : List Char} {b : UInt8} (hb : b < 128)
    (h : chars.all (·.toNat != b.toNat) = true) : b ∉ encode (String.ofList chars) := by
  refine not_mem_encode hb fun c hc => ?_
  rw [String.toList_ofList] at hc
  simpa using List.all_eq_true.mp h c hc

end Utf8
