import Mathlib.Tactic

/-! UTF-8 over lists of bytes: texts are lists of Unicode scalar values, and
`decode` accepts exactly the well-formed byte strings. -/

namespace Strata.Utf8

abbrev Text := List Char
abbrev Bytes := List UInt8

instance instDecidableMemText (text : Text) (texts : List Text) : Decidable (text ∈ texts) :=
  List.instDecidableMemOfLawfulBEq text texts

def encode (text : Text) : Bytes := text.flatMap String.utf8EncodeChar

def decodeChar? (bytes : Bytes) : Option Char :=
  ByteArray.utf8DecodeChar? bytes.toByteArray 0

def decodeFor : Nat → Bytes → Option Text
  | _, [] => some []
  | 0, _ :: _ => none
  | fuel + 1, byte :: bytes =>
      match decodeChar? (byte :: bytes) with
      | none => none
      | some c => (decodeFor fuel ((byte :: bytes).drop c.utf8Size)).map (c :: ·)

def decode (bytes : Bytes) : Option Text := decodeFor bytes.length bytes

@[simp] theorem encode_nil : encode [] = [] := rfl

@[simp] theorem encode_cons (c : Char) (text : Text) :
    encode (c :: text) = String.utf8EncodeChar c ++ encode text := rfl

@[simp] theorem encode_append (front back : Text) :
    encode (front ++ back) = encode front ++ encode back := by
  simp [encode]

theorem encodeChar_ascii : ∀ n < 128, String.utf8EncodeChar (Char.ofNat n) = [UInt8.ofNat n] := by
  decide +kernel

theorem length_le_encode (text : Text) : text.length ≤ (encode text).length := by
  induction text with
  | nil => exact Nat.zero_le _
  | cons c text ih =>
      have positive := c.utf8Size_pos
      rw [encode_cons, List.length_append, String.length_utf8EncodeChar, List.length_cons]
      omega

theorem decodeChar?_append (c : Char) (bytes : Bytes) :
    decodeChar? (String.utf8EncodeChar c ++ bytes) = some c := by
  have h := ByteArray.utf8DecodeChar?_utf8EncodeChar_append (b := bytes.toByteArray) (c := c)
  simpa [decodeChar?, List.toByteArray_append] using h

theorem decodeFor_encode (text : Text) (fuel : Nat) (enough : (encode text).length ≤ fuel) :
    decodeFor fuel (encode text) = some text := by
  induction text generalizing fuel with
  | nil => cases fuel <;> rfl
  | cons c text ih =>
      have width := String.length_utf8EncodeChar c
      have positive := c.utf8Size_pos
      cases chunk : String.utf8EncodeChar c with
      | nil => simp [chunk] at width; omega
      | cons lead more =>
          cases fuel with
          | zero => simp [chunk] at enough
          | succ fuel =>
              have read := decodeChar?_append c (encode text)
              have dropped : (lead :: (more ++ encode text)).drop c.utf8Size = encode text := by
                rw [← List.cons_append, ← chunk, ← width, List.drop_left]
              have shorter : (encode text).length ≤ fuel := by
                simp only [encode_cons, chunk, List.length_cons, List.length_append] at enough
                omega
              rw [chunk, List.cons_append] at read
              rw [encode_cons, chunk, List.cons_append, decodeFor, read]
              simp only [dropped, ih fuel shorter, Option.map_some]

@[simp] theorem decode_encode (text : Text) : decode (encode text) = some text :=
  decodeFor_encode text _ le_rfl

theorem encode_injective {first second : Text} (same : encode first = encode second) :
    first = second := by
  have h := decode_encode first
  rw [same, decode_encode] at h
  exact (Option.some.inj h).symm

theorem decodeChar?_eq_some {bytes : Bytes} {c : Char} (read : decodeChar? bytes = some c) :
    bytes = String.utf8EncodeChar c ++ bytes.drop c.utf8Size := by
  obtain ⟨rest, shape⟩ := ByteArray.exists_of_utf8DecodeChar?_eq_some read
  have same : bytes = String.utf8EncodeChar c ++ rest.data.toList := by
    have data := congrArg (fun array => array.data.toList) shape
    simpa using data
  have dropped : bytes.drop c.utf8Size = rest.data.toList := by
    rw [same, ← String.length_utf8EncodeChar, List.drop_left]
  rw [dropped]
  exact same

theorem encode_of_decodeFor {fuel : Nat} {bytes : Bytes} {text : Text}
    (read : decodeFor fuel bytes = some text) : encode text = bytes := by
  induction fuel generalizing bytes text with
  | zero =>
      cases bytes with
      | nil =>
          cases read
          rfl
      | cons => cases read
  | succ fuel ih =>
      cases bytes with
      | nil =>
          cases read
          rfl
      | cons byte bytes =>
          rw [decodeFor] at read
          cases first : decodeChar? (byte :: bytes) with
          | none => simp [first] at read
          | some c =>
              simp only [first, Option.map_eq_some_iff] at read
              obtain ⟨tail, rest, rfl⟩ := read
              rw [encode_cons, ih rest, ← decodeChar?_eq_some first]

theorem encode_of_decode {bytes : Bytes} {text : Text} (read : decode bytes = some text) :
    encode text = bytes := encode_of_decodeFor read

theorem encodeChar_cases (c : Char) :
    (∃ a, String.utf8EncodeChar c = [a] ∧ a.toNat ≤ 0x7F ∧ c.toNat = a.toNat) ∨
    (∃ a b, String.utf8EncodeChar c = [a, b] ∧ 0xC2 ≤ a.toNat ∧ a.toNat ≤ 0xDF ∧
      b &&& 0xC0 = 0x80) ∨
    (∃ a b d, String.utf8EncodeChar c = [a, b, d] ∧ 0xE0 ≤ a.toNat ∧ a.toNat ≤ 0xEF ∧
      b &&& 0xC0 = 0x80 ∧ d &&& 0xC0 = 0x80) ∨
    (∃ a b d e, String.utf8EncodeChar c = [a, b, d, e] ∧ 0xF0 ≤ a.toNat ∧ a.toNat ≤ 0xF4 ∧
      b &&& 0xC0 = 0x80 ∧ d &&& 0xC0 = 0x80 ∧ e &&& 0xC0 = 0x80) := by
  have continuation (n : Nat) : UInt8.ofNat (n % 64 + 128) &&& 0xC0 = 0x80 := by
    have small : n % 64 < 64 := Nat.mod_lt _ (by decide)
    have table : ∀ m < 64, UInt8.ofNat (m + 128) &&& 0xC0 = 0x80 := by decide
    exact table _ small
  have valid := c.valid
  simp only [UInt32.isValidChar, Nat.isValidChar] at valid
  unfold String.utf8EncodeChar
  by_cases one : c.val.toNat ≤ 0x7f
  · left
    refine ⟨_, if_pos one, ?_, ?_⟩ <;> simp only [UInt8.toNat_ofNat', Char.toNat] <;> omega
  · by_cases two : c.val.toNat ≤ 0x7ff
    · right; left
      refine ⟨_, _, by simp only [if_neg one, if_pos two]; rfl, ?_, ?_, continuation _⟩ <;>
        simp only [UInt8.toNat_ofNat'] <;> omega
    · by_cases three : c.val.toNat ≤ 0xffff
      · right; right; left
        refine ⟨_, _, _, by simp only [if_neg one, if_neg two, if_pos three]; rfl, ?_, ?_,
          continuation _, continuation _⟩ <;>
          simp only [UInt8.toNat_ofNat'] <;> omega
      · right; right; right
        refine ⟨_, _, _, _, by simp only [if_neg one, if_neg two, if_neg three]; rfl, ?_, ?_,
          continuation _, continuation _, continuation _⟩ <;>
          simp only [UInt8.toNat_ofNat'] <;> omega

theorem encode_eq_ascii {text : Text} {b : UInt8} {rest : Bytes}
    (bytes : encode text = b :: rest) (ascii : b.toNat ≤ 0x7F) :
    ∃ c tail, text = c :: tail ∧ c.toNat = b.toNat ∧ String.utf8EncodeChar c = [b] ∧
      encode tail = rest := by
  cases text with
  | nil => cases bytes
  | cons c tail =>
      rw [encode_cons] at bytes
      rcases encodeChar_cases c with ⟨a, chunk, -, value⟩ | ⟨a, b', chunk, low, -⟩ |
        ⟨a, b', d, chunk, low, -⟩ | ⟨a, b', d, e, chunk, low, -⟩
      · rw [chunk] at bytes
        obtain ⟨rfl, same⟩ := List.cons.inj bytes
        exact ⟨c, tail, rfl, value, chunk, same⟩
      all_goals
        rw [chunk] at bytes
        obtain ⟨rfl, -⟩ := List.cons.inj bytes
        omega

example : decode [0x63, 0xC3, 0xA9, 0x3B] = some "cé;".toList := by decide
example : decode [0xE0, 0x80, 0x80] = none := by decide

end Strata.Utf8
