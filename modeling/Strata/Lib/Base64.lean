import Mathlib.Tactic
import Strata.Lib.Utf8

/-! Base64 with the standard alphabet and canonical padding. `Codec` holds what a
program may rely on; `standard` is the codec itself. -/

namespace Strata.Base64

open Utf8 (Text Bytes)

def isArmour (c : Char) : Bool := c.isAlphanum || c == '+' || c == '/' || c == '='

structure Codec where
  encode : Bytes → Text
  decode : Text → Option Bytes
  decodedLenEstimate : Nat → Nat
  encode_armour : ∀ bytes, (encode bytes).all isArmour = true
  decode_encode : ∀ bytes, decode (encode bytes) = some bytes
  decode_length : ∀ text bytes, decode text = some bytes →
    bytes.length ≤ decodedLenEstimate (Utf8.encode text).length

def letter (n : Nat) : Char :=
  if n < 26 then Char.ofNat (65 + n)
  else if n < 52 then Char.ofNat (71 + n)
  else if n < 62 then Char.ofNat (n - 4)
  else if n = 62 then '+'
  else '/'

def letterValue (c : Char) : Option Nat :=
  if 65 ≤ c.toNat ∧ c.toNat ≤ 90 then some (c.toNat - 65)
  else if 97 ≤ c.toNat ∧ c.toNat ≤ 122 then some (c.toNat - 71)
  else if 48 ≤ c.toNat ∧ c.toNat ≤ 57 then some (c.toNat + 4)
  else if c = '+' then some 62
  else if c = '/' then some 63
  else none

def encodeBytes : Bytes → Text
  | a :: b :: c :: rest =>
      letter (a.toNat / 4) :: letter (a.toNat % 4 * 16 + b.toNat / 16) ::
        letter (b.toNat % 16 * 4 + c.toNat / 64) :: letter (c.toNat % 64) :: encodeBytes rest
  | [a, b] =>
      [letter (a.toNat / 4), letter (a.toNat % 4 * 16 + b.toNat / 16),
        letter (b.toNat % 16 * 4), '=']
  | [a] => [letter (a.toNat / 4), letter (a.toNat % 4 * 16), '=', '=']
  | [] => []

def decodeOne (p q : Char) : Option Bytes :=
  (letterValue p).bind fun p => (letterValue q).bind fun q =>
    if q % 16 = 0 then some [UInt8.ofNat (p * 4 + q / 16)] else none

def decodeTwo (p q r : Char) : Option Bytes :=
  (letterValue p).bind fun p => (letterValue q).bind fun q => (letterValue r).bind fun r =>
    if r % 4 = 0 then some [UInt8.ofNat (p * 4 + q / 16), UInt8.ofNat (q % 16 * 16 + r / 4)]
    else none

def decodeThree (p q r s : Char) : Option Bytes :=
  (letterValue p).bind fun p => (letterValue q).bind fun q => (letterValue r).bind fun r =>
    (letterValue s).bind fun s =>
      some [UInt8.ofNat (p * 4 + q / 16), UInt8.ofNat (q % 16 * 16 + r / 4),
        UInt8.ofNat (r % 4 * 64 + s)]

def decodeText : Text → Option Bytes
  | [] => some []
  | p :: q :: r :: s :: rest =>
      if s = '=' then
        if rest ≠ [] then none
        else if r = '=' then decodeOne p q
        else decodeTwo p q r
      else (decodeThree p q r s).bind fun front => (decodeText rest).map (front ++ ·)
  | _ => none

def lengthEstimate (encoded : Nat) : Nat := (encoded / 4 + if encoded % 4 > 0 then 1 else 0) * 3

@[simp] theorem letterValue_letter {n : Nat} (small : n < 64) :
    letterValue (letter n) = some n := by
  have table : ∀ n < 64, letterValue (letter n) = some n := by decide
  exact table n small

theorem letter_ne_pad {n : Nat} (small : n < 64) : letter n ≠ '=' := by
  have table : ∀ n < 64, letter n ≠ '=' := by decide
  exact table n small

theorem byte_of_toNat {a : UInt8} {n : Nat} (same : n = a.toNat) : UInt8.ofNat n = a := by
  rw [same, UInt8.ofNat_toNat]

theorem decodeText_encodeBytes (bytes : Bytes) : decodeText (encodeBytes bytes) = some bytes := by
  induction bytes using encodeBytes.induct with
  | case1 a b c rest ih =>
      have ha := a.toNat_lt
      have hb := b.toNat_lt
      have hc := c.toNat_lt
      have whole := letter_ne_pad (n := c.toNat % 64) (by omega)
      rw [encodeBytes, decodeText, if_neg whole, ih, decodeThree,
        letterValue_letter (by omega), letterValue_letter (by omega),
        letterValue_letter (by omega), letterValue_letter (by omega)]
      simp only [Option.bind_some, Option.map_some, List.cons_append, List.nil_append]
      rw [byte_of_toNat (a := a) (by omega), byte_of_toNat (a := b) (by omega),
        byte_of_toNat (a := c) (by omega)]
  | case2 a b =>
      have ha := a.toNat_lt
      have hb := b.toNat_lt
      have padded := letter_ne_pad (n := b.toNat % 16 * 4) (by omega)
      rw [encodeBytes, decodeText, if_pos rfl, if_neg (by simp), if_neg padded, decodeTwo,
        letterValue_letter (by omega), letterValue_letter (by omega),
        letterValue_letter (by omega)]
      simp only [Option.bind_some]
      rw [if_pos (by omega), byte_of_toNat (a := a) (by omega), byte_of_toNat (a := b) (by omega)]
  | case3 a =>
      have ha := a.toNat_lt
      rw [encodeBytes, decodeText, if_pos rfl, if_neg (by simp), if_pos rfl, decodeOne,
        letterValue_letter (by omega), letterValue_letter (by omega)]
      simp only [Option.bind_some]
      rw [if_pos (by omega), byte_of_toNat (a := a) (by omega)]
  | case4 => rfl

theorem encodeBytes_chars (bytes : Bytes) :
    ∀ c ∈ encodeBytes bytes, c = '=' ∨ ∃ n < 64, c = letter n := by
  have low (n : Nat) (small : n < 64) : letter n = '=' ∨ ∃ m < 64, letter n = letter m :=
    .inr ⟨n, small, rfl⟩
  induction bytes using encodeBytes.induct with
  | case1 a b c rest ih =>
      have ha := a.toNat_lt
      have hb := b.toNat_lt
      have hc := c.toNat_lt
      simp only [encodeBytes, List.forall_mem_cons]
      exact ⟨low _ (by omega), low _ (by omega), low _ (by omega), low _ (by omega), ih⟩
  | case2 a b =>
      have ha := a.toNat_lt
      have hb := b.toNat_lt
      simp only [encodeBytes, List.forall_mem_cons]
      exact ⟨low _ (by omega), low _ (by omega), low _ (by omega), .inl trivial, nofun⟩
  | case3 a =>
      have ha := a.toNat_lt
      simp only [encodeBytes, List.forall_mem_cons]
      exact ⟨low _ (by omega), low _ (by omega), .inl trivial, .inl trivial, nofun⟩
  | case4 => exact nofun

theorem decodeThree_length {p q r s : Char} {bytes : Bytes}
    (read : decodeThree p q r s = some bytes) : bytes.length = 3 := by
  simp only [decodeThree, Option.bind_eq_some_iff, Option.some.injEq] at read
  obtain ⟨-, -, -, -, -, -, -, -, rfl⟩ := read
  rfl

theorem decodeOne_length {p q : Char} {bytes : Bytes} (read : decodeOne p q = some bytes) :
    bytes.length ≤ 3 := by
  simp only [decodeOne, Option.bind_eq_some_iff, Option.ite_none_right_eq_some,
    Option.some.injEq] at read
  obtain ⟨-, -, -, -, -, rfl⟩ := read
  exact Nat.le_add_left 1 2

theorem decodeTwo_length {p q r : Char} {bytes : Bytes} (read : decodeTwo p q r = some bytes) :
    bytes.length ≤ 3 := by
  simp only [decodeTwo, Option.bind_eq_some_iff, Option.ite_none_right_eq_some,
    Option.some.injEq] at read
  obtain ⟨-, -, -, -, -, -, -, rfl⟩ := read
  exact Nat.le_add_left 2 1

theorem decodeText_length (text : Text) :
    ∀ bytes, decodeText text = some bytes → bytes.length ≤ text.length / 4 * 3 := by
  induction text using decodeText.induct with
  | case1 =>
      intro bytes read
      cases read
      exact Nat.zero_le _
  | case2 p q r rest more =>
      intro bytes read
      rw [decodeText, if_pos rfl, if_pos more] at read
      cases read
  | case3 p q rest done =>
      intro bytes read
      rw [decodeText, if_pos rfl, if_neg done, if_pos rfl] at read
      have short := decodeOne_length read
      simp only [List.length_cons]
      omega
  | case4 p q r rest done unpadded =>
      intro bytes read
      rw [decodeText, if_pos rfl, if_neg done, if_neg unpadded] at read
      have short := decodeTwo_length read
      simp only [List.length_cons]
      omega
  | case5 p q r s rest unpadded ih =>
      intro bytes read
      rw [decodeText, if_neg unpadded, Option.bind_eq_some_iff] at read
      obtain ⟨front, group, read⟩ := read
      obtain ⟨back, tail, rfl⟩ := Option.map_eq_some_iff.mp read
      have short := ih back tail
      rw [List.length_append, decodeThree_length group]
      simp only [List.length_cons]
      omega
  | case6 text empty long =>
      intro bytes read
      rw [decodeText.eq_3 text empty long] at read
      cases read

/-- The codec of RFC 4648 that `general_purpose::STANDARD` implements. -/
def standard : Codec where
  encode := encodeBytes
  decode := decodeText
  decodedLenEstimate := lengthEstimate
  encode_armour := by
    have letters : ∀ n < 64, isArmour (letter n) = true := by decide
    intro bytes
    rw [List.all_eq_true]
    intro c member
    rcases encodeBytes_chars bytes c member with rfl | ⟨n, small, rfl⟩
    · decide
    · exact letters n small
  decode_encode := decodeText_encodeBytes
  decode_length := by
    intro text bytes read
    have chars := decodeText_length text bytes read
    have wide := Utf8.length_le_encode text
    have monotone : text.length / 4 ≤ (Utf8.encode text).length / 4 := Nat.div_le_div_right wide
    rw [lengthEstimate]
    omega

example : standard.encode (Utf8.encode "light w".toList) = "bGlnaHQgdw==".toList := by decide

end Strata.Base64
