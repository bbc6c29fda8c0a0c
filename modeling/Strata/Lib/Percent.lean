import Mathlib.Tactic
import Strata.Lib.Hex

/-! Percent-encoding over UTF-8, for any set of bytes that are written as they are. -/

namespace Strata.Percent

open Utf8 (Text Bytes)

section
variable (plain : UInt8 → Bool)

def piece (byte : UInt8) : Text :=
  if plain byte then [Char.ofNat byte.toNat] else '%' :: (Hex.digits byte).map Char.toUpper

def encode (text : Text) : Text := (Utf8.encode text).flatMap (piece plain)

end

def unescape : Text → Option Bytes
  | [] => some []
  | c :: rest =>
      if c = '%' then
        match rest with
        | high :: low :: rest => do
            let high ← Hex.value? high
            let low ← Hex.value? low
            let bytes ← unescape rest
            return UInt8.ofNat (high * 16 + low) :: bytes
        | _ => none
      else (unescape rest).map (String.utf8EncodeChar c ++ ·)

def decode (text : Text) : Option Text := (unescape text).bind Utf8.decode

variable {plain : UInt8 → Bool}

theorem value?_upper : ∀ n < 16, Hex.value? (Nat.digitChar n).toUpper = some n := by decide

theorem unescape_piece {byte : UInt8} (ascii : plain byte = true → byte.toNat < 128 ∧ byte ≠ 0x25)
    (rest : Text) :
    unescape (piece plain byte ++ rest) = (unescape rest).map (byte :: ·) := by
  rw [piece]
  split
  · rename_i kept
    obtain ⟨small, other⟩ := ascii kept
    have apart : Char.ofNat byte.toNat ≠ '%' := by
      intro same
      have code := congrArg String.utf8EncodeChar same
      rw [Utf8.encodeChar_ascii _ small, UInt8.ofNat_toNat] at code
      exact other (List.singleton_inj.mp code)
    rw [List.singleton_append, unescape.eq_def]
    dsimp only
    rw [if_neg apart, Utf8.encodeChar_ascii _ small, UInt8.ofNat_toNat]
    rfl
  · have small := byte.toNat_lt
    have high := value?_upper (byte.toNat / 16) (by omega)
    have low := value?_upper (byte.toNat % 16) (by omega)
    simp only [Hex.digits, List.map_cons, List.map_nil, List.cons_append, List.nil_append,
      unescape, if_true, high, low, Option.bind_eq_bind, Option.bind_some, Nat.div_add_mod',
      UInt8.ofNat_toNat]
    cases unescape rest <;> rfl

theorem decode_encode (ascii : ∀ byte, plain byte = true → byte.toNat < 128 ∧ byte ≠ 0x25)
    (text : Text) : decode (encode plain text) = some text := by
  have bytes : ∀ bytes : Bytes, unescape (bytes.flatMap (piece plain)) = some bytes := by
    intro bytes
    induction bytes with
    | nil => rfl
    | cons byte bytes ih =>
        rw [List.flatMap_cons, unescape_piece (ascii byte), ih, Option.map_some]
  rw [decode, encode, bytes, Option.bind_some, Utf8.decode_encode]

theorem notMem_encode {mark : Char} (absent : ∀ byte, mark ∉ piece plain byte) (text : Text) :
    mark ∉ encode plain text := by
  intro member
  obtain ⟨byte, -, inside⟩ := List.mem_flatMap.mp member
  exact absent byte inside

end Strata.Percent
