import Mathlib.Tactic
import Strata.Lib.RustInt

/-! Bytes as hexadecimal text in lower case, and the value of a digit in either. -/

namespace Strata.Hex

open Utf8 (Text Bytes)

def digits (byte : UInt8) : Text :=
  [Nat.digitChar (byte.toNat / 16), Nat.digitChar (byte.toNat % 16)]

def encode (bytes : Bytes) : Text := bytes.flatMap digits

def value? (c : Char) : Option Nat :=
  if RustInt.isDigitOf 16 c then some (RustInt.digitValue c) else none

@[simp] theorem encode_length (bytes : Bytes) : (encode bytes).length = 2 * bytes.length := by
  induction bytes with
  | nil => rfl
  | cons byte rest ih =>
      rw [encode, List.flatMap_cons, List.length_append, ← encode, ih, List.length_cons]
      exact (Nat.add_comm ..).trans (Nat.mul_succ ..).symm

theorem value?_digitChar : ∀ n < 16, value? (Nat.digitChar n) = some n := by decide

theorem digits_injective : Function.Injective digits := by
  intro first second same
  have small := first.toNat_lt
  have short := second.toNat_lt
  have chars := List.cons.inj same
  have high := congrArg value? chars.1
  have low := congrArg value? (List.cons.inj chars.2).1
  rw [value?_digitChar _ (by omega), value?_digitChar _ (by omega), Option.some.injEq] at high low
  exact UInt8.toNat_inj.mp (by omega)

theorem encode_injective : Function.Injective encode := by
  intro first second same
  induction first generalizing second with
  | nil => cases second <;> simp [encode, digits] at same ⊢
  | cons byte rest ih =>
      cases second with
      | nil => simp [encode, digits] at same
      | cons other more =>
          rw [encode, encode, List.flatMap_cons, List.flatMap_cons, ← encode, ← encode] at same
          obtain ⟨front, back⟩ := List.append_inj same rfl
          rw [digits_injective front, ih back]

example : encode [0x0f, 0xa0] = "0fa0".toList := by decide

end Strata.Hex
