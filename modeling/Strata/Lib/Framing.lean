import Mathlib.Tactic
import Strata.Lib.Utf8

/-! Big-endian numbers and length-prefixed fields: what a reader can tell apart. -/

namespace Strata.Framing

open Utf8 (Bytes)

def putBigEndian : Nat → Nat → Bytes
  | 0, _ => []
  | width + 1, value => putBigEndian width (value / 256) ++ [UInt8.ofNat value]

def getBigEndian (bytes : Bytes) : Nat := bytes.foldl (fun value byte => value * 256 + byte.toNat) 0

@[simp] theorem putBigEndian_length (width value : Nat) :
    (putBigEndian width value).length = width := by
  induction width generalizing value with
  | zero => rfl
  | succ width ih => rw [putBigEndian, List.length_append, ih, List.length_singleton]

theorem putBigEndian_injective {width first second : Nat} (small : first < 256 ^ width)
    (other : second < 256 ^ width) (same : putBigEndian width first = putBigEndian width second) :
    first = second := by
  induction width generalizing first second with
  | zero =>
      rw [pow_zero] at small other
      omega
  | succ width ih =>
      rw [putBigEndian, putBigEndian] at same
      have parts := List.append_inj same (by simp)
      have low : first % 256 = second % 256 := by
        have bytes := congrArg UInt8.toNat (List.singleton_inj.mp parts.2)
        simpa using bytes
      rw [pow_succ] at small other
      have high : first / 256 = second / 256 := by
        apply ih _ _ parts.1
        · exact Nat.div_lt_of_lt_mul (by rwa [Nat.mul_comm])
        · exact Nat.div_lt_of_lt_mul (by rwa [Nat.mul_comm])
      omega

theorem getBigEndian_putBigEndian {width value : Nat} (small : value < 256 ^ width) :
    getBigEndian (putBigEndian width value) = value := by
  induction width generalizing value with
  | zero =>
      rw [pow_zero] at small
      rw [Nat.lt_one_iff.mp small]
      rfl
  | succ width ih =>
      rw [pow_succ] at small
      have high := ih (Nat.div_lt_of_lt_mul (by rwa [Nat.mul_comm]))
      rw [getBigEndian] at high
      rw [getBigEndian, putBigEndian, List.foldl_append, high, List.foldl_cons, List.foldl_nil,
        UInt8.toNat_ofNat', Nat.div_add_mod']

/-- A field behind its length in four bytes. -/
def field (bytes : Bytes) : Bytes := putBigEndian 4 bytes.length ++ bytes

def fields (list : List Bytes) : Bytes := list.flatMap field

theorem field_append_inj {first second front back : Bytes} (small : first.length < 2 ^ 32)
    (other : second.length < 2 ^ 32) (same : field first ++ front = field second ++ back) :
    first = second ∧ front = back := by
  rw [field, field, List.append_assoc, List.append_assoc] at same
  have parts := List.append_inj same (by simp)
  have lengths : first.length = second.length := by
    apply putBigEndian_injective _ _ parts.1
    · exact small
    · exact other
  exact List.append_inj parts.2 lengths

theorem fields_injective {first second : List Bytes} (count : first.length = second.length)
    (small : ∀ bytes ∈ first, bytes.length < 2 ^ 32)
    (other : ∀ bytes ∈ second, bytes.length < 2 ^ 32) (same : fields first = fields second) :
    first = second := by
  induction first generalizing second with
  | nil => exact (List.length_eq_zero_iff.mp count.symm).symm
  | cons head tail ih =>
      cases second with
      | nil => cases count
      | cons next rest =>
          have split := field_append_inj (small head (by simp)) (other next (by simp)) same
          have later := ih (Nat.succ.inj count) (fun bytes member => small bytes (by simp [member]))
            (fun bytes member => other bytes (by simp [member])) split.2
          rw [split.1, later]

end Strata.Framing
