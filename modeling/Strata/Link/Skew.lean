import Mathlib.Tactic
import Strata.Lib.Utf8

/-! The errors of the link protocol, and the clock check that its messages share:
`(now_ms - timestamp_ms).abs() > limit` in the wrapping arithmetic of a release build. -/

namespace Strata.Link

open Utf8 (Text)

inductive ProtocolError where
  | malformed (what : Text)
  | versionMismatch (peer ours : Text)
  | badMac
  | authFailed (why : Text)
  | skew
  deriving DecidableEq, Repr

def skewed (limit nowMs timestampMs : Int64) : Bool :=
  decide ((nowMs - timestampMs).abs > limit)

def distance (nowMs timestampMs : Int64) : Nat := (nowMs.toInt - timestampMs.toInt).natAbs

theorem toInt_abs_le (value limit : Int64) (positive : 0 ≤ limit.toInt) :
    value.abs ≤ limit ↔ value.toInt = -2 ^ 63 ∨ value.toInt.natAbs ≤ limit.toInt := by
  have low := value.le_toInt
  have high := value.toInt_lt
  rw [Int64.le_iff_toInt_le]
  have absolute : value.abs.toInt =
      if value.toInt = -2 ^ 63 then -2 ^ 63 else (value.toInt.natAbs : Int) := by
    have known := BitVec.toInt_abs_eq_natAbs (x := value.toBitVec)
    have smallest : value.toBitVec = BitVec.intMin 64 ↔ value.toInt = -2 ^ 63 := by
      rw [← BitVec.toInt_inj]
      rfl
    simp only [smallest] at known
    exact known
  rw [absolute]
  by_cases smallest : value.toInt = -2 ^ 63
  · rw [if_pos smallest]
    simp [smallest]
    omega
  · rw [if_neg smallest]
    omega

theorem skewed_eq_false_iff (limit nowMs timestampMs : Int64) (positive : 0 ≤ limit.toInt) :
    skewed limit nowMs timestampMs = false ↔
      (distance nowMs timestampMs : Int) ≤ limit.toInt ∨ distance nowMs timestampMs = 2 ^ 63 ∨
        2 ^ 64 - limit.toInt ≤ distance nowMs timestampMs := by
  have low := nowMs.le_toInt
  have high := nowMs.toInt_lt
  have least := timestampMs.le_toInt
  have most := timestampMs.toInt_lt
  have bounded := limit.toInt_lt
  have passes : skewed limit nowMs timestampMs = false ↔ (nowMs - timestampMs).abs ≤ limit := by
    rw [skewed, decide_eq_false_iff_not, gt_iff_lt, Int64.not_lt]
  rw [passes, toInt_abs_le _ _ positive, Int64.toInt_sub, distance]
  generalize nowMs.toInt = now at *
  generalize timestampMs.toInt = stamp at *
  have wrapped : (now - stamp).bmod (2 ^ 64) = now - stamp ∨
      (now - stamp).bmod (2 ^ 64) = now - stamp - 2 ^ 64 ∨
      (now - stamp).bmod (2 ^ 64) = now - stamp + 2 ^ 64 := by
    rw [Int.bmod_def]
    omega
  have centred := Int.le_bmod (x := now - stamp) (m := 2 ^ 64) (by decide)
  have below := Int.bmod_lt (x := now - stamp) (m := 2 ^ 64) (by decide)
  omega

end Strata.Link
