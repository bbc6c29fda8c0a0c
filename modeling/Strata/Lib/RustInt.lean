import Mathlib.Tactic
import Strata.Lib.Utf8

/-! Decimal integers as Rust's standard library reads and prints them. -/

namespace Strata.RustInt

open Utf8 (Text)

def usizeMax : Nat := 2 ^ 64 - 1
def isizeMax : Nat := 2 ^ 63 - 1
def u8Max : Nat := 2 ^ 8 - 1
def u32Max : Nat := 2 ^ 32 - 1

def digitsValue (text : Text) : Nat :=
  text.foldl (fun acc c => acc * 10 + (c.toNat - 48)) 0

def parseDigits (text : Text) : Option Nat :=
  if text ≠ [] ∧ text.all Char.isDigit then some (digitsValue text) else none

def stripPlus : Text → Text
  | [] => []
  | c :: rest => if c = '+' then rest else c :: rest

/-- `str::parse` at an unsigned type: an optional `+`, then digits in range. -/
def parseUnsigned (max : Nat) (text : Text) : Option Nat :=
  (parseDigits (stripPlus text)).filter (· ≤ max)

/-- `str::parse` at a signed type of the given width: one optional sign. -/
def parseSigned (bits : Nat) (text : Text) : Option Int :=
  match text with
  | '-' :: rest => ((parseDigits rest).filter (· ≤ 2 ^ (bits - 1))).map (fun n => -(n : Int))
  | _ => (parseUnsigned (2 ^ (bits - 1) - 1) text).map (fun n => (n : Int))

def parseUsize : Text → Option Nat := parseUnsigned usizeMax
def parseU8 : Text → Option Nat := parseUnsigned u8Max
def parseU32 : Text → Option Nat := parseUnsigned u32Max
def parseI32 : Text → Option Int := parseSigned 32
def parseI64 : Text → Option Int := parseSigned 64

def digitValue (c : Char) : Nat :=
  if c.isDigit then c.toNat - 48
  else if 97 ≤ c.toNat ∧ c.toNat ≤ 122 then c.toNat - 87
  else if 65 ≤ c.toNat ∧ c.toNat ≤ 90 then c.toNat - 55
  else 36

def isDigitOf (radix : Nat) (c : Char) : Bool := decide (digitValue c < radix)

def natText (n : Nat) : Text := (toString n).toList
def intText (n : Int) : Text := (toString n).toList

theorem stripPlus_digits (text : Text) (digits : ∀ c ∈ text, c.isDigit = true) :
    stripPlus text = text := by
  cases text with
  | nil => rfl
  | cons c rest =>
      have plain : c ≠ '+' := by
        rintro rfl
        exact absurd (digits '+' (by simp)) (by decide)
      rw [stripPlus, if_neg plain]

theorem parseUnsigned_digits (max : Nat) (text : Text) (nonempty : text ≠ [])
    (digits : ∀ c ∈ text, c.isDigit = true) (small : digitsValue text ≤ max) :
    parseUnsigned max text = some (digitsValue text) := by
  rw [parseUnsigned, stripPlus_digits text digits, parseDigits,
    if_pos ⟨nonempty, List.all_eq_true.mpr digits⟩]
  simp [Option.filter, small]

theorem isDigit_toNat {c : Char} (digit : c.isDigit = true) : 48 ≤ c.toNat ∧ c.toNat ≤ 57 := by
  simp only [Char.isDigit, Bool.and_eq_true, decide_eq_true_eq, ge_iff_le,
    UInt32.le_iff_toNat_le] at digit
  exact digit

theorem digitsValue_lt (text : Text) (digits : ∀ c ∈ text, c.isDigit = true) :
    digitsValue text < 10 ^ text.length := by
  have bounded : ∀ acc, text.foldl (fun acc c => acc * 10 + (c.toNat - 48)) acc <
      (acc + 1) * 10 ^ text.length := by
    induction text with
    | nil => simp
    | cons c rest ih =>
        intro acc
        have range := isDigit_toNat (digits c (by simp))
        have tail := ih (fun d member => digits d (by simp [member])) (acc * 10 + (c.toNat - 48))
        have room : (acc * 10 + (c.toNat - 48) + 1) * 10 ^ rest.length ≤
            (acc + 1) * 10 ^ (rest.length + 1) := by
          rw [Nat.pow_succ, Nat.mul_comm (10 ^ _) 10, ← Nat.mul_assoc]
          exact Nat.mul_le_mul_right _ (by omega)
        exact lt_of_lt_of_le tail room
  simpa [digitsValue] using bounded 0

theorem parseUnsigned_chars {max value : Nat} {text : Text}
    (parsed : parseUnsigned max text = some value) :
    ∀ c ∈ text, c = '+' ∨ c.isDigit = true := by
  rw [parseUnsigned, Option.filter_eq_some_iff, parseDigits] at parsed
  have body := parsed.1
  by_cases accepted : stripPlus text ≠ [] ∧ (stripPlus text).all Char.isDigit = true
  · have all := List.all_eq_true.mp accepted.2
    intro c member
    cases text with
    | nil => cases member
    | cons head rest =>
        by_cases plus : head = '+'
        · rw [stripPlus, if_pos plus] at all
          rcases List.mem_cons.mp member with rfl | inside
          · exact Or.inl plus
          · exact Or.inr (all c inside)
        · rw [stripPlus, if_neg plus] at all
          exact Or.inr (all c member)
  · rw [if_neg accepted] at body
    cases body

/-! ### Printed numbers -/

theorem natText_eq (n : Nat) : natText n = Nat.toDigits 10 n := by
  rw [natText, Nat.toString_eq_ofList_toDigits, String.toList_ofList]

theorem natText_isDigit (n : Nat) : ∀ c ∈ natText n, c.isDigit = true := by
  intro c member
  rw [natText_eq] at member
  exact Nat.isDigit_of_mem_toDigits (by decide) (by decide) member

theorem natText_ne_nil (n : Nat) : natText n ≠ [] := by
  rw [natText_eq]
  exact Nat.toDigits_ne_nil

theorem natText_length_le {n width : Nat} (positive : 0 < width) (small : n < 10 ^ width) :
    (natText n).length ≤ width := by
  rw [natText_eq]
  exact Nat.toDigits_length 10 n width positive small

theorem digitsValue_natText (n : Nat) : digitsValue (natText n) = n := by
  have read := Nat.ofDigitChars_ten_toDigits (n := n)
  simp only [Nat.ofDigitChars_eq_foldl, Nat.mul_comm 10] at read
  rw [natText_eq]
  exact read

theorem natText_injective : Function.Injective natText := by
  intro first second same
  rw [← digitsValue_natText first, same, digitsValue_natText]

def paddedText (width n : Nat) : Text :=
  List.replicate (width - (natText n).length) '0' ++ natText n

theorem paddedText_isDigit (width n : Nat) : ∀ c ∈ paddedText width n, c.isDigit = true := by
  intro c member
  rcases List.mem_append.mp member with zero | digit
  · rw [List.eq_of_mem_replicate zero]
    rfl
  · exact natText_isDigit n c digit

theorem digitsValue_zeros (count : Nat) (text : Text) :
    digitsValue (List.replicate count '0' ++ text) = digitsValue text := by
  induction count with
  | zero => rfl
  | succ count ih => exact ih

theorem paddedText_injective (width : Nat) : Function.Injective (paddedText width) := by
  intro first second same
  have values := congrArg digitsValue same
  rwa [paddedText, paddedText, digitsValue_zeros, digitsValue_zeros, digitsValue_natText,
    digitsValue_natText] at values

theorem digits_mark_inj {mark : Char} {first second after back : Text}
    (apart : mark.isDigit = false) (digits : ∀ c ∈ first, c.isDigit = true)
    (others : ∀ c ∈ second, c.isDigit = true)
    (same : first ++ mark :: after = second ++ mark :: back) :
    first = second ∧ after = back := by
  induction first generalizing second with
  | nil =>
      cases second with
      | nil => exact ⟨rfl, (List.cons.inj same).2⟩
      | cons d second =>
          rw [← (List.cons.inj same).1, List.forall_mem_cons, apart] at others
          exact absurd others.1 Bool.false_ne_true
  | cons c first ih =>
      rw [List.forall_mem_cons] at digits
      cases second with
      | nil =>
          rw [(List.cons.inj same).1, apart] at digits
          exact absurd digits.1 Bool.false_ne_true
      | cons d second =>
          rw [List.forall_mem_cons] at others
          have ⟨heads, tails⟩ := List.cons.inj same
          have ⟨fronts, backs⟩ := ih digits.2 others.2 tails
          exact ⟨by rw [heads, fronts], backs⟩

theorem intText_eq (n : Int) :
    intText n = if 0 ≤ n then natText n.toNat else '-' :: natText (-n).toNat := by
  rw [intText, Int.toString_eq_repr, Int.repr_eq_if]
  split
  · rfl
  · rw [String.toList_append]
    rfl

theorem intText_ne_nil (n : Int) : intText n ≠ [] := by
  rw [intText_eq]
  split
  · exact natText_ne_nil _
  · exact List.cons_ne_nil _ _

theorem intText_injective : Function.Injective intText := by
  have signed (n : Nat) (rest : Text) : natText n ≠ '-' :: rest := by
    intro printed
    exact absurd (natText_isDigit n '-' (by simp [printed])) (by decide)
  intro first second same
  rw [intText_eq, intText_eq] at same
  split at same <;> split at same
  · have numbers := natText_injective same
    omega
  · exact (signed _ _ same).elim
  · exact (signed _ _ same.symm).elim
  · have numbers := natText_injective (List.cons.inj same).2
    omega

theorem parseDigits_natText (n : Nat) : parseDigits (natText n) = some n := by
  rw [parseDigits, if_pos ⟨natText_ne_nil n, List.all_eq_true.mpr (natText_isDigit n)⟩,
    digitsValue_natText]

theorem parseSigned_intText {bits : Nat} {n : Int} (low : -2 ^ (bits - 1) ≤ n)
    (high : n < 2 ^ (bits - 1)) : parseSigned bits (intText n) = some n := by
  have bound : ((2 ^ (bits - 1) : Nat) : Int) = 2 ^ (bits - 1) := by push_cast; rfl
  rw [intText_eq]
  split
  · rename_i positive
    have digits := natText_isDigit n.toNat
    have read := parseUnsigned_digits (2 ^ (bits - 1) - 1) _ (natText_ne_nil n.toNat) digits
      (by rw [digitsValue_natText]; omega)
    rw [digitsValue_natText] at read
    cases printed : natText n.toNat with
    | nil => exact absurd printed (natText_ne_nil _)
    | cons c rest =>
        have plain : c ≠ '-' := by
          rintro rfl
          exact absurd (digits '-' (by simp [printed])) (by decide)
        rw [printed] at read
        rw [parseSigned, read]
        · exact congrArg some (Int.toNat_of_nonneg positive)
        · rintro _ ⟨⟩
          exact plain rfl
  · rename_i negative
    have small : (-n).toNat ≤ 2 ^ (bits - 1) := by omega
    have opposite : -((-n).toNat : Int) = n := by omega
    rw [parseSigned, parseDigits_natText, Option.filter_some, decide_eq_true small, if_pos rfl]
    exact congrArg some opposite

theorem parseI64_intText (n : Int64) : parseI64 (intText n.toInt) = some n.toInt := by
  have low : -2 ^ (64 - 1) ≤ n.toInt := n.le_toInt
  have high : n.toInt < 2 ^ (64 - 1) := n.toInt_lt
  exact parseSigned_intText low high

example : parseI32 "-17".toList = some (-17) := by decide
example : parseUsize "+7".toList = some 7 ∧ parseUsize "-7".toList = none := by decide

end Strata.RustInt
