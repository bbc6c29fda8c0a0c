import Mathlib.Tactic
import Strata.Lib.RustInt
import Strata.Protocol.GuacamoleRoundTrip

/-! The byte parser on well-formed text. Read over characters, an element is its
decimal length, a dot and that many characters; an accepted instruction ends at
a semicolon of the text. -/

namespace Strata.Protocol.Guacamole

open Utf8 (Text Bytes)
open RustInt (digitsValue usizeMax)

theorem utf8PrefixLen_text (text : Text) (chars : Nat) :
    utf8PrefixLen (Utf8.encode text) chars =
      if chars ≤ text.length then .ok (some (Utf8.encode (text.take chars)).length)
      else .ok none := by
  by_cases enough : chars ≤ text.length
  · have walked := utf8PrefixLenFrom_walk (text.take chars) [] (Utf8.encode (text.drop chars)) 0
    rw [List.nil_append, ← Utf8.encode_append, List.take_append_drop,
      List.length_take_of_le enough] at walked
    rw [if_pos enough]
    simpa [utf8PrefixLen, utf8PrefixLenFrom] using walked
  · -- past the last character the walk finds no lead byte
    have walked := utf8PrefixLenFrom_walk text [] [] (chars - text.length - 1 + 1)
    have turns : text.length + (chars - text.length - 1 + 1) = chars := by omega
    rw [List.nil_append, List.append_nil, turns, List.length_nil, Nat.zero_add,
      utf8PrefixLenFrom, List.getElem?_eq_none le_rfl] at walked
    rw [if_neg enough]
    exact walked

theorem parseValue_text {text value : Text} {charLen : Nat} {rest : Bytes}
    (read : parseValue charLen (Utf8.encode text) = .ok (value, rest)) :
    charLen ≤ text.length ∧ value = text.take charLen ∧
      rest = Utf8.encode (text.drop charLen) := by
  unfold parseValue at read
  split at read
  · cases read
  · rw [utf8PrefixLen_text] at read
    by_cases enough : charLen ≤ text.length
    · rw [if_pos enough] at read
      have split : Utf8.encode text =
          Utf8.encode (text.take charLen) ++ Utf8.encode (text.drop charLen) := by
        rw [← Utf8.encode_append, List.take_append_drop]
      have taken : takeBytes (Utf8.encode (text.take charLen)).length (Utf8.encode text) =
          .ok (Utf8.encode (text.take charLen), Utf8.encode (text.drop charLen)) := by
        rw [split, takeBytes, if_neg (by rw [List.length_append]; omega), List.take_left,
          List.drop_left]
      simp only [taken, Utf8.decode_encode] at read
      obtain ⟨rfl, rfl⟩ := Prod.mk.inj (Except.ok.inj read)
      exact ⟨enough, rfl, rfl⟩
    · rw [if_neg enough] at read
      cases read

theorem isAsciiDigit_toNat {b : UInt8} (digit : isAsciiDigit b = true) :
    48 ≤ b.toNat ∧ b.toNat ≤ 57 := by
  simp only [isAsciiDigit, Bool.and_eq_true, decide_eq_true_eq, UInt8.le_iff_toNat_le] at digit
  exact digit

theorem encode_eq_digits {text : Text} {digits rest : Bytes}
    (bytes : Utf8.encode text = digits ++ rest) (all : ∀ d ∈ digits, isAsciiDigit d = true) :
    ∃ front back, text = front ++ back ∧ Utf8.encode back = rest ∧
      front.length = digits.length ∧ (∀ c ∈ front, c.isDigit = true) ∧
      ∀ acc, front.foldl (fun acc c => acc * 10 + (c.toNat - 48)) acc =
        digits.foldl (fun acc d => acc * 10 + (d - zeroDigit).toNat) acc := by
  induction digits generalizing text with
  | nil => exact ⟨[], text, rfl, bytes, rfl, by simp, fun acc => rfl⟩
  | cons d digits ih =>
      have range := isAsciiDigit_toNat (all d (by simp))
      obtain ⟨c, tail, rfl, value, -, tailBytes⟩ := Utf8.encode_eq_ascii bytes (by omega)
      obtain ⟨front, back, rfl, backBytes, length, digit, folds⟩ :=
        ih tailBytes (fun d member => all d (by simp [member]))
      refine ⟨c :: front, back, rfl, backBytes, by simp [length], ?_, ?_⟩
      · intro x member
        rcases List.mem_cons.mp member with rfl | inside
        · simp only [Char.isDigit, Bool.and_eq_true, decide_eq_true_eq, ge_iff_le,
            UInt32.le_iff_toNat_le]
          simp only [Char.toNat] at value
          exact ⟨by change 48 ≤ _; omega, by change _ ≤ 57; omega⟩
        · exact digit x inside
      · intro acc
        have same : (d - zeroDigit).toNat = c.toNat - 48 := by
          have low : zeroDigit ≤ d := UInt8.le_iff_toNat_le.mpr range.1
          rw [UInt8.toNat_sub_of_le _ _ low, value]
          rfl
        rw [List.foldl_cons, List.foldl_cons, same, folds]

theorem takeWhileRange_inv {low high : Nat} {accept : UInt8 → Bool} {input taken rest : Bytes}
    (read : takeWhileRange low high accept input = .ok (taken, rest)) :
    input = taken ++ rest ∧ low ≤ taken.length ∧ taken.length ≤ high ∧
      ∀ b ∈ taken, accept b = true := by
  unfold takeWhileRange at read
  dsimp only at read
  split at read
  · cases read
  · next enough =>
      obtain ⟨rfl, rfl⟩ := Prod.mk.inj (Except.ok.inj read)
      have front : (input.take high).takeWhile accept <+: input :=
        (List.takeWhile_prefix accept).trans (List.take_prefix high input)
      have short : ((input.take high).takeWhile accept).length ≤ high :=
        ((List.takeWhile_prefix accept).length_le).trans (List.length_take_le high input)
      have all : ∀ b ∈ (input.take high).takeWhile accept, accept b = true :=
        List.all_eq_true.mp (List.all_takeWhile)
      exact ⟨(List.prefix_iff_eq_append.mp front).symm, by omega, short, all⟩

theorem parseElement_text {text value : Text} {rest : Bytes}
    (read : parseElement (Utf8.encode text) = .ok (value, rest)) :
    ∃ digits pool, text = digits ++ '.' :: pool ∧ digits ≠ [] ∧
      digits.length ≤ maxLengthDigits ∧ (∀ c ∈ digits, c.isDigit = true) ∧
      digitsValue digits ≤ pool.length ∧ value = pool.take (digitsValue digits) ∧
      rest = Utf8.encode (pool.drop (digitsValue digits)) := by
  cases bytes : Utf8.encode text with
  | nil => rw [bytes] at read; cases read
  | cons b more =>
      rw [bytes] at read
      simp only [parseElement] at read
      split at read
      · next digit =>
          split at read
          · cases read
          · cases read
          · next digits mark left taken =>
              split at read
              · next point =>
                  subst point
                  obtain ⟨shape, low, high, all⟩ := takeWhileRange_inv taken
                  rw [shape] at bytes
                  obtain ⟨front, back, rfl, backBytes, length, digitChars, folds⟩ :=
                    encode_eq_digits bytes all
                  obtain ⟨c, pool, rfl, value, -, poolBytes⟩ :=
                    Utf8.encode_eq_ascii backBytes (by decide)
                  have isDot : c = '.' := Char.toNat_inj.mp value
                  rw [← poolBytes] at read
                  obtain ⟨enough, rfl, rfl⟩ := parseValue_text read
                  have same : digitsLength digits = digitsValue front := (folds 0).symm
                  rw [same] at enough ⊢
                  refine ⟨front, pool, by rw [isDot], ?_, by omega, digitChars, enough, rfl, rfl⟩
                  rintro rfl
                  simp only [List.length_nil] at length
                  omega
              · cases read
      · cases read

theorem parseArgs_text (opcode : Text) (args : List Text) (text : Text) :
    ∀ instruction rest, parseArgs opcode args (Utf8.encode text) = .ok (instruction, rest) →
      instruction.opcode = opcode ∧
        ∃ front back, text = front ++ ';' :: back ∧ rest = Utf8.encode back := by
  refine Loop.run_induction (parseTurn_decreasing opcode)
    (fun state result => ∀ text, state.2 = Utf8.encode text →
      ∀ instruction rest, result = .ok (instruction, rest) → instruction.opcode = opcode ∧
        ∃ front back, text = front ++ ';' :: back ∧ rest = Utf8.encode back)
    ?_ ?_ (args, Utf8.encode text) text rfl
  · rintro ⟨args, input⟩ result turned text bytes instruction rest rfl
    cases input with
    | nil => cases turned
    | cons b input =>
        simp only [parseTurn] at turned
        split at turned
        · next closing =>
            subst closing
            obtain ⟨rfl, rfl⟩ := Prod.mk.inj (Except.ok.inj (Sum.inr.inj turned))
            obtain ⟨c, tail, rfl, value, -, tailBytes⟩ :=
              Utf8.encode_eq_ascii bytes.symm (by decide)
            have isSemicolon : c = ';' := Char.toNat_inj.mp value
            exact ⟨rfl, [], tail, by rw [isSemicolon]; rfl, tailBytes.symm⟩
        · split at turned
          · split at turned
            · cases turned
            · split at turned <;> cases turned
          · cases turned
  · rintro ⟨args, input⟩ next result turned carried text bytes instruction rest accepted
    cases input with
    | nil => cases turned
    | cons b input =>
        simp only [parseTurn] at turned
        split at turned
        · cases turned
        · split at turned
          · next separator =>
              split at turned
              · cases turned
              · split at turned
                · cases turned
                · next arg left read =>
                    subst separator
                    obtain ⟨c, tail, rfl, -, -, tailBytes⟩ :=
                      Utf8.encode_eq_ascii bytes.symm (by decide)
                    rw [← tailBytes] at read
                    obtain ⟨digits, pool, rfl, -, -, -, -, -, rfl⟩ := parseElement_text read
                    rw [← Sum.inl.inj turned] at carried
                    obtain ⟨name, front, back, split, last⟩ :=
                      carried _ rfl instruction rest accepted
                    refine ⟨name, c :: (digits ++ '.' :: (pool.take (digitsValue digits) ++ front)),
                      back, ?_, last⟩
                    calc c :: (digits ++ '.' :: pool)
                        = c :: (digits ++ '.' :: (pool.take (digitsValue digits) ++
                            pool.drop (digitsValue digits))) := by rw [List.take_append_drop]
                      _ = _ := by rw [split]; simp
          · cases turned

theorem tryParse_text {text : Text} {instruction : GuacInstruction} {n : Nat}
    (parsed : tryParseInstruction (Utf8.encode text) = .ok (some (instruction, n))) :
    (∃ digits pool, text = digits ++ '.' :: pool ∧ digits ≠ [] ∧
      digits.length ≤ maxLengthDigits ∧ (∀ c ∈ digits, c.isDigit = true) ∧
      instruction.opcode = pool.take (digitsValue digits)) ∧
    ∃ front back, text = front ++ ';' :: back ∧
      (Utf8.encode text).drop n = Utf8.encode back := by
  unfold tryParseInstruction parseInstruction at parsed
  cases element : parseElement (Utf8.encode text) with
  | error err => rw [element] at parsed; cases err <;> cases parsed
  | ok read =>
      obtain ⟨opcode, left⟩ := read
      obtain ⟨digits, pool, rfl, some, short, all, -, rfl, rfl⟩ := parseElement_text element
      simp only [element] at parsed
      cases args : parseArgs (pool.take (digitsValue digits)) []
          (Utf8.encode (pool.drop (digitsValue digits))) with
      | error err => rw [args] at parsed; cases err <;> cases parsed
      | ok read =>
          obtain ⟨found, rest⟩ := read
          obtain ⟨name, front, back, split, last⟩ := parseArgs_text _ _ _ _ _ args
          rw [args] at parsed
          obtain ⟨rfl, rfl⟩ := Prod.mk.inj (Option.some.inj (Except.ok.inj parsed))
          have whole : digits ++ '.' :: pool =
              (digits ++ '.' :: (pool.take (digitsValue digits) ++ front)) ++ ';' :: back := by
            calc digits ++ '.' :: pool
                = digits ++ '.' :: (pool.take (digitsValue digits) ++
                    pool.drop (digitsValue digits)) := by rw [List.take_append_drop]
              _ = _ := by rw [split]; simp
          refine ⟨⟨digits, pool, rfl, some, short, all, name⟩, _, back, whole, ?_⟩
          rw [whole, last, List.append_cons, Utf8.encode_append, List.length_append,
            Nat.add_sub_cancel, List.drop_left]

def wireText (instructions : List GuacInstruction) : Text :=
  (Utf8.decode (encodeAll instructions)).getD []

def lengthText (length : Nat) : Text := (writeUsize length).map (fun b => Char.ofNat b.toNat)

def elementText (value : Text) : Text := lengthText value.length ++ '.' :: value

def argsText (args : List Text) : Text := args.flatMap (fun arg => ',' :: elementText arg)

def GuacInstruction.text (instruction : GuacInstruction) : Text :=
  elementText instruction.opcode ++ argsText instruction.args ++ [';']

theorem digit_char {b : UInt8} (digit : isAsciiDigit b = true) :
    String.utf8EncodeChar (Char.ofNat b.toNat) = [b] ∧ (Char.ofNat b.toNat).isDigit = true ∧
      (Char.ofNat b.toNat).toNat = b.toNat := by
  have table : ∀ n < 10, String.utf8EncodeChar (Char.ofNat (48 + n)) = [UInt8.ofNat (48 + n)] ∧
      (Char.ofNat (48 + n)).isDigit = true ∧ (Char.ofNat (48 + n)).toNat = 48 + n := by decide
  have range := isAsciiDigit_toNat digit
  have entry := table (b.toNat - 48) (by omega)
  rw [Nat.add_sub_cancel' range.1, UInt8.ofNat_toNat] at entry
  exact entry

theorem encode_digits (digits : Bytes) (all : ∀ d ∈ digits, isAsciiDigit d = true) :
    Utf8.encode (digits.map (fun b => Char.ofNat b.toNat)) = digits := by
  induction digits with
  | nil => rfl
  | cons d digits ih =>
      rw [List.map_cons, Utf8.encode_cons, (digit_char (all d (by simp))).1,
        ih (fun b member => all b (by simp [member]))]
      rfl

theorem encode_lengthText (length : Nat) : Utf8.encode (lengthText length) = writeUsize length :=
  encode_digits _ (writeUsizeFor_digits 20 length)

theorem lengthText_digits (length : Nat) : ∀ c ∈ lengthText length, c.isDigit = true := by
  intro c member
  obtain ⟨b, inside, rfl⟩ := List.mem_map.mp member
  exact (digit_char (writeUsizeFor_digits 20 length b inside)).2.1

theorem semicolon_notMem_elementText {value : Text} (free : ';' ∉ value) :
    ';' ∉ elementText value := by
  rw [elementText, List.mem_append, List.mem_cons, not_or, not_or]
  exact ⟨fun member => absurd (lengthText_digits _ ';' member) (by decide), by decide, free⟩

theorem lengthText_nonempty (length : Nat) : lengthText length ≠ [] := by
  rw [lengthText, Ne, List.map_eq_nil_iff]
  exact writeUsize_nonempty length

theorem lengthText_value (length : Nat) (fits : length ≤ usizeMax) :
    digitsValue (lengthText length) = length := by
  have bytes : Utf8.encode (lengthText length) = writeUsize length ++ [] := by
    rw [encode_lengthText, List.append_nil]
  obtain ⟨front, back, split, empty, -, -, folds⟩ :=
    encode_eq_digits bytes (writeUsizeFor_digits 20 length)
  have nothing : back = [] := Utf8.encode_injective (empty.trans Utf8.encode_nil.symm)
  rw [split, nothing, List.append_nil]
  have room : usizeMax < 10 ^ 20 := by decide
  exact (folds 0).trans (writeUsizeFor_value 20 length (by omega))

theorem parse_lengthText {length : Nat} (fits : length ≤ usizeMax) :
    RustInt.parseUsize (lengthText length) = some length := by
  have value := lengthText_value length fits
  have read := RustInt.parseUnsigned_digits usizeMax _ (lengthText_nonempty length)
    (lengthText_digits length) (by rw [value]; exact fits)
  rw [value] at read
  exact read

theorem encode_elementText (value : Text) : Utf8.encode (elementText value) = element value := by
  rw [elementText, element, Utf8.encode_append, encode_lengthText, Utf8.encode_cons,
    List.append_assoc]
  rfl

theorem encode_argsText (args : List Text) : Utf8.encode (argsText args) = argsWire args := by
  induction args with
  | nil => rfl
  | cons arg args ih =>
      calc Utf8.encode (argsText (arg :: args))
          = Utf8.encode (',' :: elementText arg) ++ Utf8.encode (argsText args) := by
            rw [argsText, List.flatMap_cons, Utf8.encode_append, ← argsText]
        _ = (comma :: element arg) ++ argsWire args := by
            rw [Utf8.encode_cons, encode_elementText, ih]
            rfl
        _ = argsWire (arg :: args) := rfl

theorem encode_text (instruction : GuacInstruction) :
    Utf8.encode instruction.text = instruction.wire := by
  calc Utf8.encode instruction.text
      = Utf8.encode (elementText instruction.opcode) ++
          Utf8.encode (argsText instruction.args) ++ Utf8.encode [';'] := by
        rw [GuacInstruction.text, Utf8.encode_append, Utf8.encode_append]
    _ = element instruction.opcode ++ argsWire instruction.args ++ [semicolon] := by
        rw [encode_elementText, encode_argsText]
        rfl
    _ = instruction.wire := by rw [wire_eq, List.append_assoc]

theorem wireText_eq (instructions : List GuacInstruction) :
    wireText instructions = instructions.flatMap GuacInstruction.text := by
  have bytes : Utf8.encode (instructions.flatMap GuacInstruction.text) =
      encodeAll instructions := by
    induction instructions with
    | nil => rfl
    | cons instruction instructions ih =>
        rw [List.flatMap_cons, Utf8.encode_append, encode_text, ih, encodeAll_cons]
  calc wireText instructions
      = (Utf8.decode (Utf8.encode (instructions.flatMap GuacInstruction.text))).getD [] := by
        rw [wireText, bytes]
    _ = instructions.flatMap GuacInstruction.text := by
        rw [Utf8.decode_encode]
        rfl

end Strata.Protocol.Guacamole
