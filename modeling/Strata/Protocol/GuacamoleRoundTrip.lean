import Mathlib.Tactic
import Strata.Protocol.GuacamoleStability

/-! Encoding then parsing. Payloads may hold the delimiters and any multi-byte
text: the length prefix alone decides where an element ends. -/

namespace Strata.Protocol.Guacamole

open Utf8 (Text Bytes)
open StreamParser

def element (value : Text) : Bytes := writeUsize value.length ++ [dot] ++ Utf8.encode value

theorem pushElement_eq (out : Bytes) (value : Text) :
    pushElement out value = out ++ element value := by
  simp [pushElement, element]

def argsWire (args : List Text) : Bytes := args.flatMap (fun arg => comma :: element arg)

theorem encodeArgs_eq (args : List Text) (out : Bytes) :
    args.foldl (fun out arg => pushElement (out ++ [comma]) arg) out = out ++ argsWire args := by
  induction args generalizing out with
  | nil => simp [argsWire]
  | cons arg args ih =>
      rw [List.foldl_cons, ih, pushElement_eq]
      simp [argsWire]

theorem encode_eq_elements (instruction : GuacInstruction) (out : Bytes) :
    instruction.encode out =
      out ++ (element instruction.opcode ++ (argsWire instruction.args ++ [semicolon])) := by
  calc instruction.encode out
      = pushElement out instruction.opcode ++ argsWire instruction.args ++ [semicolon] := by
        rw [GuacInstruction.encode, encodeInstruction, encodeArgs_eq]
    _ = out ++ element instruction.opcode ++ argsWire instruction.args ++ [semicolon] := by
        rw [pushElement_eq]
    _ = _ := by simp only [List.append_assoc]

theorem wire_eq (instruction : GuacInstruction) :
    instruction.wire =
      element instruction.opcode ++ (argsWire instruction.args ++ [semicolon]) :=
  encode_eq_elements instruction []

theorem encode_eq (instruction : GuacInstruction) (out : Bytes) :
    instruction.encode out = out ++ instruction.wire := by
  rw [encode_eq_elements, wire_eq]

theorem encodeAll_from (instructions : List GuacInstruction) (out : Bytes) :
    instructions.foldl (fun out instruction => instruction.encode out) out =
      out ++ (instructions.map GuacInstruction.wire).flatten := by
  induction instructions generalizing out with
  | nil => simp
  | cons instruction instructions ih =>
      rw [List.foldl_cons, ih, encode_eq]
      simp

theorem encodeAll_eq (instructions : List GuacInstruction) :
    encodeAll instructions = (instructions.map GuacInstruction.wire).flatten := by
  rw [encodeAll, encodeAll_from, List.nil_append]

theorem encodeAll_cons (instruction : GuacInstruction) (instructions : List GuacInstruction) :
    encodeAll (instruction :: instructions) = instruction.wire ++ encodeAll instructions := by
  rw [encodeAll_eq, encodeAll_eq, List.map_cons, List.flatten_cons]

theorem writeUsizeFor_append (space value : Nat) (written : Bytes) :
    writeUsizeFor space value written = writeUsizeFor space value [] ++ written := by
  induction space generalizing value written with
  | zero => rfl
  | succ space ih =>
      simp only [writeUsizeFor]
      split
      · rfl
      · rw [ih (value / 10) (_ :: written), ih (value / 10) [_], List.append_assoc]
        rfl

theorem digitsLength_append (front : Bytes) (d : UInt8) :
    digitsLength (front ++ [d]) = digitsLength front * 10 + (d - zeroDigit).toNat := by
  simp [digitsLength]

theorem digit_value (n : Nat) : (UInt8.ofNat (48 + n % 10) - zeroDigit).toNat = n % 10 := by
  have table : ∀ m < 10, (UInt8.ofNat (48 + m) - zeroDigit).toNat = m := by decide
  exact table _ (Nat.mod_lt _ (by decide))

theorem digit_ascii (n : Nat) : isAsciiDigit (UInt8.ofNat (48 + n % 10)) = true := by
  have table : ∀ m < 10, isAsciiDigit (UInt8.ofNat (48 + m)) = true := by decide
  exact table _ (Nat.mod_lt _ (by decide))

theorem writeUsizeFor_digits (space value : Nat) :
    ∀ d ∈ writeUsizeFor space value [], isAsciiDigit d = true := by
  induction space generalizing value with
  | zero => intro d member; cases member
  | succ space ih =>
      intro d member
      simp only [writeUsizeFor] at member
      split at member
      · rw [List.mem_singleton] at member
        rw [member]
        exact digit_ascii value
      · rw [writeUsizeFor_append] at member
        rcases List.mem_append.mp member with front | last
        · exact ih (value / 10) d front
        · rw [List.mem_singleton] at last
          rw [last]
          exact digit_ascii value

theorem writeUsizeFor_value (space value : Nat) (fits : value < 10 ^ space) :
    digitsLength (writeUsizeFor space value []) = value := by
  induction space generalizing value with
  | zero =>
      have zero : value = 0 := by simpa using fits
      rw [zero]
      rfl
  | succ space ih =>
      simp only [writeUsizeFor]
      split
      · next small =>
          have h := digitsLength_append [] (UInt8.ofNat (48 + value % 10))
          rw [digit_value] at h
          simp only [List.nil_append] at h
          rw [h]
          simp only [digitsLength, List.foldl_nil]
          omega
      · rw [writeUsizeFor_append, digitsLength_append, digit_value, ih]
        · omega
        · rw [Nat.pow_succ] at fits
          omega

theorem writeUsizeFor_length (space value width : Nat) (positive : 0 < width)
    (fits : value < 10 ^ width) : (writeUsizeFor space value []).length ≤ width := by
  induction space generalizing value width with
  | zero => exact Nat.zero_le _
  | succ space ih =>
      simp only [writeUsizeFor]
      split
      · exact positive
      · next large =>
          rw [writeUsizeFor_append, List.length_append, List.length_singleton]
          cases width with
          | zero => omega
          | succ width =>
              rw [Nat.pow_succ] at fits
              have room : 0 < width := by
                rcases Nat.eq_zero_or_pos width with rfl | room
                · omega
                · exact room
              have tail := ih (value / 10) width room (by omega)
              omega

theorem writeUsizeFor_nonempty (space value : Nat) : writeUsizeFor (space + 1) value [] ≠ [] := by
  rw [writeUsizeFor]
  split
  · simp
  · rw [writeUsizeFor_append]
    simp

theorem writeUsize_nonempty (value : Nat) : writeUsize value ≠ [] :=
  writeUsizeFor_nonempty 19 value

theorem takeWhileRange_digits (high : Nat) (digits rest : Bytes) (mark : UInt8)
    (nonempty : digits ≠ []) (short : digits.length ≤ high)
    (all : ∀ d ∈ digits, isAsciiDigit d = true) (stop : isAsciiDigit mark = false) :
    takeWhileRange 1 high isAsciiDigit (digits ++ mark :: rest) = .ok (digits, mark :: rest) := by
  have window : ((digits ++ mark :: rest).take high).takeWhile isAsciiDigit = digits := by
    rw [List.take_append, List.take_of_length_le short,
      List.takeWhile_append_of_pos all]
    cases left : high - digits.length with
    | zero => simp
    | succ left => simp [stop]
  have positive : 0 < digits.length := List.length_pos_iff.mpr nonempty
  simp only [takeWhileRange, window, List.drop_left]
  rw [if_neg (by omega)]

theorem utf8Width_encodeChar (c : Char) :
    ∃ lead more, String.utf8EncodeChar c = lead :: more ∧ utf8Width lead = some (more.length + 1) ∧
      more.any (· &&& 0xC0 != 0x80) = false := by
  have below {a b : UInt8} (h : a.toNat ≤ b.toNat) : a ≤ b := UInt8.le_iff_toNat_le.mpr h
  have above {a b : UInt8} (h : b.toNat < a.toNat) : ¬ a ≤ b := by
    rw [UInt8.le_iff_toNat_le]
    omega
  rcases Utf8.encodeChar_cases c with ⟨a, chunk, high, -⟩ | ⟨a, b, chunk, low, high, hb⟩ |
    ⟨a, b, d, chunk, low, high, hb, hd⟩ | ⟨a, b, d, e, chunk, low, high, hb, hd, he⟩
  · refine ⟨a, [], chunk, ?_, rfl⟩
    rw [utf8Width, if_pos (below high)]
    rfl
  · refine ⟨a, [b], chunk, ?_, by simp [hb]⟩
    rw [utf8Width, if_neg (above (by change 0x7F < _; omega)), if_pos ⟨below low, below high⟩]
    rfl
  · refine ⟨a, [b, d], chunk, ?_, by simp [hb, hd]⟩
    rw [utf8Width, if_neg (above (by change 0x7F < _; omega)),
      if_neg (fun h => above (by change 0xDF < _; omega) h.2), if_pos ⟨below low, below high⟩]
    rfl
  · refine ⟨a, [b, d, e], chunk, ?_, by simp [hb, hd, he]⟩
    rw [utf8Width, if_neg (above (by change 0x7F < _; omega)),
      if_neg (fun h => above (by change 0xDF < _; omega) h.2),
      if_neg (fun h => above (by change 0xEF < _; omega) h.2), if_pos ⟨below low, below high⟩]
    rfl

theorem utf8PrefixLenFrom_walk (value : Text) (front rest : Bytes) (more : Nat) :
    utf8PrefixLenFrom (front ++ (Utf8.encode value ++ rest)) (value.length + more) front.length =
      utf8PrefixLenFrom (front ++ (Utf8.encode value ++ rest)) more
        (front.length + (Utf8.encode value).length) := by
  induction value generalizing front with
  | nil => simp
  | cons c value ih =>
      obtain ⟨lead, tail, chunk, width, valid⟩ := utf8Width_encodeChar c
      have shape : front ++ (Utf8.encode (c :: value) ++ rest) =
          front ++ lead :: (tail ++ (Utf8.encode value ++ rest)) := by
        simp [chunk]
      have shift : front ++ lead :: (tail ++ (Utf8.encode value ++ rest)) =
          (front ++ lead :: tail) ++ (Utf8.encode value ++ rest) := by
        simp
      have first : (front ++ lead :: (tail ++ (Utf8.encode value ++ rest)))[front.length]? =
          some lead := by
        rw [List.getElem?_append_right le_rfl, Nat.sub_self]
        rfl
      have continuation :
          ((front ++ lead :: (tail ++ (Utf8.encode value ++ rest))).drop (front.length + 1)).take
            (tail.length + 1 - 1) = tail := by
        rw [← List.drop_drop, List.drop_left, Nat.add_sub_cancel]
        exact List.take_left
      have room : ¬ front.length + (tail.length + 1) >
          (front ++ lead :: (tail ++ (Utf8.encode value ++ rest))).length := by
        simp only [List.length_append, List.length_cons]
        omega
      have turns : (c :: value).length + more = (value.length + more) + 1 := by
        rw [List.length_cons]
        omega
      have walked := ih (front ++ lead :: tail)
      rw [List.length_append, List.length_cons] at walked
      rw [shape, turns, utf8PrefixLenFrom, first]
      simp only [width]
      rw [if_neg room, continuation, if_neg (by rw [valid]; decide), shift, walked,
        Utf8.encode_cons, chunk, List.length_append, List.length_cons, Nat.add_assoc]

theorem parseValue_encode (value : Text) (rest : Bytes)
    (bounded : value.length ≤ maxElementChars) :
    parseValue value.length (Utf8.encode value ++ rest) = .ok (value, rest) := by
  have walked : utf8PrefixLen (Utf8.encode value ++ rest) value.length =
      .ok (some (Utf8.encode value).length) := by
    have h := utf8PrefixLenFrom_walk value [] rest 0
    simpa [utf8PrefixLen, utf8PrefixLenFrom] using h
  have taken : takeBytes (Utf8.encode value).length (Utf8.encode value ++ rest) =
      .ok (Utf8.encode value, rest) := by
    rw [takeBytes, if_neg (by rw [List.length_append]; omega), List.take_left, List.drop_left]
  rw [parseValue, if_neg (by omega)]
  simp only [walked, taken, Utf8.decode_encode]

theorem parseElement_element (value : Text) (rest : Bytes)
    (bounded : value.length ≤ maxElementChars) :
    parseElement (element value ++ rest) = .ok (value, rest) := by
  have digits := writeUsizeFor_digits 20 value.length
  have small : value.length < 10 ^ 9 := by
    rw [maxElementChars] at bounded
    omega
  have short := writeUsizeFor_length 20 value.length 9 (by decide) small
  have read := takeWhileRange_digits maxLengthDigits (writeUsize value.length)
    (Utf8.encode value ++ rest) dot (writeUsize_nonempty _) short digits (by decide)
  have back : digitsLength (writeUsize value.length) = value.length :=
    writeUsizeFor_value 20 value.length (lt_trans small (by norm_num))
  have shape : element value ++ rest =
      writeUsize value.length ++ dot :: (Utf8.encode value ++ rest) := by
    simp [element]
  rw [shape]
  cases first : writeUsize value.length with
  | nil => exact absurd first (writeUsize_nonempty _)
  | cons d more =>
      have digit : isAsciiDigit d = true := digits d (by rw [← writeUsize, first]; simp)
      rw [first] at read back
      simp only [parseElement, List.cons_append, if_pos digit]
      rw [List.cons_append] at read
      simp only [read, back]
      rw [if_pos trivial, parseValue_encode value rest bounded]

theorem parseArgs_argsWire (opcode : Text) (args later : List Text) (rest : Bytes)
    (few : args.length + later.length < maxInstructionElements)
    (bounded : ∀ arg ∈ later, arg.length ≤ maxElementChars) :
    parseArgs opcode args (argsWire later ++ semicolon :: rest) =
      .ok (⟨opcode, args ++ later⟩, rest) := by
  induction later generalizing args with
  | nil =>
      rw [parseArgs_eq]
      simp [argsWire, parseTurn]
  | cons arg later ih =>
      have shape : argsWire (arg :: later) ++ semicolon :: rest =
          comma :: (element arg ++ (argsWire later ++ semicolon :: rest)) := by
        simp [argsWire]
      have read := parseElement_element arg (argsWire later ++ semicolon :: rest)
        (bounded arg (by simp))
      have room : ¬ args.length + 1 ≥ maxInstructionElements := by
        simp only [List.length_cons] at few
        omega
      have turned : parseTurn opcode
          (args, comma :: (element arg ++ (argsWire later ++ semicolon :: rest))) =
            .inl (args ++ [arg], argsWire later ++ semicolon :: rest) := by
        simp only [parseTurn, if_neg room, read]
        rfl
      rw [shape, parseArgs_eq, turned]
      simp only
      rw [ih (args ++ [arg]) (by simp only [List.length_append, List.length_cons,
        List.length_nil] at few ⊢; omega) (fun a member => bounded a (by simp [member]))]
      simp

/-- What the wire format carries: at most 64 elements, each within the cap. -/
structure WithinLimits (instruction : GuacInstruction) : Prop where
  few : instruction.args.length + 1 ≤ maxInstructionElements
  short : ∀ e ∈ instruction.opcode :: instruction.args, e.length ≤ maxElementChars

theorem tryParse_wire (instruction : GuacInstruction) (limits : WithinLimits instruction)
    (rest : Bytes) :
    tryParseInstruction (instruction.wire ++ rest) =
      .ok (some (instruction, instruction.wire.length)) := by
  have shape : instruction.wire ++ rest = element instruction.opcode ++
      (argsWire instruction.args ++ semicolon :: rest) := by
    rw [wire_eq]
    simp
  have opcode := parseElement_element instruction.opcode
    (argsWire instruction.args ++ semicolon :: rest) (limits.short _ (by simp))
  have few := limits.few
  have args := parseArgs_argsWire instruction.opcode [] instruction.args rest
    (by rw [List.length_nil]; omega) (fun a member => limits.short a (by simp [member]))
  have parsed : parseInstruction (instruction.wire ++ rest) = .ok (instruction, rest) := by
    rw [shape, parseInstruction, opcode]
    exact args
  simp only [tryParseInstruction, parsed, List.length_append, Nat.add_sub_cancel]

def parseRepeatedly (buf : Bytes) :
    List (GuacInstruction × Nat) × Option WireError × Bytes :=
  drain (refine tryParseInstruction (fun instruction n => .ok (instruction, n))) buf

theorem parse_encode_all (instructions : List GuacInstruction)
    (limits : ∀ instruction ∈ instructions, WithinLimits instruction) :
    parseRepeatedly (encodeAll instructions) =
      (instructions.map (fun instruction => (instruction, instruction.wire.length)), none, []) := by
  have stable := tryParse_step.refine (fun instruction n => .ok (instruction, n))
  induction instructions with
  | nil => rfl
  | cons instruction instructions ih =>
      have parsed := tryParse_wire instruction (limits instruction (by simp))
        (encodeAll instructions)
      have stepped : refine tryParseInstruction (fun instruction n => .ok (instruction, n))
          (instruction.wire ++ encodeAll instructions) =
            .ok (some ((instruction, instruction.wire.length), instruction.wire.length)) := by
        simp [refine, parsed, Except.map]
      have tail := ih (fun i member => limits i (by simp [member]))
      rw [parseRepeatedly] at tail ⊢
      rw [encodeAll_cons, drain_some stable stepped, List.drop_left, tail]
      rfl

theorem parse_encode_all_delimiters :
    parseRepeatedly (encodeAll
        [⟨"1.x;".toList, ["é,;".toList, []]⟩, ⟨[], ["3.nop;".toList]⟩]) =
      ([(⟨"1.x;".toList, ["é,;".toList, []]⟩, 17), (⟨[], ["3.nop;".toList]⟩, 12)], none, []) := by
  have limits : ∀ instruction ∈
      [(⟨"1.x;".toList, ["é,;".toList, []]⟩ : GuacInstruction), ⟨[], ["3.nop;".toList]⟩],
      WithinLimits instruction := by
    intro instruction member
    simp only [List.mem_cons, List.not_mem_nil, or_false] at member
    rcases member with rfl | rfl <;> exact ⟨by decide, by decide⟩
  have lengths := parse_encode_all _ limits
  exact lengths.trans (by decide)

end Strata.Protocol.Guacamole
