import Mathlib.Tactic
import Mathlib.Data.List.TakeWhile
import Strata.Protocol.GuacamoleText

/-! Where "incomplete" and "malformed" part. An instruction can still be completed unless its
last element announces too many characters or holds bytes that begin no text; the parser finds
both out only when the length prefix, or the value, is complete. -/

namespace Strata.Protocol.Guacamole

open Utf8 (Text Bytes)
open StreamParser (ErrMode ModalResult)

/-! ### Characters by their bytes -/

def LooksWhole (bytes : Bytes) : Prop :=
  ∃ lead more, bytes = lead :: more ∧ utf8Width lead = some (more.length + 1) ∧
    more.any (· &&& 0xC0 != 0x80) = false

def Begun (bytes : Bytes) : Prop :=
  ∃ lead more width, bytes = lead :: more ∧ utf8Width lead = some width ∧ more.length + 1 < width

/-- Fewer than so many characters, by the look of their bytes, and perhaps the begin of another. -/
inductive Unfinished : Nat → Bytes → Prop where
  | empty (chars : Nat) : Unfinished (chars + 1) []
  | begun {bytes : Bytes} (chars : Nat) (begun : Begun bytes) : Unfinished (chars + 1) bytes
  | more {chars : Nat} {front rest : Bytes} (whole : LooksWhole front)
      (unfinished : Unfinished chars rest) : Unfinished (chars + 1) (front ++ rest)

theorem utf8Width_pos {lead : UInt8} {width : Nat} (wide : utf8Width lead = some width) :
    0 < width := by
  unfold utf8Width at wide
  split_ifs at wide <;> simp only [Option.some.injEq] at wide <;> omega

theorem utf8PrefixLenFrom_succ (front bytes : Bytes) (chars : Nat) :
    utf8PrefixLenFrom (front ++ bytes) (chars + 1) front.length =
      match bytes with
      | [] => .ok none
      | lead :: more =>
          match utf8Width lead with
          | none => .error ()
          | some width =>
              if more.length + 1 < width then .ok none
              else if (more.take (width - 1)).any (· &&& 0xC0 != 0x80) then .error ()
              else utf8PrefixLenFrom (front ++ bytes) chars (front.length + width) := by
  rw [utf8PrefixLenFrom]
  cases bytes with
  | nil => rw [List.append_nil, List.getElem?_eq_none le_rfl]
  | cons lead more =>
      have first : (front ++ lead :: more)[front.length]? = some lead := by
        rw [List.getElem?_append_right le_rfl, Nat.sub_self]
        rfl
      have continuation : (front ++ lead :: more).drop (front.length + 1) = more := by
        rw [← List.drop_drop, List.drop_left]
        rfl
      have room : ∀ width, front.length + width > (front ++ lead :: more).length ↔
          more.length + 1 < width := by
        intro width
        rw [List.length_append, List.length_cons]
        omega
      rw [first]
      cases known : utf8Width lead with
      | none => simp only [known]
      | some width => simp only [known, continuation, room]

theorem utf8PrefixLenFrom_whole {bytes : Bytes} (whole : LooksWhole bytes) (front rest : Bytes)
    (chars : Nat) :
    utf8PrefixLenFrom (front ++ (bytes ++ rest)) (chars + 1) front.length =
      utf8PrefixLenFrom (front ++ bytes ++ rest) chars (front ++ bytes).length := by
  obtain ⟨lead, more, rfl, wide, valid⟩ := whole
  rw [utf8PrefixLenFrom_succ, List.cons_append]
  have fits : ¬ (more ++ rest).length + 1 < more.length + 1 := by
    rw [List.length_append]
    omega
  have taken : (more ++ rest).take (more.length + 1 - 1) = more := by
    rw [Nat.add_sub_cancel, List.take_left]
  simp only [wide, if_neg fits, taken, valid, Bool.false_eq_true, if_false]
  rw [List.length_append, List.length_cons, List.append_assoc, List.cons_append]

theorem utf8PrefixLenFrom_ok {front bytes : Bytes} {chars : Nat} {result : Option Nat}
    (walked : utf8PrefixLenFrom (front ++ bytes) (chars + 1) front.length = .ok result) :
    (bytes = [] ∧ result = none) ∨ (Begun bytes ∧ result = none) ∨
      ∃ whole rest, bytes = whole ++ rest ∧ LooksWhole whole ∧
        utf8PrefixLenFrom (front ++ whole ++ rest) chars (front ++ whole).length = .ok result := by
  have turn := utf8PrefixLenFrom_succ front bytes chars
  rw [walked] at turn
  cases bytes with
  | nil => exact .inl ⟨rfl, Except.ok.inj turn⟩
  | cons lead more =>
      refine .inr ?_
      cases wide : utf8Width lead with
      | none =>
          simp only [wide] at turn
          cases turn
      | some width =>
          simp only [wide] at turn
          split at turn
          · next short => exact .inl ⟨⟨lead, more, width, rfl, wide, short⟩, Except.ok.inj turn⟩
          · next fits =>
              split at turn
              · cases turn
              · next valid =>
                  have positive := utf8Width_pos wide
                  have length : (more.take (width - 1)).length + 1 = width := by
                    rw [List.length_take]
                    omega
                  have whole : LooksWhole (lead :: more.take (width - 1)) :=
                    ⟨lead, _, rfl, by rw [length]; exact wide, by simpa using valid⟩
                  have shape : lead :: more =
                      (lead :: more.take (width - 1)) ++ more.drop (width - 1) := by
                    rw [List.cons_append, List.take_append_drop]
                  refine .inr ⟨_, _, shape, whole, ?_⟩
                  rw [← utf8PrefixLenFrom_whole whole, ← shape]
                  exact walked

theorem utf8PrefixLenFrom_bounds {input : Bytes} {chars idx len : Nat}
    (walked : utf8PrefixLenFrom input chars idx = .ok (some len)) (inside : idx ≤ input.length) :
    idx + chars ≤ len ∧ len ≤ input.length := by
  induction chars generalizing idx with
  | zero =>
      simp only [utf8PrefixLenFrom, Except.ok.injEq, Option.some.injEq] at walked
      omega
  | succ chars ih =>
      rw [utf8PrefixLenFrom] at walked
      split at walked
      · cases walked
      · split at walked
        · cases walked
        · next width wide =>
            split at walked
            · cases walked
            · split at walked
              · cases walked
              · have later := ih walked (by omega)
                have positive := utf8Width_pos wide
                omega

theorem utf8PrefixLenFrom_none_iff (front : Bytes) {bytes : Bytes} {chars : Nat} :
    utf8PrefixLenFrom (front ++ bytes) chars front.length = .ok none ↔ Unfinished chars bytes := by
  constructor
  · intro walked
    induction chars generalizing front bytes with
    | zero => cases walked
    | succ chars ih =>
        rcases utf8PrefixLenFrom_ok walked with
          ⟨rfl, -⟩ | ⟨begun, -⟩ | ⟨whole, rest, rfl, looks, later⟩
        · exact .empty chars
        · exact .begun chars begun
        · exact .more looks (ih _ later)
  · intro unfinished
    induction unfinished generalizing front with
    | empty chars => rw [utf8PrefixLenFrom_succ]
    | begun chars begun =>
        obtain ⟨lead, more, width, rfl, wide, short⟩ := begun
        rw [utf8PrefixLenFrom_succ]
        simp only [wide, if_pos short]
    | more whole unfinished ih =>
        rw [utf8PrefixLenFrom_whole whole]
        exact ih _

theorem Unfinished.length_le {chars : Nat} {bytes : Bytes} (unfinished : Unfinished chars bytes)
    (front : Bytes) {extension : Bytes} {len : Nat}
    (walked : utf8PrefixLenFrom (front ++ (bytes ++ extension)) chars front.length =
      .ok (some len)) : front.length + bytes.length ≤ len := by
  induction unfinished generalizing front with
  | empty chars =>
      have bounds := utf8PrefixLenFrom_bounds walked (by simp)
      rw [List.length_nil]
      omega
  | begun chars begun =>
      obtain ⟨lead, more, width, rfl, wide, short⟩ := begun
      rw [List.cons_append, utf8PrefixLenFrom_succ] at walked
      simp only [wide] at walked
      split at walked
      · cases walked
      · next fits =>
          split at walked
          · cases walked
          · have bounds := utf8PrefixLenFrom_bounds walked (by
              simp only [List.length_append, List.length_cons] at fits ⊢
              omega)
            rw [List.length_cons]
            omega
  | more whole unfinished ih =>
      rw [List.append_assoc, utf8PrefixLenFrom_whole whole] at walked
      have later := ih _ walked
      simp only [List.length_append] at later ⊢
      omega

theorem encode_begins {lead : UInt8} {more : Bytes} {text : Text}
    (begins : lead :: more <+: Utf8.encode text) :
    ∃ c tail rest, text = c :: tail ∧ String.utf8EncodeChar c = lead :: rest ∧
      utf8Width lead = some (rest.length + 1) ∧ rest.any (· &&& 0xC0 != 0x80) = false ∧
      more <+: rest ++ Utf8.encode tail := by
  cases text with
  | nil => exact absurd (List.prefix_nil.mp begins) (List.cons_ne_nil _ _)
  | cons c tail =>
      obtain ⟨first, rest, chunk, wide, valid⟩ := utf8Width_encodeChar c
      rw [Utf8.encode_cons, chunk, List.cons_append, List.cons_prefix_cons] at begins
      obtain ⟨rfl, begins⟩ := begins
      exact ⟨c, tail, rest, rfl, chunk, wide, valid, begins⟩

theorem Unfinished.complete {chars : Nat} {bytes : Bytes} (unfinished : Unfinished chars bytes)
    {text : Text} (begins : bytes <+: Utf8.encode text) :
    ∃ (extension : Bytes) (value : Text), value.length = chars ∧
      bytes ++ extension = Utf8.encode value := by
  induction unfinished generalizing text with
  | empty chars => exact ⟨_, List.replicate (chars + 1) 'a', by simp, rfl⟩
  | begun chars begun =>
      obtain ⟨lead, more, width, rfl, wide, short⟩ := begun
      obtain ⟨c, tail, rest, rfl, chunk, same, -, inside⟩ := encode_begins begins
      rw [wide, Option.some.injEq] at same
      obtain ⟨missing, rfl⟩ : more <+: rest :=
        List.prefix_of_prefix_length_le inside (List.prefix_append ..) (by omega)
      refine ⟨missing ++ Utf8.encode (List.replicate chars 'a'), c :: List.replicate chars 'a',
        by simp, ?_⟩
      rw [Utf8.encode_cons, chunk]
      simp
  | more whole unfinished ih =>
      obtain ⟨lead, more, rfl, wide, -⟩ := whole
      obtain ⟨c, tail, rest, rfl, chunk, same, -, inside⟩ := encode_begins begins
      rw [wide, Option.some.injEq] at same
      obtain rfl : more = rest := by
        refine List.IsPrefix.eq_of_length ?_ (by omega)
        exact List.prefix_of_prefix_length_le ((List.prefix_append ..).trans inside)
          (List.prefix_append ..) (by omega)
      obtain ⟨extension, value, length, completed⟩ :=
        ih ((List.prefix_append_right_inj _).mp inside)
      refine ⟨extension, c :: value, by rw [List.length_cons, length], ?_⟩
      rw [Utf8.encode_cons, chunk, ← completed, List.append_assoc]

/-! ### Elements -/

structure LengthDigits (digits : Bytes) : Prop where
  nonempty : digits ≠ []
  short : digits.length ≤ maxLengthDigits
  all : ∀ d ∈ digits, isAsciiDigit d = true

def IsElement (bytes : Bytes) : Prop :=
  ∃ digits value, bytes = digits ++ dot :: Utf8.encode value ∧ LengthDigits digits ∧
    digitsLength digits = value.length ∧ value.length ≤ maxElementChars

theorem parseElement_marked {digits : Bytes} (length : LengthDigits digits) {mark : UInt8}
    (stop : isAsciiDigit mark = false) (rest : Bytes) :
    parseElement (digits ++ mark :: rest) =
      if mark = dot then parseValue (digitsLength digits) rest else .error .cut := by
  have read := takeWhileRange_digits maxLengthDigits digits rest mark length.nonempty length.short
    length.all stop
  obtain ⟨first, more, rfl⟩ := List.exists_cons_of_ne_nil length.nonempty
  simp only [parseElement, List.cons_append, if_pos (length.all first (by simp))]
  rw [List.cons_append] at read
  simp only [read]

theorem parseElement_isElement {bytes : Bytes} (element : IsElement bytes) :
    ∃ value, ∀ rest, parseElement (bytes ++ rest) = .ok (value, rest) := by
  obtain ⟨digits, value, rfl, length, counted, bounded⟩ := element
  refine ⟨value, fun rest => ?_⟩
  rw [List.append_assoc, List.cons_append, parseElement_marked length (by decide), if_pos rfl,
    counted, parseValue_encode value rest bounded]

theorem utf8PrefixLen_encode {value : Text} (rest : Bytes) {chars : Nat}
    (walked : utf8PrefixLen (Utf8.encode value ++ rest) chars =
      .ok (some (Utf8.encode value).length)) : value.length = chars := by
  rcases Nat.lt_trichotomy value.length chars with fewer | same | more
  · have walk := utf8PrefixLenFrom_walk value [] rest (chars - value.length)
    rw [Nat.add_sub_of_le fewer.le, List.nil_append, List.length_nil] at walk
    rw [utf8PrefixLen, walk] at walked
    have bounds := utf8PrefixLenFrom_bounds walked (by simp)
    omega
  · exact same
  · have walk := utf8PrefixLenFrom_walk (value.take chars) []
      (Utf8.encode (value.drop chars) ++ rest) 0
    rw [List.nil_append, ← List.append_assoc, ← Utf8.encode_append, List.take_append_drop,
      List.length_take_of_le more.le] at walk
    rw [utf8PrefixLen, Nat.add_zero, List.length_nil] at *
    rw [walk] at walked
    simp only [utf8PrefixLenFrom, Except.ok.injEq, Option.some.injEq] at walked
    have parts :=
      congrArg (fun text => (Utf8.encode text).length) (List.take_append_drop chars value)
    have left := Utf8.length_le_encode (value.drop chars)
    simp only [Utf8.encode_append, List.length_append, List.length_drop] at parts left
    omega

theorem parseValue_ok {charLen : Nat} {input rest : Bytes} {value : Text}
    (read : parseValue charLen input = .ok (value, rest)) :
    charLen ≤ maxElementChars ∧ input = Utf8.encode value ++ rest ∧ value.length = charLen := by
  unfold parseValue at read
  split at read
  · cases read
  · next bounded =>
      split at read
      · cases read
      · cases read
      · next byteLen walked =>
          split at read
          · cases read
          · next raw left taken =>
              split at read
              · cases read
              · next text decoded =>
                  obtain ⟨rfl, rfl⟩ := Prod.mk.inj (Except.ok.inj read)
                  unfold takeBytes at taken
                  split at taken
                  · cases taken
                  · next enough =>
                      obtain ⟨rfl, rfl⟩ := Prod.mk.inj (Except.ok.inj taken)
                      have bytes := Utf8.encode_of_decode decoded
                      have whole : input = Utf8.encode text ++ input.drop byteLen := by
                        rw [bytes, List.take_append_drop]
                      refine ⟨by omega, whole, utf8PrefixLen_encode (input.drop byteLen) ?_⟩
                      rw [← whole, walked, bytes, List.length_take_of_le (by omega)]

theorem parseElement_cases (input : Bytes) :
    parseElement input = .error .cut ∨
    ((input = [] ∨ LengthDigits input) ∧ parseElement input = .error .backtrack) ∨
    ∃ digits bytes, input = digits ++ dot :: bytes ∧ LengthDigits digits ∧
      parseElement input = parseValue (digitsLength digits) bytes := by
  cases input with
  | nil => exact .inr (.inl ⟨.inl rfl, rfl⟩)
  | cons b input =>
      simp only [parseElement]
      split
      · split
        · exact .inl rfl
        · next digits taken =>
            obtain ⟨shape, low, high, all⟩ := takeWhileRange_inv taken
            rw [List.append_nil] at shape
            rw [shape]
            exact .inr (.inl ⟨.inr ⟨List.ne_nil_of_length_pos low, high, all⟩, rfl⟩)
        · next digits mark rest taken =>
            obtain ⟨shape, low, high, all⟩ := takeWhileRange_inv taken
            split
            · next point =>
                subst point
                exact .inr (.inr ⟨digits, rest, shape, ⟨List.ne_nil_of_length_pos low, high, all⟩,
                  rfl⟩)
            · exact .inl rfl
      · exact .inl rfl

theorem isElement_of_parse {input rest : Bytes} {value : Text}
    (read : parseElement input = .ok (value, rest)) :
    ∃ bytes, IsElement bytes ∧ input = bytes ++ rest := by
  rcases parseElement_cases input with refused | ⟨-, incomplete⟩ |
    ⟨digits, bytes, rfl, length, parsed⟩
  · rw [read] at refused
    cases refused
  · rw [read] at incomplete
    cases incomplete
  · rw [parsed] at read
    obtain ⟨bounded, rfl, counted⟩ := parseValue_ok read
    refine ⟨digits ++ dot :: Utf8.encode value, ⟨digits, value, rfl, length, counted.symm, ?_⟩, ?_⟩
    · rw [counted]
      exact bounded
    · rw [List.append_assoc, List.cons_append]

theorem parseValue_backtrack {charLen : Nat} {input : Bytes}
    (read : parseValue charLen input = .error .backtrack) :
    charLen ≤ maxElementChars ∧ Unfinished charLen input := by
  unfold parseValue at read
  split at read
  · cases read
  · next bounded =>
      split at read
      · cases read
      · next walked =>
          exact ⟨by omega, (utf8PrefixLenFrom_none_iff []).mp walked⟩
      · next byteLen walked =>
          have bounds := utf8PrefixLenFrom_bounds walked (Nat.zero_le _)
          have taken : takeBytes byteLen input = .ok (input.take byteLen, input.drop byteLen) := by
            rw [takeBytes, if_neg (by omega)]
          simp only [taken] at read
          split at read <;> cases read

/-! ### Elements that can no longer be completed -/

def TooLong (tail : Bytes) : Prop := LengthDigits tail ∧ digitsLength tail > maxElementChars

def NoText (tail : Bytes) : Prop :=
  ∃ digits bytes, tail = digits ++ dot :: bytes ∧ LengthDigits digits ∧
    digitsLength digits ≤ maxElementChars ∧ Unfinished (digitsLength digits) bytes ∧
    ∀ text, ¬ bytes <+: Utf8.encode text

theorem parseElement_digits {digits : Bytes} (length : LengthDigits digits) :
    parseElement digits = .error .backtrack := by
  have window : (digits.take maxLengthDigits).takeWhile isAsciiDigit = digits := by
    rw [List.take_of_length_le length.short]
    exact List.takeWhile_eq_self_iff.mpr length.all
  have positive : 0 < digits.length := List.length_pos_iff.mpr length.nonempty
  have read : takeWhileRange 1 maxLengthDigits isAsciiDigit digits = .ok (digits, []) := by
    simp only [takeWhileRange, window, List.drop_length]
    rw [if_neg (by omega)]
  obtain ⟨first, more, rfl⟩ := List.exists_cons_of_ne_nil length.nonempty
  simp only [parseElement, if_pos (length.all first (by simp)), read]

theorem parseElement_dead {tail : Bytes} (dead : TooLong tail ∨ NoText tail) :
    parseElement tail = .error .backtrack := by
  rcases dead with ⟨length, -⟩ | ⟨digits, bytes, rfl, length, bounded, unfinished, -⟩
  · exact parseElement_digits length
  · have walked : utf8PrefixLen bytes (digitsLength digits) = .ok none :=
      (utf8PrefixLenFrom_none_iff []).mpr unfinished
    rw [parseElement_marked length (by decide), if_pos rfl, parseValue, if_neg (by omega)]
    simp only [walked]

theorem digits_extend {first second front back : Bytes}
    (digits : ∀ d ∈ first, isAsciiDigit d = true)
    (same : first ++ front = second ++ dot :: back) : first <+: second := by
  rcases List.append_eq_append_iff.mp same with ⟨more, shape, -⟩ | ⟨more, rfl, shape⟩
  · exact ⟨more, shape.symm⟩
  · cases more with
    | nil => simp
    | cons b more =>
        obtain ⟨rfl, -⟩ := List.cons.inj shape
        exact absurd (digits dot (by simp)) (by decide)

theorem digitsLength_le_append (front back : Bytes) :
    digitsLength front ≤ digitsLength (front ++ back) := by
  induction back using List.reverseRecOn with
  | nil => rw [List.append_nil]
  | append_singleton back d ih =>
      rw [← List.append_assoc, digitsLength_append]
      omega

theorem parseElement_dead_append {tail : Bytes} (dead : TooLong tail ∨ NoText tail)
    (extension : Bytes) : ∃ err, parseElement (tail ++ extension) = .error err := by
  cases read : parseElement (tail ++ extension) with
  | error err => exact ⟨err, rfl⟩
  | ok parsed =>
      exfalso
      obtain ⟨element, ⟨digits, value, rfl, length, counted, bounded⟩, shape⟩ :=
        isElement_of_parse read
      rw [List.append_assoc, List.cons_append] at shape
      rcases dead with ⟨early, long⟩ | ⟨early, bytes, rfl, lead, -, unfinished, noText⟩
      · obtain ⟨more, rfl⟩ := digits_extend early.all shape
        have grows := digitsLength_le_append tail more
        omega
      · rw [List.append_assoc, List.cons_append] at shape
        have same : early = digits :=
          (digits_extend lead.all shape).eq_of_length_le
            (digits_extend length.all shape.symm).length_le
        subst same
        have rest := (List.cons.inj (List.append_cancel_left shape)).2
        have walked := utf8PrefixLenFrom_walk value [] parsed.2 0
        rw [List.nil_append, Nat.add_zero, ← rest, utf8PrefixLenFrom, ← counted] at walked
        have inside := unfinished.length_le [] walked
        have begins : bytes <+: Utf8.encode value ++ parsed.2 := ⟨extension, rest⟩
        exact noText value (List.prefix_of_prefix_length_le begins (List.prefix_append ..)
          (by simpa using inside))

/-! ### Instructions -/

def separated (elements : List Bytes) : Bytes := elements.flatMap (· ++ [comma])

def resume : List Text → Bytes → ModalResult UInt8 GuacInstruction
  | [], input => parseInstruction input
  | opcode :: args, input => parseArgs opcode args (comma :: input)

def proceed : List Text → Bytes → ModalResult UInt8 GuacInstruction
  | [], _ => .error .cut
  | opcode :: args, input => parseArgs opcode args input

theorem resume_eq {values : List Text} (few : values.length < maxInstructionElements)
    (input : Bytes) :
    resume values input =
      match parseElement input with
      | .error err => .error err
      | .ok (value, rest) => proceed (values ++ [value]) rest := by
  cases values with
  | nil => rfl
  | cons opcode args =>
      rw [List.length_cons] at few
      rw [resume, parseArgs_eq, parseTurn]
      simp only [if_neg (show ¬ comma = semicolon by decide), if_true,
        if_neg (show ¬ args.length + 1 ≥ maxInstructionElements by omega)]
      cases parseElement input <;> rfl

theorem proceed_comma {values : List Text} (some : values ≠ []) (rest : Bytes) :
    proceed values (comma :: rest) = resume values rest := by
  obtain ⟨opcode, args, rfl⟩ := List.exists_cons_of_ne_nil some
  rfl

theorem proceed_semicolon (values : List Text) (some : values ≠ []) (rest : Bytes) :
    ∃ instruction, proceed values (semicolon :: rest) = .ok (instruction, rest) := by
  obtain ⟨opcode, args, rfl⟩ := List.exists_cons_of_ne_nil some
  exact ⟨⟨opcode, args⟩, by rw [proceed, parseArgs_eq]; rfl⟩

theorem resume_element {element : Bytes} (isElement : IsElement element) {values : List Text}
    (few : values.length < maxInstructionElements) :
    ∃ value, ∀ rest, resume values (element ++ rest) = proceed (values ++ [value]) rest := by
  obtain ⟨value, read⟩ := parseElement_isElement isElement
  exact ⟨value, fun rest => by rw [resume_eq few, read]⟩

theorem resume_separated (elements : List Bytes) (all : ∀ e ∈ elements, IsElement e)
    (values : List Text) (few : values.length + elements.length < maxInstructionElements) :
    ∃ more : List Text, more.length = values.length + elements.length ∧
      ∀ input, resume values (separated elements ++ input) = resume more input := by
  induction elements generalizing values with
  | nil => exact ⟨values, rfl, fun input => rfl⟩
  | cons element elements ih =>
      rw [List.length_cons] at few
      obtain ⟨value, read⟩ := resume_element (all element (by simp)) (by omega : values.length < _)
      obtain ⟨more, counted, through⟩ := ih (fun e member => all e (by simp [member]))
        (values ++ [value]) (by rw [List.length_append, List.length_singleton]; omega)
      refine ⟨more, ?_, fun input => ?_⟩
      · rw [counted, List.length_append, List.length_singleton, List.length_cons]
        omega
      · have shape : separated (element :: elements) ++ input =
            element ++ comma :: (separated elements ++ input) := by
          simp [separated]
        rw [shape, read, proceed_comma (by simp), through]

theorem proceed_backtrack {values : List Text} {input : Bytes} (some : values ≠ [])
    (read : proceed values input = .error .backtrack) :
    input = [] ∨ ∃ rest, input = comma :: rest ∧ values.length < maxInstructionElements ∧
      resume values rest = .error .backtrack := by
  obtain ⟨opcode, args, rfl⟩ := List.exists_cons_of_ne_nil some
  cases input with
  | nil => exact .inl rfl
  | cons b rest =>
      refine .inr ?_
      by_cases separator : b = comma
      · subst separator
        refine ⟨rest, rfl, ?_, read⟩
        by_contra full
        rw [List.length_cons] at full
        rw [proceed, parseArgs_eq, parseTurn] at read
        simp only [if_neg (show ¬ comma = semicolon by decide), if_true,
          if_pos (show args.length + 1 ≥ maxInstructionElements by omega)] at read
        cases read
      · rw [proceed, parseArgs_eq, parseTurn] at read
        simp only [if_neg separator] at read
        by_cases closing : b = semicolon
        · simp only [if_pos closing] at read
          cases read
        · simp only [if_neg closing] at read
          cases read

theorem resume_backtrack (values : List Text) {input : Bytes}
    (few : values.length < maxInstructionElements)
    (read : resume values input = .error .backtrack) :
    ∃ elements tail, input = separated elements ++ tail ∧ (∀ e ∈ elements, IsElement e) ∧
      values.length + elements.length < maxInstructionElements ∧
      (IsElement tail ∨ parseElement tail = .error .backtrack) := by
  induction length : input.length using Nat.strong_induction_on generalizing values input with
  | _ size ih =>
      rw [resume_eq few] at read
      cases parsed : parseElement input with
      | error err =>
          rw [parsed] at read
          cases read
          exact ⟨[], input, rfl, by simp, by simpa using few, .inr parsed⟩
      | ok pair =>
          obtain ⟨value, rest⟩ := pair
          obtain ⟨element, isElement, rfl⟩ := isElement_of_parse parsed
          rw [parsed] at read
          rcases proceed_backtrack (by simp) read with rfl | ⟨rest, rfl, room, later⟩
          · exact ⟨[], element, by simp [separated], by simp, by simpa using few, .inl isElement⟩
          · obtain ⟨elements, tail, rfl, all, fewer, ends⟩ :=
              ih rest.length (by rw [← length, List.length_append, List.length_cons]; omega) _ room
                later rfl
            refine ⟨element :: elements, tail, by simp [separated], ?_, ?_, ends⟩
            · exact List.forall_mem_cons.mpr ⟨isElement, all⟩
            · rw [List.length_append, List.length_singleton] at fewer
              rw [List.length_cons]
              omega

/-! ### The split -/

/-- The buffer is a proper first part of one whole instruction. -/
def Completes (buf : Bytes) : Prop :=
  ∃ extension instruction, extension ≠ [] ∧
    tryParseInstruction (buf ++ extension) = .ok (some (instruction, (buf ++ extension).length))

/-- More bytes are asked for exactly where they can complete an instruction, and a buffer that
no bytes make parse is refused. -/
def SplitsAt (buf : Bytes) : Prop :=
  (tryParseInstruction buf = .ok none ↔ Completes buf) ∧
    ((∀ extension parsed, tryParseInstruction (buf ++ extension) ≠ .ok (some parsed)) →
      tryParseInstruction buf = .error .malformed)

def Stalled (buf : Bytes) : Prop :=
  ∃ elements tail, buf = separated elements ++ tail ∧ (∀ e ∈ elements, IsElement e) ∧
    elements.length < maxInstructionElements ∧ (TooLong tail ∨ NoText tail)

theorem tryParse_none_iff {buf : Bytes} :
    tryParseInstruction buf = .ok none ↔ parseInstruction buf = .error .backtrack := by
  rw [tryParseInstruction]
  cases parseInstruction buf with
  | ok parsed => simp
  | error err => cases err <;> simp

theorem tryParse_error {buf : Bytes} {err : WireError}
    (answer : tryParseInstruction buf = .error err) : err = .malformed := by
  rw [tryParseInstruction] at answer
  cases read : parseInstruction buf with
  | ok parsed =>
      rw [read] at answer
      cases answer
  | error mode =>
      rw [read] at answer
      cases mode <;> cases answer
      rfl

theorem incomplete_of_stalled {buf : Bytes} (stalled : Stalled buf) :
    tryParseInstruction buf = .ok none ∧ ¬ Completes buf := by
  obtain ⟨elements, tail, rfl, all, few, dead⟩ := stalled
  obtain ⟨values, counted, through⟩ := resume_separated elements all [] (by simpa using few)
  have room : values.length < maxInstructionElements := by
    rw [counted, List.length_nil]
    omega
  constructor
  · rw [tryParse_none_iff]
    change resume [] _ = _
    rw [through, resume_eq room, parseElement_dead dead]
  · rintro ⟨extension, instruction, -, parsed⟩
    obtain ⟨err, refused⟩ := parseElement_dead_append dead extension
    have read : parseInstruction (separated elements ++ (tail ++ extension)) = .error err := by
      change resume [] _ = _
      rw [through, resume_eq room, refused]
    rw [List.append_assoc, tryParseInstruction, read] at parsed
    cases err <;> cases parsed

theorem completes_of_element {buf extension : Bytes} {elements : List Bytes} {element : Bytes}
    (all : ∀ e ∈ elements, IsElement e) (isElement : IsElement element)
    (few : elements.length < maxInstructionElements)
    (shape : buf ++ extension = separated elements ++ element) : Completes buf := by
  obtain ⟨values, counted, through⟩ := resume_separated elements all [] (by simpa using few)
  have room : values.length < maxInstructionElements := by
    rw [counted, List.length_nil]
    omega
  obtain ⟨value, read⟩ := resume_element isElement room
  obtain ⟨instruction, closed⟩ := proceed_semicolon (values ++ [value]) (by simp) []
  have parsed : parseInstruction (buf ++ (extension ++ [semicolon])) = .ok (instruction, []) := by
    change resume [] _ = _
    rw [← List.append_assoc, shape, List.append_assoc, through, read, closed]
  refine ⟨extension ++ [semicolon], instruction, by simp, ?_⟩
  rw [tryParseInstruction, parsed]
  rfl

theorem completes_or_stalled {buf : Bytes} (incomplete : tryParseInstruction buf = .ok none) :
    Completes buf ∨ Stalled buf := by
  obtain ⟨elements, tail, rfl, all, few, ends⟩ :=
    resume_backtrack [] (by decide) (tryParse_none_iff.mp incomplete)
  rw [List.length_nil, Nat.zero_add] at few
  have finish : ∀ extension, IsElement (tail ++ extension) →
      Completes (separated elements ++ tail) := fun extension isElement =>
    completes_of_element all isElement few (List.append_assoc ..)
  rcases ends with isElement | unread
  · exact .inl (finish [] (by rwa [List.append_nil]))
  · rcases parseElement_cases tail with refused | ⟨rfl | length, -⟩ |
      ⟨digits, bytes, rfl, length, parsed⟩
    · rw [unread] at refused
      cases refused
    · refine .inl (finish [0x30, dot] ⟨[0x30], [], rfl, ⟨?_, ?_, ?_⟩, rfl, ?_⟩)
      · decide
      · decide
      · exact List.forall_mem_singleton.mpr rfl
      · decide
    · by_cases bounded : digitsLength tail ≤ maxElementChars
      · refine .inl (finish (dot :: Utf8.encode (List.replicate (digitsLength tail) 'a')) ?_)
        exact ⟨tail, _, rfl, length, List.length_replicate.symm,
          by rwa [List.length_replicate]⟩
      · exact .inr ⟨elements, tail, rfl, all, few, .inl ⟨length, Nat.lt_of_not_ge bounded⟩⟩
    · rw [parsed] at unread
      obtain ⟨bounded, unfinished⟩ := parseValue_backtrack unread
      by_cases begins : ∃ text, bytes <+: Utf8.encode text
      · obtain ⟨text, begins⟩ := begins
        obtain ⟨extension, value, counted, completed⟩ := unfinished.complete begins
        refine .inl (finish extension ⟨digits, value, ?_, length, counted.symm, ?_⟩)
        · rw [List.append_assoc, List.cons_append, completed]
        · rwa [counted]
      · refine .inr ⟨elements, _, rfl, all, few, .inr ⟨digits, bytes, rfl, length, bounded,
          unfinished, fun text begun => begins ⟨text, begun⟩⟩⟩

theorem incomplete_of_completes {buf : Bytes} (completes : Completes buf) :
    tryParseInstruction buf = .ok none := by
  obtain ⟨extension, instruction, more, parsed⟩ := completes
  have positive : 0 < extension.length := List.length_pos_iff.mpr more
  have early := tryParse_take_incomplete parsed (k := buf.length)
    (by rw [List.length_append]; omega)
  rwa [List.take_left] at early

/-- "Incomplete" and "malformed" part where they should, except where the last element has
become hopeless and the parser has not seen the end of its length or value. -/
theorem splits_iff_not_stalled (buf : Bytes) : SplitsAt buf ↔ ¬ Stalled buf := by
  constructor
  · intro splits stalled
    obtain ⟨incomplete, never⟩ := incomplete_of_stalled stalled
    exact never (splits.1.mp incomplete)
  · intro alive
    refine ⟨⟨fun incomplete => (completes_or_stalled incomplete).resolve_right alive,
      incomplete_of_completes⟩, fun never => ?_⟩
    cases answer : tryParseInstruction buf with
    | error err => rw [tryParse_error answer]
    | ok outcome =>
        cases outcome with
        | none =>
            obtain ⟨extension, instruction, -, parsed⟩ :=
              (completes_or_stalled answer).resolve_right alive
            exact absurd parsed (never extension _)
        | some parsed =>
            refine absurd ?_ (never [] parsed)
            rwa [List.append_nil]

/-- The value of `1.` so far is a lead byte that asks for two more, and a letter. -/
theorem broken_character_asks_for_more : ¬ SplitsAt [0x31, dot, 0xE2, 0x41] := by
  intro splits
  have stalled : Stalled [0x31, dot, 0xE2, 0x41] := by
    refine ⟨[], _, rfl, by simp, by decide, .inr ⟨[0x31], [0xE2, 0x41], rfl, ⟨by decide, by decide,
      List.forall_mem_singleton.mpr rfl⟩, by decide,
      .begun 0 ⟨0xE2, [0x41], 3, rfl, by decide, by decide⟩, ?_⟩⟩
    intro text begins
    obtain ⟨c, tail, rest, -, -, wide, valid, inside⟩ := encode_begins begins
    cases rest with
    | nil => exact absurd wide (by decide)
    | cons second rest =>
        obtain ⟨rfl, -⟩ := List.cons_prefix_cons.mp inside
        rw [List.any_cons, Bool.or_eq_false_iff] at valid
        exact absurd valid.1 (by decide)
  obtain ⟨incomplete, never⟩ := incomplete_of_stalled stalled
  exact never (splits.1.mp incomplete)

end Strata.Protocol.Guacamole
