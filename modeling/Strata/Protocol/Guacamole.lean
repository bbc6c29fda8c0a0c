import Mathlib.Tactic
import Strata.Lib.Loop
import Strata.Lib.StreamParser
import Strata.Lib.Utf8

/-! The Guacamole text wire protocol: length-prefixed elements, separated by
commas and closed by a semicolon. Lengths count characters while the parser
walks bytes. -/

namespace Strata.Protocol.Guacamole

open Utf8 (Text Bytes)
open StreamParser (ErrMode ModalResult)

def maxInstructionElements : Nat := 64
def maxElementChars : Nat := 8 * 1024 * 1024
def maxLengthDigits : Nat := 9

def dot : UInt8 := 0x2E
def comma : UInt8 := 0x2C
def semicolon : UInt8 := 0x3B
def zeroDigit : UInt8 := 0x30

inductive WireError where
  | malformed
  | bufferOverflow (limit : Nat)
  | missingArgument (opcode : Text) (index : Nat)
  | badArgument (opcode : Text) (index : Nat)
  deriving DecidableEq, Repr, Inhabited

structure GuacInstruction where
  opcode : Text
  args : List Text
  deriving DecidableEq, Repr, Inhabited

/-- `write_usize` fills its 20-byte buffer from the back; the fuel is the space
left in front of the digits already written. -/
def writeUsizeFor : Nat → Nat → Bytes → Bytes
  | 0, _, written => written
  | space + 1, value, written =>
      let written := UInt8.ofNat (48 + value % 10) :: written
      if value / 10 = 0 then written else writeUsizeFor space (value / 10) written

def writeUsize (value : Nat) : Bytes := writeUsizeFor 20 value []

def pushElement (out : Bytes) (value : Text) : Bytes :=
  out ++ writeUsize value.length ++ [dot] ++ Utf8.encode value

def encodeInstruction (out : Bytes) (opcode : Text) (args : List Text) : Bytes :=
  args.foldl (fun out arg => pushElement (out ++ [comma]) arg) (pushElement out opcode) ++
    [semicolon]

def GuacInstruction.encode (instruction : GuacInstruction) (out : Bytes) : Bytes :=
  encodeInstruction out instruction.opcode instruction.args

def GuacInstruction.wire (instruction : GuacInstruction) : Bytes := instruction.encode []

def encodeAll (instructions : List GuacInstruction) : Bytes :=
  instructions.foldl (fun out instruction => instruction.encode out) []

def isAsciiDigit (b : UInt8) : Bool := 0x30 ≤ b && b ≤ 0x39

/-- `take_while(low..=high, accept)` on a complete slice. -/
def takeWhileRange (low high : Nat) (accept : UInt8 → Bool) (input : Bytes) :
    ModalResult UInt8 Bytes :=
  let taken := (input.take high).takeWhile accept
  if taken.length < low then .error .backtrack else .ok (taken, input.drop taken.length)

def takeBytes (count : Nat) (input : Bytes) : ModalResult UInt8 Bytes :=
  if input.length < count then .error .backtrack
  else .ok (input.take count, input.drop count)

def utf8Width (lead : UInt8) : Option Nat :=
  if lead ≤ 0x7F then some 1
  else if 0xC2 ≤ lead ∧ lead ≤ 0xDF then some 2
  else if 0xE0 ≤ lead ∧ lead ≤ 0xEF then some 3
  else if 0xF0 ≤ lead ∧ lead ≤ 0xF4 then some 4
  else none

/-- The loop of `utf8_prefix_len`: `chars` turns remain and `idx` bytes are walked. -/
def utf8PrefixLenFrom (input : Bytes) : Nat → Nat → Except Unit (Option Nat)
  | 0, idx => .ok (some idx)
  | chars + 1, idx =>
      match input[idx]? with
      | none => .ok none
      | some lead =>
          match utf8Width lead with
          | none => .error ()
          | some width =>
              if idx + width > input.length then .ok none
              else if ((input.drop (idx + 1)).take (width - 1)).any (· &&& 0xC0 != 0x80) then
                .error ()
              else utf8PrefixLenFrom input chars (idx + width)

def utf8PrefixLen (input : Bytes) (chars : Nat) : Except Unit (Option Nat) :=
  utf8PrefixLenFrom input chars 0

def digitsLength (digits : Bytes) : Nat :=
  digits.foldl (fun acc d => acc * 10 + (d - zeroDigit).toNat) 0

def parseValue (charLen : Nat) (input : Bytes) : ModalResult UInt8 Text :=
  if charLen > maxElementChars then .error .cut
  else
    match utf8PrefixLen input charLen with
    | .error () => .error .cut
    | .ok none => .error .backtrack
    | .ok (some byteLen) =>
        match takeBytes byteLen input with
        | .error _ => .error .backtrack
        | .ok (raw, rest) =>
            match Utf8.decode raw with
            | none => .error .cut
            | some value => .ok (value, rest)

def parseElement (input : Bytes) : ModalResult UInt8 Text :=
  match input with
  | [] => .error .backtrack
  | b :: _ =>
      if isAsciiDigit b then
        match takeWhileRange 1 maxLengthDigits isAsciiDigit input with
        | .error _ => .error .cut
        | .ok (_, []) => .error .backtrack
        | .ok (digits, mark :: rest) =>
            if mark = dot then parseValue (digitsLength digits) rest else .error .cut
      else .error .cut

def parseTurn (opcode : Text) (state : List Text × Bytes) :
    (List Text × Bytes) ⊕ ModalResult UInt8 GuacInstruction :=
  match state.2 with
  | [] => .inr (.error .backtrack)
  | b :: rest =>
      if b = semicolon then .inr (.ok (⟨opcode, state.1⟩, rest))
      else if b = comma then
        if state.1.length + 1 ≥ maxInstructionElements then .inr (.error .cut)
        else
          match parseElement rest with
          | .error err => .inr (.error err)
          | .ok (arg, rest) => .inl (state.1 ++ [arg], rest)
      else .inr (.error .cut)

def argsLeft (state : List Text × Bytes) : Nat := maxInstructionElements - state.1.length

def parseArgs (opcode : Text) (args : List Text) (input : Bytes) :
    ModalResult UInt8 GuacInstruction :=
  Loop.run argsLeft (parseTurn opcode) (args, input)

def parseInstruction (input : Bytes) : ModalResult UInt8 GuacInstruction :=
  match parseElement input with
  | .error err => .error err
  | .ok (opcode, rest) => parseArgs opcode [] rest

def tryParseInstruction (buf : Bytes) : Except WireError (Option (GuacInstruction × Nat)) :=
  match parseInstruction buf with
  | .ok (instruction, rest) => .ok (some (instruction, buf.length - rest.length))
  | .error .backtrack => .ok none
  | .error .cut => .error .malformed

example : encodeAll [⟨"clipboard".toList, ["café".toList]⟩] =
    Utf8.encode "9.clipboard,4.café;".toList := by decide

end Strata.Protocol.Guacamole
