import Mathlib.Tactic
import Strata.Lib.RustInt
import Strata.Protocol.Guacamole

/-! Typed views over the instruction set: what the browser may send, and what
the session engine sends back. -/

namespace Strata.Protocol.Instruction

open Utf8 (Text Bytes)
open RustInt
open Guacamole

inductive ClientInstruction where
  | size (width height : Nat) (dpi : Option Nat)
  | mouse (x y : Int) (mask : Nat)
  | key (keysym : Nat) (pressed : Bool)
  | clipboard (stream : Int) (mimetype : Text)
  | blob (stream : Int) (data : Text)
  | endStream (stream : Int)
  | sync (timestamp : Int)
  | get (object : Int) (name : Text)
  | put (object stream : Int) (mimetype name : Text)
  | ack (stream : Int) (message : Text) (status : Int)
  | nop
  | disconnect
  | unhandled (opcode : Text)
  deriving DecidableEq, Repr

def arg (instruction : GuacInstruction) (index : Nat) : Option Text := instruction.args[index]?

def argInt {α : Type} (parse : Text → Option α) (instruction : GuacInstruction) (index : Nat) :
    Except WireError α :=
  match arg instruction index with
  | none => .error (.missingArgument instruction.opcode index)
  | some text =>
      match parse text with
      | none => .error (.badArgument instruction.opcode index)
      | some value => .ok value

def requiredArg (instruction : GuacInstruction) (opcode : Text) (index : Nat) :
    Except WireError Text :=
  match arg instruction index with
  | none => .error (.missingArgument opcode index)
  | some text => .ok text

def fromWire (instruction : GuacInstruction) : Except WireError ClientInstruction :=
  if instruction.opcode = "size".toList then do
    let width ← argInt parseU32 instruction 0
    let height ← argInt parseU32 instruction 1
    return .size width height ((arg instruction 2).bind parseU32)
  else if instruction.opcode = "mouse".toList then do
    let x ← argInt parseI32 instruction 0
    let y ← argInt parseI32 instruction 1
    let mask ← argInt parseU8 instruction 2
    return .mouse x y mask
  else if instruction.opcode = "key".toList then do
    let keysym ← argInt parseU32 instruction 0
    let pressed ← argInt parseU8 instruction 1
    return .key keysym (pressed != 0)
  else if instruction.opcode = "clipboard".toList then do
    let stream ← argInt parseI32 instruction 0
    let mimetype ← requiredArg instruction "clipboard".toList 1
    return .clipboard stream mimetype
  else if instruction.opcode = "blob".toList then do
    let stream ← argInt parseI32 instruction 0
    let data ← requiredArg instruction "blob".toList 1
    return .blob stream data
  else if instruction.opcode = "end".toList then do
    let stream ← argInt parseI32 instruction 0
    return .endStream stream
  else if instruction.opcode = "sync".toList then do
    let timestamp ← argInt parseI64 instruction 0
    return .sync timestamp
  else if instruction.opcode = "get".toList then do
    let object ← argInt parseI32 instruction 0
    let name ← requiredArg instruction "get".toList 1
    return .get object name
  else if instruction.opcode = "put".toList then do
    let object ← argInt parseI32 instruction 0
    let stream ← argInt parseI32 instruction 1
    let mimetype ← requiredArg instruction "put".toList 2
    let name ← requiredArg instruction "put".toList 3
    return .put object stream mimetype name
  else if instruction.opcode = "ack".toList then do
    let stream ← argInt parseI32 instruction 0
    return .ack stream ((arg instruction 1).getD [])
      (match argInt parseI32 instruction 2 with | .ok status => status | .error _ => 0)
  else if instruction.opcode = "nop".toList then
    return .nop
  else if instruction.opcode = "disconnect".toList then
    return .disconnect
  else
    return .unhandled instruction.opcode

def ClientInstruction.opcode : ClientInstruction → Text
  | .size .. => "size".toList
  | .mouse .. => "mouse".toList
  | .key .. => "key".toList
  | .clipboard .. => "clipboard".toList
  | .blob .. => "blob".toList
  | .endStream .. => "end".toList
  | .sync .. => "sync".toList
  | .get .. => "get".toList
  | .put .. => "put".toList
  | .ack .. => "ack".toList
  | .nop => "nop".toList
  | .disconnect => "disconnect".toList
  | .unhandled opcode => opcode

inductive ServerInstruction where
  | size (layer : Int) (width height : Nat)
  | rect (layer x y : Int) (width height : Nat)
  | cfill (mask : Nat) (layer : Int) (r g b a : Nat)
  | img (stream : Int) (mask : Nat) (layer : Int) (mimetype : Text) (x y : Int)
  | blob (stream : Int) (data : Text)
  | endStream (stream : Int)
  | sync (timestamp : Int)
  | cursor (hotspotX hotspotY srcLayer srcX srcY : Int) (srcWidth srcHeight : Nat)
  | msg (code : Int) (args : List Text)
  | error (text : Text) (status : Int)
  | clipboard (stream : Int) (mimetype : Text)
  | audio (stream : Int) (mimetype : Text)
  | copy (srcLayer srcX srcY : Int) (width height mask : Nat) (dstLayer dstX dstY : Int)
  | filesystem (object : Int) (name : Text)
  | body (object stream : Int) (mimetype name : Text)
  | ack (stream : Int) (message : Text) (status : Int)
  | undefine (object : Int)
  | h264 (stream layer : Int) (keyframe : Bool) (x y : Int) (width height : Nat)
  deriving DecidableEq, Repr

namespace ServerInstruction

def toWire : ServerInstruction → GuacInstruction
  | .size layer width height =>
      ⟨"size".toList, [intText layer, natText width, natText height]⟩
  | .rect layer x y width height =>
      ⟨"rect".toList, [intText layer, intText x, intText y, natText width, natText height]⟩
  | .cfill mask layer r g b a =>
      ⟨"cfill".toList,
        [natText mask, intText layer, natText r, natText g, natText b, natText a]⟩
  | .img stream mask layer mimetype x y =>
      ⟨"img".toList,
        [intText stream, natText mask, intText layer, mimetype, intText x, intText y]⟩
  | .blob stream data => ⟨"blob".toList, [intText stream, data]⟩
  | .endStream stream => ⟨"end".toList, [intText stream]⟩
  | .sync timestamp => ⟨"sync".toList, [intText timestamp]⟩
  | .cursor hotspotX hotspotY srcLayer srcX srcY srcWidth srcHeight =>
      ⟨"cursor".toList,
        [intText hotspotX, intText hotspotY, intText srcLayer, intText srcX, intText srcY,
          natText srcWidth, natText srcHeight]⟩
  | .msg code args => ⟨"msg".toList, intText code :: args⟩
  | .error text status => ⟨"error".toList, [text, intText status]⟩
  | .clipboard stream mimetype => ⟨"clipboard".toList, [intText stream, mimetype]⟩
  | .audio stream mimetype => ⟨"audio".toList, [intText stream, mimetype]⟩
  | .copy srcLayer srcX srcY width height mask dstLayer dstX dstY =>
      ⟨"copy".toList,
        [intText srcLayer, intText srcX, intText srcY, natText width, natText height,
          natText mask, intText dstLayer, intText dstX, intText dstY]⟩
  | .filesystem object name => ⟨"filesystem".toList, [intText object, name]⟩
  | .body object stream mimetype name =>
      ⟨"body".toList, [intText object, intText stream, mimetype, name]⟩
  | .ack stream message status => ⟨"ack".toList, [intText stream, message, intText status]⟩
  | .undefine object => ⟨"undefine".toList, [intText object]⟩
  | .h264 stream layer keyframe x y width height =>
      ⟨"h264".toList,
        [intText stream, intText layer, if keyframe then "1".toList else "0".toList,
          intText x, intText y, natText width, natText height]⟩

def encode (instruction : ServerInstruction) (out : Bytes) : Bytes :=
  encodeInstruction out instruction.toWire.opcode instruction.toWire.args

def toBytes (instruction : ServerInstruction) : Bytes := instruction.encode []

end ServerInstruction

def Names (opcode : Text) (reading : Except WireError ClientInstruction) : Prop :=
  ∀ typed, reading = .ok typed → typed.opcode = opcode

section Names

variable {opcode name : Text}

theorem names_pure {typed : ClientInstruction} (named : typed.opcode = opcode) :
    Names opcode (pure typed) := by
  intro other same
  cases same
  exact named

theorem names_bind {α : Type} {first : Except WireError α}
    {next : α → Except WireError ClientInstruction} (named : ∀ value, Names opcode (next value)) :
    Names opcode (first >>= next) := by
  cases first with
  | error err =>
      intro typed same
      cases same
  | ok value => exact named value

theorem names_arm {reading others : Except WireError ClientInstruction}
    (named : Names name reading) (rest : Names opcode others) :
    Names opcode (if opcode = name then reading else others) := by
  by_cases same : opcode = name
  · rw [if_pos same, same]
    exact named
  · rw [if_neg same]
    exact rest

end Names

theorem fromWire_names (instruction : GuacInstruction) :
    Names instruction.opcode (fromWire instruction) := by
  unfold fromWire
  apply names_arm
  · exact names_bind fun width => names_bind fun height => names_pure rfl
  apply names_arm
  · exact names_bind fun x => names_bind fun y => names_bind fun mask => names_pure rfl
  apply names_arm
  · exact names_bind fun keysym => names_bind fun pressed => names_pure rfl
  apply names_arm
  · exact names_bind fun stream => names_bind fun mimetype => names_pure rfl
  apply names_arm
  · exact names_bind fun stream => names_bind fun data => names_pure rfl
  apply names_arm
  · exact names_bind fun stream => names_pure rfl
  apply names_arm
  · exact names_bind fun timestamp => names_pure rfl
  apply names_arm
  · exact names_bind fun object => names_bind fun path => names_pure rfl
  apply names_arm
  · exact names_bind fun object => names_bind fun stream => names_bind fun mimetype =>
      names_bind fun path => names_pure rfl
  apply names_arm
  · exact names_bind fun stream => names_pure rfl
  apply names_arm
  · exact names_pure rfl
  apply names_arm
  · exact names_pure rfl
  exact names_pure rfl

theorem fromWire_opcode {instruction : GuacInstruction} {typed : ClientInstruction}
    (read : fromWire instruction = .ok typed) : typed.opcode = instruction.opcode :=
  fromWire_names instruction typed read

end Strata.Protocol.Instruction
