import Mathlib.Tactic
import Strata.Lib.Framing
import Strata.Link.Handshake

/-! The frames of the handshake (`frame.rs`): a four-byte length and a JSON body, capped
on both sides. JSON itself is a parameter, one codec for each type of message. -/

namespace Strata.Link

open Utf8 (Text Bytes)
open Framing (field getBigEndian)

def maxFramePayload : Nat := 64 * 1024

/-- `serde_json` at one type of message, of which `texts` are the strings. A string takes at
least its own bytes in a body, however it is escaped. -/
structure Json (α : Type) (texts : α → List Text) where
  encode : α → Bytes
  decode : Bytes → Option α
  encode_length : ∀ message, ∀ text ∈ texts message,
    (Utf8.encode text).length ≤ (encode message).length
  decode_length : ∀ body message, decode body = some message → ∀ text ∈ texts message,
    (Utf8.encode text).length ≤ body.length

/-- The texts of `ProtocolError::Malformed` that the codec makes, by their cause. -/
inductive FrameError where
  | outgoingTooLarge (size : Nat)
  | write
  | readLen
  | incomingTooLarge (size : Nat)
  | readBody
  | deserialize
  deriving DecidableEq, Repr

variable {α : Type} {texts : α → List Text}

def writeFrame (json : Json α texts) (message : α) (up : Bool) : Except FrameError Bytes :=
  if (json.encode message).length > maxFramePayload then
    .error (.outgoingTooLarge (json.encode message).length)
  else if up then
    .ok (field (json.encode message))
  else
    .error .write

/-- `input` is what the stream still gives, from the first byte of this frame to its end. -/
def readFrame (json : Json α texts) (input : Bytes) : Except FrameError α :=
  if input.length < 4 then
    .error .readLen
  else if getBigEndian (input.take 4) > maxFramePayload then
    .error (.incomingTooLarge (getBigEndian (input.take 4)))
  else if (input.drop 4).length < getBigEndian (input.take 4) then
    .error .readBody
  else
    match json.decode ((input.drop 4).take (getBigEndian (input.take 4))) with
    | none => .error .deserialize
    | some message => .ok message

theorem writeFrame_short {json : Json α texts} {message : α} {up : Bool} {frame : Bytes}
    (written : writeFrame json message up = .ok frame) :
    ∀ text ∈ texts message, (Utf8.encode text).length ≤ maxFramePayload := by
  intro text member
  rw [writeFrame] at written
  by_cases large : (json.encode message).length > maxFramePayload
  · rw [if_pos large] at written
    cases written
  · exact (json.encode_length message text member).trans (not_lt.mp large)

theorem readFrame_short {json : Json α texts} {input : Bytes} {message : α}
    (read : readFrame json input = .ok message) :
    ∀ text ∈ texts message, (Utf8.encode text).length ≤ maxFramePayload := by
  intro text member
  simp only [readFrame] at read
  split_ifs at read with header large body
  cases parsed : json.decode ((input.drop 4).take (getBigEndian (input.take 4))) with
  | none =>
      rw [parsed] at read
      cases read
  | some found =>
      rw [parsed] at read
      cases read
      calc (Utf8.encode text).length
          ≤ ((input.drop 4).take (getBigEndian (input.take 4))).length :=
            json.decode_length _ _ parsed text member
        _ ≤ getBigEndian (input.take 4) := List.length_take_le ..
        _ ≤ maxFramePayload := not_lt.mp large

end Strata.Link
