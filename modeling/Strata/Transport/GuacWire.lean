import Mathlib.Tactic
import Strata.Engine.Event
import Strata.Lib.Base64
import Strata.Lib.RustVec
import Strata.Protocol.Instruction

/-! The Guacamole wire encoder: target events as text instructions. Payloads are
cut into blobs on a stream of their own; audio keeps one stream for the session. -/

namespace Strata.Transport.GuacWire

open Utf8 (Text Bytes)
open Engine
open RustVec (chunks)
open Protocol.Instruction (ServerInstruction)

inductive ClientFrame where
  | text (bytes : Bytes)
  | binary (bytes : Bytes)
  deriving DecidableEq, Repr

def maxBlobBytes : Nat := 4536
def compositeOver : Nat := 14
def compositeSrc : Nat := 12
def defaultLayer : Int := 0
def cursorLayer : Int := -1
def audioMimetype : Text := "audio/L16;rate=44100,channels=2".toList

def disconnectStatus : DisconnectCause → Int
  | .ended => 0x020B
  | .idleTimeout => 0x020A
  | .conflict => 0x0209
  | .refused => 0x0208
  | .unauthorized => 0x0301
  | .connectionLost => 0x0203
  | .failed => 0x0200

def asI32 (n : Nat) : Int :=
  if n % 2 ^ 32 < 2 ^ 31 then (n % 2 ^ 32 : Nat) else (n % 2 ^ 32 : Nat) - 2 ^ 32

structure GuacWireEncoder where
  nextStream : Int
  unsupported : Nat
  audioStream : Option Int
  deriving DecidableEq, Repr

namespace GuacWireEncoder

def new : GuacWireEncoder := ⟨1, 0, none⟩

/-- Stream 0 is reserved; the counter wraps below `i32::MAX`. -/
def allocateStream (encoder : GuacWireEncoder) : Int × GuacWireEncoder :=
  (encoder.nextStream,
    { encoder with
      nextStream := if encoder.nextStream ≥ 0x7FFFFFFE then 1 else encoder.nextStream + 1 })

variable (base64 : Base64.Codec)

def pushImage (encoder : GuacWireEncoder) (buf : Bytes) (mask : Nat) (layer x y : Int)
    (mimetype : Text) (data : Bytes) : GuacWireEncoder × Bytes :=
  let (stream, encoder) := encoder.allocateStream
  let buf := (ServerInstruction.img stream mask layer mimetype x y).encode buf
  let buf := (chunks maxBlobBytes data).foldl
    (fun buf chunk => (ServerInstruction.blob stream (base64.encode chunk)).encode buf) buf
  (encoder, (ServerInstruction.endStream stream).encode buf)

def encodeImage (encoder : GuacWireEncoder) (x y : Int) (mimetype : Text) (data : Bytes) :
    GuacWireEncoder × List ClientFrame :=
  let (encoder, buf) := encoder.pushImage base64 [] compositeOver defaultLayer x y mimetype data
  (encoder, [.text buf])

def blobFrames (stream : Int) (data : Bytes) : List ClientFrame :=
  (chunks maxBlobBytes data).map
    (fun chunk => .text (ServerInstruction.blob stream (base64.encode chunk)).toBytes)

def encodeClipboard (encoder : GuacWireEncoder) (data : Bytes) :
    GuacWireEncoder × List ClientFrame :=
  let (stream, encoder) := encoder.allocateStream
  (encoder,
    .text (ServerInstruction.clipboard stream "text/plain".toList).toBytes ::
      (blobFrames base64 stream data ++ [.text (ServerInstruction.endStream stream).toBytes]))

def encodeAudio (encoder : GuacWireEncoder) (data : Bytes) :
    GuacWireEncoder × List ClientFrame :=
  match encoder.audioStream with
  | some stream => (encoder, blobFrames base64 stream data)
  | none =>
      let (stream, encoder) := encoder.allocateStream
      ({ encoder with audioStream := some stream },
        .text (ServerInstruction.audio stream audioMimetype).toBytes ::
          blobFrames base64 stream data)

def encodeFile (event : FileEvent) : List ClientFrame :=
  match event with
  | .filesystem object name => [.text (ServerInstruction.filesystem object name).toBytes]
  | .body object stream mimetype name =>
      [.text (ServerInstruction.body object stream mimetype name).toBytes]
  | .data stream data => blobFrames base64 stream data
  | .endStream stream => [.text (ServerInstruction.endStream stream).toBytes]
  | .ack stream message status => [.text (ServerInstruction.ack stream message status).toBytes]
  | .notice message ok =>
      [.text (ServerInstruction.msg transferNoticeMsg
        [if ok then "ok".toList else "warning".toList, message]).toBytes]

def encodeH264 (encoder : GuacWireEncoder) (keyframe : Bool) (x y : Int) (width height : Nat)
    (data : Bytes) : GuacWireEncoder × List ClientFrame :=
  let (stream, encoder) := encoder.allocateStream
  (encoder,
    .text (ServerInstruction.h264 stream defaultLayer keyframe x y width height).toBytes ::
      (blobFrames base64 stream data ++ [.text (ServerInstruction.endStream stream).toBytes]))

/-- `none` where the source returns `false`: the event was not handled. -/
def encodeControl (encoder : GuacWireEncoder) (event : TargetEvent) :
    Option (GuacWireEncoder × List ClientFrame) :=
  match event with
  | .copyRegion srcX srcY width height dstX dstY =>
      some (encoder,
        [.text (ServerInstruction.copy defaultLayer srcX srcY width height compositeOver
          defaultLayer dstX dstY).toBytes])
  | .resized width height =>
      some (encoder, [.text (ServerInstruction.size defaultLayer width height).toBytes])
  | .disconnected reason cause =>
      some (encoder, [.text (ServerInstruction.error reason (disconnectStatus cause)).toBytes])
  | .cursorImage hotspotX hotspotY width height mimetype data =>
      let buf := (ServerInstruction.size cursorLayer width height).encode []
      let (encoder, buf) := encoder.pushImage base64 buf compositeSrc cursorLayer 0 0 mimetype data
      let buf := (ServerInstruction.cursor (asI32 hotspotX) (asI32 hotspotY) cursorLayer 0 0
        width height).encode buf
      some (encoder, [.text buf])
  | .cursorHidden =>
      let buf := (ServerInstruction.size cursorLayer 1 1).encode []
      let buf := (ServerInstruction.cursor 0 0 cursorLayer 0 0 1 1).encode buf
      some (encoder, [.text buf])
  | _ => none

/-- `none` where the source is `unreachable!`. -/
def encode (encoder : GuacWireEncoder) (event : TargetEvent) :
    Option (GuacWireEncoder × List ClientFrame) :=
  match encoder.encodeControl base64 event with
  | some handled => some handled
  | none =>
      match event with
      | .imageUpdate x y mimetype data => some (encoder.encodeImage base64 x y mimetype data)
      | .clipboard data => some (encoder.encodeClipboard base64 data)
      | .audio data => some (encoder.encodeAudio base64 data)
      | .file event => some (encoder, encodeFile base64 event)
      | .videoSlice .h264 keyframe x y width height _ data =>
          some (encoder.encodeH264 base64 keyframe x y width height data)
      | .videoSlice .av1 _ _ _ _ _ _ _ | .terminalOutput _ =>
          some ({ encoder with unsupported := encoder.unsupported + 1 }, [])
      | .copyRegion .. => some (encoder, [])
      | .resized .. | .disconnected .. | .cursorImage .. | .cursorHidden => none

def sync (encoder : GuacWireEncoder) (timestampMs : Int) : GuacWireEncoder × List ClientFrame :=
  (encoder, [.text (ServerInstruction.sync timestampMs).toBytes])

end GuacWireEncoder

end Strata.Transport.GuacWire
