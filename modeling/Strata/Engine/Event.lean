import Mathlib.Tactic
import Strata.Lib.Utf8

/-! What crosses the boundary of a protocol engine: user interaction on the way
to the target, and what happened on the target on the way back. -/

namespace Strata.Engine

open Utf8 (Text Bytes)

inductive FileRequest where
  | get (object : Int) (name : Text)
  | put (object stream : Int) (mimetype name : Text)
  | data (stream : Int) (data : Bytes)
  | endStream (stream : Int)
  | ack (stream status : Int)
  deriving DecidableEq, Repr

inductive InputEvent where
  | mouse (x y : Int) (mask : Nat)
  | key (keysym : Nat) (pressed : Bool)
  | resize (width height : Nat) (dpi : Option Nat)
  | clipboard (data : Bytes)
  | text (data : Bytes)
  | file (request : FileRequest)
  | disconnect
  deriving DecidableEq, Repr

inductive VideoCodec where
  | h264
  | av1
  deriving DecidableEq, Repr

inductive DisconnectCause where
  | ended
  | idleTimeout
  | conflict
  | refused
  | unauthorized
  | connectionLost
  | failed
  deriving DecidableEq, Repr

inductive FileEvent where
  | filesystem (object : Int) (name : Text)
  | body (object stream : Int) (mimetype name : Text)
  | data (stream : Int) (data : Bytes)
  | endStream (stream : Int)
  | ack (stream : Int) (message : Text) (status : Int)
  | notice (message : Text) (ok : Bool)
  deriving DecidableEq, Repr

inductive TargetEvent where
  | imageUpdate (x y : Int) (mimetype : Text) (data : Bytes)
  | videoSlice (codec : VideoCodec) (keyframe : Bool) (x y : Int) (width height : Nat)
      (timestampMs : Nat) (data : Bytes)
  | terminalOutput (data : Bytes)
  | audio (data : Bytes)
  | copyRegion (srcX srcY : Int) (width height : Nat) (dstX dstY : Int)
  | clipboard (data : Bytes)
  | resized (width height : Nat)
  | cursorImage (hotspotX hotspotY width height : Nat) (mimetype : Text) (data : Bytes)
  | cursorHidden
  | file (event : FileEvent)
  | disconnected (reason : Text) (cause : DisconnectCause)
  deriving DecidableEq, Repr

/-- `msg` code of a transfer notice. -/
def transferNoticeMsg : Int := 0x5354

end Strata.Engine
