import Mathlib.Tactic
import Strata.Engine.Event

/-! The interface every protocol engine implements, and how it fails. -/

namespace Strata.Engine

open Utf8 (Text)

inductive EngineError where
  | authRejected
  | transport (timedOut : Bool) (text : Text)
  | protocol (text : Text)
  | unsupported (text : Text)
  | closed (text : Text)
  deriving DecidableEq, Repr

def EngineError.text : EngineError → Text
  | .authRejected => "authentication rejected by target".toList
  | .transport _ text => "target transport failed: ".toList ++ text
  | .protocol text => "target protocol violation: ".toList ++ text
  | .unsupported text => "no engine available for protocol \x60".toList ++ text ++ "\x60".toList
  | .closed text => "target closed the connection: ".toList ++ text

/-- A live connection to one target. The state may hold whatever the target will
answer, so an arbitrary engine is an arbitrary target. -/
structure ProtocolEngine (τ : Type) where
  handleInput : τ → InputEvent → Except EngineError Unit × τ
  nextEvent : τ → Except EngineError (Option TargetEvent) × τ

end Strata.Engine
