import Mathlib.Tactic
import Strata.Actor.Streams
import Strata.Engine.ProtocolEngine
import Strata.Lib.Action
import Strata.Transport.GuacWire

/-! The session actor: one task per live connection. It owns the engine, the
encoder and the client streams, and handles one wake-up at a time: a command, a
sync tick or an event of the engine. -/

namespace Strata.Actor

open Utf8 (Text Bytes)
open Engine
open Strata.Action
open Protocol.Instruction (ClientInstruction)
open RustInt (natText)
open Transport.GuacWire (ClientFrame)

inductive SessionError where
  | engine (err : EngineError)
  | pipelineClosed (what : Text)
  | audit (why : Text)
  deriving DecidableEq, Repr

def SessionError.text : SessionError → Text
  | .engine err => err.text
  | .pipelineClosed what => "session pipeline closed: ".toList ++ what
  | .audit why => "audit sink failed: ".toList ++ why

structure FrameEncoder (σ : Type) where
  encode : σ → TargetEvent → σ × List ClientFrame
  sync : σ → Int → σ × List ClientFrame

structure RecordingPolicy where
  excludeOutput : Bool
  includeKeys : Bool
  deriving DecidableEq, Repr

inductive Moderation where
  | allow
  | deny (reason : Text)
  deriving DecidableEq, Repr

structure SessionFrame where
  seq : Nat
  timestampMs : Nat
  frame : ClientFrame
  deriving DecidableEq, Repr

structure SessionConfig (τ σ : Type) where
  engine : ProtocolEngine τ
  encoder : FrameEncoder σ
  recording : RecordingPolicy
  moderated : Bool
  credential : Bool
  base64 : Base64.Codec

structure SessionActor (τ σ : Type) where
  engine : τ
  encoder : σ
  seq : Nat
  droppedFrames : Nat
  streams : ClientStreams

inductive Effect where
  | counter (op : CounterOp)
  | audit (record : SessionFrame)
  | observers (record : SessionFrame)
  | client (frame : ClientFrame)
  | engine (input : InputEvent)
  | polled
  | checkpoint
  | shutdown
  | finalize
  | revoke
  deriving DecidableEq, Repr

/-- What the world answers during one wake-up. Answers to a frame are given by its
sequence number. -/
structure Env extends Reading where
  clock : Nat → Nat
  syncClock : Nat → Nat
  record : Nat → Except SessionError Unit
  clientOpen : Nat → Bool
  clientReady : Nat → Bool
  noticeReady : Nat → Bool
  checkpoint : Except SessionError Unit
  review : InputEvent → Moderation
  answersInGrace : Bool
  finalize : Except SessionError Unit
  revoke : Except SessionError Unit

inductive Wake where
  | clientInput (instruction : ClientInstruction)
  | guestInput (instruction : ClientInstruction)
  | attachObserver
  | terminate (reason : Text)
  | commandsClosed
  | syncTick
  | engineEvent
  deriving DecidableEq, Repr

def i64Max : Nat := 2 ^ 63 - 1

def droppable : TargetEvent → Bool
  | .videoSlice _ keyframe _ _ _ _ _ _ => !keyframe
  | _ => false

def isGraphicalOutput : TargetEvent → Bool
  | .imageUpdate .. => true
  | .videoSlice .. => true
  | .terminalOutput _ => true
  | .copyRegion .. => true
  | .resized .. => true
  | .cursorImage .. => true
  | .cursorHidden => true
  | .audio _ => false
  | .clipboard _ => false
  | .file _ => false
  | .disconnected .. => false

def describeEngineFailure : EngineError → Text × DisconnectCause
  | .transport true _ =>
      ("The remote computer stopped responding, so the connection was dropped.".toList,
        .connectionLost)
  | .transport false _ =>
      ("The network connection to the remote computer was lost.".toList, .connectionLost)
  | .closed _ =>
      ("The remote computer closed the connection unexpectedly.".toList, .connectionLost)
  | .authRejected => ("The remote computer rejected the credentials.".toList, .unauthorized)
  | .protocol _ =>
      ("The session ended because of an unexpected response from the remote computer.".toList,
        .failed)
  | .unsupported _ =>
      ("The session ended because of an unexpected response from the remote computer.".toList,
        .failed)

section Handlers

variable {τ σ : Type} (config : SessionConfig τ σ) (env : Env)

abbrev Handler (τ σ α : Type) : Type := Act (SessionActor τ σ) Effect SessionError α

def fallible {α : Type} : Except SessionError α → Handler τ σ α
  | .ok value => done value
  | .error err => fail err

def onStreams {α : Type} (change : ClientStreams → α × ClientStreams × List CounterOp) :
    Handler τ σ α := fun actor =>
  ⟨.ok (change actor.streams).1, { actor with streams := (change actor.streams).2.1 },
    (change actor.streams).2.2.map .counter⟩

def recordFrame (record : SessionFrame) (output : Bool) : Handler τ σ Unit :=
  if output && config.recording.excludeOutput then done ()
  else do
    effect (.audit record)
    fallible (env.record record.seq)

def sendFrame (record : SessionFrame) (droppable : Bool) : Handler τ σ Unit :=
  if droppable then
    if env.clientReady record.seq then effect (.client record.frame)
    else update fun actor => { actor with droppedFrames := actor.droppedFrames + 1 }
  else if env.clientOpen record.seq then effect (.client record.frame)
  else fail (.pipelineClosed "client writer".toList)

def emit (frame : ClientFrame) (droppable output : Bool) : Handler τ σ Unit := do
  let actor ← current
  update fun actor => { actor with seq := actor.seq + 1 }
  recordFrame config env ⟨actor.seq, env.clock actor.seq, frame⟩ output
  effect (.observers ⟨actor.seq, env.clock actor.seq, frame⟩)
  sendFrame env ⟨actor.seq, env.clock actor.seq, frame⟩ droppable

def emitSync : Handler τ σ Unit := do
  let actor ← current
  let out := config.encoder.sync actor.encoder (min (env.syncClock actor.seq) i64Max : Nat)
  update fun actor => { actor with encoder := out.1 }
  forEach out.2 fun frame => emit config env frame false false

def ClientStreams.freeRefused (streams : ClientStreams) : TargetEvent → ClientStreams
  | .file (.ack stream _ status) => if status ≠ 0 then streams.removeUpload stream else streams
  | _ => streams

def showEvent (event : TargetEvent) : Handler τ σ Unit := do
  let actor ← current
  let out := config.encoder.encode actor.encoder event
  update fun actor => { actor with encoder := out.1 }
  forEach out.2 fun frame => emit config env frame (droppable event) (isGraphicalOutput event)
  emitSync config env

def onTargetEvent (event : TargetEvent) : Handler τ σ Unit := do
  onStreams fun streams => ((), streams.freeRefused event, [])
  showEvent config env event

def refuse (stream : Int) (refusal : Refusal) : Handler τ σ Unit := do
  let actor ← current
  if actor.streams.streamInUse stream then done ()
  else onTargetEvent config env (.file (.ack stream refusal.message refusal.status))

def refuseSome (stream : Int) : Option Refusal → Handler τ σ Unit
  | none => done ()
  | some refusal => refuse config env stream refusal

def recordKey (keysym : Nat) (pressed : Bool) : Handler τ σ Unit := do
  let actor ← current
  let wire := Protocol.Guacamole.encodeInstruction [] "key".toList
    [natText keysym, if pressed then "1".toList else "0".toList]
  update fun actor => { actor with seq := actor.seq + 1 }
  effect (.audit ⟨actor.seq, env.clock actor.seq, .text wire⟩)
  fallible (env.record actor.seq)

def recordInput : InputEvent → Handler τ σ Unit
  | .key keysym pressed =>
      if config.recording.includeKeys then recordKey env keysym pressed else done ()
  | _ => done ()

def handleInput (input : InputEvent) : Handler τ σ Unit := fun actor =>
  let out := config.engine.handleInput actor.engine input
  ⟨out.1.mapError .engine, { actor with engine := out.2 }, [.engine input]⟩

def denied (input : InputEvent) : Bool :=
  config.moderated &&
    match env.review input with
    | .allow => false
    | .deny _ => true

def deliver (input : InputEvent) : Handler τ σ Unit :=
  if denied config env input then done ()
  else do
    recordInput config env input
    handleInput config input

/-- `some reason` when the session should end. -/
def onClientInput (instruction : ClientInstruction) : Handler τ σ (Option Text) :=
  let deliverInput (input : InputEvent) : Handler τ σ (Option Text) := do
    deliver config env input
    done none
  match instruction with
  | .mouse x y mask => deliverInput (.mouse x y mask)
  | .key keysym pressed => deliverInput (.key keysym pressed)
  | .size width height dpi => deliverInput (.resize width height dpi)
  | .disconnect => done (some "client requested disconnect".toList)
  | .clipboard stream mimetype => do
      let refusal ←
        (if "text/".toList.isPrefixOf mimetype then
          onStreams fun streams => streams.openClipboard env.toReading stream false
        else done (some ⟨statusBadType, "only text can be pasted".toList⟩))
      refuseSome config env stream refusal
      done none
  | .blob stream data => do
      let actor ← current
      if stream ∈ actor.streams.uploadStreams then
        match config.base64.decode data with
        | none => done none
        | some decoded => deliverInput (.file (.data stream decoded))
      else do
        let refusal ← onStreams fun streams =>
          streams.appendClipboard config.base64 env.toReading stream data false
        refuseSome config env stream refusal
        done none
  | .endStream stream => do
      let actor ← current
      if stream ∈ actor.streams.uploadStreams then do
        onStreams fun streams => ((), streams.removeUpload stream, [])
        deliverInput (.file (.endStream stream))
      else do
        let taken ← onStreams fun streams => streams.takeClipboard stream false
        match taken with
        | none => done none
        | some data => deliverInput (.clipboard data)
  | .get object name =>
      if env.mayOpen then deliverInput (.file (.get object name)) else done none
  | .put object stream mimetype name => do
      let actor ← current
      if actor.streams.streamInUse stream then do
        refuse config env stream ⟨statusBadRequest, "stream already in use".toList⟩
        done none
      else if actor.streams.uploadStreams.card ≥ maxUploadStreams then do
        refuse config env stream ⟨statusTooMany, "too many uploads in progress".toList⟩
        done none
      else if !env.mayOpen then do
        refuse config env stream ⟨statusTooMany, "opening transfers too fast".toList⟩
        done none
      else do
        onStreams fun streams => ((), streams.insertUpload stream, [])
        deliverInput (.file (.put object stream mimetype name))
  | .ack stream _ status => deliverInput (.file (.ack stream status))
  | .sync _ | .nop | .unhandled _ => done none

def onGuestInput (instruction : ClientInstruction) : Handler τ σ Unit :=
  match instruction with
  | .mouse x y mask => deliver config env (.mouse x y mask)
  | .key keysym pressed => deliver config env (.key keysym pressed)
  | .size width height dpi => deliver config env (.resize width height dpi)
  | .clipboard stream mimetype =>
      if "text/".toList.isPrefixOf mimetype then do
        let _ ← onStreams fun streams => streams.openClipboard env.toReading stream true
        done ()
      else done ()
  | .blob stream data => do
      let _ ← onStreams fun streams =>
        streams.appendClipboard config.base64 env.toReading stream data true
      done ()
  | .endStream stream => do
      let taken ← onStreams fun streams => streams.takeClipboard stream true
      match taken with
      | none => done ()
      | some data => deliver config env (.clipboard data)
  | _ => done ()

abbrev Settled (τ σ α : Type) : Type := Act (SessionActor τ σ) Effect Empty α

/-- Best effort: the outcome is dropped. -/
def notifyEnd (reason : Text) (cause : DisconnectCause) : Settled τ σ Unit :=
  attempt (onTargetEvent config env (.disconnected reason cause))

/-- Not through `emit`, which records first: recording is what failed. -/
def noticeRecordingFailed : Settled τ σ Unit := do
  let actor ← current
  let out := config.encoder.encode actor.encoder
    (.disconnected "The session recording failed, so the session was closed.".toList .failed)
  update fun actor => { actor with encoder := out.1 }
  forEach out.2.zipIdx fun frame =>
    if env.noticeReady frame.2 then effect (.client frame.1) else done ()

def endAfterFailure (err : SessionError) : Settled τ σ Text :=
  match err with
  | .audit _ => do
      noticeRecordingFailed config env
      done err.text
  | .engine _ | .pipelineClosed _ => done err.text

def pollEngine : Settled τ σ (Except EngineError (Option TargetEvent)) := fun actor =>
  let out := config.engine.nextEvent actor.engine
  ⟨.ok out.1, { actor with engine := out.2 }, [.polled]⟩

/-- An engine that has closed has usually queued why; it has a grace period to say. -/
def endAfterInputFailure (err : EngineError) : Settled τ σ Text := do
  let said ← (if env.answersInGrace then pollEngine config else done (.ok none))
  match said with
  | .ok (some (.disconnected reason cause)) => do
      attempt (onTargetEvent config env (.disconnected reason cause))
      done "target disconnected".toList
  | _ => do
      notifyEnd config env (describeEngineFailure err).1 (describeEngineFailure err).2
      done ("engine failure: ".toList ++ err.text)

def onInputFailure : SessionError → Settled τ σ Text
  | .engine err => endAfterInputFailure config env err
  | err => endAfterFailure config env err

def afterEvent (event : TargetEvent) : Except SessionError Unit → Settled τ σ (Option Text)
  | .error err => some <$> endAfterFailure config env err
  | .ok () =>
      match event with
      | .disconnected .. => done (some "target disconnected".toList)
      | _ => done none

def onEngineEvent : Except EngineError (Option TargetEvent) → Settled τ σ (Option Text)
  | .ok (some event) => resume (onTargetEvent config env event) (afterEvent config env event)
  | .ok none => do
      notifyEnd config env "The remote session has ended.".toList .ended
      done (some "target closed the stream".toList)
  | .error err => do
      notifyEnd config env (describeEngineFailure err).1 (describeEngineFailure err).2
      done (some ("engine failure: ".toList ++ err.text))

def onSyncTick : Handler τ σ Unit := do
  emitSync config env
  effect .checkpoint
  fallible env.checkpoint

def turn : Wake → Settled τ σ (Option Text)
  | .clientInput instruction =>
      resume (onClientInput config env instruction) fun outcome =>
        match outcome with
        | .ok reason => done reason
        | .error err => some <$> onInputFailure config env err
  | .guestInput instruction =>
      resume (onGuestInput config env instruction) fun outcome =>
        match outcome with
        | .ok () => done none
        | .error err => some <$> onInputFailure config env err
  | .attachObserver => done none
  | .terminate reason => done (some reason)
  | .commandsClosed => done (some "client disconnected".toList)
  | .syncTick =>
      resume (onSyncTick config env) fun outcome =>
        match outcome with
        | .ok () => done none
        | .error err => some <$> endAfterFailure config env err
  | .engineEvent => do
      let event ← pollEngine config
      onEngineEvent config env event

def ClientStreams.dropBoth (streams : ClientStreams) : List CounterOp :=
  ClientStreams.dropAll streams.clipboardStreams ++
    ClientStreams.dropAll streams.guestClipboardStreams

def revoke : Handler τ σ Unit := if config.credential then effect .revoke else done ()

/-- Every step runs, whatever the ones before it answered. The pending clipboards go
with the actor. -/
def teardown : Handler τ σ Unit := do
  effect .shutdown
  effect .finalize
  revoke config
  onStreams fun streams => ((), .empty, streams.dropBoth)
  fallible (if config.credential then env.revoke else .ok ())
  fallible env.finalize

end Handlers

end Strata.Actor
