import Mathlib.Tactic
import Strata.Engine.ProtocolEngine
import Strata.Lib.RustStr
import Strata.Lib.Tables

/-! File transfer over SFTP, decorating any engine. Files are staged on this side;
the gate and the target's own I/O run in background tasks, and everything the
client is told waits in one queue of events. -/

namespace Strata.Engine.Sftp

open Utf8 (Text Bytes)
open RustStr (rsplitOnce trimStartMatches trimEndMatches)
open Tables

def streamIndex : Text := "application/vnd.glyptodon.guacamole.stream-index+json".toList
def chunkBytes : Nat := 4096
def maxOpenTransfers : Nat := 8

def object : Int := 1

def statusSuccess : Int := 0
def statusForbidden : Int := 0x0303
def statusNotFound : Int := 0x0404

structure SftpConfig where
  root : Text
  disableDownload : Bool
  disableUpload : Bool
  name : Text
  maxTransferBytes : Nat
  deriving Repr

structure Metadata where
  isDir : Bool
  isSymlink : Bool
  deriving DecidableEq, Repr

inductive Job where
  | download (stream : Int) (name path : Text)
  | upload (staged : Bytes) (remote name : Text)
  deriving DecidableEq, Repr

/-- How a background task ended: with the staged copy of a download (nothing, for an
upload), or with the reason of the gate or of the failed I/O. -/
abbrev JobOutcome : Type := Except Text Bytes

/-- The SFTP server, the staging directory and the background tasks as the engine meets
them. Any call may be answered in any way. -/
structure Host (ω : Type) where
  canonicalize : ω → Text → Option Text × ω
  metadata : ω → Text → Option Metadata × ω
  symlinkMetadata : ω → Text → Option Metadata × ω
  readDir : ω → Text → Option (List (Text × Metadata)) × ω
  createStaged : ω → Bool × ω
  openStaged : ω → Bool × ω
  writeAll : ω → Bytes → Bool × ω
  flush : ω → Bool × ω
  /-- How far a read of a nonempty rest gets, or that it fails. -/
  read : ω → Option Nat × ω
  /-- The task that has finished before the inner engine says anything, by its place. -/
  finished : ω → List Job → Option (Nat × JobOutcome) × ω
  json : List (Text × Text) → Bytes

/-- The wrapped engine; none of them transfers files. -/
structure Inner (ι : Type) extends ProtocolEngine ι where
  noFiles : ∀ state event, (nextEvent state).1 ≠ .ok (some (.file event))

structure Upload where
  staged : Bytes
  remote : Text
  name : Text
  size : Nat
  deriving DecidableEq, Repr

inductive Completion where
  | downloadReady (stream : Int) (name : Text) (staged : Bytes)
  | downloadWithheld (stream : Int) (message : Text)
  | uploadFinished (message : Text) (ok : Bool)
  deriving DecidableEq, Repr

/-- `downloads` holds what is left to send of each staged copy. -/
structure SftpEngine (ι ω : Type) where
  inner : ι
  host : ω
  pending : List TargetEvent
  nextStream : Int
  downloads : Table Int Bytes
  uploads : Table Int Upload
  inFlight : Nat
  background : List Job

variable {ι ω : Type}

def attach (config : SftpConfig) (inner : ι) (host : ω) : SftpEngine ι ω :=
  ⟨inner, host, [.file (.filesystem object config.name)], -1, ∅, ∅, 0, []⟩

namespace SftpEngine

def busy (engine : SftpEngine ι ω) : Nat :=
  size engine.downloads + size engine.uploads + engine.inFlight

def push (engine : SftpEngine ι ω) (event : FileEvent) : SftpEngine ι ω :=
  { engine with pending := engine.pending ++ [.file event] }

def notice (engine : SftpEngine ι ω) (message : Text) (ok : Bool) : SftpEngine ι ω :=
  engine.push (.notice message ok)

def allocateStream (engine : SftpEngine ι ω) : SftpEngine ι ω :=
  { engine with
    nextStream := if engine.nextStream = -2 ^ 31 then 2 ^ 31 - 1 else engine.nextStream - 1 }

def fail (engine : SftpEngine ι ω) (stream : Int) (message : String) (status : Int) :
    SftpEngine ι ω :=
  engine.push (.ack stream message.toList status)

end SftpEngine

/-- Whether `resolved` lies inside `root`, both already canonical. -/
def isWithin (root resolved : Text) : Bool :=
  let root := trimEndMatches '/' root
  root.isEmpty || resolved == root || (root ++ "/".toList).isPrefixOf resolved

def resolveIn (host : Host ω) (world : ω) (root name : Text) : Option Text × ω :=
  let (canonical, world) := host.canonicalize world root
  match canonical with
  | none => (none, world)
  | some root =>
      let joined := trimEndMatches '/' root ++ "/".toList ++ trimStartMatches '/' name
      let (resolved, world) := host.canonicalize world joined
      (resolved.filter (isWithin root), world)

section Requests

variable (config : SftpConfig) (host : Host ω) (engine : SftpEngine ι ω)

def listing (name : Text) (entries : List (Text × Metadata)) : List (Text × Text) :=
  (entries.filter fun entry => entry.1 != ".".toList && entry.1 != "..".toList).map fun entry =>
    (trimEndMatches '/' name ++ "/".toList ++ entry.1,
      if entry.2.isDir then streamIndex else "application/octet-stream".toList)

def sendListing (stream : Int) (name path : Text) : SftpEngine ι ω :=
  let asked := host.readDir engine.host path
  let engine := { engine with host := asked.2 }
  match asked.1 with
  | none => engine.fail stream "cannot list directory" statusForbidden
  | some entries =>
      ((engine.push (.body object stream streamIndex name)).push
        (.data stream (host.json (listing name entries)))).push (.endStream stream)

def beginDownload (stream : Int) (name path : Text) : SftpEngine ι ω :=
  if config.disableDownload then engine.fail stream "downloads are disabled" statusForbidden
  else if engine.busy ≥ maxOpenTransfers then
    engine.fail stream "too many transfers in progress" statusForbidden
  else
    { engine with
      inFlight := engine.inFlight + 1
      background := engine.background ++ [.download stream name path] }

def onGet (name : Text) : SftpEngine ι ω :=
  let stream := engine.nextStream
  let engine := engine.allocateStream
  let resolved := resolveIn host engine.host config.root name
  let engine := { engine with host := resolved.2 }
  match resolved.1 with
  | none => engine.fail stream "no such file" statusNotFound
  | some path =>
      let asked := host.metadata engine.host path
      let engine := { engine with host := asked.2 }
      match asked.1 with
      | none => engine.fail stream "no such file" statusNotFound
      | some metadata =>
          if metadata.isDir then sendListing host engine stream name path
          else beginDownload config engine stream name path

def onCompletion (done : Completion) : SftpEngine ι ω :=
  let engine := { engine with inFlight := engine.inFlight - 1 }
  match done with
  | .downloadReady stream name staged =>
      let opened := host.openStaged engine.host
      let engine := { engine with host := opened.2 }
      if opened.1 then
        { engine with downloads := engine.downloads.insert stream staged }.push
          (.body object stream "application/octet-stream".toList name)
      else engine.fail stream "cannot read file" statusForbidden
  | .downloadWithheld stream message =>
      (engine.push (.ack stream message statusForbidden)).notice message false
  | .uploadFinished message ok => engine.notice message ok

def continueDownload (stream : Int) : SftpEngine ι ω :=
  match engine.downloads.lookup stream with
  | none => engine
  | some rest =>
      let reading := host.read engine.host
      let engine := { engine with host := reading.2 }
      match reading.1 with
      | none =>
          { engine with downloads := engine.downloads.erase stream }.push (.endStream stream)
      | some length =>
          -- a read gets at least one byte unless nothing is left
          let chunk := rest.take (min (max 1 length) chunkBytes)
          if chunk.isEmpty then
            { engine with downloads := engine.downloads.erase stream }.push (.endStream stream)
          else
            { engine with
              downloads := engine.downloads.insert stream (rest.drop chunk.length) }.push
              (.data stream chunk)

def onPut (stream : Int) (name : Text) : SftpEngine ι ω :=
  if config.disableUpload then engine.fail stream "uploads are disabled" statusForbidden
  else if engine.busy ≥ maxOpenTransfers then
    engine.fail stream "too many transfers in progress" statusForbidden
  else
    let parent := ((rsplitOnce '/' name).map Prod.fst).getD "/".toList
    let resolved := resolveIn host engine.host config.root parent
    let engine := { engine with host := resolved.2 }
    match resolved.1 with
    | none => engine.fail stream "no such directory" statusNotFound
    | some directory =>
        let leaf := ((rsplitOnce '/' name).map Prod.snd).getD name
        if leaf.isEmpty || leaf == ".".toList || leaf == "..".toList then
          engine.fail stream "invalid filename" statusForbidden
        else
          let path := trimEndMatches '/' directory ++ "/".toList ++ leaf
          let asked := host.symlinkMetadata engine.host path
          let engine := { engine with host := asked.2 }
          if asked.1.any Metadata.isSymlink then
            engine.fail stream "refusing to overwrite a symbolic link" statusForbidden
          else if asked.1.any Metadata.isDir then
            engine.fail stream "a directory has that name" statusForbidden
          else
            let created := host.createStaged engine.host
            let engine := { engine with host := created.2 }
            if created.1 then
              -- acknowledging the put is what makes the browser start sending
              { engine with uploads := engine.uploads.insert stream ⟨[], path, leaf, 0⟩ }.fail
                stream "" statusSuccess
            else engine.fail stream "cannot stage file" statusForbidden

def onUploadData (stream : Int) (data : Bytes) : SftpEngine ι ω :=
  match engine.uploads.lookup stream with
  | none => engine
  | some upload =>
      let removed := { engine with uploads := engine.uploads.erase stream }
      if upload.size + data.length > config.maxTransferBytes then
        removed.fail stream "file is larger than the transfer limit" statusForbidden
      else
        let written := host.writeAll engine.host data
        if written.1 then
          { engine with
            host := written.2
            uploads := engine.uploads.insert stream { upload with
              staged := upload.staged ++ data
              size := upload.size + data.length } }.fail stream "" statusSuccess
        else { removed with host := written.2 }.fail stream "write failed" statusForbidden

def onUploadEnd (stream : Int) : SftpEngine ι ω :=
  match engine.uploads.lookup stream with
  | none => engine
  | some upload =>
      let flushed := host.flush engine.host
      let engine := { engine with
        host := flushed.2
        uploads := engine.uploads.erase stream }
      if flushed.1 then
        { engine with
          inFlight := engine.inFlight + 1
          background := engine.background ++ [.upload upload.staged upload.remote upload.name] }
      else engine.notice (upload.name ++ ": upload failed".toList) false

def onFileRequest : FileRequest → SftpEngine ι ω
  | .get target name => if target = object then onGet config host engine name else engine
  | .put target stream _ name =>
      if target = object then onPut config host engine stream name else engine
  | .data stream data => onUploadData config host engine stream data
  | .endStream stream => onUploadEnd host engine stream
  | .ack stream status =>
      if stream < 0 then
        if status = statusSuccess then continueDownload host engine stream
        else { engine with downloads := engine.downloads.erase stream }
      else engine

def Job.completion : Job → JobOutcome → Completion
  | .download stream name _, .ok staged => .downloadReady stream name staged
  | .download stream _ _, .error message => .downloadWithheld stream message
  | .upload _ _ name, .ok _ => .uploadFinished ("Uploaded ".toList ++ name) true
  | .upload _ _ name, .error reason => .uploadFinished (name ++ ": ".toList ++ reason) false

/-- A completion, if one arrives before the inner engine's next event. -/
def receive : Option Completion × SftpEngine ι ω :=
  let asked := host.finished engine.host engine.background
  let engine := { engine with host := asked.2 }
  match asked.1 with
  | none => (none, engine)
  | some (place, outcome) =>
      match engine.background[place]? with
      | none => (none, engine)
      | some job =>
          (some (job.completion outcome),
            { engine with background := engine.background.eraseIdx place })

end Requests

def innerEvent (inner : Inner ι) (engine : SftpEngine ι ω) :
    Except EngineError (Option TargetEvent) × SftpEngine ι ω :=
  let out := inner.nextEvent engine.inner
  (out.1, { engine with inner := out.2 })

/-- The loop of `next_event`; each round but the last takes a background task, so there
are never more rounds than tasks. -/
def nextEventFor (host : Host ω) (inner : Inner ι) :
    Nat → SftpEngine ι ω → Except EngineError (Option TargetEvent) × SftpEngine ι ω
  | rounds, engine =>
      match engine.pending with
      | event :: rest => (.ok (some event), { engine with pending := rest })
      | [] =>
          let received := receive host engine
          match received.1, rounds with
          | some done, rounds + 1 =>
              nextEventFor host inner rounds (onCompletion host received.2 done)
          | _, _ => innerEvent inner received.2

def protocolEngine (config : SftpConfig) (host : Host ω) (inner : Inner ι) :
    ProtocolEngine (SftpEngine ι ω) where
  handleInput := fun engine input =>
    match input with
    | .file request => (.ok (), onFileRequest config host engine request)
    | input =>
        let out := inner.handleInput engine.inner input
        (out.1, { engine with inner := out.2 })
  nextEvent := fun engine => nextEventFor host inner engine.background.length engine

end Strata.Engine.Sftp
