import Mathlib.Tactic
import Strata.Engine.Sftp

/-! The background half of file transfer. Each transfer handed over runs as a task of its own,
one awaited call at a time: a download is staged and gated, an upload gated and written to the
target. Tasks, requests and completions interleave in any order. -/

namespace Strata.Engine.Sftp

open Utf8 (Text Bytes)
open Tables

def stageChunkBytes : Nat := 64 * 1024

structure TransferConfig extends SftpConfig where
  gated : Bool
  deriving Repr

/-! ### Tasks -/

inductive DownloadStage where
  | opening
  | creating
  | reading (staged : Bytes)
  | staging (staged chunk : Bytes)
  | flushing (staged : Bytes)
  | gating (staged : Bytes)
  deriving DecidableEq, Repr

inductive UploadStage where
  | gating
  | checking
  | removing
  | creating
  | opening
  | copying (rest : Bytes)
  | flushing
  deriving DecidableEq, Repr

inductive Task where
  | download (stream : Int) (name path : Text) (stage : DownloadStage)
  | upload (staged : Bytes) (remote name : Text) (stage : UploadStage)
  | finished (job : Job) (outcome : JobOutcome)
  deriving DecidableEq

/-- How the awaited call comes back: whether it went well, what a read got (nothing at the end
of the file), how much a write took, the target's entry, the gate's verdict. -/
structure TaskAnswer where
  fine : Bool
  read : Bytes
  took : Nat
  entry : Option Metadata
  verdict : Except Text Unit

/-- What happens to staged copies, to the target's files and to the client's queue. A copy goes
by the number of its task; `sent` are bytes of a delivery, `queued` is everything else the client
is told. -/
inductive Event where
  | admittedDownload (copy : Nat) (staged : Bytes)
  | admittedUpload (copy : Nat) (staged : Bytes)
  | removed (copy : Nat) (path : Text)
  | created (copy : Nat) (path : Text)
  | wrote (copy : Nat) (path : Text) (chunk : Bytes)
  | sent (copy : Option Nat) (stream : Int) (chunk : Bytes)
  | queued (event : TargetEvent)
  deriving DecidableEq

namespace Task

variable (config : TransferConfig)

def start : Job → Task
  | .download stream name path => .download stream name path .opening
  | .upload staged remote name =>
      .upload staged remote name (if config.gated then .gating else .checking)

def stepDownload (copy : Nat) (answer : TaskAnswer) (stream : Int) (name path : Text) :
    DownloadStage → Task × List Event :=
  let goOn (stage : DownloadStage) : Task × List Event := (.download stream name path stage, [])
  let withhold (message : String) : Task × List Event :=
    (.finished (.download stream name path) (.error message.toList), [])
  fun
  | .opening => if answer.fine then goOn .creating else withhold "cannot open file"
  | .creating => if answer.fine then goOn (.reading []) else withhold "cannot stage file"
  | .reading staged =>
      let chunk := answer.read.take stageChunkBytes
      if !answer.fine then withhold "read failed"
      else if chunk.isEmpty then goOn (.flushing staged)
      else if staged.length + chunk.length > config.maxTransferBytes then
        withhold "file is larger than the transfer limit"
      else goOn (.staging staged chunk)
  | .staging staged chunk =>
      if answer.fine then goOn (.reading (staged ++ chunk)) else withhold "cannot stage file"
  | .flushing staged =>
      if !answer.fine then withhold "cannot stage file"
      else if config.gated then goOn (.gating staged)
      else (.finished (.download stream name path) (.ok staged), [])
  | .gating staged =>
      match answer.verdict with
      | .ok () =>
          (.finished (.download stream name path) (.ok staged), [.admittedDownload copy staged])
      | .error message => (.finished (.download stream name path) (.error message), [])

def stepUpload (copy : Nat) (answer : TaskAnswer) (staged : Bytes) (remote name : Text) :
    UploadStage → Task × List Event :=
  let goOn (stage : UploadStage) : Task := .upload staged remote name stage
  let refuse (reason : Text) : Task := .finished (.upload staged remote name) (.error reason)
  fun
  | .gating =>
      match answer.verdict with
      | .ok () => (goOn .checking, [.admittedUpload copy staged])
      | .error reason => (refuse reason, [])
  | .checking =>
      match answer.entry with
      | none => (goOn .creating, [])
      | some entry =>
          if entry.isSymlink then (refuse "refusing to overwrite a symbolic link".toList, [])
          else if entry.isDir then (refuse "a directory has that name".toList, [])
          else (goOn .removing, [])
  | .removing =>
      (if answer.fine then goOn .creating else refuse "cannot replace file".toList,
        [.removed copy remote])
  | .creating =>
      (if answer.fine then goOn .opening else refuse "cannot create file".toList,
        [.created copy remote])
  | .opening =>
      (if answer.fine then goOn (.copying staged) else refuse "cannot read staged file".toList, [])
  | .copying rest =>
      if rest.isEmpty then (goOn .flushing, [])
      else
        -- a failed write may still have taken some of it
        let chunk := rest.take (if answer.fine then max 1 answer.took else answer.took)
        (if answer.fine then goOn (.copying (rest.drop chunk.length))
          else refuse "write failed".toList, [.wrote copy remote chunk])
  | .flushing =>
      (if answer.fine then .finished (.upload staged remote name) (.ok [])
        else refuse "write failed".toList, [])

def step (copy : Nat) (answer : TaskAnswer) : Task → Task × List Event
  | .download stream name path stage => stepDownload config copy answer stream name path stage
  | .upload staged remote name stage => stepUpload copy answer staged remote name stage
  | .finished job outcome => (.finished job outcome, [])

end Task

/-! ### The engine with its tasks -/

/-- `tasks` go by number; `copies` tells which task's copy a delivery reads. -/
structure System (ι ω : Type) where
  engine : SftpEngine ι ω
  tasks : Table Nat Task
  copies : Table Int Nat
  spawned : Nat

inductive SystemOp where
  | request (request : FileRequest)
  | advance (copy : Nat) (answer : TaskAnswer)
  | complete (copy : Nat)
  | handOut

namespace System

variable {ι ω : Type} (config : TransferConfig) (host : Host ω)

def attach (inner : ι) (world : ω) : System ι ω :=
  ⟨Sftp.attach config.toSftpConfig inner world, ∅, ∅, 0⟩

def spawn (system : System ι ω) (job : Job) : System ι ω :=
  { system with
    tasks := system.tasks.insert system.spawned (Task.start config job)
    spawned := system.spawned + 1 }

def spawnAll (system : System ι ω) : System ι ω :=
  let spawned := system.engine.background.foldl (spawn config) system
  { spawned with engine := { spawned.engine with background := [] } }

/-- Data queued on an ack is of a delivery; a listing's data is queued on a get. -/
def label (copies : Table Int Nat) : FileRequest → TargetEvent → Event
  | .ack _ _, .file (.data stream chunk) => .sent (copies.lookup stream) stream chunk
  | _, event => .queued event

def onRequest (request : FileRequest) (system : System ι ω) : System ι ω × List Event :=
  let engine := onFileRequest config.toSftpConfig host system.engine request
  (spawnAll config { system with engine := engine },
    (engine.pending.drop system.engine.pending.length).map (label system.copies request))

def advance (copy : Nat) (answer : TaskAnswer) (system : System ι ω) : System ι ω × List Event :=
  match system.tasks.lookup copy with
  | none => (system, [])
  | some task =>
      let out := task.step config copy answer
      ({ system with tasks := system.tasks.insert copy out.1 }, out.2)

def deliver (copy : Nat) (system : System ι ω) : Completion → Table Int Nat
  | .downloadReady stream _ _ =>
      if (host.openStaged system.engine.host).1 then system.copies.insert stream copy
      else system.copies
  | _ => system.copies

def complete (copy : Nat) (system : System ι ω) : System ι ω × List Event :=
  match system.tasks.lookup copy with
  | some (.finished job outcome) =>
      let engine := onCompletion host system.engine (job.completion outcome)
      ({ system with
          engine := engine
          tasks := system.tasks.erase copy
          copies := system.deliver host copy (job.completion outcome) },
        (engine.pending.drop system.engine.pending.length).map .queued)
  | _ => (system, [])

def handOut (system : System ι ω) : System ι ω :=
  { system with engine := { system.engine with pending := system.engine.pending.tail } }

def step (system : System ι ω) : SystemOp → System ι ω × List Event
  | .request request => system.onRequest config host request
  | .advance copy answer => system.advance config copy answer
  | .complete copy => system.complete host copy
  | .handOut => (system.handOut, [])

end System

end Strata.Engine.Sftp
