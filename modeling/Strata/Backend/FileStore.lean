import Mathlib.Tactic
import Strata.Lib.Machine
import Strata.Lib.Tables
import Strata.Lib.Utf8

/-! The store behind Quick Share. An upload is admitted under the lock, moved to its place
without it, and put into the index under the lock again; the task that does so may be dropped at
any of its awaits. -/

namespace Strata.Backend.FileStore

open Utf8 (Text)
open Tables (Table)

def maxFileSize : Nat := 500 * 1024 * 1024

def maxFilesPerSession : Nat := 20

def maxStoreBytes : Nat := 10 * 1024 * 1024 * 1024

def maxFileAge : Nat := 24 * 3600 * 1000000000

structure StoredFile where
  token : Text
  sessionId : Text
  userId : Text
  filename : Text
  contentType : Text
  size : Nat
  path : Text
  createdAt : Nat
  deriving DecidableEq

structure FileStoreInner where
  files : Table Text StoredFile
  sessions : Table Text (List Text)
  pending : Table Text Nat
  reservedBytes : Nat
  root : Text

inductive FileStoreError where
  | tooLarge
  | tooManyFiles
  | storeFull
  | io
  deriving DecidableEq

/-- `Path::file_name`: the last component, unless it leads upwards. -/
def pathFileName (path : Text) : Option Text :=
  match ((path.splitOn '/').filter fun part => part ≠ [] ∧ part ≠ ['.']).getLast? with
  | none => none
  | some last => if last = ['.', '.'] then none else some last

def safeName (filename : Text) : Text := (pathFileName filename).getD "upload".toList

structure Upload where
  sessionId : Text
  userId : Text
  safeName : Text
  contentType : Text
  size : Nat
  token : Text
  deriving DecidableEq

variable {κ : Type}

/-! ### Under the lock -/

def FileStoreInner.listed (inner : FileStoreInner) (sessionId : Text) : List Text :=
  (inner.sessions.lookup sessionId).getD []

def FileStoreInner.pendingOf (inner : FileStoreInner) (sessionId : Text) : Nat :=
  (inner.pending.lookup sessionId).getD 0

def FileStoreInner.admitUpload (inner : FileStoreInner) (upload : Upload) :
    Except FileStoreError FileStoreInner :=
  if (inner.listed upload.sessionId).length + inner.pendingOf upload.sessionId ≥
      maxFilesPerSession then
    .error .tooManyFiles
  else if inner.reservedBytes + upload.size > maxStoreBytes then .error .storeFull
  else
    .ok { inner with
      pending := inner.pending.insert upload.sessionId (inner.pendingOf upload.sessionId + 1)
      reservedBytes := inner.reservedBytes + upload.size }

def FileStoreInner.settle (inner : FileStoreInner) (sessionId : Text) : FileStoreInner :=
  match inner.pending.lookup sessionId with
  | none => inner
  | some n =>
      if n - 1 = 0 then { inner with pending := inner.pending.erase sessionId }
      else { inner with pending := inner.pending.insert sessionId (n - 1) }

def FileStoreInner.stored (inner : FileStoreInner) (upload : Upload) (now : Nat) : StoredFile where
  token := upload.token
  sessionId := upload.sessionId
  userId := upload.userId
  filename := upload.safeName
  contentType := upload.contentType
  size := upload.size
  path := inner.root ++ ['/'] ++ upload.token ++ ['/'] ++ upload.safeName
  createdAt := now

def FileStoreInner.insert (inner : FileStoreInner) (file : StoredFile) : FileStoreInner :=
  { inner with
    files := inner.files.insert file.token file
    sessions := inner.sessions.insert file.sessionId (inner.listed file.sessionId ++ [file.token]) }

/-- The second half of `store_from_path`, once the file has been moved or could not be. -/
def FileStoreInner.finish (inner : FileStoreInner) (upload : Upload) (moved : Bool) (now : Nat) :
    FileStoreInner × Except FileStoreError StoredFile :=
  let settled := inner.settle upload.sessionId
  if moved then
    let file := settled.stored upload now
    (settled.insert file, .ok file)
  else
    ({ settled with reservedBytes := settled.reservedBytes - upload.size }, .error .io)

def FileStoreInner.removeFile (inner : FileStoreInner) (token : Text) : FileStoreInner :=
  match inner.files.lookup token with
  | none => inner
  | some file =>
      { inner with
        files := inner.files.erase token
        reservedBytes := inner.reservedBytes - file.size }

def FileStoreInner.unlist (inner : FileStoreInner) (sessionId token : Text) : FileStoreInner :=
  match inner.sessions.lookup sessionId with
  | none => inner
  | some tokens =>
      if tokens.filter (· ≠ token) = [] then
        { inner with sessions := inner.sessions.erase sessionId }
      else { inner with sessions := inner.sessions.insert sessionId (tokens.filter (· ≠ token)) }

def FileStoreInner.delete (inner : FileStoreInner) (token : Text) : FileStoreInner × Bool :=
  match inner.files.lookup token with
  | none => (inner, false)
  | some file => ((inner.removeFile token).unlist file.sessionId token, true)

def FileStoreInner.cleanupSession (inner : FileStoreInner) (sessionId : Text) :
    FileStoreInner × Nat :=
  match inner.sessions.lookup sessionId with
  | none => (inner, 0)
  | some tokens =>
      (tokens.foldl FileStoreInner.removeFile
        { inner with sessions := inner.sessions.erase sessionId }, tokens.length)

/-- The tokens `remove_expired` reads before it deletes them one by one. -/
def FileStoreInner.expired (inner : FileStoreInner) (now : Nat) : List Text :=
  (inner.files.entries.filter fun entry => entry.2.createdAt + maxFileAge < now).map (·.2.token)

/-! ### The tasks -/

/-- A task that deletes expired files, by itself or before it stores an upload; or one that has
reserved its place and moves the file. -/
inductive Task where
  | expiring (todo : List Text) (next : Option Upload)
  | moving (upload : Upload)

/-- `minted` and `abandoned` are history: the tokens drawn so far, and the uploads whose task was
dropped while it moved the file. -/
structure Store (κ : Type) where
  inner : FileStoreInner
  tasks : Table κ Task
  minted : List Text
  abandoned : List Upload

def Store.new (root : Text) : Store κ := ⟨⟨∅, ∅, ∅, 0, root⟩, ∅, [], []⟩

inductive Event (κ : Type) where
  | store (key : κ) (sessionId userId filename contentType : Text) (size : Nat) (token : Text)
      (now : Nat)
  | removeExpired (key : κ) (now : Nat)
  | get (key : κ) (token : Text) (now : Nat)
  /-- The task takes the lock once more. -/
  | turn (key : κ)
  | finish (key : κ) (moved : Bool) (now : Nat)
  | delete (token : Text)
  | cleanupSession (sessionId : Text)
  | drop (key : κ)

inductive Answer (κ : Type) where
  | stored (key : κ) (result : Except FileStoreError StoredFile)
  | deleted (existed : Bool)
  | cleaned (count : Nat)

variable [DecidableEq κ]

def Store.begin (s : Store κ) (key : κ) (task : Task) : Store κ :=
  if key ∈ s.tasks then s else { s with tasks := s.tasks.insert key task }

def Store.beginStore (s : Store κ) (key : κ) (upload : Upload) (now : Nat) :
    Store κ × List (Answer κ) :=
  if upload.size > maxFileSize then (s, [.stored key (.error .tooLarge)])
  else if s.minted.contains upload.token then (s, [])
  else if key ∈ s.tasks then (s, [])
  else
    ({ s with
        tasks := s.tasks.insert key (.expiring (s.inner.expired now) (some upload))
        minted := s.minted ++ [upload.token] }, [])

def Store.turn (s : Store κ) (key : κ) : Store κ × List (Answer κ) :=
  match s.tasks.lookup key with
  | some (.expiring (token :: todo) next) =>
      ({ s with
          inner := (s.inner.delete token).1
          tasks := s.tasks.insert key (.expiring todo next) }, [])
  | some (.expiring [] none) => ({ s with tasks := s.tasks.erase key }, [])
  | some (.expiring [] (some upload)) =>
      match s.inner.admitUpload upload with
      | .error error => ({ s with tasks := s.tasks.erase key }, [.stored key (.error error)])
      | .ok inner =>
          ({ s with inner := inner, tasks := s.tasks.insert key (.moving upload) }, [])
  | _ => (s, [])

def Store.finish (s : Store κ) (key : κ) (moved : Bool) (now : Nat) :
    Store κ × List (Answer κ) :=
  match s.tasks.lookup key with
  | some (.moving upload) =>
      ({ s with
          inner := (s.inner.finish upload moved now).1
          tasks := s.tasks.erase key },
        [.stored key (s.inner.finish upload moved now).2])
  | _ => (s, [])

def Store.drop (s : Store κ) (key : κ) : Store κ :=
  match s.tasks.lookup key with
  | none => s
  | some (.expiring ..) => { s with tasks := s.tasks.erase key }
  | some (.moving upload) =>
      { s with tasks := s.tasks.erase key, abandoned := s.abandoned ++ [upload] }

def step (s : Store κ) : Event κ → Store κ × List (Answer κ)
  | .store key sessionId userId filename contentType size token now =>
      s.beginStore key ⟨sessionId, userId, safeName filename, contentType, size, token⟩ now
  | .removeExpired key now => (s.begin key (.expiring (s.inner.expired now) none), [])
  | .get key token now =>
      match s.inner.files.lookup token with
      | some file =>
          if file.createdAt + maxFileAge < now then (s.begin key (.expiring [token] none), [])
          else (s, [])
      | none => (s, [])
  | .turn key => s.turn key
  | .finish key moved now => s.finish key moved now
  | .delete token =>
      ({ s with inner := (s.inner.delete token).1 }, [.deleted (s.inner.delete token).2])
  | .cleanupSession sessionId =>
      ({ s with inner := (s.inner.cleanupSession sessionId).1 },
        [.cleaned (s.inner.cleanupSession sessionId).2])
  | .drop key => (s.drop key, [])

inductive Moves (s : Store κ) : Store κ → Prop where
  | stay : Moves s s
  | begin {key : κ} {todo : List Text} (absent : key ∉ s.tasks) :
      Moves s { s with tasks := s.tasks.insert key (.expiring todo none) }
  | draw {key : κ} {todo : List Text} {upload : Upload} (absent : key ∉ s.tasks)
      (new : upload.token ∉ s.minted) :
      Moves s
        { s with
          tasks := s.tasks.insert key (.expiring todo (some upload))
          minted := s.minted ++ [upload.token] }
  | expire {key : κ} {token : Text} {todo : List Text} {next : Option Upload}
      (found : s.tasks.lookup key = some (.expiring (token :: todo) next)) :
      Moves s
        { s with
          inner := (s.inner.delete token).1
          tasks := s.tasks.insert key (.expiring todo next) }
  | leave {key : κ} {todo : List Text} {next : Option Upload}
      (found : s.tasks.lookup key = some (.expiring todo next)) :
      Moves s { s with tasks := s.tasks.erase key }
  | admitUpload {key : κ} {upload : Upload} {inner : FileStoreInner}
      (found : s.tasks.lookup key = some (.expiring [] (some upload)))
      (admitted : s.inner.admitUpload upload = .ok inner) :
      Moves s { s with inner := inner, tasks := s.tasks.insert key (.moving upload) }
  | finish {key : κ} {upload : Upload} {moved : Bool} {now : Nat}
      (found : s.tasks.lookup key = some (.moving upload)) :
      Moves s
        { s with
          inner := (s.inner.finish upload moved now).1
          tasks := s.tasks.erase key }
  | delete {token : Text} : Moves s { s with inner := (s.inner.delete token).1 }
  | cleanupSession {sessionId : Text} :
      Moves s { s with inner := (s.inner.cleanupSession sessionId).1 }
  | abandon {key : κ} {upload : Upload} (found : s.tasks.lookup key = some (.moving upload)) :
      Moves s { s with tasks := s.tasks.erase key, abandoned := s.abandoned ++ [upload] }

theorem begin_moves (s : Store κ) (key : κ) (todo : List Text) :
    Moves s (s.begin key (.expiring todo none)) := by
  rw [Store.begin]
  split_ifs with present
  · exact .stay
  · exact .begin present

theorem beginStore_moves (s : Store κ) (key : κ) (upload : Upload) (now : Nat) :
    Moves s (s.beginStore key upload now).1 := by
  rw [Store.beginStore]
  split_ifs with large used present
  · exact .stay
  · exact .stay
  · exact .stay
  · exact .draw present (by simpa using used)

theorem turn_moves (s : Store κ) (key : κ) : Moves s (s.turn key).1 := by
  rw [Store.turn]
  split
  · rename_i found
    exact .expire found
  · rename_i found
    exact .leave found
  · rename_i found
    split
    · exact .leave found
    · rename_i admitted
      exact .admitUpload found admitted
  · exact .stay

theorem finish_moves (s : Store κ) (key : κ) (moved : Bool) (now : Nat) :
    Moves s (s.finish key moved now).1 := by
  rw [Store.finish]
  split
  · rename_i found
    exact .finish found
  · exact .stay

theorem drop_moves (s : Store κ) (key : κ) : Moves s (s.drop key) := by
  rw [Store.drop]
  split
  · exact .stay
  · rename_i found
    exact .leave found
  · rename_i found
    exact .abandon found

theorem step_moves (s : Store κ) (event : Event κ) : Moves s (step s event).1 := by
  cases event with
  | store key sessionId userId filename contentType size token now =>
      exact beginStore_moves s key _ now
  | removeExpired key now => exact begin_moves s key _
  | get key token now =>
      rw [step]
      split
      · split_ifs
        · exact begin_moves s key _
        · exact .stay
      · exact .stay
  | turn key => exact turn_moves s key
  | finish key moved now => exact finish_moves s key moved now
  | delete token => exact .delete
  | cleanupSession sessionId => exact .cleanupSession
  | drop key => exact drop_moves s key

end Strata.Backend.FileStore
