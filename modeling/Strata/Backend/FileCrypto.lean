import Mathlib.Tactic
import Strata.Lib.Blocks
import Strata.Lib.Hex
import Strata.Lib.Loop
import Strata.Lib.StreamAead

/-! Chunked authenticated encryption of staged files (`services/file_crypto.rs`). A file is its
bytes; AES-256-GCM and SHA-256 are parameters. -/

namespace Strata.Backend.FileCrypto

open Utf8 (Text Bytes)
open Blocks (lookAhead)
open Framing (putBigEndian getBigEndian)
open StreamAead (Aead Stream encryptNext encryptLast decryptNext decryptLast)

def magic : Bytes := [83, 84, 82, 65, 84, 65, 70, 2]
def chunk : Nat := 64 * 1024
def maxChunk : Nat := 1024 * 1024
def tag : Nat := StreamAead.tagLen
def prefixLen : Nat := 7
def headerLen : Nat := magic.length + 4 + prefixLen

inductive IoError where
  | invalid (message : Text)
  | fileTooLarge
  | unexpectedEof
  deriving DecidableEq, Repr, Inhabited

def tampered : IoError := .invalid "encrypted file failed authentication".toList

def checkKey (key : Bytes) : Except IoError Unit :=
  if key.length = 32 then .ok () else .error (.invalid "file key must be 32 bytes".toList)

def associatedData (header fileId : Bytes) : Bytes := header ++ fileId

/-! ### Writing -/

structure Sealed where
  size : Nat
  sha256 : Text

/-- The loop of `write_sealed`: `ahead` has been read, `rest` has not. -/
structure Sealing where
  rest : Bytes
  ahead : Bytes
  size : Nat
  hashed : Bytes
  enc : Stream
  out : Bytes

def sealTurn (aead : Aead) (aad : Bytes) (max : Nat) (s : Sealing) :
    Sealing ⊕ Except IoError Sealing :=
  let buf := s.ahead
  let size := s.size + buf.length
  if size > max then
    .inr (.error .fileTooLarge)
  else
    let (ahead, rest) := lookAhead chunk buf s.rest
    if ahead = [] then
      .inr (.ok { s with
        rest, ahead, size
        hashed := s.hashed ++ buf
        out := s.out ++ encryptLast aead aad s.enc buf })
    else
      match encryptNext aead aad s.enc buf with
      | none => .inr (.error (.invalid "encryption failed".toList))
      | some (frame, enc) =>
          .inl { rest, ahead, size, enc, hashed := s.hashed ++ buf, out := s.out ++ frame }

def headerOf (start : Bytes) : Bytes := magic ++ putBigEndian 4 chunk ++ start

def writeSealed (aead : Aead) (sha256 : Bytes → Bytes) (input key fileId : Bytes) (max : Nat)
    (start : Bytes) : Except IoError (Bytes × Sealed) := do
  let header := headerOf start
  let aad := associatedData header fileId
  checkKey key
  let done ← Loop.run (fun s => s.ahead.length + s.rest.length) (sealTurn aead aad max)
    { rest := input.drop chunk, ahead := input.take chunk, size := 0, hashed := [],
      enc := ⟨key, start, 0⟩, out := header }
  return (done.out, ⟨done.size, Hex.encode (sha256 done.hashed)⟩)

/-! ### Reading -/

structure Opened where
  dec : Stream
  aad : Bytes
  frame : Nat

def openHeader (header key fileId : Bytes) : Except IoError Opened := do
  if header.take magic.length ≠ magic then
    throw (.invalid "not an encrypted file of a known format".toList)
  let size := getBigEndian ((header.drop magic.length).take 4)
  if size = 0 ∨ size > maxChunk then
    throw (.invalid "bad chunk size".toList)
  checkKey key
  return ⟨⟨key, header.drop (magic.length + 4), 0⟩, associatedData header fileId, size + tag⟩

def readHeader (file : Bytes) : Except IoError (Bytes × Bytes) :=
  if file.length < headerLen then .error .unexpectedEof
  else .ok (file.take headerLen, file.drop headerLen)

structure Verifying where
  rest : Bytes
  ahead : Bytes
  size : Nat
  dec : Stream

def verifyTurn (aead : Aead) (aad : Bytes) (frame : Nat) (s : Verifying) :
    Verifying ⊕ Except IoError Nat :=
  let buf := s.ahead
  let (ahead, rest) := lookAhead frame buf s.rest
  if ahead = [] then
    match decryptLast aead aad s.dec buf with
    | none => .inr (.error tampered)
    | some plain => .inr (.ok (s.size + plain.length))
  else
    match decryptNext aead aad s.dec buf with
    | none => .inr (.error tampered)
    | some (plain, dec) => .inl { rest, ahead, dec, size := s.size + plain.length }

def verifyFile (aead : Aead) (file key fileId : Bytes) (expectedSize : Nat) :
    Except IoError Unit := do
  let (header, body) ← readHeader file
  let ⟨dec, aad, frame⟩ ← openHeader header key fileId
  let size ← Loop.run (fun s => s.ahead.length + s.rest.length) (verifyTurn aead aad frame)
    { rest := body.drop frame, ahead := body.take frame, size := 0, dec }
  if size ≠ expectedSize then
    throw (.invalid "encrypted file has the wrong length".toList)

structure StreamState where
  rest : Bytes
  dec : Option Stream
  ahead : Bytes

structure Streamed where
  chunks : List Bytes
  failure : Option IoError
  deriving Inhabited

/-- One item of the stream; `none` is its end. -/
def streamNext (aead : Aead) (aad : Bytes) (frame : Nat) (s : StreamState) :
    Except IoError (Option (Bytes × StreamState)) :=
  match s.dec with
  | none => .ok none
  | some dec =>
      let buf := s.ahead
      let (ahead, rest) := lookAhead frame buf s.rest
      if ahead = [] then
        match decryptLast aead aad dec buf with
        | none => .error tampered
        | some plain => .ok (some (plain, { rest, ahead, dec := none }))
      else
        match decryptNext aead aad dec buf with
        | none => .error tampered
        | some (plain, dec) => .ok (some (plain, { rest, ahead, dec := some dec }))

def streamTurn (aead : Aead) (aad : Bytes) (frame : Nat) (s : List Bytes × StreamState) :
    (List Bytes × StreamState) ⊕ Streamed :=
  match streamNext aead aad frame s.2 with
  | .error failure => .inr ⟨s.1, some failure⟩
  | .ok none => .inr ⟨s.1, none⟩
  | .ok (some (plain, next)) => .inl (s.1 ++ [plain], next)

def StreamState.left (s : StreamState) : Nat :=
  match s.dec with
  | none => 0
  | some _ => s.ahead.length + s.rest.length + 1

def decryptStream (aead : Aead) (file key fileId : Bytes) : Except IoError Streamed := do
  let (header, body) ← readHeader file
  let ⟨dec, aad, frame⟩ ← openHeader header key fileId
  return Loop.run (fun s => s.2.left) (streamTurn aead aad frame)
    ([], { rest := body.drop frame, ahead := body.take frame, dec := some dec })

end Strata.Backend.FileCrypto
