import Mathlib.Tactic
import Strata.Lib.KeyOrder
import Strata.Lib.Loop
import Strata.Backend.AuditHash

/-! The audit chain verifier (`services/audit_verify.rs`): the walk along the chain in batches,
and what is checked of a checkpoint. -/

namespace Strata.Backend.Audit

open Utf8 (Text Bytes)
open RustInt (intText)

variable {Json : Type}

@[ext] structure Row (Json : Type) where
  id : Int
  createdAt : Timestamp
  userId : Option Uuid
  actionType : Text
  details : Json
  previousHash : Text
  currentHash : Text
  hashVersion : Int

def Row.event (row : Row Json) : Event Json :=
  ⟨row.id, row.createdAt, row.userId, row.actionType, row.details, row.previousHash⟩

def Row.digestOk (hashing : Hashing Json) (row : Row Json) : Option Bool :=
  if row.hashVersion = 2 then some (decide (row.currentHash = auditHashV2 hashing row.event))
  else none

def batchSize : Nat := 1000
def maxBreaks : Nat := 20

structure Head where
  id : Int
  hash : Text
  deriving DecidableEq, Repr

inductive Break where
  | link (id : Int)
  | digest (id : Int)
  | legacy (id : Int)
  deriving DecidableEq, Repr

structure Report where
  head : Option Head
  rows : Nat
  breaks : List Break
  legacyLinkBreaks : Nat
  deriving DecidableEq, Repr, Inhabited

def Report.push (report : Report) (b : Break) : Report :=
  if report.breaks.length < maxBreaks then { report with breaks := report.breaks ++ [b] }
  else report

/-- `SELECT min(id) FROM audit_logs WHERE hash_version = 2` -/
def firstV2 (table : List (Row Json)) : Option Int :=
  ((table.filter fun row => row.hashVersion = 2).map Row.id).min?

/-! ### The walk -/

structure Walk where
  after : Int
  expectedPrevious : Text
  report : Report
  deriving DecidableEq, Repr

def Walk.start (start : Option Head) : Walk where
  after := (start.map Head.id).getD 0
  expectedPrevious := (start.map Head.hash).getD []
  report := ⟨start, 0, [], 0⟩

def isLegacy (firstV2 : Option Int) (id : Int) : Bool := firstV2.all (id < ·)

def checkLink (firstV2 : Option Int) (expected : Text) (row : Row Json) (report : Report) :
    Report :=
  if row.previousHash ≠ expected then
    if isLegacy firstV2 row.id then
      { report with legacyLinkBreaks := report.legacyLinkBreaks + 1 }
    else
      report.push (.link row.id)
  else
    report

def checkDigest (hashing : Hashing Json) (firstV2 : Option Int) (row : Row Json)
    (report : Report) : Report :=
  if row.hashVersion = 2 ∧ row.digestOk hashing = some true then report
  else if row.hashVersion = 1 then
    if isLegacy firstV2 row.id then report else report.push (.legacy row.id)
  else
    report.push (.digest row.id)

def checkRow (hashing : Hashing Json) (firstV2 : Option Int) (w : Walk) (row : Row Json) : Walk :=
  let report := checkDigest hashing firstV2 row
    (checkLink firstV2 w.expectedPrevious row w.report)
  { w with
    expectedPrevious := row.currentHash
    report := { report with
      rows := report.rows + 1
      head := some ⟨row.id, row.currentHash⟩ } }

def readBatch (size : Nat) (table : List (Row Json)) (after : Int) : List (Row Json) :=
  (KeyOrder.after Row.id after (KeyOrder.byKey Row.id table)).take size

/-- One batch of at most `size` rows, read from the table as it is then. -/
def verifyTurnOf (size : Nat) (hashing : Hashing Json) (firstV2 : Option Int)
    (table : List (Row Json)) (w : Walk) : Walk ⊕ Report :=
  let rows := readBatch size table w.after
  match rows.getLast? with
  | none => .inr w.report
  | some last => .inl (rows.foldl (checkRow hashing firstV2) { w with after := last.id })

/-- `verify` with any `BATCH`, on a table that nobody else changes. -/
def verifyOf (size : Nat) (hashing : Hashing Json) (table : List (Row Json)) (start : Option Head)
    (firstV2 : Option Int) : Report :=
  Loop.run (fun w => (KeyOrder.after Row.id w.after (KeyOrder.byKey Row.id table)).length)
    (verifyTurnOf size hashing firstV2 table) (Walk.start start)

def verifyTurn (hashing : Hashing Json) (firstV2 : Option Int) (table : List (Row Json))
    (w : Walk) : Walk ⊕ Report :=
  verifyTurnOf batchSize hashing firstV2 table w

def verify (hashing : Hashing Json) (table : List (Row Json)) (start : Option Head)
    (firstV2 : Option Int) : Report :=
  verifyOf batchSize hashing table start firstV2

/-! ### Checkpoints -/

structure Checkpoint where
  head : Head
  firstV2 : Option Int
  deriving DecidableEq, Repr

def storedHash (table : List (Row Json)) (id : Int) : Option Text :=
  (table.find? fun row => row.id = id).map Row.currentHash

def checkHead (cp : Checkpoint) (stored : Option Text) : List Text :=
  match stored with
  | none => ["row ".toList ++ intText cp.head.id ++ ", the last checkpoint, is missing".toList]
  | some hash =>
      if hash ≠ cp.head.hash then
        ["row ".toList ++ intText cp.head.id ++ " no longer matches the last checkpoint".toList]
      else
        []

/-- `{:?}` of an optional id. -/
def debugId : Option Int → Text
  | none => "None".toList
  | some id => "Some(".toList ++ intText id ++ ")".toList

def checkBoundary (cp : Checkpoint) (now : Option Int) : List Text :=
  if now ≠ cp.firstV2 then
    ["v2 rows began at ".toList ++ debugId cp.firstV2 ++
      " at the last checkpoint and now begin at ".toList ++ debugId now]
  else
    []

def checkCheckpointRows (table : List (Row Json)) (cp : Checkpoint) : List Text :=
  checkHead cp (storedHash table cp.head.id) ++
    if cp.firstV2.isSome then checkBoundary cp (firstV2 table) else []

end Strata.Backend.Audit
