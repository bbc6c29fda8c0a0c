import Mathlib.Tactic
import Strata.Lib.Retry
import Strata.Lib.Tables
import Strata.Lib.Utf8

/-! Where recordings are kept: rows of the database, files of the recordings directory, blobs of
the deployment's container, and the bookkeeping the sync task keeps across its passes. -/

namespace Strata.Backend.Recordings

open Utf8 (Text Bytes)
open Tables (Table)
open Retry (Link)

inductive StorageType where
  | localDisk
  | azureBlob
  deriving DecidableEq

structure RecordingConfig where
  enabled : Bool
  retentionDays : UInt32
  storageType : StorageType

structure AzureBlobConfig where
  accountName : Text
  containerName : Text
  accessKey : Text

/-- What the settings and Vault answer. `unsealed` is `none` where Vault is not configured, and
`some none` where it does not open the key. -/
structure AzureSettings where
  accountName : Except Unit (Option Text)
  accessKey : Except Unit (Option Text)
  containerName : Except Unit (Option Text)
  unsealed : Option (Option Text)

def AzureSettings.openKey (settings : AzureSettings) (raw : Option Text) : Option Text :=
  match raw with
  | none => none
  | some key => if "vault:".toList.isPrefixOf key then settings.unsealed.join else some key

def getAzureConfig (settings : AzureSettings) : Except Unit (Option AzureBlobConfig) := do
  let accountName ← settings.accountName
  let accessKeyRaw ← settings.accessKey
  let containerName ← settings.containerName
  match accountName, settings.openKey accessKeyRaw with
  | some name, some key =>
      if !name.isEmpty && !key.isEmpty then
        return some ⟨name, containerName.getD "recordings".toList, key⟩
      else return none
  | _, _ => return none

structure Recording where
  id : Nat
  storagePath : Text
  storageType : Text
  createdAt : Int
  deriving DecidableEq

def Recording.isAzure (row : Recording) : Bool :=
  row.storageType == "azure".toList || row.storageType == "azure_blob".toList

structure File where
  modified : Int
  content : Bytes
  deriving DecidableEq

structure SyncState where
  synced : List Text
  retryAt : Table Text (Nat × Int)

def SyncState.default : SyncState := ⟨[], ∅⟩

def SyncState.forget (state : SyncState) (name : Text) : SyncState :=
  ⟨state.synced.filter (· != name), state.retryAt.erase name⟩

structure Storage where
  rows : List Recording
  files : Table Text File
  blobs : Table Text Bytes
  sync : SyncState

/-- How a statement goes: its answer may be lost after the database has executed it. -/
inductive Statement where
  | done (now : Int)
  | lost (now : Int)
  | failed
  deriving DecidableEq

def Statement.executedAt : Statement → Option Int
  | .done now => some now
  | .lost now => some now
  | .failed => none

/-- `modified.elapsed().unwrap_or_default()` -/
def elapsed (clock modified : Int) : Int := max 0 (clock - modified)

def deleteFromAzure (link : Link) (name : Text) (blobs : Table Text Bytes) :
    Except Bool Unit × Table Text Bytes :=
  Retry.retry (fun blobs : Table Text Bytes => blobs.erase name) link 1 2 blobs

theorem mem_deleteFromAzure (link : Link) (name other : Text) (blobs : Table Text Bytes) :
    other ∈ (deleteFromAzure link name blobs).2 ↔
      other ∈ blobs ∧ ¬ (other = name ∧ Retry.landed link 1 2 = true) := by
  rw [deleteFromAzure, Retry.retry_state fun _ => Tables.erase_erase ..]
  by_cases landed : Retry.landed link 1 2 = true
  · rw [if_pos landed, AList.mem_erase]
    simp only [landed, and_true]
    exact and_comm
  · rw [if_neg landed]
    simp only [landed, and_false, not_false_eq_true, and_true, Bool.false_eq_true]

end Strata.Backend.Recordings
