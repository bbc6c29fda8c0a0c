import Mathlib.Tactic
import Strata.Backend.RecordingStorage

/-! The retention pass: files past their age, then the objects of rows past theirs, and last those
rows, by their age again. -/

namespace Strata.Backend.Recordings

open Utf8 (Text)
open Retry (Link)

/-- What one entry of the directory answers: its metadata can be read, the clock at that moment,
and whether the file can be removed. -/
structure EntryAnswer where
  metadata : Bool
  clock : Int
  unlink : Bool

inductive Scan where
  | unreadable
  | broken (entries : Nat)
  | whole

/-- What the outside answers during one pass. The deletions that rows ask for are answered by the
id of the row. -/
structure Answers where
  scan : Scan
  entry : Text → EntryAnswer
  select : Option Int
  settings : AzureSettings
  blob : Nat → Link
  unlink : Nat → Bool
  delete : Statement

inductive PassError where
  | nextEntry
  | delete
  deriving DecidableEq

def maxAge (days : UInt32) : Int := days.toNat * 86400 * 1000000000

/-- `now() - make_interval(days => $1)`, with the days bound as an `i32`. -/
def cutoff (days : UInt32) (now : Int) : Int := now - days.toInt32.toInt * 86400000000

section

variable (config : RecordingConfig) (a : Answers)

def sweeps (name : Text) (file : File) : Bool :=
  name.head? != some '.' && (a.entry name).metadata &&
    decide (elapsed (a.entry name).clock file.modified > maxAge config.retentionDays) &&
    (a.entry name).unlink

def sweepEntry (s : Storage) (name : Text) : Storage :=
  match s.files.lookup name with
  | none => s
  | some file =>
      if sweeps config a name file then
        { s with files := s.files.erase name, sync := s.sync.forget name }
      else s

/-- Rows that the SELECT finds; a failed SELECT finds none. -/
def doomed (s : Storage) : List Recording :=
  match a.select with
  | none => []
  | some now => s.rows.filter fun row => row.createdAt < cutoff config.retentionDays now

def azureCfg : Option AzureBlobConfig :=
  match config.storageType with
  | .azureBlob => (getAzureConfig a.settings).toOption.join
  | .localDisk => none

def purgeObject (s : Storage) (row : Recording) : Storage :=
  if row.isAzure then
    match azureCfg config a with
    | none => s
    | some _ => { s with blobs := (deleteFromAzure (a.blob row.id) row.storagePath s.blobs).2 }
  else if a.unlink row.id then { s with files := s.files.erase row.storagePath }
  else s

def deleteRows (s : Storage) (now : Int) : Storage :=
  { s with
    rows := s.rows.filter fun row => !decide (row.createdAt < cutoff config.retentionDays now) }

def purgeRows (s : Storage) : Except PassError Unit × Storage :=
  if (doomed config a s).isEmpty then (.ok (), s)
  else
    let purged := (doomed config a s).foldl (purgeObject config a) s
    match a.delete with
    | .done now => (.ok (), deleteRows config purged now)
    | .lost now => (.error .delete, deleteRows config purged now)
    | .failed => (.error .delete, purged)

def retentionPass (s : Storage) : Except PassError Unit × Storage :=
  if config.retentionDays > 0 then
    match a.scan with
    | .unreadable => (.ok (), s)
    | .broken entries =>
        (.error .nextEntry, (s.files.keys.take entries).foldl (sweepEntry config a) s)
    | .whole => purgeRows config a (s.files.keys.foldl (sweepEntry config a) s)
  else (.ok (), s)

end

variable (config : RecordingConfig) (a : Answers)

/-! ### The scan of the directory -/

theorem sweepEntry_rows (s : Storage) (name : Text) :
    (sweepEntry config a s name).rows = s.rows ∧ (sweepEntry config a s name).blobs = s.blobs := by
  rw [sweepEntry]
  split
  · exact ⟨rfl, rfl⟩
  · split_ifs <;> exact ⟨rfl, rfl⟩

theorem sweep_rows (names : List Text) (s : Storage) :
    (names.foldl (sweepEntry config a) s).rows = s.rows ∧
      (names.foldl (sweepEntry config a) s).blobs = s.blobs := by
  induction names generalizing s with
  | nil => exact ⟨rfl, rfl⟩
  | cons name names ih =>
      obtain ⟨rows, blobs⟩ := sweepEntry_rows config a s name
      rw [List.foldl_cons, (ih _).1, (ih _).2]
      exact ⟨rows, blobs⟩

def spare (name : Text) : Option File → Option File
  | none => none
  | some file => if sweeps config a name file then none else some file

theorem spare_spare (name : Text) (found : Option File) :
    spare config a name (spare config a name found) = spare config a name found := by
  cases found with
  | none => rfl
  | some file => by_cases swept : sweeps config a name file = true <;> simp [spare, swept]

def spared (s : Storage) (name : Text) : Option File := spare config a name (s.files.lookup name)

theorem sweepEntry_lookup (s : Storage) (name other : Text) :
    (sweepEntry config a s name).files.lookup other =
      if other = name then spared config a s other else s.files.lookup other := by
  rw [sweepEntry, spared]
  by_cases same : other = name
  · subst same
    rw [if_pos rfl]
    cases present : s.files.lookup other with
    | none => exact present
    | some file =>
        dsimp only [spare]
        split_ifs with swept
        · exact AList.lookup_erase ..
        · exact present
  · rw [if_neg same]
    split
    · rfl
    · split_ifs
      · exact AList.lookup_erase_ne same
      · rfl

theorem sweep_lookup (names : List Text) (s : Storage) (other : Text) :
    (names.foldl (sweepEntry config a) s).files.lookup other =
      if other ∈ names then spared config a s other else s.files.lookup other := by
  induction names generalizing s with
  | nil => rfl
  | cons name names ih =>
      rw [List.foldl_cons, ih, spared, sweepEntry_lookup]
      by_cases same : other = name
      · rw [if_pos same, if_pos (List.mem_cons.mpr (.inl same)), spared, spare_spare, ite_self]
      · simp only [List.mem_cons, same, false_or]
        rfl

/-! ### The objects of the rows -/

def purges (row : Recording) : Bool :=
  if row.isAzure then (azureCfg config a).isSome && Retry.landed (a.blob row.id) 1 2
  else a.unlink row.id

theorem purgeObject_rows (s : Storage) (row : Recording) :
    (purgeObject config a s row).rows = s.rows := by
  rw [purgeObject]
  split_ifs
  · split <;> rfl
  · rfl
  · rfl

def Stored (s : Storage) (row : Recording) : Prop :=
  if row.isAzure then row.storagePath ∈ s.blobs else row.storagePath ∈ s.files

def SameObject (row other : Recording) : Prop :=
  row.isAzure = other.isAzure ∧ row.storagePath = other.storagePath

theorem purgeObject_stored (s : Storage) (row other : Recording) :
    Stored (purgeObject config a s row) other ↔
      Stored s other ∧ ¬ (SameObject other row ∧ purges config a row = true) := by
  rw [purgeObject, purges, Stored, Stored, SameObject]
  cases row.isAzure with
  | true =>
      cases azureCfg config a with
      | none => simp
      | some cfg => cases other.isAzure <;> simp [mem_deleteFromAzure]
  | false => cases a.unlink row.id <;> cases other.isAzure <;> simp [AList.mem_erase, and_comm]

theorem purge_rows (rows : List Recording) (s : Storage) :
    (rows.foldl (purgeObject config a) s).rows = s.rows := by
  induction rows generalizing s with
  | nil => rfl
  | cons row rows ih => rw [List.foldl_cons, ih, purgeObject_rows]

theorem purge_stored (rows : List Recording) (s : Storage) (other : Recording) :
    Stored (rows.foldl (purgeObject config a) s) other ↔
      Stored s other ∧ ∀ row ∈ rows, ¬ (SameObject other row ∧ purges config a row = true) := by
  induction rows generalizing s with
  | nil => simp
  | cons row rows ih =>
      rw [List.foldl_cons, ih, purgeObject_stored, List.forall_mem_cons, and_assoc]

/-! ### The whole pass -/

def removesAt (s : Storage) : Option Int :=
  if config.retentionDays > 0 ∧ (doomed config a s).isEmpty = false then
    match a.scan with
    | .whole => a.delete.executedAt
    | _ => none
  else none

/-- The object is not there, or the scan removes it, or a row that the SELECT finds asks for its
deletion and the deletion takes place. -/
def Cleared (s : Storage) (row : Recording) : Prop :=
  ¬ Stored s row ∨ (row.isAzure = false ∧ spared config a s row.storagePath = none) ∨
    ∃ other ∈ doomed config a s, SameObject row other ∧ purges config a other = true

/-- A row leaves only with its object, and an object that rows name keeps one of them. -/
structure Referenced (s s' : Storage) : Prop where
  removed : ∀ row ∈ s.rows, row ∉ s'.rows → ¬ Stored s' row
  named : ∀ row ∈ s.rows, Stored s' row → ∃ other ∈ s'.rows, SameObject row other

theorem referenced_iff (s s' : Storage) :
    Referenced s s' ↔ ∀ row ∈ s.rows, row ∉ s'.rows → ¬ Stored s' row := by
  constructor
  · exact Referenced.removed
  · intro removed
    constructor
    case removed => exact removed
    case named =>
      intro row member stored
      by_cases kept : row ∈ s'.rows
      · exact ⟨row, kept, rfl, rfl⟩
      · exact absurd stored (removed row member kept)

theorem doomed_congr {s s' : Storage} (rows : s'.rows = s.rows) :
    doomed config a s' = doomed config a s := by
  rw [doomed, doomed, rows]

theorem rows_of_not_removes {s : Storage} (none : removesAt config a s = none) :
    (retentionPass config a s).2.rows = s.rows := by
  have rows := (sweep_rows config a s.files.keys s).1
  rw [retentionPass]
  split_ifs with positive
  · cases scan : a.scan with
    | unreadable => rfl
    | broken entries => exact (sweep_rows config a (s.files.keys.take entries) s).1
    | whole =>
        simp only [purgeRows, doomed_congr config a rows]
        split_ifs with empty
        · exact rows
        · rw [removesAt, if_pos ⟨positive, by simpa using empty⟩, scan] at none
          cases delete : a.delete with
          | done now =>
              rw [delete] at none
              cases none
          | lost now =>
              rw [delete] at none
              cases none
          | failed => exact (purge_rows config a _ _).trans rows
  · rfl

theorem retentionPass_of_removes {s : Storage} {now : Int}
    (removes : removesAt config a s = some now) :
    (retentionPass config a s).2 =
      deleteRows config ((doomed config a s).foldl (purgeObject config a)
        (s.files.keys.foldl (sweepEntry config a) s)) now := by
  rw [removesAt] at removes
  split_ifs at removes with reached
  cases scan : a.scan with
  | unreadable =>
      rw [scan] at removes
      cases removes
  | broken entries =>
      rw [scan] at removes
      cases removes
  | whole =>
      rw [scan] at removes
      rw [retentionPass, if_pos reached.1, scan]
      simp only [purgeRows, doomed_congr config a (sweep_rows config a s.files.keys s).1, reached.2]
      cases delete : a.delete with
      | done later =>
          rw [delete] at removes
          cases removes
          rfl
      | lost later =>
          rw [delete] at removes
          cases removes
          rfl
      | failed =>
          rw [delete] at removes
          cases removes

theorem sweep_stored (s : Storage) (row : Recording) :
    Stored (s.files.keys.foldl (sweepEntry config a) s) row ↔
      Stored s row ∧ ¬ (row.isAzure = false ∧ spared config a s row.storagePath = none) := by
  rw [Stored, Stored]
  cases row.isAzure with
  | true => simp [(sweep_rows config a s.files.keys s).2]
  | false =>
      simp only [Bool.false_eq_true, if_false, true_and]
      rw [← AList.lookup_isSome, sweep_lookup]
      by_cases member : row.storagePath ∈ s.files
      · rw [if_pos (AList.mem_keys.mp member), Option.isSome_iff_ne_none]
        simp only [member, true_and, ne_eq]
      · rw [if_neg (fun key => member (AList.mem_keys.mpr key)), AList.lookup_eq_none.mpr member]
        simp only [member, false_and, Option.isSome_none, Bool.false_eq_true]

/-- A row is removed only when the object it names is gone in exactly the passes where that holds
of every row the DELETE matches: an object was not there, or its deletion was asked for and took
place. -/
theorem referenced_iff_cleared (s : Storage) :
    Referenced s (retentionPass config a s).2 ↔
      ∀ now, removesAt config a s = some now →
        ∀ row ∈ s.rows, row.createdAt < cutoff config.retentionDays now →
          Cleared config a s row := by
  rw [referenced_iff]
  cases removes : removesAt config a s with
  | none =>
      rw [rows_of_not_removes config a removes]
      constructor
      · intro _ now found
        cases found
      · intro _ row member missing
        exact absurd member missing
  | some now =>
      rw [retentionPass_of_removes config a removes]
      have gone : ∀ row, ¬ Stored ((doomed config a s).foldl (purgeObject config a)
          (s.files.keys.foldl (sweepEntry config a) s)) row ↔ Cleared config a s row := by
        intro row
        rw [purge_stored, sweep_stored, Cleared]
        push Not
        tauto
      constructor
      · intro removed later same row member old
        obtain rfl := Option.some.inj same
        refine (gone row).mp (removed row member fun kept => ?_)
        exact absurd old (by simpa using (List.mem_filter.mp kept).2)
      · intro cleared row member missing
        refine (gone row).mpr (cleared now rfl row member ?_)
        by_contra young
        refine missing (List.mem_filter.mpr ⟨?_, by simpa using young⟩)
        rwa [purge_rows, (sweep_rows config a s.files.keys s).1]

def azureRecording : Storage where
  rows := [⟨0, "a.guac".toList, "azure".toList, 0⟩]
  files := ∅
  blobs := (∅ : Tables.Table Text Utf8.Bytes).insert "a.guac".toList [1]
  sync := .default

def thirtyDays : RecordingConfig := ⟨true, 30, .azureBlob⟩

/-- 31 days later everything answers but the blob store, which refuses the deletion. -/
def refusedDeletion : Answers where
  scan := .whole
  entry _ := ⟨true, 0, true⟩
  select := some (31 * 86400000000)
  settings := ⟨.ok (some "acc".toList), .ok (some "key".toList), .ok none, none⟩
  blob _ _ := .failed false false
  unlink _ := true
  delete := .done (31 * 86400000000)

theorem refused_blob_loses_its_row :
    let s := (retentionPass thirtyDays refusedDeletion azureRecording).2
    (retentionPass thirtyDays refusedDeletion azureRecording).1 = .ok () ∧
      "a.guac".toList ∈ azureRecording.rows.map (·.storagePath) ∧ s.rows = [] ∧
      s.blobs.lookup "a.guac".toList = some [1] := by
  decide +kernel

end Strata.Backend.Recordings
