import Mathlib.Tactic
import Strata.Backend.FileLedger

/-! The file store in every run: its books balance once the abandoned uploads are counted, and
without them exactly in the runs that abandon none. -/

namespace Strata.Backend.FileStore

open Utf8 (Text)
open Tables (Table)

variable {κ : Type} {s s' : Store κ}

def Task.upload : Task → Option Upload
  | .expiring _ next => next
  | .moving upload => some upload

def Task.reserves : Task → Nat
  | .expiring .. => 0
  | .moving upload => upload.size

def Task.uploadsTo (sessionId : Text) : Task → Nat
  | .expiring .. => 0
  | .moving upload => if upload.sessionId = sessionId then 1 else 0

/-! ### The ledger -/

def Store.abandonedBytes (s : Store κ) : Nat := (s.abandoned.map (·.size)).sum

def Store.abandonedOf (s : Store κ) (sessionId : Text) : Nat :=
  s.abandoned.countP (·.sessionId = sessionId)

structure Ledger (s : Store κ) : Prop where
  bytes : s.inner.reservedBytes =
    s.inner.held + Tables.total Task.reserves s.tasks + s.abandonedBytes
  pending : ∀ sessionId, s.inner.pendingOf sessionId =
    Tables.total (Task.uploadsTo sessionId) s.tasks + s.abandonedOf sessionId
  count : ∀ sessionId, (s.inner.listed sessionId).length + s.inner.pendingOf sessionId ≤
    maxFilesPerSession
  limit : s.inner.reservedBytes ≤ maxStoreBytes

theorem Ledger.remove (ledger : Ledger s) {inner : FileStoreInner}
    (removes : Removes s.inner inner) : Ledger { s with inner := inner } := by
  have bytes := removes.reserves (ledger.bytes.trans (Nat.add_assoc ..))
  have same (sessionId : Text) : inner.pendingOf sessionId = s.inner.pendingOf sessionId := by
    rw [FileStoreInner.pendingOf, removes.pending]
    rfl
  constructor
  case bytes => exact bytes.trans (Nat.add_assoc ..).symm
  case pending =>
    intro sessionId
    exact (same sessionId).trans (ledger.pending sessionId)
  case count =>
    intro sessionId
    change _ + inner.pendingOf sessionId ≤ _
    rw [same]
    exact (Nat.add_le_add_right (removes.shorter sessionId) _).trans (ledger.count sessionId)
  case limit => exact removes.reserved.trans ledger.limit

theorem Ledger.retask (ledger : Ledger s) {tasks : Table κ Task} {minted : List Text}
    (bytes : Tables.total Task.reserves tasks = Tables.total Task.reserves s.tasks)
    (pending : ∀ sessionId, Tables.total (Task.uploadsTo sessionId) tasks =
      Tables.total (Task.uploadsTo sessionId) s.tasks) :
    Ledger { s with tasks := tasks, minted := minted } where
  bytes := ledger.bytes.trans (bytes ▸ rfl)
  pending sessionId := (ledger.pending sessionId).trans (pending sessionId ▸ rfl)
  count := ledger.count
  limit := ledger.limit

variable [DecidableEq κ]

theorem total_insert_expiring {weight : Task → Nat} {key : κ} {todo : List Text}
    {next : Option Upload} (light : ∀ todo next, weight (.expiring todo next) = 0)
    (idle : ∀ task ∈ s.tasks.lookup key, weight task = 0) :
    Tables.total weight (s.tasks.insert key (.expiring todo next)) =
      Tables.total weight s.tasks := by
  have split := Tables.total_erase weight s.tasks key
  rw [Tables.total_insert, light]
  cases found : s.tasks.lookup key with
  | none =>
      rw [found] at split
      exact (Nat.zero_add _).trans split
  | some task =>
      rw [found, Option.elim_some, idle task found] at split
      exact (Nat.zero_add _).trans split

theorem total_erase_expiring {weight : Task → Nat} {key : κ} {task : Task}
    (found : s.tasks.lookup key = some task) (idle : weight task = 0) :
    Tables.total weight (s.tasks.erase key) = Tables.total weight s.tasks := by
  have split := Tables.total_erase_of_lookup weight s.tasks found
  rwa [idle] at split

theorem pendingOf_admitUpload {inner inner' : FileStoreInner} {upload : Upload}
    (admitted : inner.admitUpload upload = .ok inner') (sessionId : Text) :
    inner'.pendingOf sessionId =
      inner.pendingOf sessionId + if upload.sessionId = sessionId then 1 else 0 := by
  rw [FileStoreInner.admitUpload] at admitted
  split_ifs at admitted
  cases admitted
  rw [FileStoreInner.pendingOf]
  split_ifs with same
  · subst same
    rw [AList.lookup_insert]
    rfl
  · rw [AList.lookup_insert_ne (Ne.symm same)]
    rfl

theorem Ledger.admitUpload (ledger : Ledger s) {key : κ} {upload : Upload} {inner : FileStoreInner}
    (found : s.tasks.lookup key = some (.expiring [] (some upload)))
    (admitted : s.inner.admitUpload upload = .ok inner) :
    Ledger { s with inner := inner, tasks := s.tasks.insert key (.moving upload) } := by
  have pending := pendingOf_admitUpload admitted
  have moving (weight : Task → Nat) (light : weight (.expiring [] (some upload)) = 0) :
      Tables.total weight (s.tasks.insert key (.moving upload)) =
        Tables.total weight s.tasks + weight (.moving upload) := by
    have replaced := Tables.total_insert_of_lookup weight s.tasks found (.moving upload)
    rwa [light] at replaced
  have bytes := ledger.bytes
  rw [FileStoreInner.admitUpload] at admitted
  split_ifs at admitted with full large
  cases admitted
  constructor
  case bytes =>
    rw [moving Task.reserves rfl]
    change s.inner.reservedBytes + upload.size =
      s.inner.held + (Tables.total Task.reserves s.tasks + upload.size) + s.abandonedBytes
    omega
  case pending =>
    intro sessionId
    have before := ledger.pending sessionId
    rw [pending, moving (Task.uploadsTo sessionId) rfl]
    change _ = Tables.total (Task.uploadsTo sessionId) s.tasks +
      (if upload.sessionId = sessionId then 1 else 0) + s.abandonedOf sessionId
    omega
  case count =>
    intro sessionId
    have before := ledger.count sessionId
    rw [pending]
    change (s.inner.listed sessionId).length + _ ≤ _
    split_ifs with same
    · subst same
      omega
    · exact before
  case limit => exact Nat.le_of_not_lt large

theorem Ledger.ends (ledger : Ledger s) {key : κ} {upload : Upload}
    (found : s.tasks.lookup key = some (.moving upload)) (sessionId : Text) :
    (s.inner.settle upload.sessionId).pendingOf sessionId =
        Tables.total (Task.uploadsTo sessionId) (s.tasks.erase key) + s.abandonedOf sessionId ∧
      (s.inner.settle upload.sessionId).pendingOf sessionId +
        (if upload.sessionId = sessionId then 1 else 0) = s.inner.pendingOf sessionId := by
  have before := ledger.pending sessionId
  have left := Tables.total_erase_of_lookup (Task.uploadsTo sessionId) s.tasks found
  change _ + (if upload.sessionId = sessionId then 1 else 0) = _ at left
  rw [pendingOf_settle]
  by_cases same : upload.sessionId = sessionId
  · rw [if_pos same] at left
    rw [if_pos same.symm, if_pos same]
    omega
  · rw [if_neg same] at left
    rw [if_neg (Ne.symm same), if_neg same]
    omega

theorem Ledger.finish (ledger : Ledger s) {key : κ} {upload : Upload} {moved : Bool} {now : Nat}
    (new : s.inner.files.lookup upload.token = none)
    (found : s.tasks.lookup key = some (.moving upload)) :
    Ledger
      { s with
        inner := (s.inner.finish upload moved now).1
        tasks := s.tasks.erase key } := by
  have bytes := ledger.bytes
  have left : Tables.total Task.reserves (s.tasks.erase key) + upload.size =
      Tables.total Task.reserves s.tasks :=
    Tables.total_erase_of_lookup Task.reserves s.tasks found
  cases moved with
  | true =>
      have finished := finish_finished new now
      constructor
      case bytes =>
        refine finished.reserved.trans (bytes.trans ?_)
        rw [finished.held, ← left]
        change _ = s.inner.held + upload.size + Tables.total Task.reserves (s.tasks.erase key) +
          s.abandonedBytes
        omega
      case pending =>
        intro sessionId
        exact (finished.pending sessionId).trans (ledger.ends found sessionId).1
      case count =>
        intro sessionId
        have before := ledger.count sessionId
        have counted := (ledger.ends found sessionId).2
        rw [finished.length, finished.pending]
        omega
      case limit => exact finished.reserved.trans_le ledger.limit
  | false =>
      have failed := finish_failed s.inner upload now
      constructor
      case bytes =>
        refine failed.reserved.trans ?_
        rw [failed.held, bytes, ← left]
        change _ = s.inner.held + Tables.total Task.reserves (s.tasks.erase key) + s.abandonedBytes
        omega
      case pending =>
        intro sessionId
        exact (failed.pending sessionId).trans (ledger.ends found sessionId).1
      case count =>
        intro sessionId
        have before := ledger.count sessionId
        have counted := (ledger.ends found sessionId).2
        rw [failed.listed, failed.pending]
        omega
      case limit => exact failed.reserved.trans_le ((Nat.sub_le ..).trans ledger.limit)

theorem Ledger.abandon (ledger : Ledger s) {key : κ} {upload : Upload}
    (found : s.tasks.lookup key = some (.moving upload)) :
    Ledger { s with tasks := s.tasks.erase key, abandoned := s.abandoned ++ [upload] } := by
  have bytes := ledger.bytes
  constructor
  case bytes =>
    have left : Tables.total Task.reserves (s.tasks.erase key) + upload.size =
        Tables.total Task.reserves s.tasks :=
      Tables.total_erase_of_lookup Task.reserves s.tasks found
    have more : ((s.abandoned ++ [upload]).map (·.size)).sum = s.abandonedBytes + upload.size := by
      rw [List.map_append, List.sum_append]
      rfl
    change s.inner.reservedBytes = s.inner.held + Tables.total Task.reserves (s.tasks.erase key) +
      ((s.abandoned ++ [upload]).map (·.size)).sum
    omega
  case pending =>
    intro sessionId
    have before := ledger.pending sessionId
    have left : Tables.total (Task.uploadsTo sessionId) (s.tasks.erase key) +
        (if upload.sessionId = sessionId then 1 else 0) =
        Tables.total (Task.uploadsTo sessionId) s.tasks :=
      Tables.total_erase_of_lookup (Task.uploadsTo sessionId) s.tasks found
    have more : (s.abandoned ++ [upload]).countP (·.sessionId = sessionId) =
        s.abandonedOf sessionId + if upload.sessionId = sessionId then 1 else 0 := by
      rw [List.countP_append, List.countP_singleton]
      simp only [decide_eq_true_eq]
      rfl
    change s.inner.pendingOf sessionId =
      Tables.total (Task.uploadsTo sessionId) (s.tasks.erase key) +
        (s.abandoned ++ [upload]).countP (·.sessionId = sessionId)
    omega
  case count => exact ledger.count
  case limit => exact ledger.limit

/-! ### The tokens -/

structure Drawn (files : Table Text StoredFile) (tasks : Table κ Task) (minted : List Text) :
    Prop where
  filed : ∀ {token file}, files.lookup token = some file → token ∈ minted
  drawn : ∀ {key task upload}, tasks.lookup key = some task → task.upload = some upload →
    upload.token ∈ minted
  new : ∀ {key task upload}, tasks.lookup key = some task → task.upload = some upload →
    files.lookup upload.token = none
  apart : ∀ {key other task task' upload upload'}, tasks.lookup key = some task →
    tasks.lookup other = some task' → task.upload = some upload → task'.upload = some upload' →
    upload.token = upload'.token → key = other

variable {files files' : Table Text StoredFile} {tasks tasks' : Table κ Task} {minted : List Text}

theorem Drawn.mono (drawn : Drawn files tasks minted)
    (fewer : ∀ {token file}, files'.lookup token = some file → files.lookup token = some file)
    (carries : ∀ {key task upload}, tasks'.lookup key = some task → task.upload = some upload →
      ∃ before, tasks.lookup key = some before ∧ before.upload = some upload) :
    Drawn files' tasks' minted := by
  constructor
  case filed =>
    intro token file found
    exact drawn.filed (fewer found)
  case drawn =>
    intro key task upload found carried
    obtain ⟨before, present, same⟩ := carries found carried
    exact drawn.drawn present same
  case new =>
    intro key task upload found carried
    obtain ⟨before, present, same⟩ := carries found carried
    have absent := drawn.new present same
    cases kept : files'.lookup upload.token with
    | none => rfl
    | some file =>
        rw [fewer kept] at absent
        cases absent
  case apart =>
    intro key other task task' upload upload' found found' carried carried' same
    obtain ⟨before, present, carried⟩ := carries found carried
    obtain ⟨before', present', carried'⟩ := carries found' carried'
    exact drawn.apart present present' carried carried' same

theorem carries_insert (tasks : Table κ Task) (key : κ) (task : Task)
    (own : ∀ upload, task.upload = some upload →
      ∃ before, tasks.lookup key = some before ∧ before.upload = some upload)
    {other : κ} {task' : Task} {upload : Upload}
    (found : (tasks.insert key task).lookup other = some task')
    (carried : task'.upload = some upload) :
    ∃ before, tasks.lookup other = some before ∧ before.upload = some upload := by
  rcases Tables.of_lookup_insert _ found with ⟨rfl, rfl⟩ | ⟨_, old⟩
  · exact own upload carried
  · exact ⟨task', old, carried⟩

theorem carries_erase (tasks : Table κ Task) (key : κ) {other : κ} {task : Task} {upload : Upload}
    (found : (tasks.erase key).lookup other = some task) (carried : task.upload = some upload) :
    ∃ before, tasks.lookup other = some before ∧ before.upload = some upload := by
  exact ⟨task, (Tables.of_lookup_erase _ found).2, carried⟩

theorem Drawn.draw (drawn : Drawn files tasks minted) {key : κ} {todo : List Text}
    {upload : Upload} (new : upload.token ∉ minted) :
    Drawn files (tasks.insert key (.expiring todo (some upload))) (minted ++ [upload.token]) := by
  have cases {other : κ} {task : Task} {carried : Upload}
      (found : (tasks.insert key (.expiring todo (some upload))).lookup other = some task)
      (carries : task.upload = some carried) :
      other = key ∧ carried = upload ∨
        tasks.lookup other = some task ∧ carried.token ∈ minted := by
    rcases Tables.of_lookup_insert _ found with ⟨rfl, rfl⟩ | ⟨_, old⟩
    · cases carries
      exact .inl ⟨rfl, rfl⟩
    · exact .inr ⟨old, drawn.drawn old carries⟩
  constructor
  case filed =>
    intro token file found
    exact List.mem_append_left _ (drawn.filed found)
  case drawn =>
    intro other task carried found carries
    rcases cases found carries with ⟨-, rfl⟩ | ⟨-, old⟩
    · exact List.mem_append_right _ (List.mem_singleton_self _)
    · exact List.mem_append_left _ old
  case new =>
    intro other task carried found carries
    rcases cases found carries with ⟨-, rfl⟩ | ⟨before, -⟩
    · cases filed : files.lookup carried.token with
      | none => rfl
      | some file => exact absurd (drawn.filed filed) new
    · exact drawn.new before carries
  case apart =>
    intro first second task task' carried carried' found found' carries carries' same
    rcases cases found carries with ⟨rfl, rfl⟩ | ⟨before, old⟩
    · rcases cases found' carries' with ⟨rfl, -⟩ | ⟨-, old'⟩
      · rfl
      · exact absurd (same ▸ old') new
    · rcases cases found' carries' with ⟨-, rfl⟩ | ⟨before', -⟩
      · exact absurd (same ▸ old) new
      · exact drawn.apart before before' carries carries' same

theorem Drawn.insert (drawn : Drawn files tasks minted) {key : κ} {upload : Upload}
    {file : StoredFile} (found : tasks.lookup key = some (.moving upload))
    (named : file.token = upload.token) :
    Drawn (files.insert file.token file) (tasks.erase key) minted := by
  have still := drawn.mono id (carries_erase tasks key)
  constructor
  case filed =>
    intro token other present
    by_cases same : token = file.token
    · rw [same, named]
      exact drawn.drawn found rfl
    · rw [AList.lookup_insert_ne same] at present
      exact drawn.filed present
  case drawn => exact still.drawn
  case new =>
    intro other task carried left carries
    -- a task with the same token would be the task that is gone
    have apart : carried.token ≠ file.token := by
      intro same
      obtain ⟨before, present, carries⟩ := carries_erase tasks key left carries
      have here := drawn.apart present found carries rfl (same.trans named)
      subst here
      rw [AList.lookup_erase] at left
      cases left
    rw [AList.lookup_insert_ne apart]
    exact still.new left carries
  case apart => exact still.apart

/-! ### Whole runs -/

structure Sound (s : Store κ) : Prop where
  indexed : Indexed s.inner
  ledger : Ledger s
  drawn : Drawn s.inner.files s.tasks s.minted

theorem new_sound (root : Text) : Sound (Store.new root : Store κ) := by
  constructor
  case indexed => exact ⟨nofun, nofun, nofun, fun _ => List.nodup_nil⟩
  case ledger => exact ⟨rfl, fun _ => rfl, fun _ => Nat.zero_le _, Nat.zero_le _⟩
  case drawn => exact ⟨nofun, nofun, nofun, nofun⟩

theorem Ledger.expiring (ledger : Ledger s) {key : κ} {todo : List Text} {next : Option Upload}
    {minted : List Text}
    (idle : ∀ task ∈ s.tasks.lookup key, ∃ todo next, task = .expiring todo next) :
    Ledger { s with tasks := s.tasks.insert key (.expiring todo next), minted := minted } := by
  refine ledger.retask ?_ ?_
  · refine total_insert_expiring (fun _ _ => rfl) fun task found => ?_
    obtain ⟨todo, next, rfl⟩ := idle task found
    rfl
  · intro sessionId
    refine total_insert_expiring (fun _ _ => rfl) fun task found => ?_
    obtain ⟨todo, next, rfl⟩ := idle task found
    rfl

theorem Moves.ledger (moves : Moves s s') (ledger : Ledger s)
    (drawn : Drawn s.inner.files s.tasks s.minted) : Ledger s' := by
  have absent {key : κ} (absent : key ∉ s.tasks) :
      ∀ task ∈ s.tasks.lookup key, ∃ todo next, task = .expiring todo next := by
    rw [AList.lookup_eq_none.mpr absent]
    exact nofun
  cases moves with
  | stay => exact ledger
  | begin new => exact ledger.expiring (absent new)
  | draw new fresh => exact ledger.expiring (absent new)
  | expire found =>
      refine (ledger.remove (delete_removes ..)).expiring fun task present => ?_
      rw [Option.mem_def, found] at present
      cases present
      exact ⟨_, _, rfl⟩
  | leave found =>
      exact ledger.retask (total_erase_expiring found rfl)
        fun sessionId => total_erase_expiring found rfl
  | admitUpload found admitted => exact ledger.admitUpload found admitted
  | finish found => exact ledger.finish (drawn.new found rfl) found
  | delete => exact ledger.remove (delete_removes ..)
  | cleanupSession => exact ledger.remove (cleanupSession_removes ..)
  | abandon found => exact ledger.abandon found

theorem admitUpload_files {inner inner' : FileStoreInner} {upload : Upload}
    (admitted : inner.admitUpload upload = .ok inner') :
    inner'.files = inner.files ∧ inner'.sessions = inner.sessions := by
  rw [FileStoreInner.admitUpload] at admitted
  split_ifs at admitted
  cases admitted
  exact ⟨rfl, rfl⟩

theorem Moves.drawn (moves : Moves s s') (drawn : Drawn s.inner.files s.tasks s.minted) :
    Drawn s'.inner.files s'.tasks s'.minted := by
  cases moves with
  | stay => exact drawn
  | begin absent => exact drawn.mono id (carries_insert s.tasks _ (.expiring _ none) nofun)
  | draw absent new => exact drawn.draw new
  | @expire key token todo next found =>
      exact drawn.mono (delete_removes ..).files
        (carries_insert s.tasks key (.expiring todo next) fun upload carried => ⟨_, found, carried⟩)
  | leave found => exact drawn.mono id (carries_erase s.tasks _)
  | admitUpload found admitted =>
      refine drawn.mono ?_
        (carries_insert s.tasks _ (.moving _) fun upload carried => ⟨_, found, carried⟩)
      intro token file present
      rwa [(admitUpload_files admitted).1] at present
  | @finish key upload moved now found =>
      obtain ⟨pending, settled⟩ := settle_eq s.inner upload.sessionId
      rw [FileStoreInner.finish, settled]
      dsimp only
      split_ifs
      · exact drawn.insert found rfl
      · exact drawn.mono id (carries_erase s.tasks key)
  | delete => exact drawn.mono (delete_removes ..).files fun found carried => ⟨_, found, carried⟩
  | cleanupSession =>
      exact drawn.mono (cleanupSession_removes ..).files fun found carried => ⟨_, found, carried⟩
  | abandon found => exact drawn.mono id (carries_erase s.tasks _)

theorem Indexed.same {inner inner' : FileStoreInner} (indexed : Indexed inner)
    (files : inner'.files = inner.files) (sessions : inner'.sessions = inner.sessions) :
    Indexed inner' := by
  refine indexed.remove (fun _ => false) (fun token => ?_) (fun sessionId => ?_)
  · rw [files]
    rfl
  · rw [FileStoreInner.listed, sessions]
    exact (List.filter_eq_self.mpr fun _ _ => rfl).symm

theorem Moves.indexed (moves : Moves s s') (indexed : Indexed s.inner)
    (drawn : Drawn s.inner.files s.tasks s.minted) : Indexed s'.inner := by
  cases moves with
  | stay | begin | draw | leave | abandon => exact indexed
  | expire found => exact indexed.delete _
  | admitUpload found admitted =>
      exact indexed.same (admitUpload_files admitted).1 (admitUpload_files admitted).2
  | @finish key upload moved now found =>
      obtain ⟨pending, settled⟩ := settle_eq s.inner upload.sessionId
      have same : Indexed { s.inner with pending := pending } := indexed.same rfl rfl
      rw [FileStoreInner.finish, settled]
      dsimp only
      split_ifs
      · exact same.insert (drawn.new found rfl)
      · exact same.same rfl rfl
  | delete => exact indexed.delete _
  | cleanupSession => exact indexed.cleanupSession _

theorem Moves.sound (moves : Moves s s') (sound : Sound s) : Sound s' :=
  ⟨moves.indexed sound.indexed sound.drawn, moves.ledger sound.ledger sound.drawn,
    moves.drawn sound.drawn⟩

theorem run_sound (root : Text) (events : List (Event κ)) :
    Sound (Machine.run step (.new root) events).1 :=
  Machine.run_invariant (fun _ s => Sound s) (new_sound root)
    (fun _ event s sound => (step_moves s event).sound sound) events

/-! ### Abandoned uploads -/

def Task.isMoving : Task → Bool
  | .expiring .. => false
  | .moving _ => true

/-- No task is dropped while it moves its file. -/
def Undropped (s : Store κ) : Event κ → Prop
  | .drop key => ∀ task ∈ s.tasks.lookup key, task.isMoving = false
  | _ => True

theorem begin_abandoned (s : Store κ) (key : κ) (task : Task) :
    (s.begin key task).abandoned = s.abandoned := by
  rw [Store.begin]
  split_ifs
  · rfl
  · rfl

theorem step_abandoned (s : Store κ) (event : Event κ) :
    (step s event).1.abandoned = [] ↔ s.abandoned = [] ∧ Undropped s event := by
  have kept {next : Store κ} (same : next.abandoned = s.abandoned) :
      next.abandoned = [] ↔ s.abandoned = [] ∧ True := by
    rw [same, and_true]
  cases event with
  | store key sessionId userId filename contentType size token now =>
      refine kept ?_
      rw [step, Store.beginStore]
      split_ifs <;> rfl
  | removeExpired key now => exact kept (begin_abandoned ..)
  | get key token now =>
      refine kept ?_
      rw [step]
      split
      · split_ifs
        · exact begin_abandoned ..
        · rfl
      · rfl
  | turn key =>
      refine kept ?_
      rw [step, Store.turn]
      split
      · rfl
      · rfl
      · split <;> rfl
      · rfl
  | finish key moved now =>
      refine kept ?_
      rw [step, Store.finish]
      split <;> rfl
  | delete token => exact kept rfl
  | cleanupSession sessionId => exact kept rfl
  | drop key =>
      rw [step, Store.drop, Undropped]
      split
      · rename_i absent
        simp [absent]
      · rename_i found
        simp [found, Task.isMoving]
      · rename_i found
        simp [found, Task.isMoving]

theorem run_abandoned (root : Text) (events : List (Event κ)) :
    (Machine.run step (.new root) events).1.abandoned = [] ↔
      Machine.Meets step Undropped (.new root) events := by
  induction events using List.reverseRecOn with
  | nil => exact ⟨fun _ => trivial, fun _ => rfl⟩
  | append_singleton events event ih =>
      rw [Machine.run_concat, Machine.meets_concat, ← ih]
      exact step_abandoned _ event

/-- The books without the abandoned uploads, the two indexes and the two limits. -/
structure Exact (s : Store κ) : Prop where
  bytes : s.inner.reservedBytes = s.inner.held + Tables.total Task.reserves s.tasks
  pending : ∀ sessionId,
    s.inner.pendingOf sessionId = Tables.total (Task.uploadsTo sessionId) s.tasks
  listed : ∀ token sessionId, token ∈ s.inner.listed sessionId ↔
    ∃ file, s.inner.files.lookup token = some file ∧ file.sessionId = sessionId
  few : ∀ sessionId,
    (s.inner.files.entries.filter (·.2.sessionId = sessionId)).length ≤ maxFilesPerSession
  within : s.inner.held + Tables.total Task.reserves s.tasks ≤ maxStoreBytes

theorem Indexed.few {inner : FileStoreInner} (indexed : Indexed inner) (sessionId : Text) :
    (inner.files.entries.filter (·.2.sessionId = sessionId)).length ≤
      (inner.listed sessionId).length := by
  have tokens : ((inner.files.entries.filter (·.2.sessionId = sessionId)).map (·.1)).Nodup :=
    inner.files.nodupKeys.sublist List.filter_sublist
  have inside : (inner.files.entries.filter (·.2.sessionId = sessionId)).map (·.1) ⊆
      inner.listed sessionId := by
    intro token member
    obtain ⟨entry, chosen, rfl⟩ := List.mem_map.mp member
    obtain ⟨present, same⟩ := List.mem_filter.mp chosen
    have found : inner.files.lookup entry.1 = some entry.2 := AList.mem_lookup_iff.mpr present
    rw [← of_decide_eq_true same]
    exact indexed.listed found
  have most := (List.subperm_of_subset tokens inside).length_le
  rwa [List.length_map] at most

theorem exact_of_none_abandoned (sound : Sound s) (none : s.abandoned = []) : Exact s := by
  have bytes := sound.ledger.bytes
  rw [Store.abandonedBytes, none] at bytes
  constructor
  case bytes => exact bytes
  case pending =>
    intro sessionId
    have pending := sound.ledger.pending sessionId
    rwa [Store.abandonedOf, none] at pending
  case listed =>
    intro token sessionId
    constructor
    · exact sound.indexed.known
    · rintro ⟨file, found, rfl⟩
      exact sound.indexed.listed found
  case few =>
    intro sessionId
    have count := sound.ledger.count sessionId
    exact (sound.indexed.few sessionId).trans ((Nat.le_add_right ..).trans count)
  case within => exact bytes ▸ sound.ledger.limit

theorem none_abandoned_of_exact (sound : Sound s) (exact : Exact s) : s.abandoned = [] := by
  rw [List.eq_nil_iff_forall_not_mem]
  intro upload member
  have counted := sound.ledger.pending upload.sessionId
  rw [exact.pending] at counted
  have none : s.abandonedOf upload.sessionId = 0 := by omega
  exact List.countP_eq_zero.mp none upload member (decide_eq_true rfl)

/-- The books are exact in exactly the runs that drop no upload while its file is moved. -/
theorem exact_iff_undropped (root : Text) (events : List (Event κ)) :
    Exact (Machine.run step (.new root) events).1 ↔
      Machine.Meets step Undropped (.new root) events := by
  have sound := run_sound root events
  rw [← run_abandoned]
  exact ⟨none_abandoned_of_exact sound, exact_of_none_abandoned sound⟩

def droppedEvents : List (Event Nat) :=
  [.store 0 "s".toList "u".toList "a.txt".toList "text/plain".toList 5 "t".toList 0, .turn 0,
    .drop 0]

theorem dropped_upload_stays_reserved :
    let s := (Machine.run step (.new "/q".toList) droppedEvents).1
    s.inner.reservedBytes = 5 ∧ s.inner.held = 0 ∧ Tables.total Task.reserves s.tasks = 0 ∧
      s.inner.pendingOf "s".toList = 1 ∧
      Tables.total (Task.uploadsTo "s".toList) s.tasks = 0 := by
  decide +kernel

end Strata.Backend.FileStore
