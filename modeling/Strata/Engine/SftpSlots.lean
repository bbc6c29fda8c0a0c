import Mathlib.Tactic
import Strata.Engine.SftpTasks
import Strata.Lib.Machine

/-! The transfers a session holds open. A transfer's slot moves from the open uploads to the
tasks, or from the tasks to the open downloads, and is checked only where it is first taken. -/

namespace Strata.Engine.Sftp

open Utf8 (Text Bytes)
open Tables
open Machine (run run_invariant)

variable {ι ω : Type}

structure Slots (before after : SftpEngine ι ω) : Prop where
  counted : after.inFlight + before.background.length = before.inFlight + after.background.length
  bounded : before.busy ≤ maxOpenTransfers → after.busy ≤ maxOpenTransfers

theorem Slots.trans {first middle last : SftpEngine ι ω} (front : Slots first middle)
    (back : Slots middle last) : Slots first last := by
  have early := front.counted
  have late := back.counted
  exact ⟨by omega, fun few => back.bounded (front.bounded few)⟩

theorem slots_of_fewer {before after : SftpEngine ι ω} (inFlight : after.inFlight = before.inFlight)
    (background : after.background = before.background)
    (downloads : size after.downloads ≤ size before.downloads)
    (uploads : size after.uploads ≤ size before.uploads) : Slots before after := by
  refine ⟨by rw [inFlight, background], fun few => ?_⟩
  rw [SftpEngine.busy] at few ⊢
  omega

theorem slots_same {before after : SftpEngine ι ω} (inFlight : after.inFlight = before.inFlight)
    (background : after.background = before.background)
    (downloads : after.downloads = before.downloads) (uploads : after.uploads = before.uploads) :
    Slots before after :=
  slots_of_fewer inFlight background (congrArg size downloads).le (congrArg size uploads).le

theorem slots_opened {before after : SftpEngine ι ω} {stream : Int} {upload : Upload}
    (free : before.busy < maxOpenTransfers) (inFlight : after.inFlight = before.inFlight)
    (background : after.background = before.background)
    (downloads : after.downloads = before.downloads)
    (uploads : after.uploads = before.uploads.insert stream upload) : Slots before after := by
  refine ⟨by rw [inFlight, background], fun _ => ?_⟩
  have opened := size_insert_le before.uploads stream upload
  rw [SftpEngine.busy] at free
  rw [SftpEngine.busy, inFlight, downloads, uploads]
  omega

section Requests

variable (config : SftpConfig) (host : Host ω) (engine : SftpEngine ι ω)

theorem sendListing_slots (stream : Int) (name path : Text) :
    Slots engine (sendListing host engine stream name path) := by
  simp only [sendListing]
  cases (host.readDir engine.host path).1 <;> exact slots_same rfl rfl rfl rfl

theorem beginDownload_slots (stream : Int) (name path : Text) :
    Slots engine (beginDownload config engine stream name path) := by
  unfold beginDownload
  split
  · exact slots_same rfl rfl rfl rfl
  · split
    · exact slots_same rfl rfl rfl rfl
    · next free =>
        refine ⟨?_, fun _ => ?_⟩
        · simp only [List.length_append, List.length_singleton]
          omega
        · simp only [SftpEngine.busy] at free ⊢
          omega

theorem onGet_slots (name : Text) : Slots engine (onGet config host engine name) := by
  have moved : ∀ world, Slots engine { engine.allocateStream with host := world } :=
    fun world => slots_same rfl rfl rfl rfl
  simp only [onGet]
  split
  · exact slots_same rfl rfl rfl rfl
  · split
    · exact slots_same rfl rfl rfl rfl
    · split
      · exact (moved _).trans (sendListing_slots host _ _ _ _)
      · exact (moved _).trans (beginDownload_slots config _ _ _ _)

theorem continueDownload_slots (stream : Int) :
    Slots engine (continueDownload host engine stream) := by
  simp only [continueDownload]
  split
  · exact slots_same rfl rfl rfl rfl
  · next rest found =>
      have member : stream ∈ engine.downloads := AList.lookup_isSome.mp (by rw [found]; rfl)
      split
      · exact slots_of_fewer rfl rfl (size_erase_le ..) le_rfl
      · split
        · exact slots_of_fewer rfl rfl (size_erase_le ..) le_rfl
        · exact slots_of_fewer rfl rfl (size_insert_of_mem _ member _).le le_rfl

theorem onPut_slots (stream : Int) (name : Text) :
    Slots engine (onPut config host engine stream name) := by
  simp only [onPut]
  split
  · exact slots_same rfl rfl rfl rfl
  split
  · exact slots_same rfl rfl rfl rfl
  next free =>
    split
    · exact slots_same rfl rfl rfl rfl
    split
    · exact slots_same rfl rfl rfl rfl
    split
    · exact slots_same rfl rfl rfl rfl
    split
    · exact slots_same rfl rfl rfl rfl
    split
    · exact slots_opened (Nat.lt_of_not_ge free) rfl rfl rfl rfl
    · exact slots_same rfl rfl rfl rfl

theorem onUploadData_slots (stream : Int) (data : Bytes) :
    Slots engine (onUploadData config host engine stream data) := by
  simp only [onUploadData]
  split
  · exact slots_same rfl rfl rfl rfl
  · next upload found =>
      have member : stream ∈ engine.uploads := AList.lookup_isSome.mp (by rw [found]; rfl)
      split
      · exact slots_of_fewer rfl rfl le_rfl (size_erase_le ..)
      · split
        · exact slots_of_fewer rfl rfl le_rfl (size_insert_of_mem _ member _).le
        · exact slots_of_fewer rfl rfl le_rfl (size_erase_le ..)

theorem onUploadEnd_slots (stream : Int) : Slots engine (onUploadEnd host engine stream) := by
  simp only [onUploadEnd]
  split
  · exact slots_same rfl rfl rfl rfl
  · next upload found =>
      have member : stream ∈ engine.uploads := AList.lookup_isSome.mp (by rw [found]; rfl)
      split
      · refine ⟨?_, fun few => ?_⟩
        · simp only [List.length_append, List.length_singleton]
          omega
        · have moved := size_erase_of_mem engine.uploads member
          simp only [SftpEngine.busy] at few ⊢
          omega
      · exact slots_of_fewer rfl rfl le_rfl (size_erase_le ..)

theorem onFileRequest_slots (request : FileRequest) :
    Slots engine (onFileRequest config host engine request) := by
  have idle : Slots engine engine := slots_same rfl rfl rfl rfl
  cases request with
  | get target name =>
      rw [onFileRequest]
      split
      · exact onGet_slots config host engine name
      · exact idle
  | put target stream mimetype name =>
      rw [onFileRequest]
      split
      · exact onPut_slots config host engine stream name
      · exact idle
  | data stream data => exact onUploadData_slots config host engine stream data
  | endStream stream => exact onUploadEnd_slots host engine stream
  | ack stream status =>
      rw [onFileRequest]
      split
      · split
        · exact continueDownload_slots host engine stream
        · exact slots_of_fewer rfl rfl (size_erase_le ..) le_rfl
      · exact idle

theorem onCompletion_slots (done : Completion) (running : 1 ≤ engine.inFlight) :
    (onCompletion host engine done).inFlight + 1 = engine.inFlight ∧
      (onCompletion host engine done).background = engine.background ∧
      (onCompletion host engine done).busy ≤ engine.busy := by
  cases done with
  | downloadReady stream name staged =>
      simp only [onCompletion]
      split
      · have opened := size_insert_le engine.downloads stream staged
        refine ⟨?_, rfl, ?_⟩ <;> simp only [SftpEngine.busy, SftpEngine.push] <;> omega
      · refine ⟨?_, rfl, ?_⟩ <;> simp only [SftpEngine.busy, SftpEngine.push, SftpEngine.fail] <;>
          omega
  | downloadWithheld stream message =>
      refine ⟨?_, rfl, ?_⟩ <;>
        simp only [onCompletion, SftpEngine.busy, SftpEngine.push, SftpEngine.notice] <;> omega
  | uploadFinished message ok =>
      refine ⟨?_, rfl, ?_⟩ <;>
        simp only [onCompletion, SftpEngine.busy, SftpEngine.push, SftpEngine.notice] <;> omega

end Requests

/-! ### Runs -/

/-- Background work is a task as soon as it is handed over; task numbers are not reused. -/
structure Slotted (system : System ι ω) : Prop where
  idle : system.engine.background = []
  counted : system.engine.inFlight = size system.tasks
  bounded : system.engine.busy ≤ maxOpenTransfers
  fresh : ∀ copy, system.spawned ≤ copy → copy ∉ system.tasks

variable (config : TransferConfig) (host : Host ω) {system : System ι ω}

theorem spawn_fresh (fresh : ∀ copy, system.spawned ≤ copy → copy ∉ system.tasks) (job : Job) :
    ∀ copy, (system.spawn config job).spawned ≤ copy → copy ∉ (system.spawn config job).tasks := by
  intro copy above member
  have past : system.spawned + 1 ≤ copy := above
  rcases (AList.mem_insert _).mp member with same | old
  · omega
  · exact fresh copy (by omega) old

theorem foldl_spawn (jobs : List Job) (system : System ι ω)
    (fresh : ∀ copy, system.spawned ≤ copy → copy ∉ system.tasks) :
    size (jobs.foldl (System.spawn config) system).tasks = size system.tasks + jobs.length ∧
      (jobs.foldl (System.spawn config) system).engine = system.engine ∧
      ∀ copy, (jobs.foldl (System.spawn config) system).spawned ≤ copy →
        copy ∉ (jobs.foldl (System.spawn config) system).tasks := by
  induction jobs generalizing system with
  | nil => exact ⟨rfl, rfl, fresh⟩
  | cons job jobs ih =>
      obtain ⟨counted, engine, later⟩ := ih _ (spawn_fresh config fresh job)
      refine ⟨?_, engine, later⟩
      rw [List.foldl_cons, counted, List.length_cons]
      have one := size_insert_of_notMem system.tasks (fresh _ le_rfl) (Task.start config job)
      rw [System.spawn, one]
      omega

theorem Slotted.request (slotted : Slotted system) (request : FileRequest) :
    Slotted (system.onRequest config host request).1 := by
  have slots := onFileRequest_slots config.toSftpConfig host system.engine request
  rw [System.onRequest]
  generalize onFileRequest config.toSftpConfig host system.engine request = after at slots
  obtain ⟨counted, engine, fresh⟩ :=
    foldl_spawn config after.background { system with engine := after } slotted.fresh
  have handed := slots.counted
  rw [slotted.idle, slotted.counted] at handed
  refine ⟨rfl, ?_, ?_, fresh⟩
  · simp only [System.spawnAll]
    rw [counted, engine]
    exact handed
  · simp only [System.spawnAll]
    rw [engine]
    exact slots.bounded slotted.bounded

theorem Slotted.advance (slotted : Slotted system) (copy : Nat) (answer : TaskAnswer) :
    Slotted (system.advance config copy answer).1 := by
  rw [System.advance]
  split
  · exact slotted
  · next task found =>
      have member : copy ∈ system.tasks := AList.lookup_isSome.mp (by rw [found]; rfl)
      refine ⟨slotted.idle, ?_, slotted.bounded, ?_⟩
      · exact slotted.counted.trans (size_insert_of_mem _ member _).symm
      · intro other above inside
        rcases (AList.mem_insert _).mp inside with rfl | old
        · exact slotted.fresh other above member
        · exact slotted.fresh other above old

theorem Slotted.complete (slotted : Slotted system) (copy : Nat) :
    Slotted (system.complete host copy).1 := by
  rw [System.complete]
  split
  · next job outcome found =>
      have member : copy ∈ system.tasks := AList.lookup_isSome.mp (by rw [found]; rfl)
      have taken := size_erase_of_mem system.tasks member
      have counted := slotted.counted
      obtain ⟨one, idle, fewer⟩ :=
        onCompletion_slots host system.engine (job.completion outcome) (by omega)
      refine ⟨idle.trans slotted.idle, ?_, fewer.trans slotted.bounded, ?_⟩
      · dsimp only
        omega
      · intro other above inside
        exact slotted.fresh other above ((AList.mem_erase).mp inside).2
  · exact slotted

theorem Slotted.step (slotted : Slotted system) (op : SystemOp) :
    Slotted (system.step config host op).1 := by
  cases op with
  | request request => exact slotted.request config host request
  | advance copy answer => exact slotted.advance config copy answer
  | complete copy => exact slotted.complete host copy
  | handOut => exact ⟨slotted.idle, slotted.counted, slotted.bounded, slotted.fresh⟩

/-- In every interleaving, at most eight transfers are open or in the background, and `in_flight`
is the number of tasks whose completion has not been taken. -/
theorem transfers_bounded (inner : ι) (world : ω) (ops : List SystemOp) :
    let system := (run (System.step config host) (System.attach config inner world) ops).1
    size system.engine.downloads + size system.engine.uploads + system.engine.inFlight ≤ 8 ∧
      system.engine.inFlight = size system.tasks := by
  have slotted : Slotted
      (run (System.step config host) (System.attach config inner world) ops).1 := by
    refine run_invariant (fun _ => Slotted) ?_ ?_ ops
    · exact ⟨rfl, rfl, Nat.zero_le 8, fun copy _ member => absurd member (AList.notMem_empty copy)⟩
    · exact fun _ op _ slotted => slotted.step config host op
  exact ⟨slotted.bounded, slotted.counted⟩

end Strata.Engine.Sftp
