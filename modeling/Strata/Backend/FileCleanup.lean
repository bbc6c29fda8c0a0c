import Mathlib.Tactic
import Strata.Backend.FileUploads

/-! The end of a session against the uploads under way. `cleanup_session` takes the files that are
in the index; an upload that is being moved is not among them and enters the index afterwards, and
one that was dropped with its file in place is in no index at all. -/

namespace Strata.Backend.FileStore

open Utf8 (Text)
open Tables (Table)

variable {κ : Type}

def movingUpload : Task → Option Upload
  | .expiring .. => none
  | .moving upload => some upload

def Store.moving (s : Store κ) : List Upload :=
  s.tasks.entries.filterMap fun entry => movingUpload entry.2

/-- The store with what happened to it: the uploads ever admitted, the tokens of those admitted
before a clean-up of their session, and the directories no entry of the index points to. -/
structure Watch (κ : Type) where
  store : Store κ
  admitted : List Upload
  doomed : List Text
  left : List Text

def Watch.new (root : Text) : Watch κ := ⟨.new root, [], [], []⟩

inductive Call (κ : Type) where
  | call (event : Event κ)
  /-- The task's future is dropped when the file has reached the store's directory. -/
  | dropPlaced (key : κ)

def Watch.dooms (w : Watch κ) : Call κ → List Text
  | .call (.cleanupSession sessionId) =>
      (w.admitted.filter fun upload => upload.sessionId = sessionId).map (·.token)
  | _ => []

variable [DecidableEq κ]

def Watch.leaves (w : Watch κ) : Call κ → List Text
  | .dropPlaced key =>
      (((w.store.tasks.lookup key).bind movingUpload).map (·.token)).toList
  | .call _ => []

def Watch.after (w : Watch κ) : Call κ → Store κ × List (Answer κ)
  | .call event => FileStore.step w.store event
  | .dropPlaced key => (w.store.drop key, [])

def Watch.step (w : Watch κ) (call : Call κ) : Watch κ × List (Answer κ) :=
  (⟨(w.after call).1, w.admitted ++ (w.after call).1.moving, w.doomed ++ w.dooms call,
    w.left ++ w.leaves call⟩, (w.after call).2)

/-- No upload admitted before a clean-up of its session is in the index or on disk. -/
def Gone (w : Watch κ) : Prop :=
  ∀ token ∈ w.doomed, w.store.inner.files.lookup token = none ∧ token ∉ w.left

def Spared (w : Watch κ) (key : κ) : Prop :=
  ∀ upload, w.store.tasks.lookup key = some (.moving upload) → upload.token ∉ w.doomed

/-- No upload is indexed, or dropped with its file in place, after a clean-up of its session, and
none was dropped so before one. -/
def Timely (w : Watch κ) : Call κ → Prop
  | .call (.finish key true _) => Spared w key
  | .dropPlaced key => Spared w key
  | call => ∀ token ∈ w.dooms call, token ∉ w.left

/-! ### What was admitted -/

structure Recorded (store : Store κ) (admitted : List Upload) : Prop where
  minted : ∀ upload ∈ admitted, upload.token ∈ store.minted
  session : ∀ upload ∈ admitted, ∀ file,
    store.inner.files.lookup upload.token = some file → file.sessionId = upload.sessionId
  moving : ∀ key upload, store.tasks.lookup key = some (.moving upload) → upload ∈ admitted
  apart : ∀ upload ∈ admitted, ∀ other ∈ admitted, upload.token = other.token → upload = other
  queued : ∀ key todo upload, store.tasks.lookup key = some (.expiring todo (some upload)) →
    ∀ other ∈ admitted, other.token ≠ upload.token

theorem mem_moving {s : Store κ} {upload : Upload} :
    upload ∈ s.moving ↔ ∃ key, s.tasks.lookup key = some (.moving upload) := by
  rw [Store.moving, List.mem_filterMap]
  constructor
  · rintro ⟨⟨key, task⟩, member, carried⟩
    cases task with
    | expiring => cases carried
    | moving =>
        obtain rfl := Option.some.inj carried
        exact ⟨key, AList.mem_lookup_iff.mpr member⟩
  · rintro ⟨key, found⟩
    exact ⟨⟨key, _⟩, AList.mem_lookup_iff.mp found, rfl⟩

structure Passes (s s' : Store κ) : Prop where
  minted : ∀ token ∈ s.minted, token ∈ s'.minted
  filed : ∀ token file, s'.inner.files.lookup token = some file →
    s.inner.files.lookup token = some file ∨ ∃ key upload,
      s.tasks.lookup key = some (.moving upload) ∧ token = upload.token ∧
        file.sessionId = upload.sessionId
  moving : ∀ key upload, s'.tasks.lookup key = some (.moving upload) →
    s.tasks.lookup key = some (.moving upload) ∨
      s.tasks.lookup key = some (.expiring [] (some upload))
  queued : ∀ key todo upload, s'.tasks.lookup key = some (.expiring todo (some upload)) →
    (∃ todo, s.tasks.lookup key = some (.expiring todo (some upload))) ∨
      upload.token ∉ s.minted

variable {s s' : Store κ} {admitted : List Upload}

theorem passes_of_erase {inner : FileStoreInner} {abandoned : List Upload} (key : κ)
    (filed : ∀ token file, inner.files.lookup token = some file →
      s.inner.files.lookup token = some file ∨ ∃ key upload,
        s.tasks.lookup key = some (.moving upload) ∧ token = upload.token ∧
          file.sessionId = upload.sessionId) :
    Passes s ⟨inner, s.tasks.erase key, s.minted, abandoned⟩ where
  minted _ member := member
  filed := filed
  moving _ _ found := .inl (Tables.of_lookup_erase _ found).2
  queued _ todo _ found := .inl ⟨todo, (Tables.of_lookup_erase _ found).2⟩

theorem passes_of_files {inner : FileStoreInner}
    (fewer : ∀ {token file}, inner.files.lookup token = some file →
      s.inner.files.lookup token = some file) : Passes s { s with inner := inner } where
  minted _ member := member
  filed _ _ found := .inl (fewer found)
  moving _ _ found := .inl found
  queued _ todo _ found := .inl ⟨todo, found⟩

theorem passes_of_insert {inner : FileStoreInner} {minted : List Text} {key : κ} {task : Task}
    (kept : ∀ token ∈ s.minted, token ∈ minted)
    (fewer : ∀ {token file}, inner.files.lookup token = some file →
      s.inner.files.lookup token = some file)
    (moving : ∀ upload, task = .moving upload →
      s.tasks.lookup key = some (.expiring [] (some upload)))
    (queued : ∀ todo upload, task = .expiring todo (some upload) →
      (∃ todo, s.tasks.lookup key = some (.expiring todo (some upload))) ∨
        upload.token ∉ s.minted) :
    Passes s ⟨inner, s.tasks.insert key task, minted, s.abandoned⟩ where
  minted := kept
  filed _ _ found := .inl (fewer found)
  moving other upload found := by
    rcases Tables.of_lookup_insert _ found with ⟨rfl, same⟩ | ⟨-, old⟩
    · exact .inr (moving upload same.symm)
    · exact .inl old
  queued other todo upload found := by
    rcases Tables.of_lookup_insert _ found with ⟨rfl, same⟩ | ⟨-, old⟩
    · exact queued todo upload same.symm
    · exact .inl ⟨todo, old⟩

theorem Moves.passes (moves : Moves s s') : Passes s s' := by
  cases moves with
  | stay => exact passes_of_files fun found => found
  | begin =>
      exact passes_of_insert (fun _ member => member) (fun found => found)
        (fun _ same => by cases same) fun _ _ same => by cases same
  | draw _ new =>
      refine passes_of_insert (fun _ member => List.mem_append_left _ member)
        (fun found => found) (fun _ same => by cases same) fun _ _ same => ?_
      cases same
      exact .inr new
  | expire present =>
      refine passes_of_insert (fun _ member => member) lookup_delete
        (fun _ same => by cases same) fun _ _ same => ?_
      cases same
      exact .inl ⟨_, present⟩
  | leave => exact passes_of_erase _ fun _ _ found => .inl found
  | admitUpload present admitted =>
      refine passes_of_insert (fun _ member => member) (fun found => ?_) (fun _ same => ?_)
        fun _ _ same => by cases same
      · rwa [(admitUpload_files admitted).1] at found
      · cases same
        exact present
  | @finish key upload moved now present =>
      refine passes_of_erase key fun token file found => ?_
      obtain ⟨pending, settled⟩ := settle_eq s.inner upload.sessionId
      rw [FileStoreInner.finish, settled] at found
      cases moved with
      | false => exact .inl found
      | true =>
          rcases Tables.of_lookup_insert _ found with ⟨rfl, rfl⟩ | ⟨-, old⟩
          · exact .inr ⟨key, upload, present, rfl, rfl⟩
          · exact .inl old
  | delete => exact passes_of_files lookup_delete
  | cleanupSession => exact passes_of_files lookup_cleanupSession
  | abandon => exact passes_of_erase _ fun _ _ found => .inl found

theorem Recorded.moves (recorded : Recorded s admitted) (sound : Sound s) (moves : Moves s s') :
    Recorded s' (admitted ++ s'.moving) := by
  have passes := moves.passes
  have drawn := (moves.sound sound).drawn
  -- An upload that is moved now was moved before, or waited with a token of its own.
  have entered {key : κ} {upload : Upload} (found : s'.tasks.lookup key = some (.moving upload)) :
      upload ∈ admitted ∨ ∀ other ∈ admitted, other.token ≠ upload.token := by
    rcases passes.moving key upload found with before | queued
    · exact .inl (recorded.moving key upload before)
    · exact .inr (recorded.queued key [] upload queued)
  have agree {upload other : Upload} (old : upload ∈ admitted) {key : κ}
      (found : s'.tasks.lookup key = some (.moving other)) (same : upload.token = other.token) :
      upload = other := by
    rcases entered found with before | apart
    · exact recorded.apart upload old other before same
    · exact absurd same (apart upload old)
  constructor
  case minted =>
    intro upload member
    rcases List.mem_append.mp member with old | new
    · exact passes.minted _ (recorded.minted upload old)
    · obtain ⟨key, found⟩ := mem_moving.mp new
      exact drawn.drawn found rfl
  case session =>
    intro upload member file found
    rcases List.mem_append.mp member with old | new
    · rcases passes.filed _ _ found with before | ⟨key, moved, present, same, session⟩
      · exact recorded.session upload old file before
      · rw [session, recorded.apart upload old moved (recorded.moving key moved present) same]
    · obtain ⟨key, present⟩ := mem_moving.mp new
      rw [drawn.new present rfl] at found
      cases found
  case moving =>
    intro key upload found
    exact List.mem_append_right _ (mem_moving.mpr ⟨key, found⟩)
  case apart =>
    intro upload member other member' same
    rcases List.mem_append.mp member with old | new
    · rcases List.mem_append.mp member' with old' | new'
      · exact recorded.apart upload old other old' same
      · obtain ⟨key, found⟩ := mem_moving.mp new'
        exact agree old found same
    · obtain ⟨key, found⟩ := mem_moving.mp new
      rcases List.mem_append.mp member' with old' | new'
      · exact (agree old' found same.symm).symm
      · obtain ⟨key', found'⟩ := mem_moving.mp new'
        obtain rfl := drawn.apart found found' rfl rfl same
        rw [found] at found'
        cases found'
        rfl
  case queued =>
    intro key todo upload found other member
    rcases List.mem_append.mp member with old | new
    · rcases passes.queued key todo upload found with ⟨before, present⟩ | fresh
      · exact recorded.queued key before upload present other old
      · exact fun same => fresh (same ▸ recorded.minted other old)
    · obtain ⟨key', moved⟩ := mem_moving.mp new
      intro same
      obtain rfl := drawn.apart moved found rfl rfl same
      rw [moved] at found
      cases found

/-! ### Clean-ups -/

variable {w : Watch κ}

theorem after_moves (w : Watch κ) (call : Call κ) : Moves w.store (w.after call).1 := by
  cases call with
  | call event => exact step_moves w.store event
  | dropPlaced key => exact drop_moves w.store key

theorem begin_inner (s : Store κ) (key : κ) (task : Task) : (s.begin key task).inner = s.inner := by
  rw [Store.begin]
  split_ifs <;> rfl

theorem after_files {call : Call κ} (other : ∀ key now, call ≠ .call (.finish key true now))
    {token : Text} {file : StoredFile}
    (found : (w.after call).1.inner.files.lookup token = some file) :
    w.store.inner.files.lookup token = some file := by
  cases call with
  | dropPlaced key =>
      rw [Watch.after, Store.drop] at found
      split at found <;> exact found
  | call event =>
      rw [Watch.after] at found
      cases event with
      | store key sessionId userId filename contentType size drawn now =>
          rw [step, Store.beginStore] at found
          split_ifs at found <;> exact found
      | removeExpired key now =>
          rw [step, begin_inner] at found
          exact found
      | get key wanted now =>
          rw [step] at found
          split at found
          · split_ifs at found
            · rw [begin_inner] at found
              exact found
            · exact found
          · exact found
      | turn key =>
          rw [step, Store.turn] at found
          split at found
          · exact lookup_delete found
          · exact found
          · split at found
            · exact found
            · next admitted =>
                rw [← (admitUpload_files admitted).1]
                exact found
          · exact found
      | finish key moved now =>
          cases moved with
          | true => exact absurd rfl (other key now)
          | false =>
              rw [step, Store.finish] at found
              split at found
              · next upload present =>
                  obtain ⟨pending, settled⟩ := settle_eq w.store.inner upload.sessionId
                  rw [FileStoreInner.finish, settled] at found
                  exact found
              · exact found
      | delete wanted => exact lookup_delete found
      | cleanupSession sessionId => exact lookup_cleanupSession found
      | drop key =>
          rw [step, Store.drop] at found
          split at found <;> exact found

theorem cleanupSession_none {inner : FileStoreInner} (indexed : Indexed inner)
    {sessionId token : Text}
    (own : ∀ file, inner.files.lookup token = some file → file.sessionId = sessionId) :
    (inner.cleanupSession sessionId).1.files.lookup token = none := by
  have listed (file : StoredFile) (found : inner.files.lookup token = some file) :
      token ∈ inner.listed sessionId := by
    have member := indexed.listed found
    rw [own file found] at member
    exact member
  rw [FileStoreInner.listed] at listed
  rw [FileStoreInner.cleanupSession]
  cases present : inner.sessions.lookup sessionId with
  | none =>
      rw [present] at listed
      cases found : inner.files.lookup token with
      | none => rfl
      | some file => exact absurd (listed file found) List.not_mem_nil
  | some tokens =>
      rw [present] at listed
      dsimp only
      rw [lookup_removeFiles]
      split_ifs with member
      · rfl
      · cases found : inner.files.lookup token with
        | none => rfl
        | some file => exact absurd (List.contains_iff_mem.mpr (listed file found)) member

theorem finish_files {key : κ} {upload : Upload} {now : Nat}
    (found : w.store.tasks.lookup key = some (.moving upload)) (token : Text) :
    (w.after (.call (.finish key true now))).1.inner.files.lookup token = none ↔
      token ≠ upload.token ∧ w.store.inner.files.lookup token = none := by
  obtain ⟨pending, settled⟩ := settle_eq w.store.inner upload.sessionId
  rw [Watch.after, step, Store.finish, found]
  dsimp only
  rw [FileStoreInner.finish, settled]
  change (w.store.inner.files.insert upload.token _).lookup token = none ↔ _
  by_cases same : token = upload.token
  · rw [same, AList.lookup_insert]
    simp
  · rw [AList.lookup_insert_ne same]
    simp [same]

theorem gone_quiet (sound : Sound w.store) (recorded : Recorded w.store w.admitted) (gone : Gone w)
    {call : Call κ} (other : ∀ key now, call ≠ .call (.finish key true now))
    (tidy : w.leaves call = []) :
    Gone (w.step call).1 ↔ ∀ token ∈ w.dooms call, token ∉ w.left := by
  have absent {token : Text} (unfiled : w.store.inner.files.lookup token = none) :
      (w.after call).1.inner.files.lookup token = none := by
    cases found : (w.after call).1.inner.files.lookup token with
    | none => rfl
    | some file =>
        rw [after_files other found] at unfiled
        cases unfiled
  have doomed : ∀ token ∈ w.dooms call, (w.after call).1.inner.files.lookup token = none := by
    intro token member
    cases call with
    | dropPlaced key => cases member
    | call event =>
        cases event with
        | cleanupSession sessionId =>
            obtain ⟨upload, chosen, rfl⟩ := List.mem_map.mp member
            obtain ⟨present, session⟩ := List.mem_filter.mp chosen
            refine cleanupSession_none sound.indexed fun file found => ?_
            rw [recorded.session upload present file found]
            exact of_decide_eq_true session
        | _ => cases member
  simp only [Gone, Watch.step, tidy, List.append_nil, List.forall_mem_append]
  constructor
  · rintro ⟨-, new⟩ token member
    exact (new token member).2
  · intro apart
    exact ⟨fun token old => ⟨absent (gone token old).1, (gone token old).2⟩,
      fun token new => ⟨doomed token new, apart token new⟩⟩

theorem spared_of_idle {key : κ}
    (idle : ∀ upload, w.store.tasks.lookup key ≠ some (.moving upload)) : Spared w key :=
  fun upload found => absurd found (idle upload)

theorem spared_iff {key : κ} {upload : Upload}
    (found : w.store.tasks.lookup key = some (.moving upload)) :
    Spared w key ↔ upload.token ∉ w.doomed := by
  refine ⟨fun spared => spared upload found, fun apart other again => ?_⟩
  rw [found] at again
  cases again
  exact apart

theorem gone_finish (gone : Gone w) (key : κ) (now : Nat) :
    Gone (w.step (.call (.finish key true now))).1 ↔ Spared w key := by
  by_cases moves : ∃ upload, w.store.tasks.lookup key = some (.moving upload)
  · obtain ⟨upload, found⟩ := moves
    rw [spared_iff found]
    simp only [Gone, Watch.step, Watch.dooms, Watch.leaves, List.append_nil, finish_files found]
    constructor
    · intro after doomed
      exact (after upload.token doomed).1.1 rfl
    · intro apart token doomed
      exact ⟨⟨fun same => apart (same ▸ doomed), (gone token doomed).1⟩, (gone token doomed).2⟩
  · rw [not_exists] at moves
    have idle : w.after (.call (.finish key true now)) = (w.store, []) := by
      rw [Watch.after, step, Store.finish]
      split
      · next upload found => exact absurd found (moves upload)
      · rfl
    refine iff_of_true ?_ (spared_of_idle moves)
    simp only [Gone, Watch.step, Watch.dooms, Watch.leaves, List.append_nil, idle]
    exact gone

theorem gone_dropPlaced (sound : Sound w.store) (recorded : Recorded w.store w.admitted)
    (gone : Gone w) (key : κ) : Gone (w.step (.dropPlaced key)).1 ↔ Spared w key := by
  by_cases moves : ∃ upload, w.store.tasks.lookup key = some (.moving upload)
  · obtain ⟨upload, found⟩ := moves
    have files : (w.after (.dropPlaced key)).1.inner = w.store.inner := by
      rw [Watch.after, Store.drop, found]
    have leaves : w.leaves (.dropPlaced key) = [upload.token] := by
      rw [Watch.leaves, found]
      rfl
    rw [spared_iff found]
    simp only [Gone, Watch.step, Watch.dooms, leaves, List.append_nil, files, List.mem_append,
      List.mem_singleton, not_or]
    constructor
    · intro after doomed
      exact (after upload.token doomed).2.2 rfl
    · intro apart token doomed
      exact ⟨(gone token doomed).1, (gone token doomed).2, fun same => apart (same ▸ doomed)⟩
  · rw [not_exists] at moves
    have tidy : w.leaves (.dropPlaced key) = [] := by
      rw [Watch.leaves]
      cases found : w.store.tasks.lookup key with
      | none => rfl
      | some task =>
          cases task with
          | expiring => rfl
          | moving upload => exact absurd found (moves upload)
    rw [gone_quiet sound recorded gone (fun _ _ same => by cases same) tidy]
    exact iff_of_true (fun _ member => by cases member) (spared_of_idle moves)

theorem gone_step (sound : Sound w.store) (recorded : Recorded w.store w.admitted)
    (gone : Gone w) (call : Call κ) : Gone (w.step call).1 ↔ Timely w call := by
  have quiet {event : Event κ} (other : ∀ key now, event ≠ .finish key true now) :
      Gone (w.step (.call event)).1 ↔ ∀ token ∈ w.dooms (.call event), token ∉ w.left :=
    gone_quiet sound recorded gone (fun key now same => other key now (Call.call.inj same)) rfl
  cases call with
  | dropPlaced key => exact gone_dropPlaced sound recorded gone key
  | call event =>
      cases event with
      | finish key moved now =>
          cases moved with
          | true => exact gone_finish gone key now
          | false => exact quiet fun _ _ same => by cases same
      | _ => exact quiet fun _ _ same => by cases same

/-- Files admitted before a clean-up of their session stay gone in exactly the runs where none of
their uploads ends well behind it, and none is dropped with its file in place. -/
theorem cleaned_up_iff_timely (root : Text) (calls : List (Call κ)) :
    (∀ past, past <+: calls → Gone (Machine.run Watch.step (.new root) past).1) ↔
      Machine.Meets Watch.step Timely (.new root : Watch κ) calls := by
  have start : Gone (.new root : Watch κ) := fun _ member => by cases member
  refine Machine.kept_iff_meets
    (fun w => Sound w.store ∧ Recorded w.store w.admitted ∧ Gone w)
    ⟨new_sound root, ?_, start⟩ start ?_ ?_ calls
  · constructor
    case minted => exact fun _ member => by cases member
    case session => exact fun _ member => by cases member
    case moving => exact fun _ _ found => by cases found
    case apart => exact fun _ member => by cases member
    case queued => exact fun _ _ _ found => by cases found
  · rintro w call ⟨sound, recorded, gone⟩ timely
    have moves := after_moves w call
    exact ⟨moves.sound sound, recorded.moves sound moves,
      (gone_step sound recorded gone call).mpr timely⟩
  · rintro w call ⟨sound, recorded, gone⟩
    exact gone_step sound recorded gone call

/-- The upload is admitted, the session ends, and the upload is done. -/
theorem late_upload_indexed :
    ¬ Gone (Machine.run Watch.step (.new "/q".toList : Watch Nat)
      [.call (.store 0 "s".toList "u".toList "a.txt".toList "text/plain".toList 5 "t".toList 0),
        .call (.turn 0), .call (.cleanupSession "s".toList), .call (.finish 0 true 0)]).1 := by
  intro gone
  have none := (gone "t".toList (by decide +kernel)).1
  revert none
  decide +kernel

end Strata.Backend.FileStore
