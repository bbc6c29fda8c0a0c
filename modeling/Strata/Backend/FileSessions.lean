import Mathlib.Tactic
import Strata.Backend.FileCleanup

/-! Quick Share and the sessions its files belong to. The upload route finds the caller's session
on a connection and stores the file under the connection id as the form spells it;
`finalize_session` cleans up under the connection id of the session that ends. -/

namespace Strata.Backend.FileSessions

open Utf8 (Text)
open Tables (Table)
open FileStore

structure Uuids (υ : Type) where
  parse : Text → Option υ
  text : υ → Text

structure Session (υ : Type) where
  connectionId : υ
  userId : Text

/-- The session an upload was made in, and the `session_id` its form held. -/
structure Origin where
  session : Text
  sent : Text
  deriving DecidableEq

variable {κ υ : Type}

/-- The registry, the store and the uploads whose form has passed the check; `origins` is
history. -/
structure Share (κ υ : Type) where
  sessions : Table Text (Session υ)
  inner : FileStoreInner
  checked : Table κ (Origin × Text)
  origins : Table Text Origin

def Share.new (root : Text) : Share κ υ := ⟨∅, ⟨∅, ∅, ∅, 0, root⟩, ∅, ∅⟩

inductive Event (κ υ : Type) where
  | register (sessionId : Text) (connectionId : υ) (userId : Text)
  | check (key : κ) (userId sent : Text)
  | store (key : κ) (filename contentType : Text) (size : Nat) (token : Text) (now : Nat)
  | delete (token : Text)
  | finalize (sessionId : Text)

inductive Answer (κ : Type) where
  | invalid (key : κ)
  | forbidden (key : κ)
  | refused (key : κ) (error : FileStoreError)
  | cleaned (count : Nat)

variable [DecidableEq κ] [DecidableEq υ]

def findByConnectionAndUser (sessions : Table Text (Session υ)) (connectionId : υ)
    (userId : Text) : Option Text :=
  (sessions.entries.find? fun entry =>
    entry.2.connectionId = connectionId ∧ entry.2.userId = userId).map (·.1)

def step (uuids : Uuids υ) (s : Share κ υ) : Event κ υ → Share κ υ × List (Answer κ)
  | .register sessionId connectionId userId =>
      ({ s with sessions := s.sessions.insert sessionId ⟨connectionId, userId⟩ }, [])
  | .check key userId sent =>
      match uuids.parse sent with
      | none => (s, [.invalid key])
      | some connectionId =>
          match findByConnectionAndUser s.sessions connectionId userId with
          | none => (s, [.forbidden key])
          | some session =>
              ({ s with checked := s.checked.insert key (⟨session, sent⟩, userId) }, [])
  | .store key filename contentType size token now =>
      match s.checked.lookup key with
      | none => (s, [])
      | some (origin, userId) =>
          if token ∈ s.inner.files then (s, [])
          else if size > maxFileSize then (s, [.refused key .tooLarge])
          else
            let upload : Upload :=
              ⟨origin.sent, userId, safeName filename, contentType, size, token⟩
            match s.inner.admitUpload upload with
            | .error error => (s, [.refused key error])
            | .ok inner =>
                ({ s with
                    inner := (inner.finish upload true now).1
                    checked := s.checked.erase key
                    origins := s.origins.insert token origin }, [])
  | .delete token => ({ s with inner := (s.inner.delete token).1 }, [])
  | .finalize sessionId =>
      match s.sessions.lookup sessionId with
      | none => (s, [])
      | some session =>
          let cleaned := s.inner.cleanupSession (uuids.text session.connectionId)
          ({ s with sessions := s.sessions.erase sessionId, inner := cleaned.1 },
            [.cleaned cleaned.2])

def TakesOwn (uuids : Uuids υ) (s : Share κ υ) : Event κ υ → Prop
  | .finalize sessionId =>
      ∀ token file, s.inner.files.lookup token = some file →
        (step uuids s (.finalize sessionId)).1.inner.files.lookup token = none →
        (s.origins.lookup token).map (·.session) = some sessionId
  | _ => True

/-- When a session ends, no file in the store was uploaded in another one under the id of the same
connection, as `Uuid` writes it. -/
def Unshared (uuids : Uuids υ) (s : Share κ υ) : Event κ υ → Prop
  | .finalize sessionId =>
      ∀ session ∈ s.sessions.lookup sessionId, ∀ token, token ∈ s.inner.files →
        ∀ origin ∈ s.origins.lookup token, origin.sent = uuids.text session.connectionId →
          origin.session = sessionId
  | _ => True

/-! ### Files and their origins -/

structure Sound (s : Share κ υ) : Prop where
  indexed : Indexed s.inner
  origins : ∀ token file, s.inner.files.lookup token = some file →
    ∃ origin, s.origins.lookup token = some origin ∧ origin.sent = file.sessionId

theorem cleanupSession_none_iff {inner : FileStoreInner} (indexed : Indexed inner)
    {token sessionId : Text} {file : StoredFile} (found : inner.files.lookup token = some file) :
    (inner.cleanupSession sessionId).1.files.lookup token = none ↔ file.sessionId = sessionId := by
  constructor
  · intro gone
    rw [FileStoreInner.cleanupSession] at gone
    split at gone
    · rw [found] at gone
      cases gone
    · next tokens listed =>
        rw [lookup_removeFiles] at gone
        split_ifs at gone with member
        · have inside : token ∈ inner.listed sessionId := by
            rw [FileStoreInner.listed, listed]
            exact List.contains_iff_mem.mp member
          obtain ⟨same, again, session⟩ := indexed.known inside
          rw [found] at again
          cases again
          exact session
        · rw [found] at gone
          cases gone
  · intro same
    refine cleanupSession_none indexed fun other again => ?_
    rw [found] at again
    cases again
    exact same

variable {uuids : Uuids υ} {s : Share κ υ}

omit [DecidableEq κ] [DecidableEq υ] in
theorem Sound.fewer {inner : FileStoreInner} {sessions : Table Text (Session υ)}
    {checked : Table κ (Origin × Text)} (sound : Sound s) (indexed : Indexed inner)
    (files : ∀ {token file}, inner.files.lookup token = some file →
      s.inner.files.lookup token = some file) :
    Sound ⟨sessions, inner, checked, s.origins⟩ :=
  ⟨indexed, fun token file found => sound.origins token file (files found)⟩

theorem sound_step (sound : Sound s) (event : Event κ υ) : Sound (step uuids s event).1 := by
  cases event with
  | register sessionId connectionId userId => exact sound.fewer sound.indexed fun found => found
  | check key userId sent =>
      rw [step]
      split
      · exact sound
      · split
        · exact sound
        · exact sound.fewer sound.indexed fun found => found
  | store key filename contentType size token now =>
      rw [step]
      split
      · exact sound
      · next origin userId _ =>
          split_ifs with used large
          · exact sound
          · exact sound
          · dsimp only
            split
            · exact sound
            · next inner admitted =>
                obtain ⟨files, sessions⟩ := admitUpload_files admitted
                obtain ⟨pending, settled⟩ := settle_eq inner origin.sent
                have indexed : Indexed { inner with pending := pending } :=
                  (sound.indexed.same files sessions).same rfl rfl
                rw [FileStoreInner.finish, settled]
                constructor
                case indexed =>
                  refine indexed.insert ?_
                  change inner.files.lookup token = none
                  rw [files]
                  exact AList.lookup_eq_none.mpr used
                case origins =>
                  intro other file found
                  rcases Tables.of_lookup_insert _ found with ⟨rfl, rfl⟩ | ⟨apart, old⟩
                  · exact ⟨origin, AList.lookup_insert _, rfl⟩
                  · change inner.files.lookup other = some file at old
                    rw [files] at old
                    obtain ⟨known, present, sent⟩ := sound.origins other file old
                    exact ⟨known, (AList.lookup_insert_ne apart).trans present, sent⟩
  | delete token => exact sound.fewer (sound.indexed.delete token) lookup_delete
  | finalize sessionId =>
      rw [step]
      split
      · exact sound
      · exact sound.fewer (sound.indexed.cleanupSession _) lookup_cleanupSession

theorem takesOwn_iff (sound : Sound s) (event : Event κ υ) :
    TakesOwn uuids s event ↔ Unshared uuids s event := by
  cases event with
  | finalize sessionId =>
      rw [TakesOwn, Unshared, step]
      cases ended : s.sessions.lookup sessionId with
      | none =>
          refine iff_of_true (fun token file found gone => ?_) fun _ absent => by cases absent
          rw [found] at gone
          cases gone
      | some session =>
          dsimp only
          constructor
          · rintro own _ ⟨⟩ token present origin origins sent
            obtain ⟨file, found⟩ := Option.isSome_iff_exists.mp (AList.lookup_isSome.mpr present)
            obtain ⟨known, again, named⟩ := sound.origins token file found
            rw [origins] at again
            cases again
            have mine := own token file found
              ((cleanupSession_none_iff sound.indexed found).mpr (named.symm.trans sent))
            rw [origins] at mine
            exact Option.some.inj mine
          · intro unshared token file found gone
            obtain ⟨origin, origins, sent⟩ := sound.origins token file found
            rw [(cleanupSession_none_iff sound.indexed found).mp gone] at sent
            rw [origins, Option.map_some, unshared session rfl token
              (AList.lookup_isSome.mp (by rw [found]; rfl)) origin origins sent]
  | _ => exact Iff.rfl

/-- Ends of sessions take only their own files in exactly the runs where, whenever a session ends,
the files kept under its connection were all uploaded in it. -/
theorem ends_take_own_iff_unshared (uuids : Uuids υ) (root : Text) (events : List (Event κ υ)) :
    Machine.Meets (step uuids) (TakesOwn uuids) (.new root) events ↔
      Machine.Meets (step uuids) (Unshared uuids) (.new root) events := by
  have start : Sound (.new root : Share κ υ) :=
    ⟨(new_sound (κ := κ) root).indexed, fun _ _ found => by cases found⟩
  exact Machine.meets_iff_of_invariant Sound start (fun _ event sound => sound_step sound event)
    (fun _ event sound => takesOwn_iff sound event) events

def plainUuids : Uuids Text := ⟨some, id⟩

/-- Two users on one connection; the file of the second goes with the session of the first. -/
theorem other_users_file_taken :
    ¬ Machine.Meets (step plainUuids) (TakesOwn plainUuids) (.new "/q".toList : Share Nat Text)
      [.register "a".toList "c".toList "anna".toList, .register "b".toList "c".toList "ben".toList,
        .check 0 "ben".toList "c".toList,
        .store 0 "x.txt".toList "text/plain".toList 5 "t".toList 0, .finalize "a".toList] := by
  rintro ⟨-, -, -, -, own, -⟩
  have mine := own "t".toList _ (by rfl) (by rfl)
  revert mine
  decide +kernel

end Strata.Backend.FileSessions
