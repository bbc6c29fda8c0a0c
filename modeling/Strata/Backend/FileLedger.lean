import Mathlib.Tactic
import Strata.Backend.FileStore

/-! The books of the file store: the reserved bytes against the files, the uploads under way and
those that were abandoned, the pending counts likewise, and the two indexes against each other,
under each of the store's operations. -/

namespace Strata.Backend.FileStore

open Utf8 (Text)
open Tables (Table)

variable {κ : Type} {inner : FileStoreInner} {upload : Upload}

/-! ### The two indexes -/

/-- Every file is listed under its session, every listed token is a file of that session. -/
structure Indexed (inner : FileStoreInner) : Prop where
  keyed : ∀ {token file}, inner.files.lookup token = some file → file.token = token
  listed : ∀ {token file}, inner.files.lookup token = some file →
    token ∈ inner.listed file.sessionId
  known : ∀ {token sessionId}, token ∈ inner.listed sessionId →
    ∃ file, inner.files.lookup token = some file ∧ file.sessionId = sessionId
  nodup : ∀ sessionId, (inner.listed sessionId).Nodup

theorem listed_insert (file : StoredFile) (sessionId : Text) :
    (inner.insert file).listed sessionId =
      if sessionId = file.sessionId then inner.listed sessionId ++ [file.token]
      else inner.listed sessionId := by
  rw [FileStoreInner.listed, FileStoreInner.insert]
  split_ifs with same
  · subst same
    rw [AList.lookup_insert]
    rfl
  · rw [AList.lookup_insert_ne same]
    rfl

theorem length_insert (file : StoredFile) (sessionId : Text) :
    ((inner.insert file).listed sessionId).length =
      (inner.listed sessionId).length + if file.sessionId = sessionId then 1 else 0 := by
  rw [listed_insert]
  by_cases same : file.sessionId = sessionId
  · rw [if_pos same.symm, if_pos same, List.length_append, List.length_singleton]
  · rw [if_neg (Ne.symm same), if_neg same, Nat.add_zero]

theorem listed_unlist (sessionId token other : Text) :
    (inner.unlist sessionId token).listed other =
      if other = sessionId then (inner.listed other).filter (· ≠ token)
      else inner.listed other := by
  rw [FileStoreInner.unlist]
  cases found : inner.sessions.lookup sessionId with
  | none =>
      split_ifs with same
      · subst same
        rw [FileStoreInner.listed, found]
        rfl
      · rfl
  | some tokens =>
      dsimp only
      by_cases same : other = sessionId
      · subst same
        rw [if_pos rfl, FileStoreInner.listed, FileStoreInner.listed, found, Option.getD_some]
        split_ifs with empty
        · rw [AList.lookup_erase]
          exact empty.symm
        · rw [AList.lookup_insert]
          rfl
      · rw [if_neg same, FileStoreInner.listed, FileStoreInner.listed]
        split_ifs
        · rw [AList.lookup_erase_ne same]
        · rw [AList.lookup_insert_ne same]

theorem unlist_eq (inner : FileStoreInner) (sessionId token : Text) :
    ∃ sessions, inner.unlist sessionId token = { inner with sessions := sessions } := by
  rw [FileStoreInner.unlist]
  split
  · exact ⟨inner.sessions, rfl⟩
  · split_ifs
    · exact ⟨_, rfl⟩
    · exact ⟨_, rfl⟩

theorem files_unlist (sessionId token : Text) :
    (inner.unlist sessionId token).files = inner.files := by
  obtain ⟨sessions, same⟩ := unlist_eq inner sessionId token
  rw [same]

theorem lookup_removeFile (token other : Text) :
    (inner.removeFile token).files.lookup other =
      if other = token then none else inner.files.lookup other := by
  rw [FileStoreInner.removeFile]
  cases found : inner.files.lookup token with
  | none =>
      split_ifs with same
      · rw [same]
        exact found
      · rfl
  | some file =>
      split_ifs with same
      · rw [same]
        exact AList.lookup_erase ..
      · exact AList.lookup_erase_ne same

theorem sessions_removeFile (token : Text) :
    (inner.removeFile token).sessions = inner.sessions := by
  rw [FileStoreInner.removeFile]
  split <;> rfl

theorem lookup_removeFiles (tokens : List Text) (other : Text) :
    (tokens.foldl FileStoreInner.removeFile inner).files.lookup other =
      if tokens.contains other then none else inner.files.lookup other := by
  induction tokens generalizing inner with
  | nil => rfl
  | cons token tokens ih =>
      rw [List.foldl_cons, ih, lookup_removeFile, List.contains_cons]
      by_cases same : other = token
      · simp [same]
      · simp [same]

theorem sessions_removeFiles (tokens : List Text) :
    (tokens.foldl FileStoreInner.removeFile inner).sessions = inner.sessions := by
  induction tokens generalizing inner with
  | nil => rfl
  | cons token tokens ih => rw [List.foldl_cons, ih, sessions_removeFile]

theorem Indexed.insert (indexed : Indexed inner) {file : StoredFile}
    (new : inner.files.lookup file.token = none) : Indexed (inner.insert file) := by
  have unlisted (sessionId : Text) : file.token ∉ inner.listed sessionId := by
    intro member
    obtain ⟨other, found, -⟩ := indexed.known member
    rw [new] at found
    cases found
  have lookup (token : Text) : (inner.insert file).files.lookup token =
      if token = file.token then some file else inner.files.lookup token := by
    split_ifs with same
    · rw [same]
      exact AList.lookup_insert _
    · exact AList.lookup_insert_ne same
  constructor
  case keyed =>
    intro token found present
    rw [lookup] at present
    split_ifs at present with same
    · cases present
      exact same.symm
    · exact indexed.keyed present
  case listed =>
    intro token found present
    rw [lookup] at present
    rw [listed_insert]
    split_ifs at present with same
    · cases present
      rw [if_pos rfl, same]
      exact List.mem_append_right _ (List.mem_singleton_self _)
    · have old := indexed.listed present
      split_ifs
      · exact List.mem_append_left _ old
      · exact old
  case known =>
    intro token sessionId member
    rw [listed_insert] at member
    rw [lookup]
    have old (member : token ∈ inner.listed sessionId) :
        ∃ found, (if token = file.token then some file else inner.files.lookup token) =
          some found ∧ found.sessionId = sessionId := by
      have other : token ≠ file.token := by
        rintro rfl
        exact unlisted sessionId member
      rw [if_neg other]
      exact indexed.known member
    split_ifs at member with same
    · rcases List.mem_append.mp member with before | now
      · exact old before
      · rw [if_pos (List.mem_singleton.mp now)]
        exact ⟨file, rfl, same.symm⟩
    · exact old member
  case nodup =>
    intro sessionId
    rw [listed_insert]
    split_ifs
    · exact List.nodup_append.mpr ⟨indexed.nodup sessionId, List.nodup_singleton _, by
        rintro token before _ now rfl
        exact unlisted sessionId (List.mem_singleton.mp now ▸ before)⟩
    · exact indexed.nodup sessionId

theorem Indexed.remove {inner' : FileStoreInner} (indexed : Indexed inner) (gone : Text → Bool)
    (lookup : ∀ token, inner'.files.lookup token =
      if gone token then none else inner.files.lookup token)
    (listed : ∀ sessionId, inner'.listed sessionId =
      (inner.listed sessionId).filter (!gone ·)) : Indexed inner' := by
  constructor
  case keyed =>
    intro token file present
    rw [lookup] at present
    split_ifs at present
    exact indexed.keyed present
  case listed =>
    intro token file present
    rw [lookup] at present
    split_ifs at present with stays
    rw [listed]
    exact List.mem_filter.mpr ⟨indexed.listed present, by simp [stays]⟩
  case known =>
    intro token sessionId member
    rw [listed] at member
    obtain ⟨before, stays⟩ := List.mem_filter.mp member
    rw [lookup, if_neg (by simpa using stays)]
    exact indexed.known before
  case nodup =>
    intro sessionId
    rw [listed]
    exact (indexed.nodup sessionId).filter _

theorem Indexed.session (indexed : Indexed inner) {token sessionId other : Text}
    (here : token ∈ inner.listed sessionId) (there : token ∈ inner.listed other) :
    sessionId = other := by
  obtain ⟨file, found, rfl⟩ := indexed.known here
  obtain ⟨same, again, rfl⟩ := indexed.known there
  rw [found] at again
  cases again
  rfl

theorem Indexed.delete (indexed : Indexed inner) (token : Text) :
    Indexed (inner.delete token).1 := by
  rw [FileStoreInner.delete]
  cases found : inner.files.lookup token with
  | none => exact indexed
  | some file =>
      refine indexed.remove (decide <| · = token) ?_ ?_
      · intro other
        rw [files_unlist, lookup_removeFile]
        simp
      · intro sessionId
        rw [listed_unlist, FileStoreInner.listed, sessions_removeFile, ← FileStoreInner.listed]
        split_ifs with same
        · exact List.filter_congr fun other _ => by simp
        · refine (List.filter_eq_self.mpr fun other member => ?_).symm
          have apart : other ≠ token := by
            rintro rfl
            exact same (indexed.session member (indexed.listed found))
          simp [apart]

theorem Indexed.cleanupSession (indexed : Indexed inner) (sessionId : Text) :
    Indexed (inner.cleanupSession sessionId).1 := by
  rw [FileStoreInner.cleanupSession]
  cases found : inner.sessions.lookup sessionId with
  | none => exact indexed
  | some tokens =>
      have own : inner.listed sessionId = tokens := by
        rw [FileStoreInner.listed, found]
        rfl
      refine indexed.remove tokens.contains (fun other => lookup_removeFiles tokens other) ?_
      intro other
      rw [FileStoreInner.listed, sessions_removeFiles]
      by_cases same : other = sessionId
      · subst same
        rw [AList.lookup_erase, own]
        refine (List.filter_eq_nil_iff.mpr fun token member => ?_).symm
        simp [member]
      · rw [AList.lookup_erase_ne same, ← FileStoreInner.listed]
        refine (List.filter_eq_self.mpr fun token member => ?_).symm
        have apart : token ∉ tokens := by
          intro listed
          rw [← own] at listed
          exact same (indexed.session member listed)
        simp [apart]

/-! ### The bytes -/

def FileStoreInner.held (inner : FileStoreInner) : Nat :=
  Tables.total (·.size) inner.files

def Reserves (extra : Nat) (inner : FileStoreInner) : Prop :=
  inner.reservedBytes = inner.held + extra

theorem Reserves.removeFile {extra : Nat} (reserves : Reserves extra inner) (token : Text) :
    Reserves extra (inner.removeFile token) := by
  rw [FileStoreInner.removeFile]
  cases found : inner.files.lookup token with
  | none => exact reserves
  | some file =>
      have left := Tables.total_erase_of_lookup (·.size) inner.files found
      unfold Reserves FileStoreInner.held at reserves ⊢
      dsimp only
      omega

theorem Reserves.removeFiles {extra : Nat} (reserves : Reserves extra inner)
    (tokens : List Text) : Reserves extra (tokens.foldl FileStoreInner.removeFile inner) := by
  induction tokens generalizing inner with
  | nil => exact reserves
  | cons token tokens ih => exact ih (reserves.removeFile token)

theorem Reserves.delete {extra : Nat} (reserves : Reserves extra inner) (token : Text) :
    Reserves extra (inner.delete token).1 := by
  rw [FileStoreInner.delete]
  split
  · exact reserves
  · rename_i file found
    obtain ⟨sessions, same⟩ := unlist_eq (inner.removeFile token) file.sessionId token
    rw [same]
    exact reserves.removeFile token

theorem Reserves.cleanupSession {extra : Nat} (reserves : Reserves extra inner)
    (sessionId : Text) : Reserves extra (inner.cleanupSession sessionId).1 := by
  rw [FileStoreInner.cleanupSession]
  split
  · exact reserves
  · rename_i tokens found
    have unlisted : Reserves extra { inner with sessions := inner.sessions.erase sessionId } :=
      reserves
    exact unlisted.removeFiles tokens

/-! ### The pending counts -/

theorem pending_removeFile (token : Text) :
    (inner.removeFile token).pending = inner.pending := by
  rw [FileStoreInner.removeFile]
  split <;> rfl

theorem pending_removeFiles (tokens : List Text) :
    (tokens.foldl FileStoreInner.removeFile inner).pending = inner.pending := by
  induction tokens generalizing inner with
  | nil => rfl
  | cons token tokens ih => rw [List.foldl_cons, ih, pending_removeFile]

theorem pending_delete (token : Text) : (inner.delete token).1.pending = inner.pending := by
  rw [FileStoreInner.delete]
  split
  · rfl
  · rename_i file found
    obtain ⟨sessions, same⟩ := unlist_eq (inner.removeFile token) file.sessionId token
    rw [same]
    exact pending_removeFile token

theorem pending_cleanupSession (sessionId : Text) :
    (inner.cleanupSession sessionId).1.pending = inner.pending := by
  rw [FileStoreInner.cleanupSession]
  split
  · rfl
  · exact pending_removeFiles _

theorem pendingOf_settle (sessionId other : Text) :
    (inner.settle sessionId).pendingOf other =
      if other = sessionId then inner.pendingOf other - 1 else inner.pendingOf other := by
  rw [FileStoreInner.settle]
  cases found : inner.pending.lookup sessionId with
  | none =>
      split_ifs with same
      · subst same
        rw [FileStoreInner.pendingOf, found]
        rfl
      · rfl
  | some n =>
      dsimp only
      by_cases same : other = sessionId
      · subst same
        rw [if_pos rfl, FileStoreInner.pendingOf, FileStoreInner.pendingOf, found,
          Option.getD_some]
        split_ifs with last
        · rw [AList.lookup_erase]
          exact last.symm
        · rw [AList.lookup_insert]
          rfl
      · rw [if_neg same, FileStoreInner.pendingOf, FileStoreInner.pendingOf]
        split_ifs
        · rw [AList.lookup_erase_ne same]
        · rw [AList.lookup_insert_ne same]

theorem settle_eq (inner : FileStoreInner) (sessionId : Text) :
    ∃ pending, inner.settle sessionId = { inner with pending := pending } := by
  rw [FileStoreInner.settle]
  split
  · exact ⟨inner.pending, rfl⟩
  · split_ifs
    · exact ⟨_, rfl⟩
    · exact ⟨_, rfl⟩

structure Finished (upload : Upload) (inner inner' : FileStoreInner) : Prop where
  pending : ∀ sessionId, inner'.pendingOf sessionId =
    (inner.settle upload.sessionId).pendingOf sessionId
  length : ∀ sessionId, (inner'.listed sessionId).length =
    (inner.listed sessionId).length + if upload.sessionId = sessionId then 1 else 0
  held : inner'.held = inner.held + upload.size
  reserved : inner'.reservedBytes = inner.reservedBytes

theorem finish_finished (new : inner.files.lookup upload.token = none) (now : Nat) :
    Finished upload inner (inner.finish upload true now).1 := by
  obtain ⟨pending, settled⟩ := settle_eq inner upload.sessionId
  have absent : upload.token ∉ inner.files := AList.lookup_eq_none.mp new
  rw [FileStoreInner.finish]
  constructor
  case pending => exact fun _ => rfl
  case length =>
    intro sessionId
    rw [settled]
    exact length_insert ..
  case held =>
    rw [settled]
    exact Tables.total_insert_of_notMem (·.size) inner.files absent _
  case reserved =>
    rw [settled]
    rfl

structure Failed (upload : Upload) (inner inner' : FileStoreInner) : Prop where
  pending : ∀ sessionId, inner'.pendingOf sessionId =
    (inner.settle upload.sessionId).pendingOf sessionId
  listed : ∀ sessionId, inner'.listed sessionId = inner.listed sessionId
  held : inner'.held = inner.held
  reserved : inner'.reservedBytes = inner.reservedBytes - upload.size

theorem finish_failed (inner : FileStoreInner) (upload : Upload) (now : Nat) :
    Failed upload inner (inner.finish upload false now).1 := by
  obtain ⟨pending, settled⟩ := settle_eq inner upload.sessionId
  rw [FileStoreInner.finish]
  constructor
  case pending => exact fun _ => rfl
  case listed =>
    rw [settled]
    exact fun _ => rfl
  case held =>
    rw [settled]
    rfl
  case reserved =>
    rw [settled]
    rfl

theorem length_delete_le (token sessionId : Text) :
    ((inner.delete token).1.listed sessionId).length ≤ (inner.listed sessionId).length := by
  rw [FileStoreInner.delete]
  split
  · exact le_rfl
  · rw [listed_unlist, FileStoreInner.listed, sessions_removeFile, ← FileStoreInner.listed]
    split_ifs
    · exact List.length_filter_le ..
    · exact le_rfl

theorem length_cleanupSession_le (sessionId other : Text) :
    ((inner.cleanupSession sessionId).1.listed other).length ≤ (inner.listed other).length := by
  rw [FileStoreInner.cleanupSession]
  split
  · exact le_rfl
  · rw [FileStoreInner.listed, sessions_removeFiles]
    by_cases same : other = sessionId
    · subst same
      rw [AList.lookup_erase]
      exact Nat.zero_le _
    · rw [AList.lookup_erase_ne same]
      exact le_rfl

theorem lookup_delete {token other : Text} {file : StoredFile}
    (left : (inner.delete token).1.files.lookup other = some file) :
    inner.files.lookup other = some file := by
  rw [FileStoreInner.delete] at left
  split at left
  · exact left
  · rw [files_unlist, lookup_removeFile] at left
    split_ifs at left
    exact left

theorem lookup_cleanupSession {sessionId other : Text} {file : StoredFile}
    (left : (inner.cleanupSession sessionId).1.files.lookup other = some file) :
    inner.files.lookup other = some file := by
  rw [FileStoreInner.cleanupSession] at left
  split at left
  · exact left
  · rw [lookup_removeFiles] at left
    split_ifs at left
    exact left

theorem reserved_removeFiles_le (tokens : List Text) :
    (tokens.foldl FileStoreInner.removeFile inner).reservedBytes ≤ inner.reservedBytes := by
  induction tokens generalizing inner with
  | nil => exact le_rfl
  | cons token tokens ih =>
      refine ih.trans ?_
      rw [FileStoreInner.removeFile]
      split
      · exact le_rfl
      · exact Nat.sub_le ..

structure Removes (inner inner' : FileStoreInner) : Prop where
  indexed : Indexed inner → Indexed inner'
  reserves : ∀ {extra}, Reserves extra inner → Reserves extra inner'
  pending : inner'.pending = inner.pending
  shorter : ∀ sessionId, (inner'.listed sessionId).length ≤ (inner.listed sessionId).length
  files : ∀ {token file}, inner'.files.lookup token = some file →
    inner.files.lookup token = some file
  reserved : inner'.reservedBytes ≤ inner.reservedBytes

theorem delete_removes (inner : FileStoreInner) (token : Text) :
    Removes inner (inner.delete token).1 where
  indexed indexed := indexed.delete token
  reserves reserves := reserves.delete token
  pending := pending_delete token
  shorter := length_delete_le token
  files := lookup_delete
  reserved := by
    rw [FileStoreInner.delete]
    split
    · exact le_rfl
    · rename_i file found
      obtain ⟨sessions, same⟩ := unlist_eq (inner.removeFile token) file.sessionId token
      rw [same]
      exact reserved_removeFiles_le [token]

theorem cleanupSession_removes (inner : FileStoreInner) (sessionId : Text) :
    Removes inner (inner.cleanupSession sessionId).1 where
  indexed indexed := indexed.cleanupSession sessionId
  reserves reserves := reserves.cleanupSession sessionId
  pending := pending_cleanupSession sessionId
  shorter := length_cleanupSession_le sessionId
  files := lookup_cleanupSession
  reserved := by
    rw [FileStoreInner.cleanupSession]
    split
    · exact le_rfl
    · exact reserved_removeFiles_le _

end Strata.Backend.FileStore
