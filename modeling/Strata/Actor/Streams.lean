import Mathlib.Tactic
import Strata.Lib.Base64
import Strata.Lib.Tables

/-! The client streams a session actor is receiving: the operator's clipboard
streams, a shared-control guest's, and the uploads. Everything the actor does to
them is one of a few elementary changes, each under the guards the code checks. -/

namespace Strata.Actor

open Utf8 (Text Bytes)
open Tables

def maxClipboardBytes : Nat := 8 * 1024 * 1024
def maxClipboardStreams : Nat := 4
def maxClipboardSessionBytes : Nat := 2 * maxClipboardBytes
def maxUploadStreams : Nat := 16
def maxClipboardProcessBytes : Nat := 256 * 1024 * 1024
def maxGuestClipboardStreams : Nat := 1

def clipboardIdle : Nat := 30 * 1000000000

def statusBadRequest : Int := 0x0300
def statusOverrun : Int := 0x030D
def statusBadType : Int := 0x030F
def statusTooMany : Int := 0x031D

structure Refusal where
  status : Int
  message : Text
  deriving DecidableEq, Repr

structure PendingClipboard where
  data : Bytes
  touched : Nat
  deriving DecidableEq, Repr

inductive CounterOp where
  | add (bytes : Nat)
  | sub (bytes : Nat)
  deriving DecidableEq, Repr

def PendingClipboard.drop (pending : PendingClipboard) : CounterOp := .sub pending.data.length

structure ClientStreams where
  clipboardStreams : Table Int PendingClipboard
  guestClipboardStreams : Table Int PendingClipboard
  uploadStreams : Finset Int

/-- What the actor learns from outside while it handles one client stream: the
time, the rate limiter's verdict and the counter it loads. -/
structure Reading where
  now : Nat
  mayOpen : Bool
  processBytes : Nat
  deriving Repr

def Reading.live (reading : Reading) (pending : PendingClipboard) : Bool :=
  reading.now - pending.touched < clipboardIdle

namespace ClientStreams

def empty : ClientStreams := ⟨∅, ∅, ∅⟩

def table (streams : ClientStreams) (guest : Bool) : Table Int PendingClipboard :=
  if guest then streams.guestClipboardStreams else streams.clipboardStreams

def withTable (streams : ClientStreams) (guest : Bool) (table : Table Int PendingClipboard) :
    ClientStreams :=
  if guest then { streams with guestClipboardStreams := table }
  else { streams with clipboardStreams := table }

def limit (guest : Bool) : Nat := if guest then maxGuestClipboardStreams else maxClipboardStreams

def streamInUse (streams : ClientStreams) (stream : Int) : Bool :=
  decide (stream ∈ streams.clipboardStreams) || decide (stream ∈ streams.uploadStreams)

def bytesOf (table : Table Int PendingClipboard) : Nat :=
  total (fun pending => pending.data.length) table

def buffered (streams : ClientStreams) : Nat :=
  bytesOf streams.clipboardStreams + bytesOf streams.guestClipboardStreams

def dropAll (table : Table Int PendingClipboard) : List CounterOp :=
  table.entries.map fun entry => entry.2.drop

def openClipboard (reading : Reading) (streams : ClientStreams) (stream : Int) (guest : Bool) :
    Option Refusal × ClientStreams × List CounterOp :=
  if !guest && streams.streamInUse stream then
    (some ⟨statusBadRequest, "stream already in use".toList⟩, streams, [])
  else
    let dropped := dropAll (retain (fun pending => !reading.live pending) (streams.table guest))
    let kept := streams.withTable guest (retain reading.live (streams.table guest))
    if stream ∈ kept.table guest then
      (some ⟨statusBadRequest, "stream already in use".toList⟩, kept, dropped)
    else if size (kept.table guest) ≥ limit guest then
      (some ⟨statusTooMany, "too many clipboard streams".toList⟩, kept, dropped)
    else if !reading.mayOpen then
      (some ⟨statusTooMany, "opening streams too fast".toList⟩, kept, dropped)
    else
      (none, kept.withTable guest ((kept.table guest).insert stream ⟨[], reading.now⟩), dropped)

def appendClipboard (base64 : Base64.Codec) (reading : Reading) (streams : ClientStreams)
    (stream : Int) (data : Text) (guest : Bool) :
    Option Refusal × ClientStreams × List CounterOp :=
  match (streams.table guest).lookup stream with
  | none => (none, streams, [])
  | some pending =>
      let incoming := base64.decodedLenEstimate (Utf8.encode data).length
      let removed := streams.withTable guest ((streams.table guest).erase stream)
      if pending.data.length + incoming > maxClipboardBytes ∨
          streams.buffered + incoming > maxClipboardSessionBytes then
        (some ⟨statusOverrun, "clipboard content too large".toList⟩, removed, [pending.drop])
      else if reading.processBytes + incoming > maxClipboardProcessBytes then
        (some ⟨statusTooMany, "the server is busy; try again".toList⟩, removed, [pending.drop])
      else
        match base64.decode data with
        | none =>
            (some ⟨statusBadRequest, "malformed clipboard data".toList⟩, removed, [pending.drop])
        | some decoded =>
            (none,
              streams.withTable guest
                ((streams.table guest).insert stream ⟨pending.data ++ decoded, reading.now⟩),
              [.add decoded.length])

/-- `remove`, then `mem::take` of the data, then the drop of what is left. -/
def takeClipboard (streams : ClientStreams) (stream : Int) (guest : Bool) :
    Option Bytes × ClientStreams × List CounterOp :=
  match (streams.table guest).lookup stream with
  | none => (none, streams, [])
  | some pending =>
      (some pending.data, streams.withTable guest ((streams.table guest).erase stream),
        [PendingClipboard.drop { pending with data := [] }])

def insertUpload (streams : ClientStreams) (stream : Int) : ClientStreams :=
  { streams with uploadStreams := insert stream streams.uploadStreams }

def removeUpload (streams : ClientStreams) (stream : Int) : ClientStreams :=
  { streams with uploadStreams := streams.uploadStreams.erase stream }

@[simp] theorem table_withTable (streams : ClientStreams) (guest : Bool)
    (table : Table Int PendingClipboard) : (streams.withTable guest table).table guest = table := by
  cases guest <;> rfl

@[simp] theorem table_withTable_not (streams : ClientStreams) (guest : Bool)
    (table : Table Int PendingClipboard) :
    (streams.withTable guest table).table (!guest) = streams.table (!guest) := by
  cases guest <;> rfl

@[simp] theorem uploads_withTable (streams : ClientStreams) (guest : Bool)
    (table : Table Int PendingClipboard) :
    (streams.withTable guest table).uploadStreams = streams.uploadStreams := by
  cases guest <;> rfl

theorem buffered_split (streams : ClientStreams) (guest : Bool) :
    streams.buffered = bytesOf (streams.table guest) + bytesOf (streams.table (!guest)) := by
  cases guest
  · rfl
  · exact Nat.add_comm _ _

theorem buffered_withTable (streams : ClientStreams) (guest : Bool)
    (table : Table Int PendingClipboard) :
    (streams.withTable guest table).buffered =
      bytesOf table + bytesOf (streams.table (!guest)) := by
  rw [buffered_split _ guest, table_withTable, table_withTable_not]

end ClientStreams

inductive Change where
  | evicted (guest : Bool)
  | opened (guest : Bool) (stream : Int)
  | refused (guest : Bool) (stream : Int)
  | appended (guest : Bool) (stream : Int) (blob : Text)
  | finished (guest : Bool) (stream : Int) (data : Bytes)
  | uploadOpened (stream : Int)
  | uploadClosed (stream : Int)
  deriving DecidableEq, Repr

/-- One elementary change, with the guards it is made under and what it does to
the process counter. -/
inductive StreamStep (base64 : Base64.Codec) :
    ClientStreams → Change → List CounterOp → ClientStreams → Prop where
  | evicted (streams : ClientStreams) (guest : Bool) (live : PendingClipboard → Bool) :
      StreamStep base64 streams (.evicted guest)
        (ClientStreams.dropAll (retain (fun pending => !live pending) (streams.table guest)))
        (streams.withTable guest (retain live (streams.table guest)))
  | opened (streams : ClientStreams) (guest : Bool) (stream : Int) (touched : Nat)
      (absent : stream ∉ streams.table guest)
      (room : size (streams.table guest) < ClientStreams.limit guest)
      (apart : guest = false → stream ∉ streams.uploadStreams) :
      StreamStep base64 streams (.opened guest stream) []
        (streams.withTable guest ((streams.table guest).insert stream ⟨[], touched⟩))
  | refused (streams : ClientStreams) (guest : Bool) (stream : Int) (pending : PendingClipboard)
      (present : (streams.table guest).lookup stream = some pending) :
      StreamStep base64 streams (.refused guest stream) [pending.drop]
        (streams.withTable guest ((streams.table guest).erase stream))
  | appended (streams : ClientStreams) (guest : Bool) (stream : Int) (pending : PendingClipboard)
      (blob : Text) (decoded : Bytes) (touched : Nat)
      (present : (streams.table guest).lookup stream = some pending)
      (read : base64.decode blob = some decoded)
      (fits : pending.data.length + decoded.length ≤ maxClipboardBytes)
      (within : streams.buffered + decoded.length ≤ maxClipboardSessionBytes) :
      StreamStep base64 streams (.appended guest stream blob) [.add decoded.length]
        (streams.withTable guest
          ((streams.table guest).insert stream ⟨pending.data ++ decoded, touched⟩))
  | finished (streams : ClientStreams) (guest : Bool) (stream : Int) (pending : PendingClipboard)
      (present : (streams.table guest).lookup stream = some pending) :
      StreamStep base64 streams (.finished guest stream pending.data) [.sub 0]
        (streams.withTable guest ((streams.table guest).erase stream))
  | uploadOpened (streams : ClientStreams) (stream : Int)
      (apart : stream ∉ streams.clipboardStreams) (fresh : stream ∉ streams.uploadStreams)
      (room : streams.uploadStreams.card < maxUploadStreams) :
      StreamStep base64 streams (.uploadOpened stream) [] (streams.insertUpload stream)
  | uploadClosed (streams : ClientStreams) (stream : Int) :
      StreamStep base64 streams (.uploadClosed stream) [] (streams.removeUpload stream)

inductive StreamChain (base64 : Base64.Codec) :
    ClientStreams → List Change → List CounterOp → ClientStreams → Prop where
  | nil (streams : ClientStreams) : StreamChain base64 streams [] [] streams
  | cons {first next last : ClientStreams} {change : Change} {changes : List Change}
      {ops more : List CounterOp} (step : StreamStep base64 first change ops next)
      (rest : StreamChain base64 next changes more last) :
      StreamChain base64 first (change :: changes) (ops ++ more) last

variable {base64 : Base64.Codec} {first next last streams : ClientStreams}

theorem StreamStep.chain {change : Change} {ops : List CounterOp}
    (step : StreamStep base64 first change ops last) :
    StreamChain base64 first [change] ops last := by
  have one := StreamChain.cons step (.nil last)
  rwa [List.append_nil] at one

theorem StreamChain.append {changes later : List Change} {ops more : List CounterOp}
    (front : StreamChain base64 first changes ops next)
    (back : StreamChain base64 next later more last) :
    StreamChain base64 first (changes ++ later) (ops ++ more) last := by
  induction front with
  | nil streams => exact back
  | cons step rest ih =>
      rw [List.cons_append, List.append_assoc]
      exact .cons step (ih back)

theorem openClipboard_chain (base64 : Base64.Codec) (reading : Reading) (streams : ClientStreams)
    (stream : Int) (guest : Bool) :
    ∃ changes, StreamChain base64 streams changes
        (streams.openClipboard reading stream guest).2.2
        (streams.openClipboard reading stream guest).2.1 ∧
      (changes = [] ∨ changes = [.evicted guest] ∨
        changes = [.evicted guest, .opened guest stream]) := by
  unfold ClientStreams.openClipboard
  by_cases used : (!guest && streams.streamInUse stream) = true
  · rw [if_pos used]
    exact ⟨[], .nil streams, .inl rfl⟩
  · rw [if_neg used]
    dsimp only
    have evicted : StreamStep base64 streams _ _ _ := .evicted streams guest reading.live
    have apart : guest = false →
        stream ∉ (streams.withTable guest
          (retain reading.live (streams.table guest))).uploadStreams := by
      intro operator member
      subst operator
      rw [ClientStreams.uploads_withTable] at member
      exact used (by simp [ClientStreams.streamInUse, member])
    generalize streams.withTable guest (retain reading.live (streams.table guest)) = kept
      at evicted apart ⊢
    by_cases taken : stream ∈ kept.table guest
    · rw [if_pos taken]
      exact ⟨_, evicted.chain, .inr (.inl rfl)⟩
    rw [if_neg taken]
    by_cases full : size (kept.table guest) ≥ ClientStreams.limit guest
    · rw [if_pos full]
      exact ⟨_, evicted.chain, .inr (.inl rfl)⟩
    rw [if_neg full]
    by_cases fast : (!reading.mayOpen) = true
    · rw [if_pos fast]
      exact ⟨_, evicted.chain, .inr (.inl rfl)⟩
    rw [if_neg fast]
    have opened : StreamStep base64 kept _ _ _ :=
      .opened kept guest stream reading.now taken (Nat.lt_of_not_le full) apart
    have both := evicted.chain.append opened.chain
    rw [List.append_nil] at both
    exact ⟨_, both, .inr (.inr rfl)⟩

theorem appendClipboard_chain (base64 : Base64.Codec) (reading : Reading)
    (streams : ClientStreams) (stream : Int) (data : Text) (guest : Bool) :
    ∃ changes, StreamChain base64 streams changes
        (streams.appendClipboard base64 reading stream data guest).2.2
        (streams.appendClipboard base64 reading stream data guest).2.1 ∧
      (changes = [] ∨ changes = [.refused guest stream] ∨
        changes = [.appended guest stream data]) := by
  unfold ClientStreams.appendClipboard
  cases present : (streams.table guest).lookup stream with
  | none => exact ⟨[], .nil streams, .inl rfl⟩
  | some pending =>
      dsimp only
      have refused : StreamStep base64 streams _ _ _ :=
        .refused streams guest stream pending present
      split
      · exact ⟨_, refused.chain, .inr (.inl rfl)⟩
      · next small =>
          rw [not_or, Nat.not_lt, Nat.not_lt] at small
          split
          · exact ⟨_, refused.chain, .inr (.inl rfl)⟩
          · cases read : base64.decode data with
            | none => exact ⟨_, refused.chain, .inr (.inl rfl)⟩
            | some decoded =>
                -- the limits were checked on the estimate, which bounds the decoded size
                have bounded := base64.decode_length data decoded read
                have appended := StreamStep.appended streams guest stream pending data decoded
                  reading.now present read (by omega) (by omega)
                exact ⟨_, appended.chain, .inr (.inr rfl)⟩

theorem takeClipboard_chain (base64 : Base64.Codec) (streams : ClientStreams) (stream : Int)
    (guest : Bool) :
    ∃ changes, StreamChain base64 streams changes (streams.takeClipboard stream guest).2.2
        (streams.takeClipboard stream guest).2.1 ∧
      (changes = [] ∨ ∃ pending, (streams.table guest).lookup stream = some pending ∧
        changes = [.finished guest stream pending.data]) := by
  unfold ClientStreams.takeClipboard
  cases present : (streams.table guest).lookup stream with
  | none => exact ⟨[], .nil streams, .inl rfl⟩
  | some pending =>
      have finished : StreamStep base64 streams _ _ _ :=
        .finished streams guest stream pending present
      exact ⟨_, finished.chain, .inr ⟨pending, rfl, rfl⟩⟩

theorem takeClipboard_some {stream : Int} {guest : Bool} {data : Bytes}
    (taken : (streams.takeClipboard stream guest).1 = some data) :
    ∃ pending, (streams.table guest).lookup stream = some pending ∧ data = pending.data := by
  unfold ClientStreams.takeClipboard at taken
  cases present : (streams.table guest).lookup stream with
  | none =>
      rw [present] at taken
      cases taken
  | some pending =>
      rw [present] at taken
      cases taken
      exact ⟨pending, rfl, rfl⟩

end Strata.Actor
