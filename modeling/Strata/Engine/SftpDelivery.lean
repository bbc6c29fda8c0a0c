import Mathlib.Tactic
import Strata.Engine.SftpTasks
import Strata.Lib.Machine

/-! What the client is sent of one staged file. Each successful ack queues the next chunk, or the
end where nothing is left; `next_event` hands out what is queued. Acks of other streams, repeated
acks and error acks may come at any time in between. -/

namespace Strata.Engine.Sftp

open Utf8 (Text Bytes)
open Tables
open Machine (run run_history run_concat)

variable {ι ω : Type}

/-- The data and end events of a stream. -/
def ofStream (stream : Int) : TargetEvent → Option FileEvent
  | .file (.data other chunk) => if other = stream then some (.data other chunk) else none
  | .file (.endStream other) => if other = stream then some (.endStream other) else none
  | _ => none

def streamed (stream : Int) (events : List TargetEvent) : List FileEvent :=
  events.filterMap (ofStream stream)

/-- Chunks of the file from its start, then at most one end; the end only after the whole file,
unless a read fails. -/
def Delivers (stream : Int) (staged : Bytes) (reads : Prop) (events : List FileEvent) : Prop :=
  ∃ chunks : List Bytes, ∃ ended : Bool,
    events = chunks.map (.data stream) ++ (if ended then [.endStream stream] else []) ∧
      chunks.flatten <+: staged ∧ (reads → ended = true → chunks.flatten = staged)

section Acks

variable (config : SftpConfig) (host : Host ω)

/-- No read of a staged copy fails. -/
def ReadsWell : Prop := ∀ world, (host.read world).1 ≠ none

/-- What an ack does to a delivery: what was left of it, the events sent, what is left now. -/
inductive Acked (stream : Int) (reads : Prop) :
    Option Bytes → List FileEvent → Option Bytes → Prop where
  | passed (left : Option Bytes) : Acked stream reads left [] left
  | cut (rest : Option Bytes) : Acked stream reads rest [] none
  | sent (own : stream < 0) (chunk rest : Bytes) :
      Acked stream reads (some (chunk ++ rest)) [.data stream chunk] (some rest)
  | ended (own : stream < 0) (rest : Bytes) (empty : reads → rest = []) :
      Acked stream reads (some rest) [.endStream stream] none

theorem continueDownload_cases (engine : SftpEngine ι ω) (stream : Int) :
    continueDownload host engine stream = engine ∨
    (∃ rest, engine.downloads.lookup stream = some rest ∧ (ReadsWell host → rest = []) ∧
      (continueDownload host engine stream).pending =
        engine.pending ++ [.file (.endStream stream)] ∧
      (continueDownload host engine stream).downloads = engine.downloads.erase stream) ∨
    ∃ chunk rest, engine.downloads.lookup stream = some (chunk ++ rest) ∧
      (continueDownload host engine stream).pending =
        engine.pending ++ [.file (.data stream chunk)] ∧
      (continueDownload host engine stream).downloads = engine.downloads.insert stream rest := by
  simp only [continueDownload]
  cases found : engine.downloads.lookup stream with
  | none => exact .inl rfl
  | some rest =>
      refine .inr ?_
      dsimp only
      cases reading : (host.read engine.host).1 with
      | none => exact .inl ⟨rest, rfl, fun reads => absurd reading (reads engine.host), rfl, rfl⟩
      | some length =>
          dsimp only
          split
          · next nothing =>
              refine .inl ⟨rest, rfl, fun _ => ?_, rfl, rfl⟩
              rw [List.isEmpty_iff, List.take_eq_nil_iff] at nothing
              exact nothing.resolve_left (by simp [chunkBytes])
          · have parts := List.prefix_iff_eq_append.mp
              (List.take_prefix (min (max 1 length) chunkBytes) rest)
            exact .inr ⟨_, _, congrArg some parts.symm, rfl, rfl⟩

theorem continueDownload_background (engine : SftpEngine ι ω) (stream : Int) :
    (continueDownload host engine stream).background = engine.background := by
  simp only [continueDownload]
  split
  · rfl
  · split
    · rfl
    · split <;> rfl

theorem continueDownload_acked (engine : SftpEngine ι ω) {other : Int} (low : other < 0)
    (stream : Int) :
    ∃ more, (continueDownload host engine other).pending = engine.pending ++ more ∧
      Acked stream (ReadsWell host) (engine.downloads.lookup stream) (streamed stream more)
        ((continueDownload host engine other).downloads.lookup stream) := by
  rcases continueDownload_cases host engine other with
    same | ⟨rest, found, empty, queued, left⟩ | ⟨chunk, rest, found, queued, left⟩
  · rw [same]
    exact ⟨[], (List.append_nil _).symm, .passed _⟩
  · refine ⟨_, queued, ?_⟩
    rw [left]
    by_cases own : other = stream
    · subst own
      rw [found, AList.lookup_erase]
      simpa [streamed, ofStream] using Acked.ended low rest empty
    · rw [AList.lookup_erase_ne (Ne.symm own)]
      simpa [streamed, ofStream, own] using Acked.passed _
  · refine ⟨_, queued, ?_⟩
    rw [left]
    by_cases own : other = stream
    · subst own
      rw [found, AList.lookup_insert]
      simpa [streamed, ofStream] using Acked.sent low chunk rest
    · rw [AList.lookup_insert_ne (Ne.symm own)]
      simpa [streamed, ofStream, own] using Acked.passed _

theorem onAck_acked (engine : SftpEngine ι ω) (other status stream : Int) :
    ∃ more, (onFileRequest config host engine (.ack other status)).pending =
        engine.pending ++ more ∧
      Acked stream (ReadsWell host) (engine.downloads.lookup stream) (streamed stream more)
        ((onFileRequest config host engine (.ack other status)).downloads.lookup stream) := by
  simp only [onFileRequest]
  split
  · next low =>
    split
    · exact continueDownload_acked host engine low stream
    · refine ⟨[], (List.append_nil _).symm, ?_⟩
      by_cases own : other = stream
      · subst own
        rw [AList.lookup_erase]
        exact .cut _
      · rw [AList.lookup_erase_ne (Ne.symm own)]
        exact .passed _
  · exact ⟨[], (List.append_nil _).symm, .passed _⟩

theorem onAck_background (engine : SftpEngine ι ω) (other status : Int) :
    (onFileRequest config host engine (.ack other status)).background = engine.background := by
  simp only [onFileRequest]
  split
  · split
    · exact continueDownload_background host engine other
    · rfl
  · rfl

end Acks

/-! ### Handing out -/

theorem streamed_append (stream : Int) (front back : List TargetEvent) :
    streamed stream (front ++ back) = streamed stream front ++ streamed stream back :=
  List.filterMap_append ..

/-- No task at work will open another delivery on the stream. -/
def Alone (stream : Int) (engine : SftpEngine ι ω) : Prop :=
  ∀ name path, .download stream name path ∉ engine.background

section Handing

variable {host : Host ω} {inner : Inner ι} {stream : Int}

theorem receive_alone {engine : SftpEngine ι ω} (alone : Alone stream engine) :
    Alone stream (receive host engine).2 ∧ (receive host engine).2.pending = engine.pending ∧
      (receive host engine).2.downloads = engine.downloads ∧
      ∀ name staged, (receive host engine).1 ≠ some (.downloadReady stream name staged) := by
  simp only [receive]
  split
  · exact ⟨alone, rfl, rfl, nofun⟩
  · split
    · exact ⟨alone, rfl, rfl, nofun⟩
    · next place outcome _ _ job found =>
        refine ⟨fun name path member => alone name path (List.mem_of_mem_eraseIdx member), rfl, rfl,
          fun name staged done => ?_⟩
        have member := List.mem_of_getElem? found
        cases job with
        | download other file path =>
            cases outcome with
            | ok copy =>
                cases done
                exact alone _ _ member
            | error message => cases done
        | upload copy remote file => cases outcome <;> cases done

/-- A completion of another task queues nothing of the stream and leaves its delivery alone. -/
theorem onCompletion_other (engine : SftpEngine ι ω) {done : Completion}
    (other : ∀ name staged, done ≠ .downloadReady stream name staged) :
    streamed stream (onCompletion host engine done).pending = streamed stream engine.pending ∧
      (onCompletion host engine done).downloads.lookup stream = engine.downloads.lookup stream ∧
      (onCompletion host engine done).background = engine.background := by
  cases done with
  | downloadReady own name staged =>
      have apart : stream ≠ own := fun same => other name staged (by rw [same])
      simp only [onCompletion]
      split
      · simp [SftpEngine.push, streamed, ofStream, AList.lookup_insert_ne apart]
      · simp [SftpEngine.fail, SftpEngine.push, streamed, ofStream]
  | downloadWithheld own message =>
      simp [onCompletion, SftpEngine.notice, SftpEngine.push, streamed, ofStream]
  | uploadFinished message ok =>
      simp [onCompletion, SftpEngine.notice, SftpEngine.push, streamed, ofStream]

def handedOut (answer : Except EngineError (Option TargetEvent)) : List TargetEvent :=
  match answer with
  | .ok (some event) => [event]
  | _ => []

theorem innerEvent_silent (engine : SftpEngine ι ω) :
    streamed stream (handedOut (innerEvent inner engine).1) = [] := by
  have none := inner.noFiles engine.inner
  simp only [innerEvent]
  cases answer : (inner.nextEvent engine.inner).1 with
  | error err => rfl
  | ok event =>
      cases event with
      | none => rfl
      | some event =>
          rw [answer] at none
          cases event with
          | file file => exact absurd rfl (none file)
          | _ => rfl

/-- What an answer of `next_event` hands out of the stream is a front of what was queued of it. -/
structure Hands (stream : Int) (engine : SftpEngine ι ω)
    (out : Except EngineError (Option TargetEvent) × SftpEngine ι ω) : Prop where
  alone : Alone stream out.2
  left : out.2.downloads.lookup stream = engine.downloads.lookup stream
  handed : streamed stream (handedOut out.1) ++ streamed stream out.2.pending =
    streamed stream engine.pending

theorem hands_queued {engine : SftpEngine ι ω} (alone : Alone stream engine) {event : TargetEvent}
    {rest : List TargetEvent} (queued : engine.pending = event :: rest) :
    Hands stream engine (.ok (some event), { engine with pending := rest }) where
  alone := alone
  left := rfl
  handed := by
    rw [queued]
    exact (streamed_append stream [event] rest).symm

theorem hands_inner {engine : SftpEngine ι ω} (alone : Alone stream engine) :
    Hands stream engine (innerEvent inner (receive host engine).2) := by
  have ⟨still, queue, left, _⟩ : Alone stream (receive host engine).2 ∧ _ := receive_alone alone
  refine ⟨still, by rw [← left]; rfl, ?_⟩
  rw [innerEvent_silent, List.nil_append, ← queue]
  rfl

theorem nextEventFor_hands (rounds : Nat) {engine : SftpEngine ι ω} (alone : Alone stream engine) :
    Hands stream engine (nextEventFor host inner rounds engine) := by
  induction rounds generalizing engine with
  | zero =>
      rw [nextEventFor]
      split
      · next queued => exact hands_queued alone queued
      · dsimp only
        split
        · next impossible => cases impossible
        · exact hands_inner alone
  | succ rounds ih =>
      rw [nextEventFor]
      split
      · next queued => exact hands_queued alone queued
      · dsimp only
        split
        · next done fewer received same =>
            cases same
            have ⟨still, queue, left, other⟩ : Alone stream (receive host engine).2 ∧ _ :=
              receive_alone alone
            have ⟨kept, delivery, tasks⟩ :
                streamed stream (onCompletion host (receive host engine).2 done).pending = _ ∧ _ :=
              onCompletion_other _ fun name staged same =>
                other name staged (by rw [received, same])
            have hands := ih fun name path => tasks ▸ still name path
            exact ⟨hands.alone, hands.left.trans (delivery.trans (by rw [left])),
              hands.handed.trans (kept.trans (by rw [queue]))⟩
        · exact hands_inner alone

end Handing

/-! ### Runs -/

/-- What the session does with the engine: it passes an ack on, or takes the next event. -/
inductive Turn where
  | ack (stream status : Int)
  | next
  deriving DecidableEq, Repr

section Runs

variable (config : SftpConfig) (host : Host ω) (inner : Inner ι)

def takeTurn (engine : SftpEngine ι ω) : Turn → SftpEngine ι ω × List TargetEvent
  | .ack stream status =>
      (((protocolEngine config host inner).handleInput engine (.file (.ack stream status))).2, [])
  | .next =>
      let out := (protocolEngine config host inner).nextEvent engine
      (out.2, handedOut out.1)

/-- Where a delivery stands after the events sent so far. -/
def Stands (stream : Int) (staged : Bytes) (reads : Prop) (events : List FileEvent) :
    Option Bytes → Prop
  | some rest => ∃ chunks : List Bytes, events = chunks.map (.data stream) ∧
      chunks.flatten ++ rest = staged
  | none => Delivers stream staged reads events

variable {stream : Int} {staged : Bytes} {reads : Prop} {events more : List FileEvent}

theorem Stands.delivers {left : Option Bytes} (stands : Stands stream staged reads events left) :
    Delivers stream staged reads events := by
  cases left with
  | none => exact stands
  | some rest =>
      obtain ⟨chunks, shape, whole⟩ := stands
      exact ⟨chunks, false, by rw [shape]; simp, ⟨rest, whole⟩, by simp⟩

theorem Stands.acked {left after : Option Bytes} (stands : Stands stream staged reads events left)
    (acked : Acked stream reads left more after) :
    Stands stream staged reads (events ++ more) after := by
  cases acked with
  | passed => rwa [List.append_nil]
  | cut =>
      rw [List.append_nil]
      exact stands.delivers
  | sent own chunk rest =>
      obtain ⟨chunks, shape, whole⟩ := stands
      refine ⟨chunks ++ [chunk], by rw [shape, List.map_append]; rfl, ?_⟩
      rw [List.flatten_append, List.flatten_singleton, List.append_assoc, whole]
  | ended own rest empty =>
      obtain ⟨chunks, shape, whole⟩ := stands
      refine ⟨chunks, true, by rw [shape]; rfl, ⟨rest, whole⟩, fun well _ => ?_⟩
      rw [← whole, empty well, List.append_nil]

theorem Acked.of_closed {after : Option Bytes} (acked : Acked stream reads none more after) :
    more = [] ∧ after = none := by
  cases acked with
  | passed => exact ⟨rfl, rfl⟩
  | cut => exact ⟨rfl, rfl⟩

theorem Acked.of_client {left after : Option Bytes} (client : 0 ≤ stream)
    (acked : Acked stream reads left more after) : more = [] := by
  cases acked with
  | passed => rfl
  | cut => rfl
  | sent own => omega
  | ended own => omega

theorem takeTurn_moves {engine : SftpEngine ι ω} (alone : Alone stream engine) (turn : Turn) :
    let out := takeTurn config host inner engine turn
    Alone stream out.1 ∧ ∃ sent,
      Acked stream (ReadsWell host) (engine.downloads.lookup stream) sent
        (out.1.downloads.lookup stream) ∧
      streamed stream out.2 ++ streamed stream out.1.pending =
        streamed stream engine.pending ++ sent := by
  cases turn with
  | ack other status =>
      obtain ⟨more, queued, acked⟩ := onAck_acked config host engine other status stream
      have same := onAck_background config host engine other status
      refine ⟨fun name path => same ▸ alone name path, streamed stream more, acked, ?_⟩
      exact (congrArg (streamed stream) queued).trans (streamed_append ..)
  | next =>
      have hands : Hands stream engine (nextEventFor host inner engine.background.length engine) :=
        nextEventFor_hands _ alone
      refine ⟨hands.alone, [], ?_, by rw [List.append_nil]; exact hands.handed⟩
      rw [← hands.left]
      exact .passed _

theorem closed_of_error (engine : SftpEngine ι ω) {status : Int} (error : status ≠ statusSuccess)
    (own : stream < 0) :
    (onFileRequest config host engine (.ack stream status)).downloads.lookup stream = none := by
  simp only [onFileRequest, if_pos own, if_neg error, AList.lookup_erase]

/-- Where the stream stands in a run: alone, with what was handed out and what is queued. -/
def Underway (stream : Int) (staged : Bytes) (reads : Prop) (out : List TargetEvent)
    (engine : SftpEngine ι ω) : Prop :=
  Alone stream engine ∧
    Stands stream staged reads (streamed stream out ++ streamed stream engine.pending)
      (engine.downloads.lookup stream)

theorem runs_turns {engine : SftpEngine ι ω} (alone : Alone stream engine)
    (fresh : streamed stream engine.pending = [])
    (ready : engine.downloads.lookup stream = some staged) (turns : List Turn) :
    Underway stream staged (ReadsWell host) (run (takeTurn config host inner) engine turns).2
      (run (takeTurn config host inner) engine turns).1 := by
  refine run_history (fun _ => Underway stream staged (ReadsWell host)) ?_ ?_ turns
  · refine ⟨alone, ?_⟩
    rw [fresh, ready]
    exact ⟨[], rfl, rfl⟩
  · rintro past turn ⟨alone, stands⟩
    obtain ⟨still, sent, acked, moved⟩ := takeTurn_moves config host inner alone turn
    refine ⟨still, ?_⟩
    rw [streamed_append, List.append_assoc, moved, ← List.append_assoc]
    exact stands.acked acked

def Shut (stream : Int) (queued : List FileEvent) (out : List TargetEvent)
    (engine : SftpEngine ι ω) : Prop :=
  Alone stream engine ∧ (stream < 0 → engine.downloads.lookup stream = none) ∧
    streamed stream out ++ streamed stream engine.pending = queued

/-- With the delivery closed, only what is already queued is handed out. -/
theorem closed_turns {engine : SftpEngine ι ω} (alone : Alone stream engine)
    (closed : stream < 0 → engine.downloads.lookup stream = none) (turns : List Turn) :
    streamed stream (run (takeTurn config host inner) engine turns).2 <+:
      streamed stream engine.pending := by
  suffices held : Shut stream (streamed stream engine.pending)
      (run (takeTurn config host inner) engine turns).2
      (run (takeTurn config host inner) engine turns).1 from ⟨_, held.2.2⟩
  refine run_history (fun _ => Shut stream (streamed stream engine.pending))
    ⟨alone, closed, rfl⟩ ?_ turns
  rintro past turn ⟨alone, closed, same⟩
  obtain ⟨still, sent, acked, moved⟩ := takeTurn_moves config host inner alone turn
  have nothing : sent = [] := by
    by_cases own : stream < 0
    · rw [closed own] at acked
      exact acked.of_closed.1
    · exact acked.of_client (by omega)
  refine ⟨still, fun own => ?_, ?_⟩
  · rw [closed own] at acked
    exact acked.of_closed.2
  · rw [streamed_append, List.append_assoc, moved, nothing, List.append_nil, same]

end Runs

theorem Delivers.front {stream : Int} {staged : Bytes} {reads : Prop}
    {front events : List FileEvent} (delivers : Delivers stream staged reads events)
    (isFront : front <+: events) :
    Delivers stream staged reads front := by
  obtain ⟨chunks, ended, rfl, whole, complete⟩ := delivers
  by_cases all : front = chunks.map (.data stream) ++ if ended then [.endStream stream] else []
  · exact ⟨chunks, ended, all, whole, complete⟩
  · have short : front <+: chunks.map (FileEvent.data stream) := by
      cases ended with
      | false => simpa using isFront
      | true =>
          rcases List.prefix_concat_iff.mp isFront with same | inside
          · exact absurd same all
          · exact inside
    obtain ⟨fewer, sent, rfl⟩ := List.prefix_map_iff.mp short
    exact ⟨fewer, false, by simp, (List.IsPrefix.flatten sent).trans whole, nofun⟩

/-- Whatever acks come and whenever events are taken, what is handed out of a delivery is a first
part of the file in chunks and at most one end, which is the last and comes after the whole file
unless a read fails; after an error ack it is a front of what was queued by then. -/
theorem download_delivered (config : SftpConfig) (host : Host ω) (inner : Inner ι)
    (engine : SftpEngine ι ω) (stream : Int) (name : Text) (staged : Bytes)
    (opened : (host.openStaged engine.host).1 = true) (alone : Alone stream engine)
    (fresh : streamed stream engine.pending = []) (turns : List Turn) :
    let begun := onCompletion host engine (.downloadReady stream name staged)
    Delivers stream staged (ReadsWell host)
        (streamed stream (run (takeTurn config host inner) begun turns).2) ∧
      ∀ front status back, turns = front ++ [.ack stream status] ++ back → status ≠ statusSuccess →
        let refused := (run (takeTurn config host inner) begun (front ++ [.ack stream status])).1
        streamed stream (run (takeTurn config host inner) refused back).2 <+:
          streamed stream refused.pending := by
  intro begun
  have ready : begun.downloads.lookup stream = some staged := by
    simp only [begun, onCompletion, opened, if_true, SftpEngine.push, AList.lookup_insert]
  have begins : Alone stream begun ∧ streamed stream begun.pending = [] := by
    simp only [begun, onCompletion, opened, if_true, SftpEngine.push]
    exact ⟨alone, by rw [streamed_append, fresh]; rfl⟩
  refine ⟨(runs_turns config host inner begins.1 begins.2 ready turns).2.delivers.front
    (List.prefix_append ..), ?_⟩
  rintro front status back - error
  have held := runs_turns config host inner begins.1 begins.2 ready (front ++ [.ack stream status])
  refine closed_turns config host inner held.1 (fun own => ?_) back
  rw [run_concat]
  exact closed_of_error config host _ error own

/-- A server with a file under every name and no symbolic links. -/
def plainHost : Host Unit where
  canonicalize := fun _ path => (some path, ())
  metadata := fun _ _ => (some ⟨false, false⟩, ())
  symlinkMetadata := fun _ _ => (none, ())
  readDir := fun _ _ => (none, ())
  createStaged := fun _ => (true, ())
  openStaged := fun _ => (true, ())
  writeAll := fun _ _ => (true, ())
  flush := fun _ => (true, ())
  read := fun _ => (some chunkBytes, ())
  finished := fun _ _ => (none, ())
  json := fun _ => []

def gatedRoot : TransferConfig := ⟨⟨"/".toList, false, false, "Files".toList, 4⟩, true⟩

/-- An engine that never says anything. -/
def quietInner : Inner Unit where
  handleInput := fun _ _ => (.ok (), ())
  nextEvent := fun _ => (.ok none, ())
  noFiles := by
    rintro _ _ ⟨⟩

/-- The body is handed out and acknowledged, and then the client gives up before it is handed the
chunk. -/
def givenUp : List Turn := [.next, .next, .ack (-1) 0, .ack (-1) 0x0303, .next, .ack (-1) 0, .next]

theorem chunk_follows_error_ack :
    let begun := onCompletion plainHost (attach gatedRoot.toSftpConfig () ())
      (.downloadReady (-1) "f".toList [104, 105])
    let turn := takeTurn gatedRoot.toSftpConfig plainHost quietInner
    givenUp = givenUp.take 3 ++ [.ack (-1) 0x0303] ++ givenUp.drop 4 ∧
      streamed (-1) (run turn (run turn begun (givenUp.take 4)).1 (givenUp.drop 4)).2 =
        [.data (-1) [104, 105]] := by
  decide +kernel

theorem download_delivered_in_chunks :
    let begun := onCompletion plainHost (attach gatedRoot.toSftpConfig () ())
      (.downloadReady (-1) "f".toList [104, 105])
    let turn := takeTurn gatedRoot.toSftpConfig plainHost quietInner
    let turns : List Turn := [.next, .next, .ack (-1) 0, .ack 3 0, .ack (-1) 0, .ack (-1) 0, .next,
      .next, .next]
    streamed (-1) (run turn begun turns).2 = [.data (-1) [104, 105], .endStream (-1)] ∧
      Delivers (-1) [104, 105] (ReadsWell plainHost) (streamed (-1) (run turn begun turns).2) ∧
      let refused := (run turn begun (givenUp.take 4)).1
      streamed (-1) (run turn refused (givenUp.drop 4)).2 <+: streamed (-1) refused.pending := by
  intro begun turn turns
  have delivered := download_delivered gatedRoot.toSftpConfig plainHost quietInner
    (attach gatedRoot.toSftpConfig () ()) (-1) "f".toList [104, 105] rfl nofun rfl
  exact ⟨by decide +kernel, (delivered turns).1,
    (delivered givenUp).2 (givenUp.take 3) 0x0303 (givenUp.drop 4) rfl (by decide)⟩

end Strata.Engine.Sftp
