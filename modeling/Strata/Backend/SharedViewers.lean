import Mathlib.Tactic
import Strata.Lib.Sessions
import Strata.Backend.SessionBuffer

/-! A shared session: the host loop pushes each frame into the replay buffer and then broadcasts
it, and every viewer takes a snapshot of the buffer and subscribes to the broadcast. The read
lock a viewer holds meanwhile keeps the host from pushing, not from broadcasting, so a frame that
is in the buffer already may still be on its way. -/

namespace Strata.Backend.SharedViewers

open Utf8 (Text)
open RustStr
open RustInt (natText)
open Pieces
open Nvr

def broadcastCapacity : Nat := 8192

/-! ### What a viewer is sent first -/

def isSync (trimmed : Text) : Bool :=
  "4.sync,".toList.isPrefixOf trimmed || trimmed == "4.sync".toList

def strip (frame : Text) : Text :=
  ((splitInclusive ';' frame).filter fun inst => trim inst ≠ [] && !isSync (trim inst)).flatten

def lastSync (frames : List Text) : Option Text :=
  ((frames.flatMap (splitInclusive ';')).filter fun inst =>
    trim inst ≠ [] && isSync (trim inst)).getLast?

/-- A message is sent only if there is something in it. -/
def messagesOf (texts : List Text) : List Text := texts.filter (· ≠ [])

def window : Nat := 300 * second

/-- The size, the salvaged instructions, the frames without their syncs, and one sync. -/
def snapshot (buffer : SessionBuffer) (now : Nat) : List Text :=
  buffer.lastSizeInstruction.toList ++ messagesOf [buffer.persistentState.flatten] ++
    messagesOf ((buffer.framesWithin window now).map strip) ++
    (lastSync (buffer.framesWithin window now)).toList

def syncInstruction (millis : Nat) : Text :=
  "4.sync,".toList ++ natText (natText millis).length ++ ['.'] ++ natText millis ++ [';']

def rebuild (buffer : SessionBuffer) (now millis : Nat) : List Text :=
  messagesOf [buffer.persistentState.flatten] ++
    messagesOf ((buffer.framesWithin window now).map strip) ++ [syncInstruction millis]

/-! ### The host and its viewers -/

/-- `waiting` has been pushed and is not broadcast yet, `readers` hold the buffer's read lock;
`frames` is history: every frame the host has pushed. -/
structure Relay (ι : Type) where
  buffer : SessionBuffer
  budget : NvrBudget
  waiting : Option Text
  sent : List Text
  readers : List ι
  frames : List Text

inductive Phase where
  | away
  | looking
  | live
  | lagged
  deriving DecidableEq

/-- `next` is the receiver's place in what was sent. `covered` and `opened` are history: the
frames pushed and the messages sent when the last snapshot or rebuild was taken. -/
structure Viewer where
  phase : Phase
  next : Nat
  messages : List Text
  covered : Nat
  opened : List Text
  deriving DecidableEq

inductive Event where
  | push (frame : Text) (timestamp now : Nat)
  | broadcast
  | others (budget : NvrBudget)
  | look (now : Nat)
  | subscribe
  | recv
  | recover (now millis : Nat)
  | leave

variable {ι : Type}

def Relay.push (relay : Relay ι) (frame : Text) (timestamp now : Nat) : Relay ι :=
  let pushed := relay.buffer.push relay.budget frame timestamp now
  { relay with
    buffer := pushed.1
    budget := pushed.2
    waiting := some frame
    frames := relay.frames ++ [frame] }

def Viewer.new : Viewer := ⟨.away, 0, [], 0, []⟩

def Viewer.restart (viewer : Viewer) (relay : Relay ι) (phase : Phase) (first : List Text) :
    Viewer :=
  { viewer with
    phase := phase
    messages := viewer.messages ++ first
    covered := relay.frames.length
    opened := viewer.messages ++ first }

/-- `Lagged` moves the receiver to the oldest frame the channel still holds. -/
def Viewer.receive (viewer : Viewer) (sent : List Text) : Viewer :=
  if viewer.next + broadcastCapacity < sent.length then
    { viewer with phase := .lagged, next := sent.length - broadcastCapacity }
  else
    match sent[viewer.next]? with
    | none => viewer
    | some frame =>
        { viewer with next := viewer.next + 1, messages := viewer.messages ++ [frame] }

def act [DecidableEq ι] (i : ι) (relay : Relay ι) (viewer : Viewer) :
    Event → Relay ι × Viewer × List Empty
  | .push frame timestamp now =>
      -- the host loop is past its last broadcast and gets the write lock
      if relay.waiting = none ∧ relay.readers = [] then
        (relay.push frame timestamp now, viewer, [])
      else (relay, viewer, [])
  | .broadcast =>
      ({ relay with waiting := none, sent := relay.sent ++ relay.waiting.toList }, viewer, [])
  | .others budget => ({ relay with budget := budget }, viewer, [])
  | .look now =>
      if viewer.phase = .away then
        ({ relay with readers := i :: relay.readers },
          viewer.restart relay .looking (snapshot relay.buffer now), [])
      else (relay, viewer, [])
  | .subscribe =>
      if viewer.phase = .looking then
        ({ relay with readers := relay.readers.erase i },
          { viewer with phase := .live, next := relay.sent.length }, [])
      else (relay, viewer, [])
  | .recv =>
      if viewer.phase = .live then (relay, viewer.receive relay.sent, [])
      else (relay, viewer, [])
  | .recover now millis =>
      if viewer.phase = .lagged then
        (relay, viewer.restart relay .live (rebuild relay.buffer now millis), [])
      else (relay, viewer, [])
  | .leave =>
      if viewer.phase = .live then (relay, .new, [])
      else (relay, viewer, [])

def start (budget : NvrBudget) : Sessions.System ι (Relay ι) Viewer :=
  ⟨⟨.new, budget, none, [], [], []⟩, fun _ => .new⟩

/-! ### Following the host -/

/-- Since its last snapshot the viewer was sent exactly the frames from there on, up to its place
in the broadcast. -/
structure Follows (relay : Relay ι) (viewer : Viewer) : Prop where
  started : viewer.covered ≤ viewer.next
  reached : viewer.next ≤ relay.sent.length
  messages : viewer.messages =
    viewer.opened ++ (relay.sent.drop viewer.covered).take (viewer.next - viewer.covered)

structure Looks (i : ι) (relay : Relay ι) (viewer : Viewer) : Prop where
  reads : i ∈ relay.readers
  covered : viewer.covered = relay.frames.length
  messages : viewer.messages = viewer.opened

def InPlace (i : ι) (relay : Relay ι) (viewer : Viewer) : Prop :=
  match viewer.phase with
  | .away => True
  | .looking => Looks i relay viewer
  | .live => Follows relay viewer
  | .lagged => False

def Relayed (relay : Relay ι) : Prop := relay.frames = relay.sent ++ relay.waiting.toList

/-- A viewer subscribes while no frame waits to be broadcast, and takes each frame before the
channel drops it. -/
def InStep (s : Sessions.System ι (Relay ι) Viewer) (event : ι × Event) : Prop :=
  match event.2 with
  | .subscribe => s.shared.waiting = none
  | .recv => s.shared.sent.length ≤ (s.locals event.1).next + broadcastCapacity
  | _ => True

instance (s : Sessions.System ι (Relay ι) Viewer) (event : ι × Event) :
    Decidable (InStep s event) :=
  match event with
  | (_, .subscribe) => inferInstanceAs (Decidable (s.shared.waiting = none))
  | (i, .recv) =>
      inferInstanceAs (Decidable (s.shared.sent.length ≤ (s.locals i).next + broadcastCapacity))
  | (_, .push ..) | (_, .broadcast) | (_, .others _) | (_, .look _) | (_, .recover ..)
  | (_, .leave) => inferInstanceAs (Decidable True)

theorem start_holds (budget : NvrBudget) :
    Sessions.Holds Relayed InPlace (start budget : Sessions.System ι (Relay ι) Viewer) :=
  ⟨rfl, fun _ => trivial⟩

variable {i j : ι} {relay relay' : Relay ι} {viewer : Viewer}

inductive Changes [DecidableEq ι] (i : ι) (relay : Relay ι) : Relay ι → Prop where
  | same : Changes i relay relay
  | push {frame : Text} {timestamp now : Nat} (idle : relay.waiting = none)
      (free : relay.readers = []) : Changes i relay (relay.push frame timestamp now)
  | broadcast :
      Changes i relay
        { relay with waiting := none, sent := relay.sent ++ relay.waiting.toList }
  | others {budget : NvrBudget} : Changes i relay { relay with budget := budget }
  | look : Changes i relay { relay with readers := i :: relay.readers }
  | subscribe : Changes i relay { relay with readers := relay.readers.erase i }

structure Seen (j : ι) (relay relay' : Relay ι) : Prop where
  sent : ∃ more, relay'.sent = relay.sent ++ more
  reads : j ∈ relay.readers → j ∈ relay'.readers
  frames : relay.readers ≠ [] → relay'.frames = relay.frames

theorem Seen.refl (j : ι) (relay : Relay ι) : Seen j relay relay :=
  ⟨⟨[], (List.append_nil _).symm⟩, id, fun _ => rfl⟩

theorem seen_push (j : ι) {frame : Text} {timestamp now : Nat} (free : relay.readers = []) :
    Seen j relay (relay.push frame timestamp now) :=
  ⟨⟨[], (List.append_nil _).symm⟩, id, fun taken => absurd free taken⟩

theorem seen_broadcast (j : ι) (relay : Relay ι) :
    Seen j relay { relay with waiting := none, sent := relay.sent ++ relay.waiting.toList } :=
  ⟨⟨_, rfl⟩, id, fun _ => rfl⟩

theorem Follows.grow (follows : Follows relay viewer)
    (more : ∃ more, relay'.sent = relay.sent ++ more) : Follows relay' viewer := by
  obtain ⟨more, grown⟩ := more
  constructor
  case started => exact follows.started
  case reached =>
    rw [grown, List.length_append]
    exact follows.reached.trans (Nat.le_add_right ..)
  case messages =>
    have started := follows.started
    have reached := follows.reached
    rw [follows.messages, grown, List.drop_append_of_le_length (started.trans reached),
      List.take_append_of_le_length]
    rw [List.length_drop]
    omega

theorem InPlace.seen (inPlace : InPlace j relay viewer) (seen : Seen j relay relay') :
    InPlace j relay' viewer := by
  unfold InPlace at inPlace ⊢
  split at inPlace
  · trivial
  · have taken := List.ne_nil_of_mem inPlace.reads
    exact ⟨seen.reads inPlace.reads, inPlace.covered.trans (seen.frames taken ▸ rfl),
      inPlace.messages⟩
  · exact inPlace.grow seen.sent
  · exact inPlace

theorem inPlace_live (live : viewer.phase = .live) :
    InPlace i relay viewer ↔ Follows relay viewer := by
  rw [InPlace, live]

theorem Follows.receive (follows : Follows relay viewer)
    (kept : relay.sent.length ≤ viewer.next + broadcastCapacity) :
    Follows relay (viewer.receive relay.sent) := by
  rw [Viewer.receive, if_neg (Nat.not_lt.mpr kept)]
  have started := follows.started
  cases read : relay.sent[viewer.next]? with
  | none => exact follows
  | some frame =>
      have inside := (List.getElem?_eq_some_iff.mp read).1
      refine ⟨started.trans (Nat.le_succ _), inside, ?_⟩
      have next : (relay.sent.drop viewer.covered)[viewer.next - viewer.covered]? = some frame := by
        rw [List.getElem?_drop, Nat.add_sub_cancel' started, read]
      change viewer.messages ++ [frame] = _
      rw [follows.messages, List.append_assoc, Nat.sub_add_comm started, List.take_add_one, next]
      rfl

theorem receive_phase {sent : List Text} (live : viewer.phase = .live)
    (kept : sent.length ≤ viewer.next + broadcastCapacity) :
    (viewer.receive sent).phase = .live := by
  rw [Viewer.receive, if_neg (Nat.not_lt.mpr kept)]
  split
  · exact live
  · exact live

variable [DecidableEq ι]

theorem act_changes (i : ι) (relay : Relay ι) (viewer : Viewer) (event : Event) :
    Changes i relay (act i relay viewer event).1 := by
  cases event with
  | push frame timestamp now =>
      rw [act]
      split_ifs with free
      · exact .push free.1 free.2
      · exact .same
  | broadcast => exact .broadcast
  | others budget => exact .others
  | look now =>
      rw [act]
      split_ifs
      · exact .look
      · exact .same
  | subscribe =>
      rw [act]
      split_ifs
      · exact .subscribe
      · exact .same
  | recv =>
      rw [act]
      split_ifs <;> exact .same
  | recover now millis =>
      rw [act]
      split_ifs <;> exact .same
  | leave =>
      rw [act]
      split_ifs <;> exact .same

theorem Changes.seen (changes : Changes i relay relay') (apart : j ≠ i) : Seen j relay relay' := by
  have still := Seen.refl j relay
  cases changes with
  | same => exact still
  | push idle free => exact seen_push j free
  | broadcast => exact seen_broadcast j relay
  | others => exact ⟨still.sent, still.reads, still.frames⟩
  | look => exact ⟨still.sent, List.mem_cons_of_mem i, still.frames⟩
  | subscribe => exact ⟨still.sent, (List.mem_erase_of_ne apart).mpr, still.frames⟩

theorem Changes.relayed (changes : Changes i relay relay') (relayed : Relayed relay) :
    Relayed relay' := by
  cases changes with
  | same => exact relayed
  | @push frame timestamp now idle free =>
      rw [Relayed, idle, Option.toList_none, List.append_nil] at relayed
      change relay.frames ++ [frame] = relay.sent ++ [frame]
      rw [relayed]
  | broadcast => exact relayed.trans (List.append_nil _).symm
  | others => exact relayed
  | look => exact relayed
  | subscribe => exact relayed

theorem act_mover {s : Sessions.System ι (Relay ι) Viewer} {event : Event}
    (relayed : Relayed s.shared) (inPlace : InPlace i s.shared (s.locals i))
    (inStep : InStep s (i, event)) :
    InPlace i (act i s.shared (s.locals i) event).1 (act i s.shared (s.locals i) event).2.1 := by
  cases event with
  | push frame timestamp now =>
      rw [act]
      split_ifs with free
      · exact inPlace.seen (seen_push i free.2)
      · exact inPlace
  | broadcast => exact inPlace.seen (seen_broadcast i s.shared)
  | others budget =>
      have still := Seen.refl i s.shared
      exact inPlace.seen ⟨still.sent, still.reads, still.frames⟩
  | look now =>
      rw [act]
      split_ifs with away
      · exact ⟨List.mem_cons_self .., rfl, rfl⟩
      · exact inPlace
  | subscribe =>
      rw [act]
      split_ifs with looking
      · rw [InPlace, looking] at inPlace
        have none : s.shared.waiting = none := inStep
        rw [Relayed, none, Option.toList_none, List.append_nil] at relayed
        -- all that was pushed before the snapshot has been broadcast before the subscription
        have covered : (s.locals i).covered = s.shared.sent.length := by
          rw [inPlace.covered, relayed]
        refine ⟨covered.le, le_rfl, ?_⟩
        change (s.locals i).messages = _
        rw [inPlace.messages, List.drop_eq_nil_of_le covered.ge, List.take_nil, List.append_nil]
      · exact inPlace
  | recv =>
      rw [act]
      split_ifs with live
      · rw [inPlace_live live] at inPlace
        rw [inPlace_live (receive_phase live inStep)]
        exact inPlace.receive inStep
      · exact inPlace
  | recover now millis =>
      rw [act]
      split_ifs with lagged
      · rw [InPlace, lagged] at inPlace
        exact inPlace.elim
      · exact inPlace
  | leave =>
      rw [act]
      split_ifs with live
      · trivial
      · exact inPlace

theorem act_keeps : Sessions.Keeps act InStep (Relayed (ι := ι)) InPlace where
  shared holds _ := (act_changes ..).relayed holds.shared
  mover holds inStep := act_mover holds.shared (holds.locals _) inStep
  others holds _ apart := (holds.locals _).seen ((act_changes ..).seen apart)

/-- What the viewer was sent after its last snapshot, what the broadcast still holds for it and
what waits to be broadcast are the frames pushed since that snapshot, each once and in order. -/
theorem viewers_sent_each_frame_once (budget : NvrBudget) (events : List (ι × Event))
    (inStep : Machine.Meets (Sessions.step act) InStep (start budget) events) (i : ι)
    (live : ((Machine.run (Sessions.step act) (start budget) events).1.locals i).phase = .live) :
    let s := (Machine.run (Sessions.step act) (start budget) events).1
    ∃ delivered, (s.locals i).messages = (s.locals i).opened ++ delivered ∧
      delivered ++ s.shared.sent.drop (s.locals i).next ++ s.shared.waiting.toList =
        s.shared.frames.drop (s.locals i).covered := by
  intro s
  have holds : Sessions.Holds Relayed InPlace s :=
    act_keeps.after_run (start_holds budget) events inStep
  have follows := (inPlace_live live).mp (holds.locals i)
  have started := follows.started
  have reached := follows.reached
  refine ⟨_, follows.messages, ?_⟩
  have relayed : s.shared.frames = s.shared.sent ++ s.shared.waiting.toList := holds.shared
  have rest : s.shared.sent.drop (s.locals i).next =
      (s.shared.sent.drop (s.locals i).covered).drop
        ((s.locals i).next - (s.locals i).covered) := by
    rw [List.drop_drop, Nat.add_sub_cancel' started]
  rw [relayed, rest, List.take_append_drop,
    List.drop_append_of_le_length (started.trans reached)]

def fill : Text := "5.cfill,2.15,1.0,1.9,1.9,1.9,3.255;".toList

def paint : Text := "4.rect,1.0,1.0,1.0,1.8,1.8;".toList

def joinEvents : List (Bool × Event) :=
  [(false, .push paint 0 0), (false, .broadcast), (true, .look 0), (true, .subscribe),
    (false, .push fill 1 1), (false, .broadcast), (true, .recv)]

theorem joined_viewer_sent_each_frame_once :
    let s := (Machine.run (Sessions.step act) (start (.new 1048576)) joinEvents).1
    (s.locals true).opened = [paint] ∧ (s.locals true).messages = [paint, fill] ∧
      ∃ delivered, (s.locals true).messages = (s.locals true).opened ++ delivered ∧
        delivered ++ s.shared.sent.drop (s.locals true).next ++ s.shared.waiting.toList =
          s.shared.frames.drop (s.locals true).covered :=
  ⟨by decide +kernel, by decide +kernel,
    viewers_sent_each_frame_once (.new 1048576) joinEvents (by decide +kernel) true
      (by decide +kernel)⟩

/-- The viewer looks and subscribes between the push of a frame and its broadcast. -/
def earlyEvents : List (Bool × Event) :=
  [(false, .push fill 0 0), (true, .look 0), (true, .subscribe), (false, .broadcast),
    (true, .recv)]

theorem frame_delivered_twice :
    let s := (Machine.run (Sessions.step act) (start (.new 1048576)) earlyEvents).1
    s.shared.frames = [fill] ∧ (s.locals true).messages = [fill, fill] := by
  decide +kernel

end Strata.Backend.SharedViewers
