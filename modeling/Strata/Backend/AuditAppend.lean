import Mathlib.Tactic
import Strata.Lib.Sessions
import Strata.Backend.AuditGrowth

/-! `audit_append` (`098_audit_chain_v2.sql`) under READ COMMITTED: transactions that append and
then commit or roll back, and verifiers that read the table meanwhile. Each statement is a step
and sees what is committed then and what its own transaction has written.

The advisory lock is held to the end of the transaction and given back after the commit is
visible; the sequence is drawn from outside of any transaction. -/

namespace Strata.Backend.Audit.Append

open Utf8 (Text Bytes)
open KeyOrder (Ordered byKey)
open Sessions (System)

variable {ι Json : Type}

/-- The arguments of a call, and `v_at`, which is read before the lock is taken. -/
structure Call (Json : Type) where
  userId : Option Uuid
  action : Text
  details : Json
  vAt : Timestamp

inductive Stage (Json : Type) where
  | idle
  | waiting (call : Call Json)
  | locked (call : Call Json)
  | headRead (call : Call Json) (vPrevious : Text)
  | drawn (call : Call Json) (vPrevious : Text) (vId : Int)

/-- A transaction that has ended still has its locks until they are released. -/
structure Transaction (Json : Type) where
  stage : Stage Json
  inserted : List (Row Json)
  ended : Bool

inductive Verifier where
  | idle
  | bounded (boundary : Option Int)
  | walking (boundary : Option Int) (walk : Walk)

inductive Session (Json : Type) where
  | writer (tx : Transaction Json)
  | reader (verifier : Verifier)

structure Database (ι Json : Type) where
  committed : List (Row Json)
  lastValue : Int
  holder : Option ι

inductive Event (Json : Type) where
  | call (call : Call Json)
  | lock
  | readHead
  | draw
  | insert
  | commit
  | rollback
  | release
  | readBoundary
  | start (head : Option Head)
  | batch

inductive Effect (Json : Type) where
  | snapshot (rows : List (Row Json))
  | reported (report : Report)

def headHash (visible : List (Row Json)) : Text := tip (byKey Row.id visible)

def newRow (hashing : Hashing Json) (call : Call Json) (vPrevious : Text) (vId : Int) :
    Row Json where
  id := vId
  createdAt := call.vAt
  userId := call.userId
  actionType := call.action
  details := call.details
  previousHash := vPrevious
  currentHash := auditHashV2 hashing
    ⟨vId, call.vAt, call.userId, call.action, call.details, vPrevious⟩
  hashVersion := 2

def write [DecidableEq ι] (hashing : Hashing Json) (i : ι) (db : Database ι Json)
    (tx : Transaction Json) (event : Event Json) : Database ι Json × Transaction Json :=
  match event, tx.stage with
  | .call call, .idle => if tx.ended then (db, tx) else (db, { tx with stage := .waiting call })
  | .lock, .waiting call =>
      if db.holder = none ∨ db.holder = some i then
        ({ db with holder := some i }, { tx with stage := .locked call })
      else
        (db, tx)
  | .readHead, .locked call =>
      (db, { tx with stage := .headRead call (headHash (db.committed ++ tx.inserted)) })
  | .draw, .headRead call vPrevious =>
      ({ db with lastValue := db.lastValue + 1 },
        { tx with stage := .drawn call vPrevious (db.lastValue + 1) })
  | .insert, .drawn call vPrevious vId =>
      (db, { tx with
        stage := .idle
        inserted := tx.inserted ++ [newRow hashing call vPrevious vId] })
  | .commit, .idle =>
      if tx.ended then (db, tx)
      else
        ({ db with committed := db.committed ++ tx.inserted },
          { tx with inserted := [], ended := true })
  | .rollback, _ => (db, ⟨.idle, [], true⟩)
  | .release, _ =>
      if tx.ended then
        ({ db with holder := if db.holder = some i then none else db.holder }, ⟨.idle, [], false⟩)
      else
        (db, tx)
  | _, _ => (db, tx)

def read (hashing : Hashing Json) (committed : List (Row Json)) (verifier : Verifier)
    (event : Event Json) : Verifier × List (Effect Json) :=
  match event, verifier with
  | .readBoundary, .idle => (.bounded (firstV2 committed), [])
  | .start head, .bounded boundary =>
      if startable committed head then (.walking boundary (Walk.start head), [])
      else (.bounded boundary, [])
  | .batch, .walking boundary walk =>
      match verifyTurn hashing boundary committed walk with
      | .inl next => (.walking boundary next, [.snapshot committed])
      | .inr report => (.idle, [.snapshot committed, .reported report])
  | _, verifier => (verifier, [])

def act [DecidableEq ι] (hashing : Hashing Json) (i : ι) (db : Database ι Json)
    (session : Session Json) (event : Event Json) :
    Database ι Json × Session Json × List (Effect Json) :=
  match session with
  | .writer tx =>
      let (db, tx) := write hashing i db tx event
      (db, .writer tx, [])
  | .reader verifier =>
      let (verifier, effects) := read hashing db.committed verifier event
      (db, .reader verifier, effects)

/-! ### What one step can do -/

variable {hashing : Hashing Json} {i : ι} {db : Database ι Json} {tx : Transaction Json}
  {rows : List (Row Json)}

/-- The steps of a transaction, those that change nothing as one. -/
inductive Write [DecidableEq ι] (hashing : Hashing Json) (i : ι) (db : Database ι Json)
    (tx : Transaction Json) : Database ι Json → Transaction Json → Prop where
  | stay : Write hashing i db tx db tx
  | call (call : Call Json) (idle : tx.stage = .idle) :
      Write hashing i db tx db { tx with stage := .waiting call }
  | lock {call : Call Json} (waiting : tx.stage = .waiting call)
      (free : db.holder = none ∨ db.holder = some i) :
      Write hashing i db tx { db with holder := some i } { tx with stage := .locked call }
  | readHead {call : Call Json} (locked : tx.stage = .locked call) :
      Write hashing i db tx db
        { tx with stage := .headRead call (headHash (db.committed ++ tx.inserted)) }
  | draw {call : Call Json} {vPrevious : Text} (headRead : tx.stage = .headRead call vPrevious) :
      Write hashing i db tx { db with lastValue := db.lastValue + 1 }
        { tx with stage := .drawn call vPrevious (db.lastValue + 1) }
  | insert {call : Call Json} {vPrevious : Text} {vId : Int}
      (drawn : tx.stage = .drawn call vPrevious vId) :
      Write hashing i db tx db
        { tx with
          stage := .idle
          inserted := tx.inserted ++ [newRow hashing call vPrevious vId] }
  | commit (idle : tx.stage = .idle) :
      Write hashing i db tx { db with committed := db.committed ++ tx.inserted }
        { tx with inserted := [], ended := true }
  | rollback : Write hashing i db tx db ⟨.idle, [], true⟩
  | release :
      Write hashing i db tx
        { db with holder := if db.holder = some i then none else db.holder } ⟨.idle, [], false⟩

theorem write_moves [DecidableEq ι] (event : Event Json) :
    Write hashing i db tx (write hashing i db tx event).1 (write hashing i db tx event).2 := by
  unfold write
  split
  · rename_i call idle
    by_cases ended : tx.ended = true
    · rw [if_pos ended]
      exact .stay
    · rw [if_neg ended]
      exact .call call idle
  · rename_i call waiting
    split_ifs with free
    · exact .lock waiting free
    · exact .stay
  · exact .readHead ‹_›
  · exact .draw ‹_›
  · exact .insert ‹_›
  · rename_i idle
    by_cases ended : tx.ended = true
    · rw [if_pos ended]
      exact .stay
    · rw [if_neg ended]
      exact .commit idle
  · exact .rollback
  · by_cases ended : tx.ended = true
    · rw [if_pos ended]
      exact .release
    · rw [if_neg ended]
      exact .stay
  · exact .stay

/-! ### Invariants -/

structure Chained (hashing : Hashing Json) (rows : List (Row Json)) (lastValue : Int) : Prop where
  intact : Intact hashing rows
  bounded : ∀ row ∈ rows, row.id ≤ lastValue
  started : 0 ≤ lastValue

/-- What the holder of the lock has read still holds of the rows it sees. -/
def Current (visible : List (Row Json)) (lastValue : Int) : Stage Json → Prop
  | .headRead _ vPrevious => vPrevious = tip visible
  | .drawn _ vPrevious vId =>
      vPrevious = tip visible ∧ (∀ row ∈ visible, row.id < vId) ∧ 0 < vId ∧ vId ≤ lastValue
  | _ => True

structure Writing (hashing : Hashing Json) (db : Database ι Json) (tx : Transaction Json) :
    Prop where
  chained : Chained hashing (db.committed ++ tx.inserted) db.lastValue
  current : Current (db.committed ++ tx.inserted) db.lastValue tx.stage

def Resting (tx : Transaction Json) : Prop :=
  tx.inserted = [] ∧
    match tx.stage with
    | .idle => True
    | .waiting _ => True
    | _ => False

structure Guarded (hashing : Hashing Json) (i : ι) (db : Database ι Json)
    (tx : Transaction Json) : Prop where
  inside : db.holder = some i → Writing hashing db tx
  outside : db.holder ≠ some i → Resting tx

def Reading (committed : List (Row Json)) : Verifier → Prop
  | .idle => True
  | .bounded boundary => Known committed boundary
  | .walking boundary walk => Known committed boundary ∧ walk.At committed

def Fine (hashing : Hashing Json) (i : ι) (db : Database ι Json) : Session Json → Prop
  | .writer tx => Guarded hashing i db tx
  | .reader verifier => Reading db.committed verifier

abbrev Sound (hashing : Hashing Json) (db : Database ι Json) : Prop :=
  Chained hashing db.committed db.lastValue

theorem headHash_eq (intact : Intact hashing rows) : headHash rows = tip rows := by
  rw [headHash, intact.ordered.byKey_eq]

theorem Guarded.holds (guarded : Guarded hashing i db tx) (busy : ¬Resting tx) :
    db.holder = some i := by
  by_contra free
  exact busy (guarded.outside free)

theorem holder_ne {j : ι} (held : db.holder = some i) (apart : j ≠ i) : db.holder ≠ some j :=
  fun same => apart (Option.some.inj (same.symm.trans held))

theorem Guarded.committed_append (guarded : Guarded hashing i db tx)
    (free : db.holder ≠ some i) : db.committed ++ tx.inserted = db.committed := by
  rw [(guarded.outside free).1, List.append_nil]

theorem Chained.append_nil {lastValue : Int} (chained : Chained hashing rows lastValue) :
    Chained hashing (rows ++ []) lastValue := by
  rwa [List.append_nil]

theorem newRow_hashed (call : Call Json) (vPrevious : Text) (vId : Int) :
    (newRow hashing call vPrevious vId).Hashed hashing := ⟨rfl, rfl⟩

theorem Chained.insert {lastValue vId : Int} (chained : Chained hashing rows lastValue)
    (call : Call Json) (newer : ∀ row ∈ rows, row.id < vId) (positive : 0 < vId)
    (drawn : vId ≤ lastValue) :
    Chained hashing (rows ++ [newRow hashing call (tip rows) vId]) lastValue where
  intact := chained.intact.concat (newRow_hashed ..) rfl newer positive
  bounded := by
    intro row member
    rcases List.mem_append.mp member with old | same
    · exact chained.bounded row old
    · rwa [List.mem_singleton.mp same]
  started := chained.started

theorem Chained.draw {lastValue : Int} (chained : Chained hashing rows lastValue) :
    Chained hashing rows (lastValue + 1) where
  intact := chained.intact
  bounded row member := (chained.bounded row member).trans (by omega)
  started := chained.started.trans (by omega)

/-- An intact chain, a free lock, and sessions that have not begun. -/
structure Initial (hashing : Hashing Json) (s : System ι (Database ι Json) (Session Json)) :
    Prop where
  sound : Sound hashing s.shared
  free : s.shared.holder = none
  fresh : ∀ i, s.locals i = .writer ⟨.idle, [], false⟩ ∨ s.locals i = .reader .idle

theorem Initial.holds {s : System ι (Database ι Json) (Session Json)}
    (initial : Initial hashing s) : Sessions.Holds (Sound hashing) (Fine hashing) s where
  shared := initial.sound
  locals := by
    intro i
    rcases initial.fresh i with writer | reader
    · rw [writer]
      refine ⟨fun held => ?_, fun _ => ⟨rfl, trivial⟩⟩
      rw [initial.free] at held
      cases held
    · rw [reader]
      trivial

variable [DecidableEq ι] {db' : Database ι Json} {tx' : Transaction Json}

theorem Write.grows (moved : Write hashing i db tx db' tx') :
    db.committed <+: db'.committed := by
  cases moved with
  | commit idle => exact List.prefix_append ..
  | _ => exact List.prefix_rfl

theorem Write.sound (moved : Write hashing i db tx db' tx') (sound : Sound hashing db)
    (guarded : Guarded hashing i db tx) : Sound hashing db' := by
  cases moved with
  | draw headRead => exact sound.draw
  | commit idle =>
      by_cases held : db.holder = some i
      · exact (guarded.inside held).chained
      · rw [Sound, guarded.committed_append held]
        exact sound
  | _ => exact sound

theorem Write.guarded (moved : Write hashing i db tx db' tx') (sound : Sound hashing db)
    (guarded : Guarded hashing i db tx) : Guarded hashing i db' tx' := by
  cases moved with
  | stay => exact guarded
  | call call idle =>
      exact ⟨fun held => ⟨(guarded.inside held).chained, trivial⟩,
        fun free => ⟨(guarded.outside free).1, trivial⟩⟩
  | lock waiting free =>
      refine ⟨fun _ => ⟨?_, trivial⟩, fun other => absurd rfl other⟩
      by_cases held : db.holder = some i
      · exact (guarded.inside held).chained
      · rw [guarded.committed_append held]
        exact sound
  | readHead locked =>
      have held := guarded.holds (by simp [Resting, locked])
      have writing := guarded.inside held
      exact ⟨fun _ => ⟨writing.chained, headHash_eq writing.chained.intact⟩,
        fun other => absurd held other⟩
  | draw headRead =>
      have held := guarded.holds (by simp [Resting, headRead])
      have ⟨chained, current⟩ := guarded.inside held
      rw [headRead] at current
      refine ⟨fun _ => ⟨chained.draw, current, ?_, ?_, le_rfl⟩, fun other => absurd held other⟩
      · exact fun row member => Int.lt_add_one_of_le (chained.bounded row member)
      · exact Int.lt_add_one_of_le chained.started
  | insert drawn =>
      have held := guarded.holds (by simp [Resting, drawn])
      have ⟨chained, current⟩ := guarded.inside held
      rw [drawn] at current
      obtain ⟨rfl, newer, positive, small⟩ := current
      refine ⟨fun _ => ⟨?_, trivial⟩, fun other => absurd held other⟩
      rw [← List.append_assoc]
      exact chained.insert _ newer positive small
  | commit idle =>
      refine ⟨fun held => ⟨(guarded.inside held).chained.append_nil, ?_⟩, fun _ => ⟨rfl, ?_⟩⟩
      · dsimp only
        rw [idle]
        trivial
      · dsimp only
        rw [idle]
        trivial
  | rollback =>
      exact ⟨fun _ => ⟨sound.append_nil, trivial⟩, fun _ => ⟨rfl, trivial⟩⟩
  | release =>
      refine ⟨fun held => ?_, fun _ => ⟨rfl, trivial⟩⟩
      dsimp only at held
      split_ifs at held with own
      exact absurd held own

theorem Write.frame {j : ι} {other : Transaction Json} (moved : Write hashing i db tx db' tx')
    (guarded : Guarded hashing i db tx) (apart : j ≠ i) (kept : Guarded hashing j db other) :
    Guarded hashing j db' other := by
  cases moved with
  | lock waiting free =>
      have away : db.holder ≠ some j := by
        rcases free with nobody | own
        · rw [nobody]
          exact nofun
        · exact holder_ne own apart
      exact ⟨fun same => absurd (Option.some.inj same).symm apart, fun _ => kept.outside away⟩
  | draw headRead =>
      have away := holder_ne (guarded.holds (by simp [Resting, headRead])) apart
      exact ⟨fun same => absurd same away, fun _ => kept.outside away⟩
  | commit idle =>
      by_cases held : db.holder = some i
      · have away := holder_ne held apart
        exact ⟨fun same => absurd same away, fun _ => kept.outside away⟩
      · rw [guarded.committed_append held]
        exact kept
  | release =>
      by_cases own : db.holder = some i
      · rw [if_pos own]
        exact ⟨nofun, fun _ => kept.outside (holder_ne own apart)⟩
      · rw [if_neg own]
        exact kept
  | _ => exact kept

/-! ### Readers -/

theorem Reading.grow {committed more : List (Row Json)} {verifier : Verifier}
    (reading : Reading committed verifier) (grown : committed <+: more)
    (intact : Intact hashing more) : Reading more verifier := by
  obtain ⟨new, rfl⟩ := grown
  cases verifier with
  | idle => trivial
  | bounded boundary => exact reading.append intact.ordered
  | walking boundary walk =>
      exact ⟨reading.1.append intact.ordered, reading.2.mono fun _ => List.mem_append_left new⟩

theorem read_reading {committed : List (Row Json)} {verifier : Verifier}
    (intact : Intact hashing committed) (reading : Reading committed verifier)
    (event : Event Json) : Reading committed (read hashing committed verifier event).1 := by
  unfold read
  split
  · exact fun _ same => same
  · split_ifs with allowed
    · exact ⟨reading, Walk.start_at allowed⟩
    · exact reading
  · split
    · exact ⟨reading.1, reading.2.turn intact reading.1 ‹_›⟩
    · trivial
  · exact reading

def Effect.Fine (hashing : Hashing Json) (committed : List (Row Json)) : Effect Json → Prop
  | .snapshot rows => Intact hashing rows ∧ rows <+: committed
  | .reported report => report.breaks = []

theorem read_effects {committed : List (Row Json)} {verifier : Verifier}
    (intact : Intact hashing committed) (reading : Reading committed verifier)
    (event : Event Json) :
    ∀ happened ∈ (read hashing committed verifier event).2, happened.Fine hashing committed := by
  unfold read
  split
  · exact nofun
  · split_ifs <;> exact nofun
  · split
    · rw [List.forall_mem_singleton]
      exact ⟨intact, List.prefix_rfl⟩
    · rename_i report turned
      rw [List.forall_mem_cons, List.forall_mem_singleton]
      refine ⟨⟨intact, List.prefix_rfl⟩, ?_⟩
      rw [Effect.Fine, report_of_turn turned]
      exact reading.2.breaks
  · exact nofun

theorem Effect.Fine.grow {committed more : List (Row Json)} {happened : Effect Json}
    (fine : happened.Fine hashing committed) (grown : committed <+: more) :
    happened.Fine hashing more := by
  cases happened with
  | snapshot rows => exact ⟨fine.1, fine.2.trans grown⟩
  | reported report => exact fine

/-! ### Whole runs -/

theorem act_grows (i : ι) (db : Database ι Json) (session : Session Json) (event : Event Json) :
    db.committed <+: (act hashing i db session event).1.committed := by
  cases session with
  | writer tx => exact (write_moves event).grows
  | reader verifier => exact List.prefix_rfl

theorem act_sound {session : Session Json} (sound : Sound hashing db)
    (fine : Fine hashing i db session) (event : Event Json) :
    Sound hashing (act hashing i db session event).1 := by
  cases session with
  | writer tx => exact (write_moves event).sound sound fine
  | reader verifier => exact sound

theorem act_effects {session : Session Json} (sound : Sound hashing db)
    (fine : Fine hashing i db session) (event : Event Json) :
    ∀ happened ∈ (act hashing i db session event).2.2,
      happened.Fine hashing (act hashing i db session event).1.committed := by
  cases session with
  | writer tx => exact nofun
  | reader verifier => exact read_effects sound.intact fine event

theorem act_keeps :
    Sessions.Keeps (act hashing) (fun _ _ => True) (Sound hashing) (Fine (ι := ι) hashing) where
  shared holds _ := act_sound holds.shared (holds.locals _) _
  mover := by
    intro s i event holds _
    have fine := holds.locals i
    rw [Sessions.move]
    cases session : s.locals i with
    | writer tx =>
        rw [session] at fine
        exact (write_moves event).guarded holds.shared fine
    | reader verifier =>
        rw [session] at fine
        exact read_reading holds.shared.intact fine event
  others := by
    intro s i event j holds _ apart
    have own := holds.locals i
    have fine := holds.locals j
    have sound := act_sound holds.shared own event
    rw [Sessions.move]
    cases other : s.locals j with
    | reader verifier =>
        rw [other] at fine
        exact fine.grow (act_grows ..) sound.intact
    | writer tx =>
        rw [other] at fine
        cases session : s.locals i with
        | writer mover =>
            rw [session] at own
            exact (write_moves event).frame own apart fine
        | reader verifier => exact fine

/-- Whatever the interleaving: each batch is read from a chain that is in the order of its ids,
has every v2 row behind the row before it, and is the front part of every later one; and no walk
reports a break. -/
theorem interleaved_appends_unbroken {start : System ι (Database ι Json) (Session Json)}
    (initial : Initial hashing start) (events : List (ι × Event Json)) :
    (∀ rows, .snapshot rows ∈ (Machine.run (Sessions.step (act hashing)) start events).2 →
      Ordered Row.id rows ∧
      rows <+: (Machine.run (Sessions.step (act hashing)) start events).1.shared.committed ∧
      ∀ front row back, rows = front ++ row :: back → row.hashVersion = 2 →
        row.Hashed hashing ∧ row.previousHash = tip front) ∧
    ∀ report, .reported report ∈ (Machine.run (Sessions.step (act hashing)) start events).2 →
      report.breaks = [] := by
  have fine := act_keeps.effects initial.holds (fun db => Effect.Fine hashing db.committed)
    (fun holds _ => act_effects holds.shared (holds.locals _) _)
    (fun _ _ before => before.grow (act_grows ..)) events
    (Machine.meets_of_always (fun _ _ => trivial) events)
  constructor
  · intro rows seen
    have ⟨intact, front⟩ := fine _ seen
    refine ⟨intact.ordered, front, fun before row back split two => ⟨?_, ?_⟩⟩
    · exact intact.hashed (by simp [split]) two
    · exact intact.previous split two
  · intro report made
    exact fine _ made

def sampleSystem : System Bool (Database Bool Text) (Session Text) where
  shared := ⟨[⟨1, sampleTime, none, "a".toList, sampleEvent.details, [], "00".toList, 1⟩], 1, none⟩
  locals writer := if writer then .writer ⟨.idle, [], false⟩ else .reader .idle

def sampleCall : Call Text := ⟨none, "auth.login".toList, sampleEvent.details, sampleTime⟩

def sampleEvents : List (Bool × Event Text) :=
  [(false, .readBoundary), (true, .call sampleCall), (true, .lock), (true, .readHead),
    (true, .draw), (true, .insert), (false, .start none), (false, .batch), (true, .commit),
    (false, .batch), (true, .release), (false, .batch)]

theorem sample_appends_unbroken :
    (Machine.run (Sessions.step (act sampleHashing)) sampleSystem sampleEvents).2.length = 4 ∧
      ∀ report, .reported report ∈
        (Machine.run (Sessions.step (act sampleHashing)) sampleSystem sampleEvents).2 →
      report.breaks = [] := by
  have intact : Intact sampleHashing sampleSystem.shared.committed := by
    refine ⟨List.pairwise_singleton .., ?_, _, [], (List.append_nil _).symm, ?_, nofun, trivial⟩
    · simp [sampleSystem]
    · simp [sampleSystem]
  have initial : Initial sampleHashing sampleSystem := by
    refine ⟨⟨intact, by simp [sampleSystem], by decide⟩, rfl, fun writer => ?_⟩
    cases writer with
    | true => exact Or.inl rfl
    | false => exact Or.inr rfl
  exact ⟨by decide, (interleaved_appends_unbroken initial sampleEvents).2⟩

end Strata.Backend.Audit.Append
