import Mathlib.Tactic
import Strata.Lib.Machine
import Strata.Lib.Tables
import Strata.Lib.Utf8

/-! System settings behind a cache of one process. Reads fill the cache, writes remove their key
from it, and a generation that every write bumps keeps a read from filling in what it read before
a write. -/

namespace Strata.Backend.Settings

open Tables (Table)
open Utf8 (Text)

def cacheTtl : Nat := 5 * 10 ^ 9

structure CacheEntry where
  value : Option Text
  fetchedAt : Nat

abbrev Cache : Type := Table Text CacheEntry

/-- `entry.fetched_at.elapsed() < CACHE_TTL` -/
def CacheEntry.fresh (entry : CacheEntry) (now : Nat) : Bool :=
  decide (now - entry.fetchedAt < cacheTtl)

def cached (cache : Cache) (key : Text) (now : Nat) : Option (Option Text) :=
  ((cache.lookup key).filter (·.fresh now)).map CacheEntry.value

def fill (cache : Cache) (key : Text) (row : Option Text) (now : Nat) : Cache :=
  AList.insert key ⟨row, now⟩
    (if Tables.size cache > 500 then Tables.retain (·.fresh now) cache else cache)

def fillAll (cache : Cache) (rows : Table Text Text) (now : Nat) : Cache :=
  rows.entries.foldl (fun cache row => cache.insert row.1 ⟨some row.2, now⟩) cache

/-! ### Tasks -/

inductive GetPoint where
  | started
  | waiting
  | locked
  | missed
  | loaded (generation : Nat)
  | read (generation : Nat) (row : Option Text)

inductive AllPoint where
  | started
  | loaded (generation : Nat)
  | read (generation : Nat) (rows : Table Text Text)

inductive Task where
  | get (key : Text) (point : GetPoint)
  | getAll (point : AllPoint)
  | set (key value : Text) (committed : Bool)

variable {κ : Type}

structure System (κ : Type) where
  /-- `system_settings` -/
  db : Table Text Text
  cache : Cache
  generation : Nat
  inFlight : Table Text κ
  tasks : Table κ Task
  clock : Nat

def System.boot (db : Table Text Text) : System κ := ⟨db, ∅, 0, ∅, ∅, 0⟩

inductive Call where
  | get (key : Text)
  | getAll
  | set (key value : Text)

def Call.start : Call → Task
  | .get key => .get key .started
  | .getAll => .getAll .started
  | .set key value => .set key value false

inductive Event (κ : Type) where
  | call (task : κ) (call : Call)
  | move (task : κ) (after : Nat)
  /-- A statement fails or the future is dropped; the statement of a write may have been carried
  out. -/
  | stop (task : κ) (landed : Bool)

inductive Answer (κ : Type) where
  | got (task : κ) (key : Text) (value : Option Text)
  | gotAll (task : κ) (rows : Table Text Text)
  | stored (task : κ) (key : Text)
  deriving DecidableEq

variable [DecidableEq κ]

def System.put (s : System κ) (task : κ) (point : Task) : System κ :=
  { s with tasks := s.tasks.insert task point }

def System.finish (s : System κ) (task : κ) : System κ :=
  { s with tasks := s.tasks.erase task }

def System.unlock (s : System κ) (key : Text) : System κ :=
  { s with inFlight := s.inFlight.erase key }

def System.moveGet (s : System κ) (task : κ) (key : Text) : GetPoint → System κ × List (Answer κ)
  | .started =>
      match cached s.cache key s.clock with
      | some value => (s.finish task, [.got task key value])
      | none => (s.put task (.get key .waiting), [])
  | .waiting =>
      if key ∈ s.inFlight then (s, [])
      else
        (System.put { s with inFlight := s.inFlight.insert key task } task (.get key .locked), [])
  | .locked =>
      match cached s.cache key s.clock with
      | some value => ((s.unlock key).finish task, [.got task key value])
      | none => (s.put task (.get key .missed), [])
  | .missed => (s.put task (.get key (.loaded s.generation)), [])
  | .loaded generation => (s.put task (.get key (.read generation (s.db.lookup key))), [])
  | .read generation row =>
      (System.finish (System.unlock
        { s with
          cache := if s.generation = generation then fill s.cache key row s.clock else s.cache }
        key) task, [.got task key row])

def System.moveAll (s : System κ) (task : κ) : AllPoint → System κ × List (Answer κ)
  | .started => (s.put task (.getAll (.loaded s.generation)), [])
  | .loaded generation => (s.put task (.getAll (.read generation s.db)), [])
  | .read generation rows =>
      (System.finish
        { s with
          cache := if s.generation = generation then fillAll s.cache rows s.clock else s.cache }
        task, [.gotAll task rows])

def System.moveSet (s : System κ) (task : κ) (key value : Text) :
    Bool → System κ × List (Answer κ)
  | false => (System.put { s with db := s.db.insert key value } task (.set key value true), [])
  | true =>
      (System.finish
        { s with generation := s.generation + 1, cache := s.cache.erase key } task,
        [.stored task key])

def System.move (s : System κ) (task : κ) : System κ × List (Answer κ) :=
  match s.tasks.lookup task with
  | some (.get key point) => s.moveGet task key point
  | some (.getAll point) => s.moveAll task point
  | some (.set key value committed) => s.moveSet task key value committed
  | none => (s, [])

def System.stop (s : System κ) (task : κ) (landed : Bool) : System κ :=
  match s.tasks.lookup task with
  | some (.get _ .waiting) => s.finish task
  | some (.get key (.loaded _)) => (s.unlock key).finish task
  | some (.getAll (.loaded _)) => s.finish task
  | some (.set key value false) =>
      System.finish { s with db := if landed then s.db.insert key value else s.db } task
  | _ => s

def step (s : System κ) : Event κ → System κ × List (Answer κ)
  | .call task call => if task ∈ s.tasks then (s, []) else (s.put task call.start, [])
  | .move task after => System.move { s with clock := s.clock + after } task
  | .stop task landed => (s.stop task landed, [])

/-! ### What a step does -/

def Task.generation : Task → Option Nat
  | .get _ (.loaded generation) => some generation
  | .get _ (.read generation _) => some generation
  | .getAll (.loaded generation) => some generation
  | .getAll (.read generation _) => some generation
  | _ => none

def Task.row (key : Text) : Task → Option (Option Text)
  | .get own (.read _ row) => if own = key then some row else none
  | .getAll (.read _ rows) => (rows.lookup key).map some
  | _ => none

def Task.writes (key : Text) : Task → Option (Text × Bool)
  | .set own value committed => if own = key then some (value, committed) else none
  | _ => none

structure Core (κ : Type) where
  db : Table Text Text
  cache : Cache
  generation : Nat
  tasks : Table κ Task

def System.core (s : System κ) : Core κ := ⟨s.db, s.cache, s.generation, s.tasks⟩

inductive Stepped (c : Core κ) : Event κ → Core κ × List (Answer κ) → Prop where
  | idle (event : Event κ) : Stepped c event (c, [])
  | called {task : κ} (call : Call) (fresh : task ∉ c.tasks) :
      Stepped c (.call task call) ({ c with tasks := c.tasks.insert task call.start }, [])
  /-- A read goes on, maybe with the generation of the moment. -/
  | went {task : κ} {after : Nat} {point next : Task} (found : c.tasks.lookup task = some point)
      (unread : ∀ key, next.row key = none) (silent : ∀ key, next.writes key = none)
      (current : ∀ generation ∈ next.generation, generation = c.generation) :
      Stepped c (.move task after) ({ c with tasks := c.tasks.insert task next }, [])
  | selected {task : κ} {after : Nat} {point next : Task}
      (found : c.tasks.lookup task = some point) (silent : ∀ key, next.writes key = none)
      (same : next.generation = point.generation)
      (row : ∀ key value, next.row key = some value → value = c.db.lookup key) :
      Stepped c (.move task after) ({ c with tasks := c.tasks.insert task next }, [])
  | hit {task : κ} {after : Nat} {key : Text} {entry : CacheEntry}
      (found : c.cache.lookup key = some entry) :
      Stepped c (.move task after)
        ({ c with tasks := c.tasks.erase task }, [.got task key entry.value])
  /-- A read ends, and fills the cache if no write came in between. -/
  | filled {task : κ} {after : Nat} {point : Task} {cache : Cache} {answers : List (Answer κ)}
      (found : c.tasks.lookup task = some point)
      (entries : ∀ key entry, cache.lookup key = some entry → c.cache.lookup key = some entry ∨
        point.generation = some c.generation ∧ point.row key = some entry.value)
      (told : ∀ reader key value, .got reader key value ∈ answers →
        reader = task ∧ point.row key = some value)
      (reads : ∀ writer key, .stored writer key ∉ answers) :
      Stepped c (.move task after) ({ c with cache := cache, tasks := c.tasks.erase task }, answers)
  | committed {task : κ} {after : Nat} {key value : Text}
      (found : c.tasks.lookup task = some (.set key value false)) :
      Stepped c (.move task after)
        ({ c with
            db := c.db.insert key value
            tasks := c.tasks.insert task (.set key value true) }, [])
  | invalidated {task : κ} {after : Nat} {key value : Text}
      (found : c.tasks.lookup task = some (.set key value true)) :
      Stepped c (.move task after)
        ({ c with
            cache := c.cache.erase key
            generation := c.generation + 1
            tasks := c.tasks.erase task }, [.stored task key])
  | stopped {task : κ} {landed : Bool} :
      Stepped c (.stop task landed) ({ c with tasks := c.tasks.erase task }, [])
  | landed {task : κ} {key value : Text}
      (found : c.tasks.lookup task = some (.set key value false)) :
      Stepped c (.stop task true)
        ({ c with db := c.db.insert key value, tasks := c.tasks.erase task }, [])

theorem of_cached {cache : Cache} {key : Text} {now : Nat} {value : Option Text}
    (hit : cached cache key now = some value) :
    ∃ entry, cache.lookup key = some entry ∧ entry.value = value := by
  rw [cached, Option.map_eq_some_iff] at hit
  obtain ⟨entry, kept, same⟩ := hit
  exact ⟨entry, (Option.filter_eq_some_iff.mp kept).1, same⟩

theorem of_fill {cache : Cache} {key other : Text} {row : Option Text} {now : Nat}
    {entry : CacheEntry} (found : (fill cache key row now).lookup other = some entry) :
    cache.lookup other = some entry ∨ other = key ∧ entry.value = row := by
  rcases Tables.of_lookup_insert _ found with ⟨same, rfl⟩ | ⟨-, before⟩
  · exact .inr ⟨same, rfl⟩
  · refine .inl ?_
    split_ifs at before
    · exact Tables.lookup_retain _ _ before
    · exact before

theorem of_fillAll {rows : Table Text Text} {cache : Cache} {now : Nat} {key : Text}
    {entry : CacheEntry} (found : (fillAll cache rows now).lookup key = some entry) :
    cache.lookup key = some entry ∨ (rows.lookup key).map some = some entry.value := by
  suffices member : cache.lookup key = some entry ∨
      ∃ value, ⟨key, value⟩ ∈ rows.entries ∧ entry.value = some value by
    rcases member with before | ⟨value, member, same⟩
    · exact .inl before
    · rw [AList.mem_lookup_iff.mpr member, same]
      exact .inr rfl
  rw [fillAll] at found
  revert found
  induction rows.entries generalizing cache with
  | nil => exact .inl
  | cons row rest ih =>
      intro found
      rcases ih found with before | ⟨value, member, same⟩
      · rcases Tables.of_lookup_insert _ before with ⟨rfl, rfl⟩ | ⟨-, older⟩
        · exact .inr ⟨row.2, List.mem_cons_self, rfl⟩
        · exact .inl older
      · exact .inr ⟨value, List.mem_cons_of_mem _ member, same⟩

variable {s : System κ}

theorem moveGet_stepped {task : κ} {key : Text} {point : GetPoint} (after : Nat)
    (found : s.tasks.lookup task = some (.get key point)) :
    Stepped s.core (.move task after)
      ((s.moveGet task key point).1.core, (s.moveGet task key point).2) := by
  cases point with
  | started =>
      rw [System.moveGet]
      split
      case h_1 hit =>
        obtain ⟨entry, present, rfl⟩ := of_cached hit
        exact .hit present
      case h_2 => exact .went found (fun _ => rfl) (fun _ => rfl) fun _ none => nomatch none
  | waiting =>
      rw [System.moveGet]
      split_ifs
      · exact .idle _
      · exact .went found (fun _ => rfl) (fun _ => rfl) fun _ none => nomatch none
  | locked =>
      rw [System.moveGet]
      split
      case h_1 hit =>
        obtain ⟨entry, present, rfl⟩ := of_cached hit
        exact .hit present
      case h_2 => exact .went found (fun _ => rfl) (fun _ => rfl) fun _ none => nomatch none
  | missed =>
      exact .went found (fun _ => rfl) (fun _ => rfl) fun _ same => (Option.some.inj same).symm
  | loaded generation =>
      refine .selected found (fun _ => rfl) rfl fun other value read => ?_
      rw [Task.row] at read
      split_ifs at read with same
      rw [← Option.some.inj read, same]
      rfl
  | read generation row =>
      refine .filled found (fun other entry present => ?_) (fun reader other value told => ?_)
        fun writer other told => nomatch List.mem_singleton.mp told
      · dsimp only [System.core, System.moveGet, System.finish, System.unlock] at present
        split_ifs at present with current
        · refine (of_fill present).imp_right ?_
          rintro ⟨rfl, value⟩
          rw [value, Task.row, if_pos rfl]
          exact ⟨congrArg some current.symm, rfl⟩
        · exact .inl present
      · cases List.mem_singleton.mp told
        exact ⟨rfl, if_pos rfl⟩

theorem moveAll_stepped {task : κ} {point : AllPoint} (after : Nat)
    (found : s.tasks.lookup task = some (.getAll point)) :
    Stepped s.core (.move task after)
      ((s.moveAll task point).1.core, (s.moveAll task point).2) := by
  cases point with
  | started =>
      exact .went found (fun _ => rfl) (fun _ => rfl) fun _ same => (Option.some.inj same).symm
  | loaded generation =>
      refine .selected found (fun _ => rfl) rfl fun key value read => ?_
      obtain ⟨row, present, rfl⟩ := Option.map_eq_some_iff.mp read
      exact present.symm
  | read generation rows =>
      refine .filled found (fun key entry present => ?_)
        (fun reader key value told => nomatch List.mem_singleton.mp told)
        fun writer key told => nomatch List.mem_singleton.mp told
      dsimp only [System.core, System.moveAll, System.finish] at present
      split_ifs at present with current
      · exact (of_fillAll present).imp_right fun value => ⟨congrArg some current.symm, value⟩
      · exact .inl present

theorem move_stepped (s : System κ) (task : κ) (after : Nat) :
    Stepped s.core (.move task after) ((s.move task).1.core, (s.move task).2) := by
  rw [System.move]
  split
  case h_1 key point found => exact moveGet_stepped after found
  case h_2 point found => exact moveAll_stepped after found
  case h_3 key value committed found =>
    cases committed with
    | false => exact .committed found
    | true => exact .invalidated found
  case h_4 => exact .idle _

theorem step_stepped (s : System κ) (event : Event κ) :
    Stepped s.core event ((step s event).1.core, (step s event).2) := by
  cases event with
  | call task call =>
      rw [step]
      split_ifs with known
      · exact .idle _
      · exact .called call known
  | move task after => exact move_stepped { s with clock := s.clock + after } task after
  | stop task landed =>
      rw [step, System.stop]
      split
      case h_1 | h_2 | h_3 => exact .stopped
      case h_4 found =>
        cases landed with
        | false => exact .stopped
        | true => exact .landed found
      case h_5 => exact .idle _

/-! ### Before and after a write -/

def Bounded (c : Core κ) : Prop :=
  ∀ task point generation, c.tasks.lookup task = some point →
    point.generation = some generation → generation ≤ c.generation

def Writing (writer : κ) (key value : Text) (c : Core κ) : Prop :=
  ∀ task point other committed, c.tasks.lookup task = some point →
    point.writes key = some (other, committed) →
      task = writer ∧ other = value ∧ (committed = true → c.db.lookup key = some value)

/-- The value is in the table and whatever is cached or about to be cached for the key is it. -/
structure Settled (key value : Text) (c : Core κ) : Prop where
  db : c.db.lookup key = some value
  cache : ∀ entry, c.cache.lookup key = some entry → entry.value = some value
  rows : ∀ task point row, c.tasks.lookup task = some point →
    point.generation = some c.generation → point.row key = some row → row = some value
  alone : ∀ task point, c.tasks.lookup task = some point → point.writes key = none

def Fresh (reader : κ) (key value : Text) (c : Core κ) : Prop :=
  ∀ point row, c.tasks.lookup reader = some point → point.row key = some row → row = some value

def Event.sets (key : Text) : Event κ → Bool
  | .call _ (.set own _) => own = key
  | _ => false

theorem Call.start_generation (call : Call) : call.start.generation = none := by
  cases call <;> rfl

theorem Call.start_row (call : Call) (key : Text) : call.start.row key = none := by
  cases call <;> rfl

omit [DecidableEq κ] in
theorem Call.start_writes {call : Call} {task : κ} {key : Text}
    (other : (Event.call task call).sets key = false) : call.start.writes key = none := by
  cases call with
  | set own value => exact if_neg (of_decide_eq_false other)
  | get own => rfl
  | getAll => rfl

variable {c : Core κ} {event : Event κ} {outcome : Core κ × List (Answer κ)} {key value : Text}
  {writer reader : κ}

theorem bounded_stepped (bounded : Bounded c) (stepped : Stepped c event outcome) :
    Bounded outcome.1 := by
  intro task point generation found loaded
  cases stepped with
  | idle => exact bounded task point generation found loaded
  | called call _ =>
      rcases Tables.of_lookup_insert _ found with ⟨-, rfl⟩ | ⟨-, before⟩
      · rw [call.start_generation] at loaded
        cases loaded
      · exact bounded task point generation before loaded
  | went _ _ _ current =>
      rcases Tables.of_lookup_insert _ found with ⟨-, rfl⟩ | ⟨-, before⟩
      · exact (current generation loaded).le
      · exact bounded task point generation before loaded
  | selected present _ same _ =>
      rcases Tables.of_lookup_insert _ found with ⟨-, rfl⟩ | ⟨-, before⟩
      · exact bounded _ _ generation present (same ▸ loaded)
      · exact bounded task point generation before loaded
  | committed _ =>
      rcases Tables.of_lookup_insert _ found with ⟨-, rfl⟩ | ⟨-, before⟩
      · cases loaded
      · exact bounded task point generation before loaded
  | invalidated _ =>
      have before := bounded task point generation (Tables.of_lookup_erase _ found).2 loaded
      exact Nat.le_succ_of_le before
  | hit _ | filled _ _ _ _ | stopped | landed _ =>
      exact bounded task point generation (Tables.of_lookup_erase _ found).2 loaded

theorem writes_of_set {own other : Text} {committed : Bool} {written : Text × Bool}
    (writes : (Task.set own other committed).writes key = some written) :
    own = key ∧ written = (other, committed) := by
  rw [Task.writes] at writes
  split_ifs at writes with same
  exact ⟨same, (Option.some.inj writes).symm⟩

theorem writing_stepped (writing : Writing writer key value c) (stepped : Stepped c event outcome)
    (others : event.sets key = false) : Writing writer key value outcome.1 := by
  intro task point other written found writes
  cases stepped with
  | idle => exact writing task point other written found writes
  | called call _ =>
      rcases Tables.of_lookup_insert _ found with ⟨-, rfl⟩ | ⟨-, before⟩
      · rw [call.start_writes others] at writes
        cases writes
      · exact writing task point other written before writes
  | went _ _ silent _ | selected _ silent _ _ =>
      rcases Tables.of_lookup_insert _ found with ⟨-, rfl⟩ | ⟨-, before⟩
      · rw [silent] at writes
        cases writes
      · exact writing task point other written before writes
  | @committed _ _ own new present =>
      by_cases same : own = key
      · subst same
        obtain ⟨rfl, rfl, -⟩ := writing _ _ new false present (if_pos rfl)
        rcases Tables.of_lookup_insert _ found with ⟨rfl, rfl⟩ | ⟨-, before⟩
        · cases (writes_of_set writes).2
          exact ⟨rfl, rfl, fun _ => AList.lookup_insert _⟩
        · obtain ⟨rfl, rfl, -⟩ := writing task point other written before writes
          exact ⟨rfl, rfl, fun _ => AList.lookup_insert _⟩
      · rcases Tables.of_lookup_insert _ found with ⟨-, rfl⟩ | ⟨-, before⟩
        · exact absurd (writes_of_set writes).1 same
        · dsimp only
          rw [AList.lookup_insert_ne (Ne.symm same)]
          exact writing task point other written before writes
  | @landed _ own new present =>
      obtain ⟨away, before⟩ := Tables.of_lookup_erase _ found
      have old := writing task point other written before writes
      by_cases same : own = key
      · subst same
        obtain ⟨rfl, -, -⟩ := writing _ _ new false present (if_pos rfl)
        exact absurd old.1 away
      · dsimp only
        rw [AList.lookup_insert_ne (Ne.symm same)]
        exact old
  | hit _ | filled _ _ _ _ | stopped | invalidated _ =>
      exact writing task point other written (Tables.of_lookup_erase _ found).2 writes

theorem settled_of_stored (bounded : Bounded c) (writing : Writing writer key value c)
    (stepped : Stepped c event outcome) (stored : .stored writer key ∈ outcome.2) :
    Settled key value outcome.1 := by
  cases stepped with
  | @invalidated _ _ _ new present =>
      cases List.mem_singleton.mp stored
      obtain ⟨-, rfl, db⟩ := writing _ _ new true present (if_pos rfl)
      refine ⟨db rfl, fun entry found => ?_, fun task point row found loaded _ => ?_,
        fun task point found => ?_⟩
      · cases (AList.lookup_erase ..).symm.trans found
      · have before := bounded task point _ (Tables.of_lookup_erase _ found).2 loaded
        exact absurd before (Nat.not_succ_le_self _)
      · obtain ⟨away, before⟩ := Tables.of_lookup_erase _ found
        cases writes : point.writes key with
        | none => rfl
        | some written => exact absurd (writing task point _ _ before writes).1 away
  | hit => cases List.mem_singleton.mp stored
  | filled _ _ _ reads => exact absurd stored (reads _ _)
  | _ => cases stored

theorem Settled.insert (settled : Settled key value c) (task : κ) {next : Task}
    (read : ∀ row, next.row key = some row → row = some value)
    (silent : next.writes key = none) :
    Settled key value { c with tasks := c.tasks.insert task next } where
  db := settled.db
  cache := settled.cache
  rows other point row found loaded reads := by
    rcases Tables.of_lookup_insert _ found with ⟨-, rfl⟩ | ⟨-, before⟩
    · exact read row reads
    · exact settled.rows other point row before loaded reads
  alone other point found := by
    rcases Tables.of_lookup_insert _ found with ⟨-, rfl⟩ | ⟨-, before⟩
    · exact silent
    · exact settled.alone other point before

theorem Settled.erase (settled : Settled key value c) (task : κ) :
    Settled key value { c with tasks := c.tasks.erase task } where
  db := settled.db
  cache := settled.cache
  rows other point row found := settled.rows other point row (Tables.of_lookup_erase _ found).2
  alone other point found := settled.alone other point (Tables.of_lookup_erase _ found).2

theorem Settled.away (settled : Settled key value c) {task : κ} {own new : Text} {committed : Bool}
    (found : c.tasks.lookup task = some (.set own new committed)) : own ≠ key := by
  intro same
  have none := settled.alone task _ found
  rw [Task.writes, if_pos same] at none
  cases none

theorem Settled.write (settled : Settled key value c) {own : Text} (away : own ≠ key)
    (new : Text) : Settled key value { c with db := c.db.insert own new } :=
  ⟨(AList.lookup_insert_ne away.symm).trans settled.db, settled.cache, settled.rows,
    settled.alone⟩

theorem settled_stepped (settled : Settled key value c) (bounded : Bounded c)
    (stepped : Stepped c event outcome) (others : event.sets key = false) :
    Settled key value outcome.1 := by
  cases stepped with
  | idle => exact settled
  | called call _ =>
      refine settled.insert _ (fun row read => ?_) (call.start_writes others)
      rw [call.start_row] at read
      cases read
  | went _ unread silent _ =>
      refine settled.insert _ (fun row read => ?_) (silent key)
      rw [unread] at read
      cases read
  | selected _ silent _ reads =>
      refine settled.insert _ (fun row read => ?_) (silent key)
      rw [reads key row read, settled.db]
  | hit _ | stopped => exact settled.erase _
  | filled present entries _ _ =>
      refine ⟨settled.db, fun entry found => ?_, (settled.erase _).rows, (settled.erase _).alone⟩
      rcases entries key entry found with before | ⟨current, read⟩
      · exact settled.cache entry before
      · exact settled.rows _ _ _ present current read
  | committed present =>
      have away := settled.away present
      exact (settled.write away _).insert _ (fun row read => nomatch read) (if_neg away)
  | landed present => exact (settled.write (settled.away present) _).erase _
  | invalidated present =>
      refine ⟨settled.db, fun entry found => ?_, fun task point row found loaded _ => ?_,
        (settled.erase _).alone⟩
      · exact settled.cache entry (Tables.of_lookup_erase _ found).2
      · have before := bounded task point _ (Tables.of_lookup_erase _ found).2 loaded
        exact absurd before (Nat.not_succ_le_self _)

theorem fresh_stepped (settled : Settled key value c) (fresh : Fresh reader key value c)
    (stepped : Stepped c event outcome) : Fresh reader key value outcome.1 := by
  intro point row found read
  cases stepped with
  | idle => exact fresh point row found read
  | called call _ =>
      rcases Tables.of_lookup_insert _ found with ⟨-, rfl⟩ | ⟨-, before⟩
      · rw [call.start_row] at read
        cases read
      · exact fresh point row before read
  | went _ unread _ _ =>
      rcases Tables.of_lookup_insert _ found with ⟨-, rfl⟩ | ⟨-, before⟩
      · rw [unread] at read
        cases read
      · exact fresh point row before read
  | selected _ _ _ reads =>
      rcases Tables.of_lookup_insert _ found with ⟨-, rfl⟩ | ⟨-, before⟩
      · rw [reads key row read, settled.db]
      · exact fresh point row before read
  | committed _ =>
      rcases Tables.of_lookup_insert _ found with ⟨-, rfl⟩ | ⟨-, before⟩
      · cases read
      · exact fresh point row before read
  | hit _ | filled _ _ _ _ | invalidated _ | stopped | landed _ =>
      exact fresh point row (Tables.of_lookup_erase _ found).2 read

theorem got_stepped (settled : Settled key value c) (fresh : Fresh reader key value c)
    (stepped : Stepped c event outcome) {told : Option Text}
    (got : .got reader key told ∈ outcome.2) : told = some value := by
  cases stepped with
  | hit found =>
      cases List.mem_singleton.mp got
      exact settled.cache _ found
  | filled present _ tells _ =>
      obtain ⟨rfl, read⟩ := tells reader key told got
      exact fresh _ told present read
  | invalidated _ => cases List.mem_singleton.mp got
  | _ => cases got

/-! ### Runs -/

theorem run_bounded (db : Table Text Text) (events : List (Event κ)) :
    Bounded (Machine.run step (.boot db : System κ) events).1.core := by
  refine Machine.run_invariant (fun _ s => Bounded s.core) ?_
    (fun _ event s bounded => bounded_stepped bounded (step_stepped s event)) events
  intro task point generation found
  cases found

theorem step_call {task : κ} (call : Call) (free : task ∉ s.tasks) :
    (step s (.call task call)).1 = s.put task call.start := by
  rw [step, if_neg free]

theorem writing_called (free : writer ∉ s.tasks)
    (alone : ∀ entry ∈ s.tasks.entries, entry.2.writes key = none) :
    Writing writer key value (step s (.call writer (.set key value))).1.core := by
  rw [step_call _ free]
  intro task point other committed found writes
  rcases Tables.of_lookup_insert _ found with ⟨rfl, rfl⟩ | ⟨-, before⟩
  · cases (writes_of_set writes).2
    exact ⟨rfl, rfl, fun done => nomatch done⟩
  · rw [alone ⟨task, point⟩ (AList.mem_lookup_iff.mp before)] at writes
    cases writes

theorem fresh_called (free : reader ∉ s.tasks) :
    Fresh reader key value (step s (.call reader (.get key))).1.core := by
  rw [step_call _ free]
  intro point row found read
  rcases Tables.of_lookup_insert _ found with ⟨-, rfl⟩ | ⟨away, -⟩
  · cases read
  · exact absurd rfl away

theorem run_writing (bounded : Bounded s.core) (writing : Writing writer key value s.core)
    (events : List (Event κ)) (others : ∀ event ∈ events, event.sets key = false) :
    Bounded (Machine.run step s events).1.core ∧
      Writing writer key value (Machine.run step s events).1.core ∧
      (.stored writer key ∈ (Machine.run step s events).2 →
        Settled key value (Machine.run step s events).1.core) := by
  induction events using List.reverseRecOn with
  | nil => exact ⟨bounded, writing, fun stored => absurd stored List.not_mem_nil⟩
  | append_singleton events event ih =>
      obtain ⟨bounded, writing, settled⟩ :=
        ih fun event member => others event (List.mem_append_left _ member)
      have quiet := others event (List.mem_append_right _ List.mem_cons_self)
      have stepped := step_stepped (Machine.run step s events).1 event
      rw [Machine.run_concat]
      refine ⟨bounded_stepped bounded stepped, writing_stepped writing stepped quiet,
        fun stored => ?_⟩
      rcases List.mem_append.mp stored with before | now
      · exact settled_stepped (settled before) bounded stepped quiet
      · exact settled_of_stored bounded writing stepped now

theorem run_settled (bounded : Bounded s.core) (settled : Settled key value s.core)
    (fresh : Fresh reader key value s.core) (events : List (Event κ))
    (others : ∀ event ∈ events, event.sets key = false) :
    ∀ told, .got reader key told ∈ (Machine.run step s events).2 → told = some value := by
  induction events generalizing s with
  | nil => exact fun told got => absurd got List.not_mem_nil
  | cons event events ih =>
      have quiet := others event List.mem_cons_self
      have stepped := step_stepped s event
      intro told got
      rw [Machine.run] at got
      rcases List.mem_append.mp got with now | later
      · exact got_stepped settled fresh stepped now
      · exact ih (bounded_stepped bounded stepped)
          (settled_stepped settled bounded stepped quiet) (fresh_stepped settled fresh stepped)
          (fun event member => others event (List.mem_cons_of_mem _ member)) told later

/-- In every run, a `get` that begins after a `set` of its key has returned gets the value that was
set, if that `set` began while no other wrote to the key and none has begun since. -/
theorem get_returns_last_set (db : Table Text Text) (before during after : List (Event κ))
    (writer reader : κ) (key value : Text) :
    let begun := (Machine.run step (.boot db : System κ) before).1
    let returned := Machine.run step (step begun (.call writer (.set key value))).1 during
    let reading := (step returned.1 (.call reader (.get key))).1
    (∀ entry ∈ begun.tasks.entries, entry.2.writes key = none) →
      writer ∉ begun.tasks → .stored writer key ∈ returned.2 → reader ∉ returned.1.tasks →
      (∀ event ∈ during ++ after, event.sets key = false) →
      ∀ told, .got reader key told ∈ (Machine.run step reading after).2 → told = some value := by
  intro begun returned reading alone writerFree stored readerFree others
  have bounded := bounded_stepped (run_bounded db before)
    (step_stepped begun (.call writer (.set key value)))
  obtain ⟨bounded, -, settled⟩ := run_writing bounded (writing_called writerFree alone) during
    fun event member => others event (List.mem_append_left _ member)
  have stepped := step_stepped returned.1 (.call reader (.get key))
  exact run_settled (bounded_stepped bounded stepped)
    (settled_stepped (settled stored) bounded stepped rfl) (fresh_called readerFree) after
    fun event member => others event (List.mem_append_right _ member)

/-- A read that began before the write has the old value in hand. -/
def slowRead : List (Event Nat) :=
  [.call 0 (.get "k".toList), .move 0 0, .move 0 0, .move 0 0, .move 0 0, .move 0 0]

/-- The slow read fills the cache between the write's commit and its invalidation; the next read
gets the new value all the same. -/
theorem stale_fill_is_removed :
    let key := "k".toList
    let old : Table Text Text := AList.insert key "a".toList ∅
    let during : List (Event Nat) := [.move 1 0, .move 0 0, .move 1 0]
    let after : List (Event Nat) :=
      [.move 2 0, .move 2 0, .move 2 0, .move 2 0, .move 2 0, .move 2 0]
    let returned := Machine.run step
      (step (Machine.run step (.boot old) slowRead).1 (.call 1 (.set key "b".toList))).1 during
    let reading := (step returned.1 (.call 2 (.get key))).1
    .got 0 key (some "a".toList) ∈ returned.2 ∧
      .got 2 key (some "b".toList) ∈ (Machine.run step reading after).2 ∧
      ∀ told, .got 2 key told ∈ (Machine.run step reading after).2 → told = some "b".toList := by
  intro key old during after returned reading
  refine ⟨by decide, by decide, ?_⟩
  exact get_returns_last_set old slowRead during after 1 2 key "b".toList (by decide) (by decide)
    (by decide) (by decide) (by decide)

end Strata.Backend.Settings
