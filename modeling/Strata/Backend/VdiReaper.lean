import Mathlib.Tactic
import Strata.Lib.Machine
import Strata.Lib.Tables
import Strata.Lib.Utf8

/-! Desktop containers between the tunnels that use them and the reaper. A tunnel books its row
after its container is up, and no one touches the row again while the session lasts; the reaper
acts on rows and names it read some calls ago. -/

namespace Strata.Backend.VdiReaper

open Utf8 (Text)
open Tables

/-- The user's desktop on a connection; both ids as `Uuid::simple` writes them. -/
structure Desktop where
  connectionId : Text
  userId : Text
  deriving DecidableEq, Repr

/-- Twelve digits of each id, so two desktops may share a name. -/
def containerNameFor (desktop : Desktop) : Text :=
  "strata-vdi-".toList ++ desktop.connectionId.take 12 ++ '-' :: desktop.userId.take 12

structure Container where
  image : Text
  running : Bool
  deriving DecidableEq, Repr

/-- A row of `vdi_containers`, in the state `running` the upsert gives it. Times are in
microseconds. -/
structure Row where
  containerName : Text
  lastSeenAt : Int
  deriving DecidableEq, Repr

/-! ### The reaper's questions -/

/-- `EXTRACT(EPOCH FROM now() - last_seen_at)::bigint`, which rounds to the nearest second. -/
def idleSecs (now : Int) (row : Row) : Int := (now - row.lastSeenAt + 500000) / 1000000

def timeoutSecs (idleTimeoutMins : Option Int) : Int := max (idleTimeoutMins.getD 30) 1 * 60

def idle (now : Int) (idleTimeoutMins : Option Int) (row : Row) : Bool :=
  decide (row.lastSeenAt < now - 60000000 ∧ timeoutSecs idleTimeoutMins ≤ idleSecs now row)

/-- Where a pass stands. The names are those it has still to destroy, in any order. -/
inductive Reaper where
  | resting
  | reapingIdle (names : List Text)
  | stoppedIdle (name : Text) (names : List Text)
  | removedIdle (name : Text) (names : List Text)
  | listed (managed : List Text)
  | reapingOrphans (names : List Text)
  | stoppedOrphan (name : Text) (names : List Text)
  deriving DecidableEq, Repr

def Reaper.selected : Reaper → List Text
  | .resting | .listed _ => []
  | .reapingIdle names | .reapingOrphans names => names
  | .stoppedIdle name names | .removedIdle name names | .stoppedOrphan name names => name :: names

def Reaper.managed : Reaper → List Text
  | .listed names => names
  | _ => []

/-! ### Tunnels -/

/-- The call a tunnel makes next; `live` is the session. -/
inductive Stage where
  | inspecting
  | replacing
  | creating
  | starting
  | waiting
  | booking
  | live
  deriving DecidableEq, Repr

structure Tunnel where
  desktop : Desktop
  image : Text
  stage : Stage
  deriving DecidableEq, Repr

def Tunnel.name (tunnel : Tunnel) : Text := containerNameFor tunnel.desktop

variable {κ : Type}

structure State (κ : Type) where
  containers : Table Text Container
  rows : Table Desktop Row
  tunnels : Table κ Tunnel
  reaper : Reaper

def State.initial (containers : Table Text Container) (rows : Table Desktop Row) : State κ :=
  ⟨containers, rows, ∅, .resting⟩

def State.inUse (state : State κ) (name : Text) : Bool :=
  state.tunnels.entries.any fun entry => decide (entry.2.name = name)

def State.known (state : State κ) : List Text :=
  state.rows.entries.map fun entry => entry.2.containerName

theorem known_of_lookup {state : State κ} {desktop : Desktop} {row : Row}
    (present : state.rows.lookup desktop = some row) : row.containerName ∈ state.known :=
  List.mem_map.mpr ⟨_, AList.mem_lookup_iff.mp present, rfl⟩

structure Destroyed where
  name : Text
  inUse : Bool
  deriving DecidableEq, Repr

def State.destroyed (state : State κ) (name : Text) : Destroyed := ⟨name, state.inUse name⟩

inductive Event (κ : Type) where
  | «open» (task : κ) (desktop : Desktop) (image : Text)
  | proceed (task : κ) (ok : Bool) (now : Int)
  | close (task : κ)
  | selectIdle (now : Int) (idleTimeoutMins : Text → Option Int)
  | stop (name : Text)
  | remove (ok : Bool)
  | forget (ok : Bool)
  | list (ok : Bool)
  | selectKnown
  | finish
  /-- A query fails or the pass runs out of its time. -/
  | abort

variable [DecidableEq κ]

namespace State

def move (state : State κ) (task : κ) (tunnel : Tunnel) (stage : Stage) : State κ :=
  { state with tunnels := state.tunnels.insert task { tunnel with stage := stage } }

def leave (state : State κ) (task : κ) : State κ :=
  { state with tunnels := state.tunnels.erase task }

/-- `ensure_container` call by call, then the upsert, whose error is ignored. -/
def proceed (state : State κ) (task : κ) (tunnel : Tunnel) (ok : Bool) (now : Int) : State κ :=
  match tunnel.stage with
  | .inspecting =>
      if !ok then state.leave task
      else
        match state.containers.lookup tunnel.name with
        | none => state.move task tunnel .creating
        | some container =>
            if container.image ≠ tunnel.image then state.move task tunnel .replacing
            else if !container.running then state.move task tunnel .starting
            else state.move task tunnel .waiting
  | .replacing =>
      if !ok then state.leave task
      else
        { state.move task tunnel .creating with
          containers := state.containers.erase tunnel.name }
  | .creating =>
      if !ok || decide (tunnel.name ∈ state.containers) then state.leave task
      else
        { state.move task tunnel .starting with
          containers := state.containers.insert tunnel.name ⟨tunnel.image, false⟩ }
  | .starting =>
      if !ok || decide (tunnel.name ∉ state.containers) then state.leave task
      else
        { state.move task tunnel .waiting with
          containers :=
            modify state.containers tunnel.name fun container =>
              { container with running := true } }
  | .waiting => if !ok then state.leave task else state.move task tunnel .booking
  | .booking =>
      { state.move task tunnel .live with
        rows :=
          if ok then state.rows.insert tunnel.desktop ⟨tunnel.name, now⟩ else state.rows }
  | .live => state

def idleNames (state : State κ) (now : Int) (idleTimeoutMins : Text → Option Int) : List Text :=
  (state.rows.entries.filter fun entry =>
    idle now (idleTimeoutMins entry.1.connectionId) entry.2).map fun entry =>
      entry.2.containerName

def orphans (state : State κ) (managed : List Text) : List Text :=
  managed.filter fun name => decide (name ∉ state.known)

def removeContainer (state : State κ) (name : Text) (ok : Bool) : Table Text Container :=
  if ok then state.containers.erase name else state.containers

def stopContainer (state : State κ) (name : Text) : Table Text Container :=
  modify state.containers name fun container => { container with running := false }

end State

def step (state : State κ) : Event κ → State κ × List Destroyed
  | .open task desktop image =>
      if task ∈ state.tunnels then (state, [])
      else
        ({ state with tunnels := state.tunnels.insert task ⟨desktop, image, .inspecting⟩ }, [])
  | .proceed task ok now =>
      match state.tunnels.lookup task with
      | none => (state, [])
      | some tunnel => (state.proceed task tunnel ok now, [])
  | .close task => (state.leave task, [])
  | .selectIdle now idleTimeoutMins =>
      match state.reaper with
      | .resting =>
          ({ state with reaper := .reapingIdle (state.idleNames now idleTimeoutMins) }, [])
      | _ => (state, [])
  | .stop name =>
      match state.reaper with
      | .reapingIdle names =>
          if name ∈ names then
            ({ state with
                containers := state.stopContainer name
                reaper := .stoppedIdle name (names.erase name) }, [state.destroyed name])
          else (state, [])
      | .reapingOrphans names =>
          if name ∈ names then
            ({ state with
                containers := state.stopContainer name
                reaper := .stoppedOrphan name (names.erase name) }, [state.destroyed name])
          else (state, [])
      | _ => (state, [])
  | .remove ok =>
      match state.reaper with
      | .stoppedIdle name names =>
          ({ state with
              containers := state.removeContainer name ok
              reaper := .removedIdle name names }, [state.destroyed name])
      | .stoppedOrphan name names =>
          ({ state with
              containers := state.removeContainer name ok
              reaper := .reapingOrphans names }, [state.destroyed name])
      | _ => (state, [])
  | .forget ok =>
      match state.reaper with
      | .removedIdle name names =>
          ({ state with
              rows :=
                if ok then retain (fun row => decide (row.containerName ≠ name)) state.rows
                else state.rows
              reaper := .reapingIdle names }, [])
      | _ => (state, [])
  | .list ok =>
      match state.reaper with
      | .reapingIdle [] =>
          if !ok || state.containers.keys.isEmpty then ({ state with reaper := .resting }, [])
          else ({ state with reaper := .listed state.containers.keys }, [])
      | _ => (state, [])
  | .selectKnown =>
      match state.reaper with
      | .listed managed => ({ state with reaper := .reapingOrphans (state.orphans managed) }, [])
      | _ => (state, [])
  | .finish =>
      match state.reaper with
      | .reapingOrphans [] => ({ state with reaper := .resting }, [])
      | _ => (state, [])
  | .abort => ({ state with reaper := .resting }, [])

/-! ### What spares the containers in use -/

/-- A tunnel is not opened on a container the pass has selected, its upsert succeeds, no container
in use has been open for its timeout when the idle rows are read, and a tunnel still unbooked when
the known set is read has a container that was not listed or has an earlier tunnel's row. -/
def Careful (state : State κ) : Event κ → Prop
  | .open _ desktop _ => containerNameFor desktop ∉ state.reaper.selected
  | .proceed task ok _ => ∀ tunnel ∈ state.tunnels.lookup task, tunnel.stage = .booking → ok = true
  | .selectIdle now idleTimeoutMins =>
      ∀ entry ∈ state.rows.entries, state.inUse entry.2.containerName = true →
        idleSecs now entry.2 < timeoutSecs (idleTimeoutMins entry.1.connectionId)
  | .selectKnown =>
      ∀ entry ∈ state.tunnels.entries, entry.2.stage ≠ .live →
        entry.2.name ∈ state.reaper.managed → entry.2.name ∈ state.known
  | _ => True

instance (state : State κ) : (event : Event κ) → Decidable (Careful state event)
  | .open _ desktop _ => inferInstanceAs (Decidable (containerNameFor desktop ∉ _))
  | .proceed task ok _ =>
      inferInstanceAs (Decidable (∀ tunnel ∈ state.tunnels.lookup task,
        tunnel.stage = .booking → ok = true))
  | .selectIdle now idleTimeoutMins =>
      inferInstanceAs (Decidable (∀ entry ∈ state.rows.entries,
        state.inUse entry.2.containerName = true →
          idleSecs now entry.2 < timeoutSecs (idleTimeoutMins entry.1.connectionId)))
  | .selectKnown =>
      inferInstanceAs (Decidable (∀ entry ∈ state.tunnels.entries, entry.2.stage ≠ .live →
        entry.2.name ∈ state.reaper.managed → entry.2.name ∈ state.known))
  | .close _ | .stop _ | .remove _ | .forget _ | .list _ | .finish | .abort => .isTrue trivial

structure Safe (state : State κ) : Prop where
  booked : ∀ task tunnel, state.tunnels.lookup task = some tunnel → tunnel.stage = .live →
    ∃ row, state.rows.lookup tunnel.desktop = some row ∧ row.containerName = tunnel.name
  spared : ∀ task tunnel, state.tunnels.lookup task = some tunnel →
    tunnel.name ∉ state.reaper.selected

variable {state : State κ}

theorem inUse_of_lookup {task : κ} {tunnel : Tunnel}
    (present : state.tunnels.lookup task = some tunnel) : state.inUse tunnel.name = true := by
  have member := AList.mem_lookup_iff.mp present
  exact List.any_eq_true.mpr ⟨_, member, decide_eq_true rfl⟩

theorem lookup_of_inUse {name : Text} (used : state.inUse name = true) :
    ∃ task tunnel, state.tunnels.lookup task = some tunnel ∧ tunnel.name = name := by
  obtain ⟨⟨task, tunnel⟩, member, same⟩ := List.any_eq_true.mp used
  exact ⟨task, tunnel, AList.mem_lookup_iff.mpr member, of_decide_eq_true same⟩

namespace Safe

theorem unused (safe : Safe state) {name : Text} (selected : name ∈ state.reaper.selected) :
    state.inUse name = false := by
  rw [← Bool.not_eq_true]
  intro used
  obtain ⟨task, tunnel, present, rfl⟩ := lookup_of_inUse used
  exact safe.spared task tunnel present selected

theorem put (safe : Safe state) {task : κ} {tunnel : Tunnel} {after : State κ}
    (tunnels : after.tunnels = state.tunnels.insert task tunnel)
    (reaper : after.reaper = state.reaper) (free : tunnel.name ∉ state.reaper.selected)
    (rows : after.rows = state.rows ∧ tunnel.stage ≠ .live ∨
      ∃ now, after.rows = state.rows.insert tunnel.desktop ⟨tunnel.name, now⟩) : Safe after where
  booked other found present live := by
    rw [tunnels] at present
    rcases of_lookup_insert _ present with ⟨rfl, rfl⟩ | ⟨_, before⟩
    · rcases rows with ⟨_, early⟩ | ⟨now, inserted⟩
      · exact absurd live early
      · exact ⟨_, by rw [inserted, AList.lookup_insert], rfl⟩
    · obtain ⟨row, booked, same⟩ := safe.booked other found before live
      rcases rows with ⟨kept, _⟩ | ⟨now, inserted⟩
      · exact ⟨row, by rw [kept, booked], same⟩
      · by_cases shared : found.desktop = tunnel.desktop
        · refine ⟨_, by rw [inserted, shared, AList.lookup_insert], ?_⟩
          simp only [Tunnel.name, shared]
        · exact ⟨row, by rw [inserted, AList.lookup_insert_ne shared, booked], same⟩
  spared other found present := by
    rw [tunnels] at present
    rw [reaper]
    rcases of_lookup_insert _ present with ⟨_, rfl⟩ | ⟨_, before⟩
    · exact free
    · exact safe.spared other found before

theorem leave (safe : Safe state) (task : κ) : Safe (state.leave task) where
  booked other found present := safe.booked other found (of_lookup_erase _ present).2
  spared other found present := safe.spared other found (of_lookup_erase _ present).2

theorem reap (safe : Safe state) {after : State κ} (tunnels : after.tunnels = state.tunnels)
    (rows : after.rows = state.rows)
    (unused : ∀ name ∈ after.reaper.selected, state.inUse name = false) : Safe after where
  booked task tunnel present := by
    rw [tunnels] at present
    rw [rows]
    exact safe.booked task tunnel present
  spared task tunnel present selected := by
    rw [tunnels] at present
    exact Bool.false_ne_true ((unused _ selected).symm.trans (inUse_of_lookup present))

theorem settle (safe : Safe state) {reaper : Reaper} (nothing : reaper.selected = []) :
    Safe { state with reaper := reaper } := by
  refine safe.reap rfl rfl fun name selected => ?_
  exact absurd (nothing ▸ selected) List.not_mem_nil

theorem forget (safe : Safe state) {name : Text} {names : List Text}
    (removed : state.reaper = .removedIdle name names) :
    Safe { state with
      rows := retain (fun row => decide (row.containerName ≠ name)) state.rows
      reaper := .reapingIdle names } where
  booked task tunnel present live := by
    obtain ⟨row, booked, same⟩ := safe.booked task tunnel present live
    have other : row.containerName ≠ name := by
      rw [same]
      rintro rfl
      exact safe.spared task tunnel present (by rw [removed]; exact List.mem_cons_self)
    refine ⟨row, ?_, same⟩
    rw [lookup_retain_eq, booked, Option.bind_some, if_pos (decide_eq_true other)]
  spared task tunnel present selected := by
    refine safe.spared task tunnel present ?_
    rw [removed]
    exact List.mem_cons_of_mem _ selected

end Safe

/-! ### The two selections -/

theorem unused_of_mem_idleNames {now : Int} {idleTimeoutMins : Text → Option Int} {name : Text}
    (careful : Careful state (.selectIdle now idleTimeoutMins))
    (selected : name ∈ state.idleNames now idleTimeoutMins) : state.inUse name = false := by
  obtain ⟨entry, member, rfl⟩ := List.mem_map.mp selected
  obtain ⟨row, past⟩ := List.mem_filter.mp member
  have timeout := (of_decide_eq_true past).2
  rw [← Bool.not_eq_true]
  intro used
  have recent := careful entry row used
  omega

theorem unused_of_mem_orphans (safe : Safe state) {managed : List Text} {name : Text}
    (listed : state.reaper = .listed managed) (careful : Careful state .selectKnown)
    (selected : name ∈ state.orphans managed) : state.inUse name = false := by
  obtain ⟨inside, unknown⟩ := List.mem_filter.mp selected
  rw [← Bool.not_eq_true]
  intro used
  obtain ⟨task, tunnel, present, rfl⟩ := lookup_of_inUse used
  refine of_decide_eq_true unknown ?_
  by_cases live : tunnel.stage = .live
  · obtain ⟨row, booked, same⟩ := safe.booked task tunnel present live
    rw [← same]
    exact known_of_lookup booked
  · refine careful _ (AList.mem_lookup_iff.mp present) live ?_
    rw [listed]
    exact inside

/-! ### Steps and runs -/

inductive Proceeds (state : State κ) (task : κ) (tunnel : Tunnel) (ok : Bool) (now : Int) :
    State κ → Prop where
  | stay : Proceeds state task tunnel ok now state
  | leave : Proceeds state task tunnel ok now (state.leave task)
  | move (stage : Stage) (early : stage ≠ .live) (containers : Table Text Container) :
      Proceeds state task tunnel ok now
        { state.move task tunnel stage with containers := containers }
  | book (booking : tunnel.stage = .booking) :
      Proceeds state task tunnel ok now { state.move task tunnel .live with
        rows := if ok then state.rows.insert tunnel.desktop ⟨tunnel.name, now⟩ else state.rows }

theorem proceeds (task : κ) (tunnel : Tunnel) (ok : Bool) (now : Int) :
    Proceeds state task tunnel ok now (state.proceed task tunnel ok now) := by
  have early (stage : Stage) (early : stage ≠ .live) :
      Proceeds state task tunnel ok now (state.move task tunnel stage) :=
    .move stage early state.containers
  unfold State.proceed
  split
  · split
    · exact .leave
    · split
      · exact early .creating (by decide)
      · split
        · exact early .replacing (by decide)
        · split
          · exact early .starting (by decide)
          · exact early .waiting (by decide)
  · split
    · exact .leave
    · exact .move .creating (by decide) _
  · split
    · exact .leave
    · exact .move .starting (by decide) _
  · split
    · exact .leave
    · exact .move .waiting (by decide) _
  · split
    · exact .leave
    · exact early .booking (by decide)
  · next booking => exact .book booking
  · exact .stay

theorem Safe.proceed (safe : Safe state) {task : κ} {tunnel : Tunnel} {ok : Bool} {now : Int}
    (present : state.tunnels.lookup task = some tunnel)
    (saved : tunnel.stage = .booking → ok = true) :
    Safe (state.proceed task tunnel ok now) := by
  have free := safe.spared task tunnel present
  have moved : Proceeds state task tunnel ok now (state.proceed task tunnel ok now) :=
    proceeds task tunnel ok now
  generalize state.proceed task tunnel ok now = after at moved
  cases moved with
  | stay => exact safe
  | leave => exact safe.leave task
  | move stage early containers => exact safe.put rfl rfl free (.inl ⟨rfl, early⟩)
  | book booking =>
      refine safe.put rfl rfl free (.inr ⟨now, ?_⟩)
      rw [saved booking]
      rfl

theorem Safe.step (safe : Safe state) (event : Event κ) (careful : Careful state event) :
    Safe (VdiReaper.step state event).1 := by
  cases event with
  | «open» task desktop image =>
      simp only [VdiReaper.step]
      split
      · exact safe
      · exact safe.put rfl rfl careful (.inl ⟨rfl, by simp⟩)
  | proceed task ok now =>
      simp only [VdiReaper.step]
      split
      · exact safe
      · next tunnel present => exact safe.proceed present (careful tunnel present)
  | close task => exact safe.leave task
  | selectIdle now idleTimeoutMins =>
      simp only [VdiReaper.step]
      split
      · exact safe.reap rfl rfl fun name selected => unused_of_mem_idleNames careful selected
      · exact safe
  | stop name =>
      have spared {names : List Text} (held : state.reaper.selected = names)
          (chosen : name ∈ names) :
          ∀ other ∈ name :: names.erase name, state.inUse other = false := by
        intro other selected
        refine safe.unused (held ▸ ?_)
        rcases List.mem_cons.mp selected with rfl | rest
        · exact chosen
        · exact List.mem_of_mem_erase rest
      simp only [VdiReaper.step]
      split
      · next names held =>
          split
          · next chosen => exact safe.reap rfl rfl (spared (by rw [held]; rfl) chosen)
          · exact safe
      · next names held =>
          split
          · next chosen => exact safe.reap rfl rfl (spared (by rw [held]; rfl) chosen)
          · exact safe
      · exact safe
  | remove ok =>
      simp only [VdiReaper.step]
      split
      · next name names held =>
          exact safe.reap rfl rfl fun other selected => safe.unused (by rw [held]; exact selected)
      · next name names held =>
          refine safe.reap rfl rfl fun other selected => safe.unused ?_
          rw [held]
          exact List.mem_cons_of_mem _ selected
      · exact safe
  | forget ok =>
      simp only [VdiReaper.step]
      split
      · next name names held =>
          cases ok with
          | true => exact safe.forget held
          | false =>
              refine safe.reap rfl rfl fun other selected => safe.unused ?_
              rw [held]
              exact List.mem_cons_of_mem _ selected
      · exact safe
  | list ok =>
      simp only [VdiReaper.step]
      split
      · split
        · exact safe.settle rfl
        · exact safe.settle rfl
      · exact safe
  | selectKnown =>
      simp only [VdiReaper.step]
      split
      · next managed listed =>
          exact safe.reap rfl rfl fun name selected =>
            unused_of_mem_orphans safe listed careful selected
      · exact safe
  | finish =>
      simp only [VdiReaper.step]
      split
      · exact safe.settle rfl
      · exact safe
  | abort => exact safe.settle rfl

theorem selected_of_destroyed {event : Event κ} {destroyed : Destroyed}
    (struck : destroyed ∈ (step state event).2) :
    ∃ name ∈ state.reaper.selected, destroyed = state.destroyed name := by
  cases event with
  | stop name =>
      simp only [step] at struck
      split at struck
      · next names held =>
          split at struck
          · next chosen => exact ⟨name, by rw [held]; exact chosen, List.mem_singleton.mp struck⟩
          · cases struck
      · next names held =>
          split at struck
          · next chosen => exact ⟨name, by rw [held]; exact chosen, List.mem_singleton.mp struck⟩
          · cases struck
      · cases struck
  | remove ok =>
      simp only [step] at struck
      split at struck
      · next name names held =>
          exact ⟨name, by rw [held]; exact List.mem_cons_self, List.mem_singleton.mp struck⟩
      · next name names held =>
          exact ⟨name, by rw [held]; exact List.mem_cons_self, List.mem_singleton.mp struck⟩
      · cases struck
  | close | abort => cases struck
  | «open» | proceed | selectIdle | forget | selectKnown | finish =>
      simp only [step] at struck
      split at struck <;> cases struck
  | list ok =>
      simp only [step] at struck
      split at struck
      · split at struck <;> cases struck
      · cases struck

theorem safe_initial (containers : Table Text Container) (rows : Table Desktop Row) :
    Safe (State.initial containers rows : State κ) where
  booked _ _ present := by cases present
  spared _ _ _ := List.not_mem_nil

/-- In a run whose steps are all careful, every container the reaper stops or removes is one no
tunnel is being opened on and no session uses. -/
theorem containers_in_use_spared (containers : Table Text Container) (rows : Table Desktop Row)
    (events : List (Event κ))
    (careful : Machine.Meets step Careful (State.initial containers rows) events) :
    ∀ destroyed ∈ (Machine.run step (State.initial containers rows) events).2,
      destroyed.inUse = false := by
  have reached := Machine.run_history_of
    (fun _ effects state => Safe state ∧ ∀ destroyed ∈ effects, destroyed.inUse = false)
    ⟨safe_initial containers rows, fun _ => (absurd · List.not_mem_nil)⟩ ?_ events careful
  · exact reached.2
  · rintro past effects event state ⟨safe, spared⟩ careful
    refine ⟨safe.step event careful, fun destroyed happened => ?_⟩
    rcases List.mem_append.mp happened with old | new
    · exact spared destroyed old
    · obtain ⟨name, selected, rfl⟩ := selected_of_destroyed new
      exact safe.unused selected

/-- A session of ten minutes is spared beside an idle desktop and an orphan. -/
theorem containers_in_use_spared_ten_minutes :
    let desk : Desktop := ⟨"a".toList, "u".toList⟩
    let left : Desktop := ⟨"b".toList, "u".toList⟩
    let lost := "strata-vdi-c-u".toList
    let containers : Table Text Container :=
      (AList.insert lost ⟨[], true⟩ ∅).insert (containerNameFor left) ⟨[], true⟩
    let rows : Table Desktop Row := AList.insert left ⟨containerNameFor left, -1800000000⟩ ∅
    let tunnel : List (Event Nat) :=
      .open 0 desk [] :: List.replicate 5 (.proceed 0 true 0)
    let pass : List (Event Nat) :=
      [.selectIdle 600000000 fun _ => none, .stop (containerNameFor left), .remove true,
        .forget true, .list true, .selectKnown, .stop lost, .remove true, .finish]
    let start := State.initial containers rows
    let struck := (Machine.run step start (tunnel ++ pass)).2
    struck.map Destroyed.name = [containerNameFor left, containerNameFor left, lost, lost] ∧
      ∀ destroyed ∈ struck, destroyed.inUse = false :=
  ⟨by decide, containers_in_use_spared _ _ _ (by decide)⟩

/-- A session of half an hour is cut off by the idle pass, and a container that is starting is
taken for an orphan. -/
theorem containers_in_use_destroyed :
    let desk : Desktop := ⟨"a".toList, "u".toList⟩
    let started : List (Event Nat) := .open 0 desk [] :: List.replicate 3 (.proceed 0 true 0)
    let booked := started ++ List.replicate 2 (.proceed 0 true 0)
    let cutOff := booked ++ [.selectIdle 1800000000 fun _ => none, .stop (containerNameFor desk)]
    let raced :=
      started ++ [.selectIdle 0 fun _ => none, .list true, .selectKnown,
        .stop (containerNameFor desk), .remove true]
    let start := State.initial ∅ ∅
    (Machine.run step start cutOff).2 = [⟨containerNameFor desk, true⟩] ∧
      (Machine.run step start raced).2 =
        [⟨containerNameFor desk, true⟩, ⟨containerNameFor desk, true⟩] := by
  decide

end Strata.Backend.VdiReaper
