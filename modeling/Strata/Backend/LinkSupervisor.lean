import Mathlib.Tactic
import Strata.Lib.Machine
import Strata.Lib.Tables
import Strata.Lib.Utf8

/-! The supervisor of one DMZ link: dial, authenticate, serve, back off, again. All exits of a cycle
share one backoff, and an administrator's kick reaches it by two writes, the cancellation of the
cycle's token and a flag in the registry that only some exits take. Times are milliseconds. -/

namespace Strata.Backend.LinkSupervisor

open Utf8 (Text)
open Tables (Table)

def u64Max : Nat := 2 ^ 64 - 1

structure Backoff where
  base : Nat
  max : Nat
  prev : Nat
  deriving DecidableEq

def Backoff.new (base max : Nat) : Backoff := ⟨base, max, base⟩

def Backoff.reset (backoff : Backoff) : Backoff := { backoff with prev := backoff.base }

/-- The next delay is the new `prev`; `drawn` picks from `lo..hi`. -/
def Backoff.nextDelay (backoff : Backoff) (drawn : Nat) : Backoff :=
  let lo := backoff.base
  let hi := Nat.max (Nat.min (backoff.prev * 3) u64Max) (lo + 1)
  let pick := lo + drawn % (hi - lo)
  { backoff with prev := Nat.min pick backoff.max }

def defaultLinkBackoff : Backoff := .new 250 30000

def Backoff.delays : Backoff → List Nat → List Nat
  | _, [] => []
  | backoff, drawn :: later =>
      (backoff.nextDelay drawn).prev :: (backoff.nextDelay drawn).delays later

inductive LinkState where
  | initializing
  | connecting
  | authenticating
  | up
  | backoff
  | stopped
  deriving DecidableEq

structure LinkStatus where
  state : LinkState
  lastError : Option Text
  connects : Nat
  failures : Nat
  remoteSoftwareVersion : Option Text
  kicked : Bool
  deriving DecidableEq

namespace LinkStatus

def setState (status : LinkStatus) (state : LinkState) (err : Option Text) : LinkStatus :=
  let status := { status with state := state }
  let status :=
    if err.isSome then
      { status with lastError := err, failures := Nat.min (status.failures + 1) u64Max }
    else status
  if state = .up then
    { status with
      connects := Nat.min (status.connects + 1) u64Max, lastError := none, failures := 0 }
  else status

def setBackoffWithoutFailure (status : LinkStatus) (reason : Text) : LinkStatus :=
  { status with state := .backoff, lastError := some reason }

theorem setState_kicked (status : LinkStatus) (state : LinkState) (err : Option Text) :
    (status.setState state err).kicked = status.kicked := by
  rw [setState]
  split_ifs <;> rfl

end LinkStatus

/-- Where `run_endpoint` is. `up` tells whether the HTTP/2 handshake of the cycle completed; a sleep
after a serve carries it along. -/
inductive Phase where
  | head
  | dialing
  | authenticating
  | serving (up : Bool)
  | sleeping (served : Option Bool)
  | stopped
  deriving DecidableEq

/-- `token` is the registered token and whether it is cancelled, `kicks` the kicks between their
two writes. The rest is history: the cycle, the cycles kicks were issued in, and those of the kicks
whose flag nobody has taken. -/
structure Supervisor (κ : Type) where
  phase : Phase
  backoff : Backoff
  status : LinkStatus
  token : Option Bool
  shutdown : Bool
  kicks : Table κ Nat
  cycle : Nat
  issued : List Nat
  raised : List Nat

variable {κ : Type}

def Supervisor.new : Supervisor κ :=
  ⟨.head, defaultLinkBackoff, ⟨.initializing, none, 0, 0, none, false⟩, none, false, ∅, 0, [], []⟩

inductive Event (κ : Type) where
  | shutdown
  | kick (key : κ)
  | mark (key : κ)
  | head
  /-- The dial is polled; the connector may have answered. -/
  | dialed (result : Option (Except Text Unit)) (drawn : Nat)
  | authenticated (result : Except Text (Option Text)) (drawn : Nat)
  | ready
  /-- The peer left a ping unanswered. -/
  | watchdog
  | served (result : Except Text Unit) (drawn : Nat)
  | slept

/-- `reconnect` is a cycle's end that is taken for an administrator's. -/
inductive Effect (κ : Type) where
  | kicked (key : κ) (cancelled : Bool)
  | reconnect
  | reset
  | delay (ms : Nat)
  deriving DecidableEq

def adminRequested : Text := "admin-requested reconnect".toList

namespace Supervisor

def stop (s : Supervisor κ) : Supervisor κ :=
  { s with phase := .stopped, status := s.status.setState .stopped none, token := none }

def fail (s : Supervisor κ) (message : Text) (served : Option Bool) (drawn : Nat) :
    Supervisor κ × List (Effect κ) :=
  let backoff := s.backoff.nextDelay drawn
  ({ s with
      phase := .sleeping served
      status := s.status.setState .backoff (some message)
      token := none
      backoff := backoff }, [.delay backoff.prev])

def reconnect (s : Supervisor κ) : Supervisor κ × List (Effect κ) :=
  ({ s with
      phase := .head
      status := { s.status with kicked := false }.setBackoffWithoutFailure adminRequested
      token := none
      backoff := s.backoff.reset
      raised := [] }, [.reconnect, .reset])

def dialed (s : Supervisor κ) (result : Option (Except Text Unit)) (drawn : Nat) :
    Supervisor κ × List (Effect κ) :=
  if s.shutdown then (s.stop, [])
  else if s.token = some true then s.reconnect
  else
    match result with
    | none => (s, [])
    | some (.error message) => s.fail ("dial failed: ".toList ++ message) none drawn
    | some (.ok ()) =>
        ({ s with
            phase := .authenticating
            status := s.status.setState .authenticating none }, [])

def authenticated (s : Supervisor κ) (result : Except Text (Option Text)) (drawn : Nat) :
    Supervisor κ × List (Effect κ) :=
  match result with
  | .error message => s.fail ("handshake failed: ".toList ++ message) none drawn
  | .ok version =>
      ({ s with
          phase := .serving false
          status := { s.status with remoteSoftwareVersion := version } }, [])

def served (s : Supervisor κ) (up : Bool) (result : Except Text Unit) (drawn : Nat) :
    Supervisor κ × List (Effect κ) :=
  if s.shutdown then (s.stop, [])
  else if s.status.kicked then s.reconnect
  else
    match result with
    | .ok () => s.fail "peer closed link".toList (some up) drawn
    | .error message => s.fail ("h2 serve: ".toList ++ message) (some up) drawn

def slept (s : Supervisor κ) (served : Option Bool) : Supervisor κ × List (Effect κ) :=
  if s.shutdown then (s.stop, [])
  else if served.isSome then
    ({ s with phase := .head, backoff := s.backoff.reset }, [.reset])
  else ({ s with phase := .head }, [])

end Supervisor

variable [DecidableEq κ]

def step (s : Supervisor κ) : Event κ → Supervisor κ × List (Effect κ)
  | .shutdown => ({ s with shutdown := true }, [])
  | .kick key =>
      if key ∈ s.kicks then (s, [])
      else
        ({ s with
            token := s.token.map fun _ => true
            kicks := s.kicks.insert key s.cycle
            issued := s.cycle :: s.issued }, [.kicked key s.token.isSome])
  | .mark key =>
      match s.kicks.lookup key with
      | none => (s, [])
      | some cycle =>
          ({ s with
              status := { s.status with kicked := true }
              kicks := s.kicks.erase key
              raised := cycle :: s.raised }, [])
  | .head =>
      if s.phase ≠ .head then (s, [])
      else if s.shutdown then (s.stop, [])
      else
        ({ s with
            phase := .dialing
            status := s.status.setState .connecting none
            token := some false
            cycle := s.cycle + 1 }, [])
  | .dialed result drawn => if s.phase = .dialing then s.dialed result drawn else (s, [])
  | .authenticated result drawn =>
      if s.phase = .authenticating then s.authenticated result drawn else (s, [])
  | .ready =>
      if s.phase = .serving false then
        ({ s with phase := .serving true, status := s.status.setState .up none }, [])
      else (s, [])
  | .watchdog =>
      if s.phase = .serving true then ({ s with token := s.token.map fun _ => true }, [])
      else (s, [])
  | .served result drawn =>
      match s.phase with
      | .serving up => s.served up result drawn
      | _ => (s, [])
  | .slept =>
      match s.phase with
      | .sleeping served => s.slept served
      | _ => (s, [])

/-! ### The backoff -/

/-- A reset follows an administrator's reconnect, or a cycle whose handshake had completed. -/
def ResetEarned (s : Supervisor κ) (event : Event κ) : Prop :=
  .reset ∈ (step s event).2 →
    .reconnect ∈ (step s event).2 ∨ s.phase = .sleeping (some true)

instance (s : Supervisor κ) (event : Event κ) : Decidable (ResetEarned s event) :=
  inferInstanceAs (Decidable (_ → _ ∨ _))

def Handshaken (s : Supervisor κ) : Event κ → Prop
  | .slept => s.phase = .sleeping (some false) → s.shutdown = true
  | _ => True

def delaysOf (effects : List (Effect κ)) : List Nat :=
  effects.filterMap fun
    | .delay ms => some ms
    | _ => none

inductive Paced (s : Supervisor κ) (event : Event κ) : Supervisor κ × List (Effect κ) → Prop where
  | quiet {after : Supervisor κ} {effects : List (Effect κ)} (same : after.backoff = s.backoff)
      (silent : delaysOf effects = []) (kept : .reset ∉ effects) (unasked : .reconnect ∉ effects) :
      Paced s event (after, effects)
  | failed {after : Supervisor κ} (drawn : Nat)
      (next : after.backoff = s.backoff.nextDelay drawn) :
      Paced s event (after, [.delay (s.backoff.nextDelay drawn).prev])
  | asked (cause : s.phase = .dialing ∧ s.token = some true ∨
        ∃ result drawn up, event = .served result drawn ∧ s.phase = .serving up ∧
          s.shutdown = false ∧ s.status.kicked = true) : Paced s event s.reconnect
  | woken {after : Supervisor κ} (up : Bool) (slept : event = .slept)
      (phase : s.phase = .sleeping (some up)) (running : s.shutdown = false) :
      Paced s event (after, [.reset])

omit [DecidableEq κ] in
theorem Paced.idle {s after : Supervisor κ} {event : Event κ} (same : after.backoff = s.backoff) :
    Paced s event (after, []) :=
  .quiet same rfl List.not_mem_nil List.not_mem_nil

theorem step_paced (s : Supervisor κ) (event : Event κ) : Paced s event (step s event) := by
  cases event with
  | shutdown => exact .idle rfl
  | kick key =>
      rw [step]
      split_ifs
      · exact .idle rfl
      · exact .quiet rfl rfl (by simp) (by simp)
  | mark key =>
      rw [step]
      split <;> exact .idle rfl
  | head =>
      rw [step]
      split_ifs <;> exact .idle rfl
  | dialed result drawn =>
      rw [step, Supervisor.dialed.eq_def]
      split_ifs with phase _ cancelled
      · exact .idle rfl
      · exact .asked (.inl ⟨phase, cancelled⟩)
      · split
        · exact .idle rfl
        · exact .failed drawn rfl
        · exact .idle rfl
      · exact .idle rfl
  | authenticated result drawn =>
      rw [step, Supervisor.authenticated.eq_def]
      split_ifs
      · split
        · exact .failed drawn rfl
        · exact .idle rfl
      · exact .idle rfl
  | ready =>
      rw [step]
      split_ifs <;> exact .idle rfl
  | watchdog =>
      rw [step]
      split_ifs <;> exact .idle rfl
  | served result drawn =>
      rw [step]
      split
      · next up phase =>
          rw [Supervisor.served.eq_def]
          split_ifs with stopping kicked
          · exact .idle rfl
          · exact .asked (.inr ⟨result, drawn, up, rfl, phase, by simpa using stopping, kicked⟩)
          · split <;> exact .failed drawn rfl
      · exact .idle rfl
  | slept =>
      rw [step]
      split
      · next served phase =>
          rw [Supervisor.slept]
          split_ifs with stopping again
          · exact .idle rfl
          · obtain ⟨up, rfl⟩ := Option.isSome_iff_exists.mp again
            exact .woken up rfl phase (by simpa using stopping)
          · exact .idle rfl
      · exact .idle rfl

theorem resetEarned_iff (s : Supervisor κ) (event : Event κ) :
    ResetEarned s event ↔ Handshaken s event := by
  constructor
  · intro earned
    cases event with
    | slept =>
        intro phase
        by_contra running
        have slept : (step s .slept).2 = [.reset] := by
          rw [step, phase]
          simp [Supervisor.slept, running]
        rw [ResetEarned, slept, phase] at earned
        rcases earned List.mem_cons_self with asked | up
        · simp at asked
        · cases up
    | _ => trivial
  · intro handshaken reset
    have paced := step_paced s event
    generalize step s event = stepped at *
    cases paced with
    | quiet _ _ kept _ => exact absurd reset kept
    | failed => simp at reset
    | asked => exact .inl List.mem_cons_self
    | woken up slept phase running =>
        subst slept
        cases up with
        | true => exact .inr phase
        | false =>
            rw [handshaken phase] at running
            cases running

theorem delays_follow (s : Supervisor κ) (events : List (Event κ))
    (kept : .reset ∉ (Machine.run step s events).2) :
    ∃ drawn, delaysOf (Machine.run step s events).2 = s.backoff.delays drawn ∧
      (Machine.run step s events).1.backoff = drawn.foldl Backoff.nextDelay s.backoff := by
  induction events generalizing s with
  | nil => exact ⟨[], rfl, rfl⟩
  | cons event events ih =>
      rw [Machine.run] at kept ⊢
      rw [List.mem_append, not_or] at kept
      obtain ⟨drawn, delays, final⟩ := ih (step s event).1 kept.2
      have split (first later : List (Effect κ)) :
          delaysOf (first ++ later) = delaysOf first ++ delaysOf later := List.filterMap_append
      have paced := step_paced s event
      rw [split, delays, final]
      generalize step s event = stepped at *
      cases paced with
      | quiet same silent _ _ =>
          refine ⟨drawn, ?_, ?_⟩
          · rw [silent, same, List.nil_append]
          · rw [same]
      | failed first next =>
          refine ⟨first :: drawn, ?_, ?_⟩
          · rw [next]
            rfl
          · rw [next]
            rfl
      | asked => exact absurd (by simp [Supervisor.reconnect]) kept.1
      | woken => exact absurd List.mem_cons_self kept.1

/-- The backoff is reset only as it should be in exactly the runs where no cycle that failed in its
HTTP/2 handshake sleeps to the end; and between two resets the delays are those of the backoff. -/
theorem backoff_resets_earned_iff (events : List (Event κ)) :
    (Machine.Meets step ResetEarned (.new : Supervisor κ) events ↔
      Machine.Meets step Handshaken (.new : Supervisor κ) events) ∧
    ∀ past stretch, past ++ stretch = events →
      .reset ∉ (Machine.run step (Machine.run step (.new : Supervisor κ) past).1 stretch).2 →
      ∃ drawn, delaysOf (Machine.run step (Machine.run step .new past).1 stretch).2 =
        (Machine.run step (.new : Supervisor κ) past).1.backoff.delays drawn := by
  refine ⟨?_, fun past stretch _ kept => ?_⟩
  · exact Machine.meets_iff_of_invariant (fun _ => True) trivial (fun _ _ _ => trivial)
      (fun s event _ => resetEarned_iff s event) events
  · obtain ⟨drawn, delays, -⟩ := delays_follow _ stretch kept
    exact ⟨drawn, delays⟩

/-- The peer authenticates and hangs up in the HTTP/2 handshake; after the sleep the backoff starts
again. -/
theorem failed_handshake_resets :
    ¬ Machine.Meets step ResetEarned (.new : Supervisor Nat)
      [.head, .dialed (some (.ok ())) 0, .authenticated (.ok none) 0,
        .served (.error "h2 server handshake failed".toList) 499, .slept] := by
  decide +kernel

/-! ### Kicks -/

/-- A cycle's end is taken for an administrator's only if a kick was issued in that cycle. -/
def OwnKick (s : Supervisor κ) (event : Event κ) : Prop :=
  .reconnect ∈ (step s event).2 → s.cycle ∈ s.issued

instance (s : Supervisor κ) (event : Event κ) : Decidable (OwnKick s event) :=
  inferInstanceAs (Decidable (_ → _))

/-- No serve ends, short of a shutdown, under the flag of an earlier cycle's kick and without a kick
of its own. -/
def NoneLeft (s : Supervisor κ) : Event κ → Prop
  | .served _ _ => ∀ up, s.phase = .serving up → s.shutdown = false →
      (∃ cycle ∈ s.raised, cycle < s.cycle) → s.cycle ∈ s.issued
  | _ => True

structure Sound (s : Supervisor κ) : Prop where
  flag : s.status.kicked = true ↔ s.raised ≠ []
  raised : ∀ cycle ∈ s.raised, cycle ∈ s.issued ∧ cycle ≤ s.cycle
  kicks : ∀ key cycle, s.kicks.lookup key = some cycle → cycle ∈ s.issued ∧ cycle ≤ s.cycle
  dialing : s.phase = .dialing → s.token = some true → s.cycle ∈ s.issued

variable {s : Supervisor κ}

theorem Sound.leave {after : Supervisor κ} (sound : Sound s)
    (flag : after.status.kicked = s.status.kicked) (raised : after.raised = s.raised)
    (kicks : after.kicks = s.kicks) (cycle : after.cycle = s.cycle)
    (issued : after.issued = s.issued) (left : after.phase ≠ .dialing) : Sound after := by
  constructor
  case flag => rw [flag, raised]; exact sound.flag
  case raised => rw [raised, issued, cycle]; exact sound.raised
  case kicks => rw [kicks, issued, cycle]; exact sound.kicks
  case dialing => exact fun dialing => absurd dialing left

theorem Sound.stop (sound : Sound s) : Sound s.stop :=
  sound.leave (LinkStatus.setState_kicked ..) rfl rfl rfl rfl (by simp [Supervisor.stop])

theorem Sound.fail (sound : Sound s) (message : Text) (served : Option Bool) (drawn : Nat) :
    Sound (s.fail message served drawn).1 :=
  sound.leave (LinkStatus.setState_kicked ..) rfl rfl rfl rfl (by simp [Supervisor.fail])

theorem Sound.reconnect (sound : Sound s) : Sound s.reconnect.1 where
  flag := by simp [Supervisor.reconnect, LinkStatus.setBackoffWithoutFailure]
  raised _ member := absurd member List.not_mem_nil
  kicks := sound.kicks
  dialing phase := by cases phase

theorem Sound.kick (sound : Sound s) (key : κ) : Sound (step s (.kick key)).1 := by
  rw [step]
  split_ifs with pending
  · exact sound
  · constructor
    case flag => exact sound.flag
    case raised =>
      intro cycle member
      exact ⟨List.mem_cons_of_mem _ (sound.raised cycle member).1,
        (sound.raised cycle member).2⟩
    case kicks =>
      intro other cycle found
      rcases Tables.of_lookup_insert _ found with ⟨-, rfl⟩ | ⟨-, old⟩
      · exact ⟨List.mem_cons_self, le_rfl⟩
      · exact ⟨List.mem_cons_of_mem _ (sound.kicks other cycle old).1,
          (sound.kicks other cycle old).2⟩
    case dialing => exact fun _ _ => List.mem_cons_self

theorem Sound.mark (sound : Sound s) (key : κ) : Sound (step s (.mark key)).1 := by
  rw [step]
  split
  · exact sound
  · next cycle found =>
      constructor
      case flag => exact iff_of_true rfl (List.cons_ne_nil _ _)
      case raised =>
        exact List.forall_mem_cons.mpr ⟨sound.kicks key cycle found, sound.raised⟩
      case kicks =>
        intro other cycle left
        exact sound.kicks other cycle (Tables.of_lookup_erase _ left).2
      case dialing => exact sound.dialing

theorem Sound.head (sound : Sound s) : Sound (step s .head).1 := by
  rw [step]
  split_ifs
  · exact sound
  · exact sound.stop
  · constructor
    case flag =>
      change (s.status.setState .connecting none).kicked = true ↔ _
      rw [LinkStatus.setState_kicked]
      exact sound.flag
    case raised =>
      intro cycle member
      exact ⟨(sound.raised cycle member).1, Nat.le_succ_of_le (sound.raised cycle member).2⟩
    case kicks =>
      intro key cycle found
      exact ⟨(sound.kicks key cycle found).1, Nat.le_succ_of_le (sound.kicks key cycle found).2⟩
    case dialing =>
      intro _ cancelled
      cases cancelled

theorem sound_step (sound : Sound s) (event : Event κ) : Sound (step s event).1 := by
  cases event with
  | shutdown => exact ⟨sound.flag, sound.raised, sound.kicks, sound.dialing⟩
  | kick key => exact sound.kick key
  | mark key => exact sound.mark key
  | head => exact sound.head
  | dialed result drawn =>
      rw [step, Supervisor.dialed.eq_def]
      split_ifs
      · exact sound.stop
      · exact sound.reconnect
      · split
        · exact sound
        · exact sound.fail ..
        · exact sound.leave (LinkStatus.setState_kicked ..) rfl rfl rfl rfl (by simp)
      · exact sound
  | authenticated result drawn =>
      rw [step, Supervisor.authenticated.eq_def]
      split_ifs
      · split
        · exact sound.fail ..
        · exact sound.leave rfl rfl rfl rfl rfl (by simp)
      · exact sound
  | ready =>
      rw [step]
      split_ifs
      · exact sound.leave (LinkStatus.setState_kicked ..) rfl rfl rfl rfl (by simp)
      · exact sound
  | watchdog =>
      rw [step]
      split_ifs with serving
      · exact sound.leave rfl rfl rfl rfl rfl (by simp [serving])
      · exact sound
  | served result drawn =>
      rw [step]
      split
      · rw [Supervisor.served.eq_def]
        split_ifs
        · exact sound.stop
        · exact sound.reconnect
        · split <;> exact sound.fail ..
      · exact sound
  | slept =>
      rw [step]
      split
      · rw [Supervisor.slept]
        split_ifs
        · exact sound.stop
        · exact sound.leave rfl rfl rfl rfl rfl (by simp)
        · exact sound.leave rfl rfl rfl rfl rfl (by simp)
      · exact sound

theorem reconnect_served {up : Bool} (phase : s.phase = .serving up) (result : Except Text Unit)
    (drawn : Nat) :
    .reconnect ∈ (step s (.served result drawn)).2 ↔
      s.shutdown = false ∧ s.status.kicked = true := by
  rw [step, phase]
  dsimp only
  rw [Supervisor.served.eq_def]
  split_ifs with stopping kicked
  · simp [stopping]
  · simp [Supervisor.reconnect, stopping, kicked]
  · split <;> simp [Supervisor.fail, kicked]

theorem ownKick_iff (sound : Sound s) (event : Event κ) :
    OwnKick s event ↔ NoneLeft s event := by
  constructor
  · intro own
    cases event with
    | served result drawn =>
        rintro up phase running ⟨cycle, member, -⟩
        refine own ((reconnect_served phase result drawn).mpr ⟨running, ?_⟩)
        exact sound.flag.mpr (List.ne_nil_of_mem member)
    | _ => trivial
  · intro none asked
    have paced := step_paced s event
    generalize step s event = stepped at *
    cases paced with
    | quiet _ _ _ unasked => exact absurd asked unasked
    | failed => simp at asked
    | woken => simp at asked
    | asked cause =>
        rcases cause with ⟨phase, cancelled⟩ | ⟨result, drawn, up, rfl, phase, running, kicked⟩
        · exact sound.dialing phase cancelled
        · obtain ⟨cycle, member⟩ := List.exists_mem_of_ne_nil _ (sound.flag.mp kicked)
          obtain ⟨issued, old⟩ := sound.raised cycle member
          rcases old.lt_or_eq with earlier | rfl
          · exact none up phase running ⟨cycle, member, earlier⟩
          · exact issued

end Strata.Backend.LinkSupervisor
