import Mathlib.Tactic
import Strata.Lib.Machine

/-! The end of a session, as the tasks that await it learn of it. `mark_ended` sets a flag and wakes
the tasks that wait; `ended` reads the flag and, in a step of its own, registers with `notified()`.
A wake-up reaches the futures that were created before it, and no others. -/

namespace Strata.Backend.SessionEnd

inductive Waiter where
  | idle
  | looked
  | parked
  | woken
  | done
  deriving DecidableEq

inductive Marker where
  | idle
  | stored
  | returned
  deriving DecidableEq

variable {κ : Type}

structure Session (κ : Type) where
  endedFlag : Bool
  waiters : κ → Waiter
  markers : κ → Marker

def Session.new : Session κ := ⟨false, fun _ => .idle, fun _ => .idle⟩

inductive Event (κ : Type) where
  | look (call : κ)
  | register (call : κ)
  | resume (call : κ)
  | cancel (call : κ)
  | store (call : κ)
  | notify (call : κ)

variable [DecidableEq κ]

def Session.put (s : Session κ) (call : κ) (waiter : Waiter) : Session κ :=
  { s with waiters := Function.update s.waiters call waiter }

/-- `notify_waiters` -/
def Waiter.notified : Waiter → Waiter
  | .parked => .woken
  | waiter => waiter

def Session.next (s : Session κ) : Event κ → Session κ
  | .look call =>
      if s.waiters call = .idle then s.put call (if s.endedFlag then .done else .looked) else s
  | .register call => if s.waiters call = .looked then s.put call .parked else s
  | .resume call => if s.waiters call = .woken then s.put call .done else s
  -- `select!` drops the future when another of its branches is taken
  | .cancel call => s.put call .done
  | .store call =>
      if s.markers call = .idle then
        { s with endedFlag := true, markers := Function.update s.markers call .stored }
      else s
  | .notify call =>
      if s.markers call = .stored then
        { s with
          waiters := fun other => (s.waiters other).notified
          markers := Function.update s.markers call .returned }
      else s

def step (s : Session κ) (event : Event κ) : Session κ × List Empty := (s.next event, [])

def Session.Marked (s : Session κ) : Prop := ∃ call, s.markers call = .returned

/-- No task is left waiting once the session has been marked. -/
def Woken (s : Session κ) : Prop :=
  s.endedFlag = true → s.Marked → ∀ call, s.waiters call ≠ .parked

/-- A task that has read the flag registers before `mark_ended` returns. -/
def InTime (s : Session κ) : Event κ → Prop
  | .register call => s.waiters call = .looked → ¬ s.Marked
  | _ => True

structure Sound (s : Session κ) : Prop where
  flagged : ∀ call, s.markers call ≠ .idle → s.endedFlag = true
  woken : Woken s

variable {s : Session κ} {call : κ}

omit [DecidableEq κ] in
theorem Sound.marked (sound : Sound s) (marked : s.Marked) : s.endedFlag = true := by
  obtain ⟨call, returned⟩ := marked
  exact sound.flagged call (by rw [returned]; exact nofun)

theorem Sound.put (sound : Sound s) {waiter : Waiter} (awake : waiter ≠ .parked) :
    Sound (s.put call waiter) := by
  refine ⟨sound.flagged, fun flag marked other => ?_⟩
  change Function.update s.waiters call waiter other ≠ .parked
  by_cases same : other = call
  · rwa [same, Function.update_self]
  · rw [Function.update_of_ne same]
    exact sound.woken flag marked other

theorem Sound.notify (sound : Sound s) (stored : s.markers call = .stored) :
    Sound (s.next (.notify call)) := by
  rw [Session.next, if_pos stored]
  constructor
  case flagged => exact fun _ _ => sound.flagged call (by rw [stored]; exact nofun)
  case woken =>
    intro _ _ other
    change (s.waiters other).notified ≠ .parked
    cases s.waiters other <;> exact nofun

theorem Sound.store (sound : Sound s) : Sound (s.next (.store call)) := by
  rw [Session.next]
  split_ifs with fresh
  · refine ⟨fun _ _ => rfl, fun _ marked => ?_⟩
    -- the call that stores the flag has not returned yet
    have before : s.Marked := by
      obtain ⟨other, returned⟩ := marked
      dsimp only at returned
      by_cases same : other = call
      · rw [same, Function.update_self] at returned
        cases returned
      · rw [Function.update_of_ne same] at returned
        exact ⟨other, returned⟩
    exact sound.woken (sound.marked before) before
  · exact sound

theorem step_sound (sound : Sound s) {event : Event κ} (inTime : InTime s event) :
    Sound (step s event).1 := by
  rw [step]
  cases event with
  | look call =>
      rw [Session.next]
      split_ifs
      · exact sound.put (by decide)
      · exact sound.put (by decide)
      · exact sound
  | register call =>
      rw [Session.next]
      split_ifs with looked
      · refine ⟨sound.flagged, fun _ marked => ?_⟩
        exact absurd marked (inTime looked)
      · exact sound
  | resume call =>
      rw [Session.next]
      split_ifs
      · exact sound.put (by decide)
      · exact sound
  | cancel call => exact sound.put (by decide)
  | store call => exact sound.store
  | notify call =>
      by_cases stored : s.markers call = .stored
      · exact sound.notify stored
      · rwa [Session.next, if_neg stored]

theorem woken_step_iff (sound : Sound s) (event : Event κ) :
    Woken (step s event).1 ↔ InTime s event := by
  refine ⟨fun woken => ?_, fun inTime => (step_sound sound inTime).woken⟩
  cases event with
  | register call =>
      intro looked marked
      rw [step, Session.next, if_pos looked] at woken
      exact woken (sound.marked marked) marked call (Function.update_self ..)
  | look call | resume call | cancel call | store call | notify call => trivial

/-- In every state a run reaches no task waits for a wake-up that will not come, exactly if no task
that has read the flag registers after `mark_ended` has returned. -/
theorem ended_woken_iff (events : List (Event κ)) :
    (∀ past, past <+: events → Woken (Machine.run step .new past).1) ↔
      Machine.Meets step InTime (.new : Session κ) events :=
  Machine.kept_iff_meets Sound ⟨fun _ started => absurd rfl started, nofun⟩ nofun
    (fun _ _ sound => step_sound sound) (fun _ event sound => woken_step_iff sound event) events

/-- The flag is read, the session is marked, and only then the task registers. -/
theorem late_registration_waits :
    let s := (Machine.run step (.new : Session Nat)
      [.look 0, .store 1, .notify 1, .register 0]).1
    s.endedFlag = true ∧ s.markers 1 = .returned ∧ s.waiters 0 = .parked := by
  decide

end Strata.Backend.SessionEnd
