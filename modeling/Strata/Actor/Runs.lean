import Mathlib.Tactic
import Strata.Actor.Limits
import Strata.Actor.Moves
import Strata.Lib.Machine

/-! A session over its whole life: spawned with no client streams, woken again and
again, torn down where its loop breaks. -/

namespace Strata.Actor

open Utf8 (Text Bytes)
open Strata.Action
open Machine

variable {τ σ : Type}

/-- A session task; `ended` holds the reason once its loop has been left. -/
structure Session (τ σ : Type) where
  actor : SessionActor τ σ
  ended : Option Text

def spawn (engine : τ) (encoder : σ) : Session τ σ := ⟨⟨engine, encoder, 0, 0, .empty⟩, none⟩

/-- `run`, one wake-up at a time. -/
def sessionStep (config : SessionConfig τ σ) (session : Session τ σ) (woken : Env × Wake) :
    Session τ σ × List Effect :=
  match session.ended with
  | some _ => (session, [])
  | none =>
      let out := turn config woken.1 woken.2 session.actor
      match answer (turn config woken.1 woken.2) session.actor with
      | none => (⟨out.state, none⟩, out.trace)
      | some reason =>
          let closed := teardown config woken.1 out.state
          (⟨closed.state, some reason⟩, out.trace ++ closed.trace)

theorem teardown_state (config : SessionConfig τ σ) (env : Env) (actor : SessionActor τ σ) :
    (teardown config env actor).state = { actor with streams := .empty } := by
  obtain ⟨engine, encoder, recording, moderated, credential, base64⟩ := config
  cases credential <;> cases revoked : env.revoke <;> cases finalized : env.finalize <;>
    simp [teardown, revoke, bind, andThen, effect, done, onStreams, fallible, fail, revoked,
      finalized]

theorem teardown_trace (config : SessionConfig τ σ) (env : Env) (actor : SessionActor τ σ) :
    counterOps (teardown config env actor).trace = actor.streams.dropBoth ∧
      ∀ input, .engine input ∉ (teardown config env actor).trace := by
  obtain ⟨engine, encoder, recording, moderated, credential, base64⟩ := config
  cases credential <;> cases revoked : env.revoke <;> cases finalized : env.finalize <;>
    simp [teardown, revoke, bind, andThen, effect, done, onStreams, fallible, fail, revoked,
      finalized, counterOps, List.filterMap_map]

def plainSession : SessionConfig Unit Unit where
  engine := ⟨fun _ _ => (.ok (), ()), fun _ => (.ok none, ())⟩
  encoder := ⟨fun _ _ => ((), []), fun _ _ => ((), [])⟩
  recording := ⟨false, false⟩
  moderated := false
  credential := false
  base64 := Base64.standard

def calm : Env where
  now := 0
  mayOpen := true
  processBytes := 0
  clock := fun _ => 0
  syncClock := fun _ => 0
  record := fun _ => .ok ()
  clientOpen := fun _ => true
  clientReady := fun _ => true
  noticeReady := fun _ => true
  checkpoint := .ok ()
  review := fun _ => .allow
  answersInGrace := false
  finalize := .ok ()
  revoke := .ok ()

inductive SessionStep (config : SessionConfig τ σ) (wake : Wake) :
    Session τ σ → List Effect → Session τ σ → Prop where
  | past (actor : SessionActor τ σ) (reason : Text) :
      SessionStep config wake ⟨actor, some reason⟩ [] ⟨actor, some reason⟩
  | turned {actor after : SessionActor τ σ} {trace : List Effect}
      (moves : Moves config (Causes actor.streams wake) (Delivers actor.streams wake) actor trace
        after) :
      SessionStep config wake ⟨actor, none⟩ trace ⟨after, none⟩
  | closed {actor after : SessionActor τ σ} {trace closing : List Effect} (reason : Text)
      (moves : Moves config (Causes actor.streams wake) (Delivers actor.streams wake) actor trace
        after)
      (dropped : counterOps closing = after.streams.dropBoth)
      (silent : ∀ input, .engine input ∉ closing) :
      SessionStep config wake ⟨actor, none⟩ (trace ++ closing)
        ⟨{ after with streams := .empty }, some reason⟩

theorem sessionStep_spec (config : SessionConfig τ σ) (session : Session τ σ)
    (woken : Env × Wake) :
    SessionStep config woken.2 session (sessionStep config session woken).2
      (sessionStep config session woken).1 := by
  obtain ⟨actor, ended⟩ := session
  cases ended with
  | some reason => exact .past actor reason
  | none =>
      have moves : Moves config (Causes actor.streams woken.2) (Delivers actor.streams woken.2)
          actor (turn config woken.1 woken.2 actor).trace
          (turn config woken.1 woken.2 actor).state := turn_within woken.2 actor
      cases answered : answer (turn config woken.1 woken.2) actor with
      | none =>
          simp only [sessionStep, answered]
          exact .turned moves
      | some reason =>
          simp only [sessionStep, answered, teardown_state]
          have trace := teardown_trace config woken.1 (turn config woken.1 woken.2 actor).state
          exact .closed reason moves trace.1 trace.2

theorem SessionStep.limits {config : SessionConfig τ σ} {wake : Wake} {before after : Session τ σ}
    {trace : List Effect} (step : SessionStep config wake before trace after)
    (limits : Limits before.actor.streams) : Limits after.actor.streams := by
  cases step with
  | past actor reason => exact limits
  | turned moves =>
      obtain ⟨changes, chain, _⟩ := moves.streams
      exact chain.limits limits
  | closed reason moves dropped silent => exact limits_empty

/-- In every state a session can reach, its client streams are within the limits. -/
theorem session_within_limits (config : SessionConfig τ σ) (engine : τ) (encoder : σ)
    (wakes : List (Env × Wake)) :
    Limits (run (sessionStep config) (spawn engine encoder) wakes).1.actor.streams := by
  refine run_invariant (fun _ (session : Session τ σ) => Limits session.actor.streams)
    limits_empty ?_ wakes
  intro past woken session limits
  exact (sessionStep_spec config session woken).limits limits

end Strata.Actor
