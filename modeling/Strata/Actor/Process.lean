import Mathlib.Tactic
import Strata.Actor.Runs

/-! All sessions of one process and the counter they share: how many bytes their
pending clipboards hold together. -/

namespace Strata.Actor

open Machine
open Tables

variable {τ σ : Type}

/-- One operation of an `AtomicUsize` on a 64-bit machine. -/
def CounterOp.apply (counter : Nat) : CounterOp → Nat
  | .add bytes => (counter + bytes) % 2 ^ 64
  | .sub bytes => (counter + (2 ^ 64 - bytes % 2 ^ 64)) % 2 ^ 64

def applyOps (counter : Nat) (ops : List CounterOp) : Nat := ops.foldl CounterOp.apply counter

theorem applyOps_modEq (counter : Nat) (ops : List CounterOp) :
    applyOps counter ops + subbed ops ≡ counter + added ops [MOD 2 ^ 64] := by
  induction ops generalizing counter with
  | nil => rfl
  | cons op ops ih =>
      have rest := ih (op.apply counter)
      cases op with
      | add bytes =>
          simp only [applyOps, List.foldl_cons, added, subbed, List.map_cons, List.sum_cons,
            Nat.ModEq, CounterOp.apply] at rest ⊢
          omega
      | sub bytes =>
          simp only [applyOps, List.foldl_cons, added, subbed, List.map_cons, List.sum_cons,
            Nat.ModEq, CounterOp.apply] at rest ⊢
          omega

theorem applyOps_lt {counter : Nat} (small : counter < 2 ^ 64) (ops : List CounterOp) :
    applyOps counter ops < 2 ^ 64 := by
  induction ops generalizing counter with
  | nil => exact small
  | cons op ops ih =>
      apply ih
      cases op <;> exact Nat.mod_lt _ (by decide)

structure Live (τ σ : Type) where
  config : SessionConfig τ σ
  session : Session τ σ

structure Process (τ σ : Type) where
  clipboardProcessBytes : Nat
  sessions : Table Nat (Live τ σ)

namespace Process

def start : Process τ σ := ⟨0, ∅⟩

def held (process : Process τ σ) : Nat :=
  total (fun live => live.session.actor.streams.buffered) process.sessions

def openStreams (process : Process τ σ) : Nat :=
  total (fun live => size live.session.actor.streams.clipboardStreams +
    size live.session.actor.streams.guestClipboardStreams) process.sessions

end Process

/-- A new session, or one session waking up. The counter a wake-up loads is in its
`Env`: other sessions run at the same time, so it may be any earlier value. -/
inductive ProcessEvent (τ σ : Type) where
  | spawn (task : Nat) (config : SessionConfig τ σ) (engine : τ) (encoder : σ)
  | wake (task : Nat) (woken : Env × Wake)

def processStep (process : Process τ σ) : ProcessEvent τ σ → Process τ σ × List Effect
  | .spawn task config engine encoder =>
      if task ∈ process.sessions then (process, [])
      else
        ({ process with
          sessions := process.sessions.insert task ⟨config, spawn engine encoder⟩ }, [])
  | .wake task woken =>
      match process.sessions.lookup task with
      | none => (process, [])
      | some live =>
          let out := sessionStep live.config live.session woken
          (⟨applyOps process.clipboardProcessBytes (counterOps out.2),
            process.sessions.insert task ⟨live.config, out.1⟩⟩, out.2)

def endsHeld (streams : ClientStreams) (wake : Wake) : Bool :=
  match wake.said with
  | some (guest, .endStream stream) =>
      ((streams.table guest).lookup stream).any fun pending => !pending.data.isEmpty
  | _ => false

def ProcessEvent.endsHeld (process : Process τ σ) : ProcessEvent τ σ → Bool
  | .spawn .. => false
  | .wake task woken => (process.sessions.lookup task).any fun live =>
      Actor.endsHeld live.session.actor.streams woken.2

theorem Causes.unreleased {streams : ClientStreams} {wake : Wake} {changes : List Change}
    (caused : Causes streams wake changes) (kept : endsHeld streams wake = false) :
    (changes.map unreleased).sum = 0 := by
  obtain ⟨front, back, rfl, begins, closes⟩ := caused
  have later : (back.map Actor.unreleased).sum = 0 := by
    rw [List.sum_eq_zero_iff]
    intro bytes member
    obtain ⟨change, inside, rfl⟩ := List.mem_map.mp member
    cases closes change inside
    rfl
  rw [List.map_append, List.sum_append, later]
  cases begins with
  | finished said present =>
      rw [endsHeld, said] at kept
      simpa [present, Actor.unreleased] using kept
  | _ => rfl

theorem subbed_dropBoth (streams : ClientStreams) : subbed streams.dropBoth = streams.buffered := by
  rw [ClientStreams.dropBoth, subbed_append, subbed_dropAll, subbed_dropAll]
  rfl

theorem added_dropBoth (streams : ClientStreams) : added streams.dropBoth = 0 := by
  rw [ClientStreams.dropBoth, added_append, added_dropAll, added_dropAll]

theorem SessionStep.balance {config : SessionConfig τ σ} {wake : Wake} {before after : Session τ σ}
    {trace : List Effect} (step : SessionStep config wake before trace after)
    (kept : endsHeld before.actor.streams wake = false) :
    after.actor.streams.buffered + subbed (counterOps trace) =
      before.actor.streams.buffered + added (counterOps trace) := by
  cases step with
  | past actor reason => rfl
  | turned moves =>
      obtain ⟨changes, chain, caused⟩ := moves.streams
      have balance := chain.balance
      have nothing := caused.unreleased kept
      dsimp only
      omega
  | closed reason moves dropped silent =>
      obtain ⟨changes, chain, caused⟩ := moves.streams
      have balance := chain.balance
      have nothing := caused.unreleased kept
      have emptied : ClientStreams.empty.buffered = 0 := rfl
      rw [counterOps_append, dropped, subbed_append, added_append, subbed_dropBoth, added_dropBoth]
      dsimp only
      omega

def Process.Counted (process : Process τ σ) : Prop :=
  process.clipboardProcessBytes = process.held % 2 ^ 64

theorem Process.held_joined (process : Process τ σ) {task : Nat} (fresh : task ∉ process.sessions)
    (config : SessionConfig τ σ) (engine : τ) (encoder : σ) :
    Process.held { process with
      sessions := process.sessions.insert task ⟨config, Actor.spawn engine encoder⟩ } =
      process.held :=
  total_insert_of_notMem (fun live : Live τ σ => live.session.actor.streams.buffered)
    process.sessions fresh ⟨config, Actor.spawn engine encoder⟩

theorem Process.held_moved (process : Process τ σ) {task : Nat} {live : Live τ σ}
    (found : process.sessions.lookup task = some live) (counter : Nat) (next : Session τ σ) :
    Process.held ⟨counter, process.sessions.insert task ⟨live.config, next⟩⟩ +
        live.session.actor.streams.buffered =
      process.held + next.actor.streams.buffered :=
  total_insert_of_lookup (fun live : Live τ σ => live.session.actor.streams.buffered)
    process.sessions found ⟨live.config, next⟩

theorem processStep_counted (process : Process τ σ) (event : ProcessEvent τ σ)
    (counted : process.Counted) (kept : event.endsHeld process = false) :
    (processStep process event).1.Counted := by
  cases event with
  | spawn task config engine encoder =>
      by_cases known : task ∈ process.sessions
      · simp only [processStep, if_pos known]
        exact counted
      · simp only [processStep, if_neg known]
        rw [Process.Counted, process.held_joined known]
        exact counted
  | wake task woken =>
      cases found : process.sessions.lookup task with
      | none =>
          simp only [processStep, found]
          exact counted
      | some live =>
          simp only [processStep, found]
          simp only [ProcessEvent.endsHeld, found, Option.any_some] at kept
          have balance := (sessionStep_spec live.config live.session woken).balance kept
          have moved := process.held_moved found
            (applyOps process.clipboardProcessBytes
              (counterOps (sessionStep live.config live.session woken).2))
            (sessionStep live.config live.session woken).1
          have applied := applyOps_modEq process.clipboardProcessBytes
            (counterOps (sessionStep live.config live.session woken).2)
          have small : process.clipboardProcessBytes < 2 ^ 64 := by
            rw [counted]
            exact Nat.mod_lt _ (by decide)
          have bounded := applyOps_lt small
            (counterOps (sessionStep live.config live.session woken).2)
          unfold Process.Counted at counted ⊢
          unfold Nat.ModEq at applied
          dsimp only
          omega

theorem Process.held_of_closed {process : Process τ σ} (closed : process.openStreams = 0) :
    process.held = 0 := by
  refine total_eq_zero _ _ ?_ closed
  intro live none
  have operator : size live.session.actor.streams.clipboardStreams = 0 := by omega
  have guest : size live.session.actor.streams.guestClipboardStreams = 0 := by omega
  rw [ClientStreams.buffered, ClientStreams.bytesOf, ClientStreams.bytesOf,
    total_of_size_eq_zero _ _ operator, total_of_size_eq_zero _ _ guest]

/-- In every run in which no wake-up ends a clipboard stream with bytes in it, the counter
is what the pending clipboards hold, and zero when none is open. -/
theorem counter_matches_held (events : List (ProcessEvent τ σ))
    (kept : Meets processStep (fun process event => event.endsHeld process = false) Process.start
      events) :
    (run processStep Process.start events).1.clipboardProcessBytes =
        (run processStep Process.start events).1.held % 2 ^ 64 ∧
      ((run processStep Process.start events).1.openStreams = 0 →
        (run processStep Process.start events).1.clipboardProcessBytes = 0) := by
  have agrees : (run processStep Process.start events).1.Counted := by
    have initial : (Process.start : Process τ σ).Counted := rfl
    refine run_invariant_of (fun _ process => process.Counted) initial ?_ events kept
    intro past event process counted kept
    exact processStep_counted process event counted kept
  refine ⟨agrees, ?_⟩
  intro closed
  rw [agrees, Process.held_of_closed closed]
  rfl

/-- A paste refused half way, a second session torn down with one still pending. -/
def pastesDropped : List (ProcessEvent Unit Unit) :=
  [.spawn 0 plainSession () (), .spawn 1 plainSession () (),
    .wake 0 (calm, .clientInput (.clipboard 1 "text/plain".toList)),
    .wake 0 (calm, .clientInput (.blob 1 "YQ==".toList)),
    .wake 1 (calm, .guestInput (.clipboard 1 "text/plain".toList)),
    .wake 1 (calm, .guestInput (.blob 1 "YWI=".toList)),
    .wake 0 (calm, .clientInput (.blob 1 "?".toList)),
    .wake 1 (calm, .terminate "closed".toList)]

theorem counter_matches_held_dropped :
    (run processStep Process.start pastesDropped).1.openStreams = 0 ∧
      (run processStep Process.start pastesDropped).1.clipboardProcessBytes = 0 :=
  ⟨by decide, (counter_matches_held pastesDropped
    (by decide)).2 (by decide)⟩

def pasteEnded : List (ProcessEvent Unit Unit) :=
  [.spawn 0 plainSession () (),
    .wake 0 (calm, .clientInput (.clipboard 1 "text/plain".toList)),
    .wake 0 (calm, .clientInput (.blob 1 "YQ==".toList)),
    .wake 0 (calm, .clientInput (.endStream 1))]

/-- The paste reached the engine and no stream is open, yet its byte is still counted. -/
theorem counter_keeps_ended_paste :
    .engine (.clipboard [97]) ∈ (run processStep Process.start pasteEnded).2 ∧
      (run processStep Process.start pasteEnded).1.openStreams = 0 ∧
      (run processStep Process.start pasteEnded).1.held = 0 ∧
      (run processStep Process.start pasteEnded).1.clipboardProcessBytes = 1 := by
  decide

end Strata.Actor
