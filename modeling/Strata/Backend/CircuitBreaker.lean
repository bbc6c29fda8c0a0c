import Mathlib.Tactic
import Strata.Lib.Machine
import Strata.Lib.Tables

/-! The circuit breaker around calls to an integration. A call passes the gate, starts its
operation, and records the outcome when the operation ends; the lock is held at the gate and while
the outcome is recorded, and not in between. -/

namespace Strata.Backend.CircuitBreaker

open Tables (Table)

structure Config where
  failureThreshold : Nat
  cooldown : Nat

/-- `opened` carries the moment the cool-down ends. -/
inductive State where
  | closed
  | opened (ends : Nat)
  | halfOpen
  deriving DecidableEq

structure Inner where
  state : State
  consecutiveFailures : Nat
  deriving DecidableEq

def u32Max : Nat := 2 ^ 32 - 1

def Inner.gate (inner : Inner) (now : Nat) : Bool × Inner :=
  match inner.state with
  | .closed | .halfOpen => (false, inner)
  | .opened ends => if now ≥ ends then (false, { inner with state := .halfOpen }) else (true, inner)

def Inner.onSuccess (_ : Inner) : Inner := ⟨.closed, 0⟩

def Inner.onFailure (cfg : Config) (inner : Inner) (now : Nat) : Inner :=
  let failures := min (inner.consecutiveFailures + 1) u32Max
  if inner.state = .halfOpen ∨ failures ≥ cfg.failureThreshold then
    ⟨.opened (now + cfg.cooldown), failures⟩
  else { inner with consecutiveFailures := failures }

inductive Gated (now : Nat) (inner : Inner) : Bool × Inner → Prop where
  | shut {ends : Nat} (state : inner.state = .opened ends) (early : now < ends) :
      Gated now inner (true, inner)
  | probe {ends : Nat} (state : inner.state = .opened ends) (cooled : ends ≤ now) :
      Gated now inner (false, { inner with state := .halfOpen })
  | pass (state : ∀ ends, inner.state ≠ .opened ends) : Gated now inner (false, inner)

theorem Inner.gate_gated (inner : Inner) (now : Nat) : Gated now inner (inner.gate now) := by
  rw [Inner.gate]
  cases state : inner.state with
  | closed => exact .pass fun ends => by rw [state]; exact State.noConfusion
  | halfOpen => exact .pass fun ends => by rw [state]; exact State.noConfusion
  | opened ends =>
      dsimp only
      split_ifs with cooled
      · exact .probe state cooled
      · exact .shut state (Nat.lt_of_not_le cooled)

theorem Inner.onFailure_cases (cfg : Config) (inner : Inner) (now : Nat) :
    (inner.onFailure cfg now).state = .opened (now + cfg.cooldown) ∨
      (inner.onFailure cfg now).state = inner.state ∧ inner.state ≠ .halfOpen := by
  rw [Inner.onFailure]
  split_ifs with opens
  · exact .inl rfl
  · exact .inr ⟨rfl, fun half => opens (.inl half)⟩

/-! ### Calls -/

inductive Call where
  | passed
  | running
  deriving DecidableEq

variable {κ : Type}

/-- `probes` and `openings` are history: the probes whose outcome has not been recorded, and the
end of every cool-down set so far. -/
structure Breaker (κ : Type) where
  inner : Inner
  clock : Nat
  calls : Table κ Call
  probes : List κ
  openings : List Nat

def Breaker.new : Breaker κ := ⟨⟨.closed, 0⟩, 0, ∅, [], []⟩

inductive Event (κ : Type) where
  | gate (key : κ) (after : Nat)
  | start (key : κ) (after : Nat)
  | finish (key : κ) (ok : Bool) (after : Nat)
  | drop (key : κ)

inductive Answer (κ : Type) where
  | rejected (key : κ)
  | started (key : κ)
  | returned (key : κ) (ok : Bool)
  deriving DecidableEq

variable [DecidableEq κ]

def Breaker.gate (s : Breaker κ) (key : κ) (now : Nat) : Breaker κ × List (Answer κ) :=
  if key ∈ s.calls then (s, [])
  else
    match s.inner.gate now with
    | (true, inner) => ({ s with inner := inner, clock := now }, [.rejected key])
    | (false, inner) =>
        ({ s with
            inner := inner
            clock := now
            calls := s.calls.insert key .passed
            -- the breaker leaves Open with this call
            probes := if inner.state = s.inner.state then s.probes else key :: s.probes }, [])

def Breaker.finish (cfg : Config) (s : Breaker κ) (key : κ) (ok : Bool) (now : Nat) :
    Breaker κ × List (Answer κ) :=
  match s.calls.lookup key with
  | some .running =>
      let inner := if ok then s.inner.onSuccess else s.inner.onFailure cfg now
      ({ s with
          inner := inner
          clock := now
          calls := s.calls.erase key
          probes := s.probes.filter (· ≠ key)
          openings := match inner.state with
            | .opened ends => ends :: s.openings
            | _ => s.openings }, [.returned key ok])
  | _ => (s, [])

def step (cfg : Config) (s : Breaker κ) : Event κ → Breaker κ × List (Answer κ)
  | .gate key after => s.gate key (s.clock + after)
  | .start key after =>
      match s.calls.lookup key with
      | some .passed =>
          ({ s with clock := s.clock + after, calls := s.calls.insert key .running },
            [.started key])
      | _ => (s, [])
  | .finish key ok after => s.finish cfg key ok (s.clock + after)
  | .drop key => ({ s with calls := s.calls.erase key }, [])

def Breaker.between (s : Breaker κ) : Bool := s.calls.entries.any (·.2 == .passed)

variable {cfg : Config} {s : Breaker κ}

theorem between_of_passed {key : κ} (found : s.calls.lookup key = some .passed) :
    s.between = true := by
  have member : (⟨key, .passed⟩ : Σ _ : κ, Call) ∈ s.calls.entries := AList.mem_lookup_iff.mp found
  exact List.any_eq_true.mpr ⟨_, member, beq_self_eq_true _⟩

theorem passed_of_insert {calls : Table κ Call} {key other : κ} {call : Call}
    (found : (calls.insert key call).lookup other = some .passed) :
    other = key ∧ call = .passed ∨ calls.lookup other = some .passed := by
  rcases Tables.of_lookup_insert _ found with ⟨same, passed⟩ | ⟨_, old⟩
  · exact .inl ⟨same, passed.symm⟩
  · exact .inr old

theorem passed_of_erase {calls : Table κ Call} {key other : κ}
    (found : (calls.erase key).lookup other = some .passed) :
    calls.lookup other = some .passed :=
  (Tables.of_lookup_erase _ found).2

/-! ### One probe -/

/-- No operation starts next to a probe whose outcome is not recorded. -/
def Alone (s : Breaker κ) : Event κ → Prop
  | .start key _ => s.calls.lookup key = some .passed → ∀ probe ∈ s.probes, probe = key
  | _ => True

/-- The callers keep the half-open breaker to its probe: none comes to the gate meanwhile, no
call stands behind the gate when the probe passes it, and no other outcome is recorded before the
probe's. -/
def Exclusive (s : Breaker κ) : Event κ → Prop
  | .gate _ after =>
      s.inner.state ≠ .halfOpen ∧
        ((s.inner.gate (s.clock + after)).2.state = s.inner.state ∨ s.between = false)
  | .finish key _ _ => ∀ probe ∈ s.probes, probe = key
  | _ => True

instance (s : Breaker κ) : (event : Event κ) → Decidable (Alone s event)
  | .start key _ =>
      inferInstanceAs (Decidable
        (s.calls.lookup key = some .passed → ∀ probe ∈ s.probes, probe = key))
  | .gate .. => .isTrue trivial
  | .finish .. => .isTrue trivial
  | .drop _ => .isTrue trivial

instance (s : Breaker κ) : (event : Event κ) → Decidable (Exclusive s event)
  | .gate _ _ => inferInstanceAs (Decidable (_ ∧ _))
  | .finish key _ _ => inferInstanceAs (Decidable (∀ probe ∈ s.probes, probe = key))
  | .start .. => .isTrue trivial
  | .drop _ => .isTrue trivial

structure Probing (s : Breaker κ) : Prop where
  single : s.probes.length ≤ 1
  halfOpen : s.probes ≠ [] → s.inner.state = .halfOpen
  passed : ∀ key, s.probes ≠ [] → s.calls.lookup key = some .passed → key ∈ s.probes

theorem new_probing : Probing (Breaker.new : Breaker κ) :=
  ⟨Nat.zero_le 1, absurd rfl, fun _ => absurd rfl⟩

theorem gate_probing (probing : Probing s) {key : κ} {now : Nat}
    (waiting : s.inner.state ≠ .halfOpen)
    (clear : (s.inner.gate now).2.state = s.inner.state ∨ s.between = false) :
    Probing (s.gate key now).1 := by
  have none : s.probes = [] := by
    by_contra some
    exact waiting (probing.halfOpen some)
  rw [Breaker.gate]
  split_ifs
  · exact probing
  · have gated := s.inner.gate_gated now
    revert clear gated
    generalize s.inner.gate now = outcome
    rintro clear (⟨state, early⟩ | ⟨state, cooled⟩ | ⟨state⟩)
    · exact ⟨probing.single, fun some => absurd none some, fun _ some => absurd none some⟩
    · have moved : State.halfOpen ≠ s.inner.state := fun same => waiting same.symm
      have nobody := clear.resolve_left moved
      dsimp only
      rw [if_neg moved, none]
      refine ⟨le_refl 1, fun _ => rfl, fun other _ found => ?_⟩
      rcases passed_of_insert found with ⟨same, -⟩ | before
      · exact List.mem_singleton.mpr same
      · rw [between_of_passed before] at nobody
        cases nobody
    · dsimp only
      rw [if_pos rfl]
      exact ⟨probing.single, fun some => absurd none some, fun _ some => absurd none some⟩

theorem finish_probing (probing : Probing s) {key : κ} {ok : Bool} {now : Nat}
    (own : ∀ probe ∈ s.probes, probe = key) : Probing (s.finish cfg key ok now).1 := by
  rw [Breaker.finish]
  split
  · have none : s.probes.filter (· ≠ key) = [] := by
      rw [List.filter_eq_nil_iff]
      intro probe member
      simp [own probe member]
    dsimp only
    rw [none]
    exact ⟨Nat.zero_le 1, absurd rfl, fun _ => absurd rfl⟩
  · exact probing

theorem step_probing (probing : Probing s) {event : Event κ} (exclusive : Exclusive s event) :
    Probing (step cfg s event).1 := by
  cases event with
  | gate key after => exact gate_probing probing exclusive.1 exclusive.2
  | start key after =>
      rw [step]
      split
      · refine ⟨probing.single, probing.halfOpen, fun other some found => ?_⟩
        rcases passed_of_insert found with ⟨-, call⟩ | before
        · cases call
        · exact probing.passed other some before
      · exact probing
  | finish key ok after => exact finish_probing probing exclusive
  | drop key =>
      refine ⟨probing.single, probing.halfOpen, fun other some found => ?_⟩
      exact probing.passed other some (passed_of_erase found)

theorem alone_of_probing (probing : Probing s) (event : Event κ) : Alone s event := by
  cases event with
  | start key after =>
      intro passed probe member
      have inside := probing.passed key (List.ne_nil_of_mem member) passed
      obtain ⟨only, probes⟩ := List.length_eq_one_iff.mp
        (Nat.le_antisymm probing.single (List.length_pos_of_mem member))
      rw [probes, List.mem_singleton] at inside member
      rw [member, inside]
  | gate key after => trivial
  | finish key ok after => trivial
  | drop key => trivial

/-- In every run that is exclusive, from the moment a probe passes the gate until its outcome is
recorded no other operation is started. -/
theorem probe_runs_alone (cfg : Config) (events : List (Event κ))
    (exclusive : Machine.Meets (step cfg) Exclusive .new events) :
    Machine.Meets (step cfg) Alone (.new : Breaker κ) events :=
  Machine.meets_of_invariant Probing new_probing (fun _ _ probing => step_probing probing)
    (fun _ event probing _ => alone_of_probing probing event) events exclusive

def oneFailure : Config := ⟨1, 10⟩

def probeEvents : List (Event Nat) :=
  [.gate 0 0, .start 0 0, .finish 0 false 0, .gate 1 10, .start 1 0, .finish 1 true 5]

theorem single_probe_runs_alone :
    Machine.Meets (step oneFailure) Exclusive .new probeEvents ∧
      Machine.Meets (step oneFailure) Alone .new probeEvents := by
  have exclusive : Machine.Meets (step oneFailure) Exclusive .new probeEvents := by decide
  exact ⟨exclusive, probe_runs_alone oneFailure _ exclusive⟩

/-- A second call comes to the gate while the probe runs, and starts too. -/
theorem second_call_joins_probe :
    let s := (Machine.run (step oneFailure) .new
      ([.gate 0 0, .start 0 0, .finish 0 false 0, .gate 1 10, .start 1 0, .gate 2 0] :
        List (Event Nat))).1
    s.inner.state = .halfOpen ∧ s.probes = [1] ∧ (step oneFailure s (.start 2 0)).2 = [.started 2] ∧
      ¬ Alone s (.start 2 0) := by
  decide

/-! ### The cool-down -/

/-- No operation starts before every cool-down set so far has elapsed. -/
def Cooled (s : Breaker κ) : Event κ → Prop
  | .start key after =>
      s.calls.lookup key = some .passed → ∀ ends ∈ s.openings, ends ≤ s.clock + after
  | _ => True

def State.cooled (now : Nat) : State → Bool
  | .opened ends => decide (ends ≤ now)
  | _ => true

/-- Nothing reaches past an opening: no success is recorded before the cool-down has elapsed, and
no call stands behind the gate when a failure opens the breaker. -/
def Settled (cfg : Config) (s : Breaker κ) : Event κ → Prop
  | .finish key ok after =>
      s.calls.lookup key = some .running →
        if ok then s.inner.state.cooled (s.clock + after) = true
        else (s.inner.onFailure cfg (s.clock + after)).state = s.inner.state ∨ s.between = false
  | _ => True

instance (s : Breaker κ) : (event : Event κ) → Decidable (Cooled s event)
  | .start key after =>
      inferInstanceAs (Decidable
        (s.calls.lookup key = some .passed → ∀ ends ∈ s.openings, ends ≤ s.clock + after))
  | .gate .. => .isTrue trivial
  | .finish .. => .isTrue trivial
  | .drop _ => .isTrue trivial

instance (s : Breaker κ) : (event : Event κ) → Decidable (Settled cfg s event)
  | .finish _ _ _ => inferInstanceAs (Decidable (_ → _))
  | .start .. => .isTrue trivial
  | .gate .. => .isTrue trivial
  | .drop _ => .isTrue trivial

structure Cooling (cfg : Config) (s : Breaker κ) : Prop where
  ahead : ∀ ends ∈ s.openings, ends ≤ s.clock + cfg.cooldown
  opened : ∀ last, s.inner.state = .opened last →
    s.between = false ∧ last ∈ s.openings ∧ ∀ ends ∈ s.openings, ends ≤ last
  elapsed : (∀ last, s.inner.state ≠ .opened last) → ∀ ends ∈ s.openings, ends ≤ s.clock

omit [DecidableEq κ] in
theorem new_cooling (cfg : Config) : Cooling cfg (Breaker.new : Breaker κ) where
  ahead _ member := absurd member List.not_mem_nil
  opened _ state := State.noConfusion state
  elapsed _ _ member := absurd member List.not_mem_nil

theorem between_of_subset {s' : Breaker κ} (passed : ∀ key, s'.calls.lookup key = some .passed →
    s.calls.lookup key = some .passed) (nobody : s.between = false) : s'.between = false := by
  rw [Breaker.between, List.any_eq_false]
  intro entry member call
  have found : s'.calls.lookup entry.1 = some entry.2 := AList.mem_lookup_iff.mpr member
  rw [beq_iff_eq.mp call] at found
  rw [between_of_passed (passed _ found)] at nobody
  cases nobody

theorem gate_cooling (cooling : Cooling cfg s) {key : κ} {now : Nat} (later : s.clock ≤ now) :
    Cooling cfg (s.gate key now).1 := by
  have ahead : ∀ ends ∈ s.openings, ends ≤ now + cfg.cooldown := fun ends member =>
    (cooling.ahead ends member).trans (Nat.add_le_add_right later _)
  rw [Breaker.gate]
  split_ifs
  · exact cooling
  · have gated := s.inner.gate_gated now
    revert gated
    generalize s.inner.gate now = outcome
    rintro (⟨state, early⟩ | ⟨state, cooled⟩ | ⟨state⟩)
    · exact ⟨ahead, cooling.opened, fun other => absurd state (other _)⟩
    · refine ⟨ahead, fun last other => State.noConfusion other, fun _ ends member => ?_⟩
      exact ((cooling.opened _ state).2.2 ends member).trans cooled
    · refine ⟨ahead, fun last other => absurd other (state last), fun _ ends member => ?_⟩
      exact (cooling.elapsed state ends member).trans later

theorem between_erase (nobody : s.between = false) (key : κ) :
    Breaker.between { s with calls := s.calls.erase key } = false :=
  between_of_subset (fun _ => passed_of_erase) nobody

theorem finish_cooling (cooling : Cooling cfg s) {key : κ} {ok : Bool} {now : Nat}
    (later : s.clock ≤ now)
    (settled : s.calls.lookup key = some .running →
      if ok then s.inner.state.cooled now = true
      else (s.inner.onFailure cfg now).state = s.inner.state ∨ s.between = false) :
    Cooling cfg (s.finish cfg key ok now).1 := by
  have ahead : ∀ ends ∈ s.openings, ends ≤ now + cfg.cooldown := fun ends member =>
    (cooling.ahead ends member).trans (Nat.add_le_add_right later _)
  have calm : ∀ state, s.inner.state = state → (∀ last, state ≠ .opened last) →
      ∀ ends ∈ s.openings, ends ≤ now := by
    rintro state rfl other ends member
    exact (cooling.elapsed other ends member).trans later
  rw [Breaker.finish]
  split
  case h_2 => exact cooling
  case h_1 running =>
    have condition := settled running
    cases ok with
    | true =>
        refine ⟨ahead, fun last other => State.noConfusion other, fun _ => ?_⟩
        cases state : s.inner.state with
        | opened last =>
            intro ends member
            rw [state] at condition
            exact ((cooling.opened last state).2.2 ends member).trans (of_decide_eq_true condition)
        | closed => exact calm _ state fun _ => State.noConfusion
        | halfOpen => exact calm _ state fun _ => State.noConfusion
    | false =>
        have opens := s.inner.onFailure_cases cfg now
        revert condition opens
        generalize s.inner.onFailure cfg now = inner
        obtain ⟨state, failures⟩ := inner
        rintro condition (rfl | ⟨rfl, -⟩)
        -- the breaker opens, maybe once more
        · refine ⟨?_, ?_, fun other => absurd rfl (other _)⟩
          · exact List.forall_mem_cons.mpr ⟨le_refl _, ahead⟩
          · intro last same
            obtain rfl := State.opened.inj same
            refine ⟨between_erase ?_ key, List.mem_cons_self,
              List.forall_mem_cons.mpr ⟨le_refl _, ahead⟩⟩
            exact condition.elim (fun before => (cooling.opened _ before.symm).1) id
        -- the failure is only counted
        · cases state : s.inner.state with
          | opened last =>
              obtain ⟨clear, member, most⟩ := cooling.opened last state
              refine ⟨List.forall_mem_cons.mpr ⟨ahead last member, ahead⟩, ?_,
                fun other => absurd rfl (other _)⟩
              intro other same
              obtain rfl := State.opened.inj same
              exact ⟨between_erase clear key, List.mem_cons_self,
                List.forall_mem_cons.mpr ⟨le_refl _, most⟩⟩
          | closed =>
              exact ⟨ahead, fun last other => State.noConfusion other,
                fun _ => calm _ state fun _ => State.noConfusion⟩
          | halfOpen =>
              exact ⟨ahead, fun last other => State.noConfusion other,
                fun _ => calm _ state fun _ => State.noConfusion⟩

theorem start_cooling (cooling : Cooling cfg s) (key : κ) (after : Nat) :
    Cooling cfg (step cfg s (.start key after)).1 := by
  rw [step]
  split
  case h_2 => exact cooling
  case h_1 found =>
    have later : s.clock ≤ s.clock + after := Nat.le_add_right ..
    refine ⟨fun ends member => ?_, fun last state => ?_, fun other ends member => ?_⟩
    · exact (cooling.ahead ends member).trans (Nat.add_le_add_right later _)
    · obtain ⟨clear, rest⟩ := cooling.opened last state
      rw [between_of_passed found] at clear
      cases clear
    · exact (cooling.elapsed other ends member).trans later

theorem step_cooling (cooling : Cooling cfg s) {event : Event κ} (settled : Settled cfg s event) :
    Cooling cfg (step cfg s event).1 := by
  cases event with
  | gate key after => exact gate_cooling cooling (Nat.le_add_right ..)
  | start key after => exact start_cooling cooling key after
  | finish key ok after => exact finish_cooling cooling (Nat.le_add_right ..) settled
  | drop key =>
      refine ⟨cooling.ahead, fun last state => ?_, cooling.elapsed⟩
      obtain ⟨clear, rest⟩ := cooling.opened last state
      exact ⟨between_erase clear key, rest⟩

theorem cooled_of_cooling (cooling : Cooling cfg s) (event : Event κ) : Cooled s event := by
  cases event with
  | start key after =>
      intro passed ends member
      refine (cooling.elapsed (fun last state => ?_) ends member).trans (Nat.le_add_right ..)
      have clear := (cooling.opened last state).1
      rw [between_of_passed passed] at clear
      cases clear
  | gate key after => trivial
  | finish key ok after => trivial
  | drop key => trivial

/-- In every run whose outcomes settle, once the breaker has opened no operation is started before
the cool-down set at that opening has elapsed. -/
theorem starts_after_cooldown (cfg : Config) (events : List (Event κ))
    (settled : Machine.Meets (step cfg) (Settled cfg) .new events) :
    Machine.Meets (step cfg) Cooled (.new : Breaker κ) events :=
  Machine.meets_of_invariant (Cooling cfg) (new_cooling cfg)
    (fun _ _ cooling => step_cooling cooling)
    (fun _ event cooling _ => cooled_of_cooling cooling event) events settled

/-- A call that began before the opening fails too while the breaker is open, and keeps it open
longer; then the probe starts. -/
def lateFailure : List (Event Nat) :=
  [.gate 0 0, .start 0 0, .gate 1 0, .start 1 0, .finish 0 false 0, .finish 1 false 5, .gate 2 10,
    .start 2 0]

theorem late_failure_keeps_cooldown :
    Machine.Meets (step oneFailure) (Settled oneFailure) .new lateFailure ∧
      Machine.Meets (step oneFailure) Cooled .new lateFailure := by
  have settled : Machine.Meets (step oneFailure) (Settled oneFailure) .new lateFailure := by decide
  exact ⟨settled, starts_after_cooldown oneFailure _ settled⟩

/-- A call that began before the opening succeeds one tick into the cool-down of ten, and the next
call starts at once. -/
theorem late_success_cuts_cooldown :
    let s := (Machine.run (step oneFailure) .new
      ([.gate 0 0, .start 0 0, .gate 1 0, .start 1 0, .finish 0 false 0, .finish 1 true 1,
        .gate 2 0] : List (Event Nat))).1
    s.openings = [10] ∧ s.clock = 1 ∧ (step oneFailure s (.start 2 0)).2 = [.started 2] ∧
      ¬ Cooled s (.start 2 0) := by
  decide

end Strata.Backend.CircuitBreaker
