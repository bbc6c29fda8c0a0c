import Mathlib.Tactic

/-! Runs of a deterministic machine over a list of events, with the effects it has
on the way. Invariants may speak of the events handled so far. -/

namespace Strata.Machine

variable {σ ε ω : Type} (step : σ → ε → σ × List ω)

def run (start : σ) : List ε → σ × List ω
  | [] => (start, [])
  | event :: events =>
      ((run (step start event).1 events).1,
        (step start event).2 ++ (run (step start event).1 events).2)

/-- Every event of the run meets `good` in the state that handles it. -/
def Meets (good : σ → ε → Prop) (start : σ) : List ε → Prop
  | [] => True
  | event :: events => good start event ∧ Meets good (step start event).1 events

instance decidableMeets {good : σ → ε → Prop} [each : ∀ state event, Decidable (good state event)]
    (start : σ) : (events : List ε) → Decidable (Meets step good start events)
  | [] => .isTrue trivial
  | event :: events =>
      @instDecidableAnd _ _ (each start event) (decidableMeets (step start event).1 events)

variable {step} {start : σ}

theorem run_concat (events : List ε) (event : ε) :
    run step start (events ++ [event]) =
      ((step (run step start events).1 event).1,
        (run step start events).2 ++ (step (run step start events).1 event).2) := by
  induction events generalizing start with
  | nil => simp [run]
  | cons first events ih => simp only [List.cons_append, run, ih, List.append_assoc]

theorem run_append (events more : List ε) :
    run step start (events ++ more) =
      ((run step (run step start events).1 more).1,
        (run step start events).2 ++ (run step (run step start events).1 more).2) := by
  induction events generalizing start with
  | nil => simp [run]
  | cons first events ih => simp only [List.cons_append, run, ih, List.append_assoc]

theorem meets_concat {good : σ → ε → Prop} (events : List ε) (event : ε) :
    Meets step good start (events ++ [event]) ↔
      Meets step good start events ∧ good (run step start events).1 event := by
  induction events generalizing start with
  | nil => simp [Meets, run]
  | cons first events ih => simp only [List.cons_append, Meets, run, ih, and_assoc]

theorem meets_of_always {good : σ → ε → Prop} (always : ∀ state event, good state event)
    (events : List ε) : Meets step good start events := by
  induction events generalizing start with
  | nil => trivial
  | cons event events ih => exact ⟨always start event, ih⟩

theorem run_history (invariant : List ε → List ω → σ → Prop) (initial : invariant [] [] start)
    (preserved : ∀ past event,
      invariant past (run step start past).2 (run step start past).1 →
      invariant (past ++ [event])
        ((run step start past).2 ++ (step (run step start past).1 event).2)
        (step (run step start past).1 event).1)
    (events : List ε) : invariant events (run step start events).2 (run step start events).1 := by
  induction events using List.reverseRecOn with
  | nil => exact initial
  | append_singleton events event ih =>
      rw [run_concat]
      exact preserved events event ih

theorem run_invariant (invariant : List ε → σ → Prop) (initial : invariant [] start)
    (preserved : ∀ past event state, invariant past state →
      invariant (past ++ [event]) (step state event).1) (events : List ε) :
    invariant events (run step start events).1 :=
  run_history (fun past _ state => invariant past state) initial
    (fun past event => preserved past event _) events

theorem run_history_of {good : σ → ε → Prop} (invariant : List ε → List ω → σ → Prop)
    (initial : invariant [] [] start)
    (preserved : ∀ past effects event state, invariant past effects state → good state event →
      invariant (past ++ [event]) (effects ++ (step state event).2) (step state event).1)
    (events : List ε) (meets : Meets step good start events) :
    invariant events (run step start events).2 (run step start events).1 := by
  refine run_history
    (fun past effects state => Meets step good start past → invariant past effects state)
    (fun _ => initial) ?_ events meets
  intro past event holds meets
  rw [meets_concat] at meets
  exact preserved past _ event _ (holds meets.1) meets.2

theorem run_invariant_of {good : σ → ε → Prop} (invariant : List ε → σ → Prop)
    (initial : invariant [] start)
    (preserved : ∀ past event state, invariant past state → good state event →
      invariant (past ++ [event]) (step state event).1)
    (events : List ε) (meets : Meets step good start events) :
    invariant events (run step start events).1 :=
  run_history_of (fun past _ state => invariant past state) initial
    (fun past _ event state => preserved past event state) events meets

theorem meets_of_invariant {good other : σ → ε → Prop} (invariant : σ → Prop)
    (initial : invariant start)
    (preserved : ∀ state event, invariant state → good state event →
      invariant (step state event).1)
    (allows : ∀ state event, invariant state → good state event → other state event)
    (events : List ε) (meets : Meets step good start events) : Meets step other start events := by
  induction events generalizing start with
  | nil => trivial
  | cons event events ih =>
      obtain ⟨first, rest⟩ := meets
      exact ⟨allows start event initial first, ih (preserved start event initial first) rest⟩

theorem meets_iff_of_invariant {good other : σ → ε → Prop} (invariant : σ → Prop)
    (initial : invariant start)
    (preserved : ∀ state event, invariant state → invariant (step state event).1)
    (exactly : ∀ state event, invariant state → (good state event ↔ other state event))
    (events : List ε) : Meets step good start events ↔ Meets step other start events := by
  induction events generalizing start with
  | nil => exact Iff.rfl
  | cons event events ih =>
      exact and_congr (exactly start event initial) (ih (preserved start event initial))

/-- Where a step keeps a property exactly if it meets `good`, a run keeps it in every state it
reaches exactly if all its events do. -/
theorem kept_iff_meets_of {good : σ → ε → Prop} {kept : σ → Prop} (allowed : ε → Prop)
    (invariant : σ → Prop) (initial : invariant start) (starts : kept start)
    (preserved : ∀ state event, allowed event → invariant state → good state event →
      invariant (step state event).1)
    (exactly : ∀ state event, allowed event → invariant state →
      (kept (step state event).1 ↔ good state event))
    (events : List ε) (all : ∀ event ∈ events, allowed event) :
    (∀ past, past <+: events → kept (run step start past).1) ↔ Meets step good start events := by
  -- The invariant is needed only as far as the run has met `good`.
  have both (events : List ε) (all : ∀ event ∈ events, allowed event) :
      ((∀ past, past <+: events → kept (run step start past).1) ↔
        Meets step good start events) ∧
      (Meets step good start events → invariant (run step start events).1) := by
    induction events using List.reverseRecOn with
    | nil =>
        refine ⟨⟨fun _ => trivial, fun _ past front => ?_⟩, fun _ => initial⟩
        rw [List.prefix_nil.mp front]
        exact starts
    | append_singleton events event ih =>
        obtain ⟨ih, reached⟩ := ih fun event member => all event (List.mem_append_left _ member)
        have own := all event (List.mem_append_right _ List.mem_cons_self)
        have last : (run step start (events ++ [event])).1 =
            (step (run step start events).1 event).1 := by rw [run_concat]
        rw [meets_concat, ← ih, last]
        refine ⟨⟨?_, ?_⟩, ?_⟩
        · intro keeps
          have before : ∀ past, past <+: events → kept (run step start past).1 :=
            fun past front => keeps past (front.trans (List.prefix_append ..))
          have now := keeps _ List.prefix_rfl
          rw [last] at now
          exact ⟨before, (exactly _ _ own (reached (ih.mp before))).mp now⟩
        · rintro ⟨before, meets⟩ past front
          rcases List.prefix_concat_iff.mp front with rfl | front
          · rw [last]
            exact (exactly _ _ own (reached (ih.mp before))).mpr meets
          · exact before past front
        · rintro ⟨before, meets⟩
          exact preserved _ _ own (reached (ih.mp before)) meets
  exact (both events all).1

theorem kept_iff_meets {good : σ → ε → Prop} {kept : σ → Prop} (invariant : σ → Prop)
    (initial : invariant start) (starts : kept start)
    (preserved : ∀ state event, invariant state → good state event →
      invariant (step state event).1)
    (exactly : ∀ state event, invariant state → (kept (step state event).1 ↔ good state event))
    (events : List ε) :
    (∀ past, past <+: events → kept (run step start past).1) ↔ Meets step good start events :=
  kept_iff_meets_of (fun _ => True) invariant initial starts
    (fun state event _ => preserved state event) (fun state event _ => exactly state event) events
    fun _ _ => trivial

theorem run_effects (invariant : List ε → σ → Prop) (holds : List ε → ω → Prop)
    (initial : invariant [] start)
    (preserved : ∀ past event state, invariant past state →
      invariant (past ++ [event]) (step state event).1)
    (emits : ∀ past event state, invariant past state →
      ∀ happened ∈ (step state event).2, holds (past ++ [event]) happened)
    (later : ∀ past event happened, holds past happened → holds (past ++ [event]) happened)
    (events : List ε) : ∀ happened ∈ (run step start events).2, holds events happened := by
  induction events using List.reverseRecOn with
  | nil =>
      intro happened member
      cases member
  | append_singleton events event ih =>
      intro happened member
      rw [run_concat] at member
      rcases List.mem_append.mp member with old | new
      · exact later events event happened (ih happened old)
      · exact emits events event _ (run_invariant invariant initial preserved events) happened new

end Strata.Machine
