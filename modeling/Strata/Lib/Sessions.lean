import Mathlib.Tactic
import Strata.Lib.Machine

/-! Sessions that take turns on a shared state. Each step is one session's, and changes the
shared state and that session alone. An invariant is one of the shared state and one of every
session; it has to be kept by the session that moves and by those that do not. -/

namespace Strata.Sessions

variable {ι σ μ ε ω : Type}

structure System (ι σ μ : Type) where
  shared : σ
  locals : ι → μ

variable (act : ι → σ → μ → ε → σ × μ × List ω)

def move (s : System ι σ μ) (i : ι) (event : ε) : σ × μ × List ω :=
  act i s.shared (s.locals i) event

def step [DecidableEq ι] (s : System ι σ μ) (event : ι × ε) : System ι σ μ × List ω :=
  (⟨(move act s event.1 event.2).1,
    Function.update s.locals event.1 (move act s event.1 event.2).2.1⟩,
    (move act s event.1 event.2).2.2)

structure Holds (whole : σ → Prop) (each : ι → σ → μ → Prop) (s : System ι σ μ) : Prop where
  shared : whole s.shared
  locals : ∀ i, each i s.shared (s.locals i)

structure Keeps (good : System ι σ μ → ι × ε → Prop) (whole : σ → Prop)
    (each : ι → σ → μ → Prop) : Prop where
  shared : ∀ {s i event}, Holds whole each s → good s (i, event) → whole (move act s i event).1
  mover : ∀ {s i event}, Holds whole each s → good s (i, event) →
    each i (move act s i event).1 (move act s i event).2.1
  others : ∀ {s i event j}, Holds whole each s → good s (i, event) → j ≠ i →
    each j (move act s i event).1 (s.locals j)

variable {act} {good : System ι σ μ → ι × ε → Prop} {whole : σ → Prop} {each : ι → σ → μ → Prop}

variable [DecidableEq ι]

theorem Keeps.after_step (keeps : Keeps act good whole each) {s : System ι σ μ} {event : ι × ε}
    (holds : Holds whole each s) (met : good s event) :
    Holds whole each (step act s event).1 where
  shared := keeps.shared holds met
  locals := Function.forall_update_iff _ _ |>.mpr
    ⟨keeps.mover holds met, fun _ other => keeps.others holds met other⟩

/-- Invariant rule for runs whose events all meet `good`. -/
theorem Keeps.after_run (keeps : Keeps act good whole each) {start : System ι σ μ}
    (initial : Holds whole each start) (events : List (ι × ε))
    (meets : Machine.Meets (step act) good start events) :
    Holds whole each (Machine.run (step act) start events).1 :=
  Machine.run_invariant_of (fun _ s => Holds whole each s) initial
    (fun _ _ _ holds met => keeps.after_step holds met) events meets

theorem Keeps.effects (keeps : Keeps act good whole each) {start : System ι σ μ}
    (initial : Holds whole each start) (fine : σ → ω → Prop)
    (emits : ∀ {s i event}, Holds whole each s → good s (i, event) →
      ∀ happened ∈ (move act s i event).2.2, fine (move act s i event).1 happened)
    (later : ∀ {s i event happened}, Holds whole each s → good s (i, event) →
      fine s.shared happened → fine (move act s i event).1 happened)
    (events : List (ι × ε)) (meets : Machine.Meets (step act) good start events) :
    ∀ happened ∈ (Machine.run (step act) start events).2,
      fine (Machine.run (step act) start events).1.shared happened := by
  have kept := Machine.run_history_of
    (fun _ effects s => Holds whole each s ∧ ∀ happened ∈ effects, fine s.shared happened)
    (And.intro initial nofun) ?_ events meets
  · exact kept.2
  · rintro past effects ⟨i, event⟩ s ⟨holds, all⟩ met
    refine ⟨keeps.after_step holds met, fun happened member => ?_⟩
    rcases List.mem_append.mp member with before | now
    · exact later holds met (all happened before)
    · exact emits holds met happened now

end Strata.Sessions
