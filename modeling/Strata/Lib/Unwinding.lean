import Mathlib.Tactic
import Strata.Lib.Machine

/-! Noninterference for machines that run over a list of events: what an observer may know of
each event is a list of observations that depends on the state, and runs with equal
observations have equal effects. The proof obligations are about single steps. -/

namespace Strata.Unwinding

open Machine (run)

variable {σ ε ω β : Type}

section
variable (step : σ → ε → σ × List ω) (see : σ → ε → Option β)

def view : σ → List ε → List β
  | _, [] => []
  | state, event :: events => (see state event).toList ++ view (step state event).1 events

/-- The unwinding conditions: an event that is not observed has no effect and leaves the state
alike; equal observations in alike states have equal effects and lead to alike states. -/
structure Unwinds (alike : σ → σ → Prop) : Prop where
  equivalence : Equivalence alike
  quiet : ∀ state event, see state event = none →
    alike state (step state event).1 ∧ (step state event).2 = []
  consistent : ∀ state other event event' seen, alike state other →
    see state event = some seen → see other event' = some seen →
      alike (step state event).1 (step other event').1 ∧
        (step state event).2 = (step other event').2

end

variable {step : σ → ε → σ × List ω} {see : σ → ε → Option β} {alike : σ → σ → Prop}

theorem Unwinds.silent (unwinds : Unwinds step see alike) (events : List ε) {state : σ}
    (nothing : view step see state events = []) :
    alike state (run step state events).1 ∧ (run step state events).2 = [] := by
  induction events generalizing state with
  | nil => exact ⟨unwinds.equivalence.refl state, rfl⟩
  | cons event events ih =>
      rw [view, List.append_eq_nil_iff] at nothing
      have hidden : see state event = none := by simpa using nothing.1
      obtain ⟨here, none⟩ := unwinds.quiet state event hidden
      obtain ⟨later, rest⟩ := ih nothing.2
      exact ⟨unwinds.equivalence.trans here later, by rw [run, none, rest]; rfl⟩

theorem Unwinds.first (unwinds : Unwinds step see alike) (events : List ε) {state : σ} {seen : β}
    {later : List β} (observed : view step see state events = seen :: later) :
    ∃ middle event rest, alike state middle ∧ see middle event = some seen ∧
      view step see (step middle event).1 rest = later ∧
      run step state events =
        ((run step (step middle event).1 rest).1,
          (step middle event).2 ++ (run step (step middle event).1 rest).2) := by
  induction events generalizing state with
  | nil => cases observed
  | cons event events ih =>
      rw [view] at observed
      cases visible : see state event with
      | some found =>
          rw [visible, Option.toList_some, List.singleton_append, List.cons.injEq] at observed
          obtain ⟨rfl, rest⟩ := observed
          exact ⟨state, event, events, unwinds.equivalence.refl state, visible, rest, rfl⟩
      | none =>
          rw [visible, Option.toList_none, List.nil_append] at observed
          obtain ⟨here, none⟩ := unwinds.quiet state event visible
          obtain ⟨middle, event', rest, like, saw, views, same⟩ := ih observed
          refine ⟨middle, event', rest, unwinds.equivalence.trans here like, saw, views, ?_⟩
          rw [run, none, same, List.nil_append]

theorem Unwinds.same_effects (unwinds : Unwinds step see alike) {state other : σ}
    (like : alike state other) {events events' : List ε}
    (same : view step see state events = view step see other events') :
    alike (run step state events).1 (run step other events').1 ∧
      (run step state events).2 = (run step other events').2 := by
  generalize observed : view step see state events = seen at same
  induction seen generalizing state other events events' with
  | nil =>
      obtain ⟨first, none⟩ := unwinds.silent events observed
      obtain ⟨second, none'⟩ := unwinds.silent events' same.symm
      refine ⟨?_, none.trans none'.symm⟩
      exact unwinds.equivalence.trans (unwinds.equivalence.symm first)
        (unwinds.equivalence.trans like second)
  | cons seen later ih =>
      obtain ⟨middle, event, rest, near, saw, views, runs⟩ := unwinds.first events observed
      obtain ⟨middle', event', rest', near', saw', views', runs'⟩ :=
        unwinds.first events' same.symm
      have between : alike middle middle' :=
        unwinds.equivalence.trans (unwinds.equivalence.symm near)
          (unwinds.equivalence.trans like near')
      obtain ⟨after, effects⟩ :=
        unwinds.consistent middle middle' event event' seen between saw saw'
      obtain ⟨finals, outputs⟩ := ih after views views'.symm
      rw [runs, runs']
      exact ⟨finals, by rw [effects, outputs]⟩

end Strata.Unwinding
