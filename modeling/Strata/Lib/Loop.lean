import Mathlib.Tactic

/-! Loops with a decreasing measure, run by structural recursion on their fuel.

A `body` answers either the next loop state or the value the loop breaks with.
Where the body lowers `measure`, the fuel never runs out and `run_eq` is the
loop's own unfolding equation. -/

namespace Strata.Loop

variable {σ ρ : Type} [Inhabited ρ]

def runFor (body : σ → σ ⊕ ρ) : Nat → σ → ρ
  | 0, _ => default
  | fuel + 1, s =>
      match body s with
      | .inl next => runFor body fuel next
      | .inr result => result

def run (measure : σ → Nat) (body : σ → σ ⊕ ρ) (s : σ) : ρ :=
  runFor body (measure s + 1) s

def Decreasing (measure : σ → Nat) (body : σ → σ ⊕ ρ) : Prop :=
  ∀ s next, body s = .inl next → measure next < measure s

variable {measure : σ → Nat} {body : σ → σ ⊕ ρ}

theorem runFor_enough (lowers : Decreasing measure body) (fuel : Nat) (s : σ)
    (enough : measure s < fuel) : runFor body fuel s = run measure body s := by
  induction fuel using Nat.strong_induction_on generalizing s with
  | _ fuel ih =>
      cases fuel with
      | zero => omega
      | succ fuel =>
          simp only [run, runFor]
          cases broke : body s with
          | inr result => rfl
          | inl next =>
              have lower := lowers s next broke
              have first := ih fuel (by omega) next (by omega)
              have second := ih (measure s) (by omega) next lower
              exact first.trans second.symm

theorem run_eq (lowers : Decreasing measure body) (s : σ) :
    run measure body s =
      match body s with
      | .inl next => run measure body next
      | .inr result => result := by
  rw [run, runFor]
  cases broke : body s with
  | inr result => rfl
  | inl next => exact runFor_enough lowers _ next (lowers s next broke)

/-- Invariant rule: what every break establishes and every turn carries back
holds of the loop's value. -/
theorem run_induction (lowers : Decreasing measure body) (P : σ → ρ → Prop)
    (stop : ∀ s result, body s = .inr result → P s result)
    (turn : ∀ s next result, body s = .inl next → P next result → P s result) (s : σ) :
    P s (run measure body s) := by
  induction height : measure s using Nat.strong_induction_on generalizing s with
  | _ height' ih =>
      rw [run_eq lowers]
      cases broke : body s with
      | inr result => exact stop s result broke
      | inl next =>
          have lower := lowers s next broke
          exact turn s next _ broke (ih (measure next) (by omega) next rfl)

/-- The states a run from `s` passes. -/
def Reaches (body : σ → σ ⊕ ρ) : σ → σ → Prop :=
  Relation.ReflTransGen fun s next => body s = .inl next

theorem run_of_reaches (lowers : Decreasing measure body) {s last : σ}
    (reach : Reaches body s last) : run measure body s = run measure body last := by
  induction reach with
  | refl => rfl
  | tail _ goes ih => rw [ih, run_eq lowers, goes]

theorem run_eq_iff (lowers : Decreasing measure body) (s : σ) (result : ρ) :
    run measure body s = result ↔ ∃ last, Reaches body s last ∧ body last = .inr result := by
  constructor
  · rintro rfl
    refine run_induction lowers
      (fun s result => ∃ last, Reaches body s last ∧ body last = .inr result) ?_ ?_ s
    · exact fun s _ stops => ⟨s, .refl, stops⟩
    · rintro s next result goes ⟨last, reach, stops⟩
      exact ⟨last, .head goes reach, stops⟩
  · rintro ⟨last, reach, stops⟩
    rw [run_of_reaches lowers reach, run_eq lowers, stops]

end Strata.Loop
