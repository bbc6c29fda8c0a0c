import Mathlib.Tactic

/-! A request to a remote service that is sent again while it fails in a way that may pass. The
answer of a request the service has carried out can be lost on the way back. -/

namespace Strata.Retry

variable {σ : Type}

inductive Exchange where
  | served
  | failed (executed transient : Bool)
  deriving DecidableEq

abbrev Link : Type := Nat → Exchange

def attempt (apply : σ → σ) (exchange : Exchange) (s : σ) : Except Bool Unit × σ :=
  match exchange with
  | .served => (.ok (), apply s)
  | .failed executed transient => (.error transient, if executed then apply s else s)

/-- The attempt numbered `first` and, while attempts fail in passing, at most `more` after it. -/
def retry (apply : σ → σ) (link : Link) (first : Nat) : Nat → σ → Except Bool Unit × σ
  | 0, s => attempt apply (link first) s
  | more + 1, s =>
      match attempt apply (link first) s with
      | (.ok (), s') => (.ok (), s')
      | (.error true, s') => retry apply link (first + 1) more s'
      | (.error false, s') => (.error false, s')

def landed (link : Link) (first : Nat) : Nat → Bool
  | 0 => match link first with
    | .served => true
    | .failed executed _ => executed
  | more + 1 => match link first with
    | .served => true
    | .failed executed transient => executed || (transient && landed link (first + 1) more)

variable {apply : σ → σ}

theorem retry_state (idempotent : ∀ s, apply (apply s) = apply s) (link : Link) (first more : Nat)
    (s : σ) :
    (retry apply link first more s).2 = if landed link first more then apply s else s := by
  induction more generalizing first s with
  | zero =>
      cases given : link first with
      | served => simp only [retry, landed, attempt, given, if_true]
      | failed executed transient => simp only [retry, landed, attempt, given]
  | succ more ih =>
      cases given : link first with
      | served => simp only [retry, landed, attempt, given, if_true]
      | failed executed transient =>
          cases transient with
          | false => simp only [retry, landed, attempt, given, Bool.false_and, Bool.or_false]
          | true =>
              simp only [retry, landed, attempt, given, ih, Bool.true_and]
              cases executed with
              | false => rfl
              | true => simp [idempotent]

end Strata.Retry
