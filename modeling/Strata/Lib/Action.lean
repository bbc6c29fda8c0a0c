import Mathlib.Tactic

/-! Actions of a component that owns a state: each answers with a value or an
error, a new state and the effects it had, in order. What an action did before it
failed stays done. -/

namespace Strata.Action

variable {σ ω ε ε' α β : Type}

structure Outcome (σ ω ε α : Type) where
  result : Except ε α
  state : σ
  trace : List ω

def Act (σ ω ε α : Type) : Type := σ → Outcome σ ω ε α

def done (value : α) : Act σ ω ε α := fun s => ⟨.ok value, s, []⟩

def fail (err : ε) : Act σ ω ε α := fun s => ⟨.error err, s, []⟩

def andThen (first : Act σ ω ε α) (next : α → Act σ ω ε β) : Act σ ω ε β := fun s =>
  match (first s).result with
  | .error err => ⟨.error err, (first s).state, (first s).trace⟩
  | .ok value =>
      let rest := next value (first s).state
      ⟨rest.result, rest.state, (first s).trace ++ rest.trace⟩

instance : Monad (Act σ ω ε) where
  pure := done
  bind := andThen

def current : Act σ ω ε σ := fun s => ⟨.ok s, s, []⟩

def update (change : σ → σ) : Act σ ω ε Unit := fun s => ⟨.ok (), change s, []⟩

def effect (happened : ω) : Act σ ω ε Unit := fun s => ⟨.ok (), s, [happened]⟩

/-- `let _ = action`: the outcome is dropped, what was done is not. -/
def attempt (action : Act σ ω ε α) : Act σ ω ε' Unit := fun s =>
  ⟨.ok (), (action s).state, (action s).trace⟩

/-- Goes on with the outcome of `first`, value or error: nothing is left to fail with
but what `next` fails with. -/
def resume (first : Act σ ω ε α) (next : Except ε α → Act σ ω ε' β) : Act σ ω ε' β := fun s =>
  let rest := next (first s).result (first s).state
  ⟨rest.result, rest.state, (first s).trace ++ rest.trace⟩

def answer (action : Act σ ω Empty α) (s : σ) : α :=
  match (action s).result with
  | .ok value => value
  | .error err => nomatch err

def forEach (items : List β) (body : β → Act σ ω ε Unit) : Act σ ω ε Unit :=
  match items with
  | [] => done ()
  | item :: items => andThen (body item) fun _ => forEach items body

theorem trace_bind (first : Act σ ω ε α) (next : α → Act σ ω ε β) (s : σ) :
    ∃ rest, ((first >>= next) s).trace = (first s).trace ++ rest := by
  change ∃ rest, (andThen first next s).trace = _
  rw [andThen]
  cases (first s).result with
  | error err => exact ⟨[], (List.append_nil _).symm⟩
  | ok value => exact ⟨_, rfl⟩

structure Closed (R : σ → List ω → σ → Prop) : Prop where
  refl : ∀ s, R s [] s
  trans : ∀ {s t u a b}, R s a t → R t b u → R s (a ++ b) u

def WithinAt (R : σ → List ω → σ → Prop) (action : Act σ ω ε α) (s : σ) : Prop :=
  R s (action s).trace (action s).state

def Within (R : σ → List ω → σ → Prop) (action : Act σ ω ε α) : Prop :=
  ∀ s, WithinAt R action s

theorem withinAt_bind_of {R S T : σ → List ω → σ → Prop} {first : Act σ ω ε α}
    {next : α → Act σ ω ε β} {s : σ} (head : WithinAt R first s)
    (tail : ∀ value, (first s).result = .ok value → WithinAt S (next value) (first s).state)
    (stops : ∀ {s a t}, R s a t → T s a t)
    (joins : ∀ {s t u a b}, R s a t → S t b u → T s (a ++ b) u) :
    WithinAt T (first >>= next) s := by
  change T s (andThen first next s).trace (andThen first next s).state
  rw [andThen]
  cases answered : (first s).result with
  | error err => exact stops head
  | ok value => exact joins head (tail value answered)

section Rules

variable {R : σ → List ω → σ → Prop} (closed : Closed R)
include closed

theorem within_done (value : α) : Within R (done value : Act σ ω ε α) := closed.refl

theorem within_fail (err : ε) : Within R (fail err : Act σ ω ε α) := closed.refl

theorem withinAt_bind {first : Act σ ω ε α} {next : α → Act σ ω ε β} {s : σ}
    (head : WithinAt R first s)
    (tail : ∀ value, (first s).result = .ok value → WithinAt R (next value) (first s).state) :
    WithinAt R (first >>= next) s :=
  withinAt_bind_of head tail (fun moved => moved) closed.trans

theorem within_bind {first : Act σ ω ε α} {next : α → Act σ ω ε β} (head : Within R first)
    (tail : ∀ value, Within R (next value)) : Within R (first >>= next) :=
  fun s => withinAt_bind closed (head s) fun value _ => tail value _

theorem within_map {action : Act σ ω ε α} (image : α → β) (inside : Within R action) :
    Within R (image <$> action) :=
  within_bind closed inside fun _ => within_done closed _

theorem withinAt_resume_at {first : Act σ ω ε α} {next : Except ε α → Act σ ω ε' β} {s : σ}
    (head : WithinAt R first s) (tail : WithinAt R (next (first s).result) (first s).state) :
    WithinAt R (resume first next) s :=
  closed.trans head tail

theorem withinAt_resume {first : Act σ ω ε α} {next : Except ε α → Act σ ω ε' β} {s : σ}
    (head : WithinAt R first s) (tail : ∀ outcome, Within R (next outcome)) :
    WithinAt R (resume first next) s :=
  withinAt_resume_at closed head (tail _ _)

theorem withinAt_current {next : σ → Act σ ω ε β} {s : σ} (tail : WithinAt R (next s) s) :
    WithinAt R (current >>= next) s := by
  refine withinAt_bind closed (closed.refl s) fun value answered => ?_
  obtain rfl := Except.ok.inj answered
  exact tail

theorem within_current {next : σ → Act σ ω ε β} (tail : ∀ s, WithinAt R (next s) s) :
    Within R (current >>= next) :=
  fun s => withinAt_current closed (tail s)

theorem within_forEach {items : List β} {body : β → Act σ ω ε Unit}
    (each : ∀ item ∈ items, Within R (body item)) : Within R (forEach items body) := by
  induction items with
  | nil => exact within_done closed ()
  | cons item items ih =>
      exact within_bind closed (each item (by simp))
        fun _ => ih fun other member => each other (by simp [member])

end Rules

theorem within_ite {R : σ → List ω → σ → Prop} {condition : Prop} [Decidable condition]
    {first second : Act σ ω ε α} (yes : condition → Within R first)
    (no : ¬condition → Within R second) : Within R (if condition then first else second) := by
  by_cases holds : condition
  · rw [if_pos holds]
    exact yes holds
  · rw [if_neg holds]
    exact no holds

end Strata.Action
