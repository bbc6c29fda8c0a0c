import Mathlib.Tactic

/-! Incremental parsing: parsers that tell "read more" from "never valid", and
buffers that are fed in chunks and drained one value at a time.

`Extends` says what more input may change about an outcome, and
`observe_eq_drain` that a stable step sees only the bytes it was fed, never how
they were cut or how often it was asked. -/

namespace Strata.StreamParser

inductive ErrMode where
  | backtrack
  | cut
  deriving DecidableEq, Repr, Inhabited

abbrev ModalResult (β α : Type) := Except ErrMode (α × List β)

variable {α β γ ε : Type}

/-- Accepted and cut outcomes survive an extension of the input; an incomplete
one may become anything. -/
def Extends (short long : ModalResult β α) (extension : List β) : Prop :=
  match short with
  | .ok (value, rest) => long = .ok (value, rest ++ extension)
  | .error .cut => long = .error .cut
  | .error .backtrack => True

def Stable (parse : List β → ModalResult β α) : Prop :=
  ∀ input extension, Extends (parse input) (parse (input ++ extension)) extension

abbrev Step (ε β γ : Type) := List β → Except ε (Option (γ × Nat))

structure StableStep (step : Step ε β γ) : Prop where
  accepted : ∀ {buffer value n}, step buffer = .ok (some (value, n)) →
    ∀ more, step (buffer ++ more) = .ok (some (value, n))
  refused : ∀ {buffer err}, step buffer = .error err →
    ∀ more, step (buffer ++ more) = .error err
  progress : ∀ {buffer value n}, step buffer = .ok (some (value, n)) →
    0 < n ∧ n ≤ buffer.length

/-- Interpret each parsed value, failing before anything is consumed. -/
def refine {δ : Type} (step : Step ε β γ) (interpret : γ → Nat → Except ε δ) : Step ε β δ :=
  fun buffer =>
    match step buffer with
    | .error err => .error err
    | .ok none => .ok none
    | .ok (some (value, n)) => (interpret value n).map (fun result => some (result, n))

def pull (step : Step ε β γ) (buffer : List β) : Except ε (Option γ) × List β :=
  match step buffer with
  | .error err => (.error err, buffer)
  | .ok none => (.ok none, buffer)
  | .ok (some (value, n)) => (.ok (some value), buffer.drop n)

def drainFor (step : Step ε β γ) : Nat → List β → List γ × Option ε × List β
  | 0, buffer => ([], none, buffer)
  | fuel + 1, buffer =>
      match pull step buffer with
      | (.error err, rest) => ([], some err, rest)
      | (.ok none, rest) => ([], none, rest)
      | (.ok (some value), rest) =>
          let tail := drainFor step fuel rest
          (value :: tail.1, tail.2)

def drain (step : Step ε β γ) (buffer : List β) : List γ × Option ε × List β :=
  drainFor step (buffer.length + 1) buffer

inductive Op (β : Type) where
  | feed (bytes : List β)
  | pull

def fed : List (Op β) → List β
  | [] => []
  | .feed bytes :: ops => bytes ++ fed ops
  | .pull :: ops => fed ops

def play (step : Step ε β γ) : List (Op β) → List β → List (Except ε (Option γ)) × List β
  | [], buffer => ([], buffer)
  | .feed bytes :: ops, buffer => play step ops (buffer ++ bytes)
  | .pull :: ops, buffer =>
      let answer := pull step buffer
      let tail := play step ops answer.2
      (answer.1 :: tail.1, tail.2)

def yielded : List (Except ε (Option γ)) → List γ
  | [] => []
  | .error _ :: _ => []
  | .ok none :: answers => yielded answers
  | .ok (some value) :: answers => value :: yielded answers

def firstError : List (Except ε (Option γ)) → Option ε
  | [] => none
  | .error err :: _ => some err
  | .ok _ :: answers => firstError answers

def observe (step : Step ε β γ) (ops : List (Op β)) (buffer : List β) :
    List γ × Option ε × List β :=
  let run := play step ops buffer
  let rest := drain step run.2
  (yielded run.1 ++ rest.1, (firstError run.1).or rest.2.1, rest.2.2)

variable {step : Step ε β γ}

theorem StableStep.refine {δ : Type} (stable : StableStep step)
    (interpret : γ → Nat → Except ε δ) : StableStep (refine step interpret) where
  accepted := by
    intro buffer value n answer more
    unfold StreamParser.refine at *
    cases parsed : step buffer with
    | error err => simp [parsed] at answer
    | ok outcome =>
        cases outcome with
        | none => simp [parsed] at answer
        | some pair =>
            simp only [parsed] at answer
            simp only [stable.accepted parsed more]
            exact answer
  refused := by
    intro buffer err answer more
    unfold StreamParser.refine at *
    cases parsed : step buffer with
    | error err =>
        simp only [parsed] at answer
        simp only [stable.refused parsed more]
        exact answer
    | ok outcome =>
        cases outcome with
        | none => simp [parsed] at answer
        | some pair =>
            simp only [parsed] at answer
            simp only [stable.accepted parsed more]
            exact answer
  progress := by
    intro buffer value n answer
    unfold StreamParser.refine at answer
    cases parsed : step buffer with
    | error err => simp [parsed] at answer
    | ok outcome =>
        cases outcome with
        | none => simp [parsed] at answer
        | some pair =>
            simp only [parsed] at answer
            cases interpreted : interpret pair.1 pair.2 with
            | error err => simp [interpreted, Except.map] at answer
            | ok result =>
                simp only [interpreted, Except.map, Except.ok.injEq, Option.some.injEq,
                  Prod.mk.injEq] at answer
                rw [← answer.2]
                exact stable.progress parsed

theorem drainFor_enough (stable : StableStep step) (fuel : Nat) (buffer : List β)
    (enough : buffer.length < fuel) : drainFor step fuel buffer = drain step buffer := by
  induction fuel using Nat.strong_induction_on generalizing buffer with
  | _ fuel ih =>
      cases fuel with
      | zero => omega
      | succ fuel =>
          simp only [drain, drainFor, pull]
          cases answer : step buffer with
          | error err => rfl
          | ok parsed =>
              cases parsed with
              | none => rfl
              | some pair =>
                  obtain ⟨positive, bounded⟩ := stable.progress answer
                  have shorter : (buffer.drop pair.2).length < buffer.length := by
                    rw [List.length_drop]
                    omega
                  have first := ih fuel (by omega) (buffer.drop pair.2) (by omega)
                  have second := ih buffer.length (by omega) (buffer.drop pair.2) shorter
                  simp only [first, second]

theorem drain_error {buffer : List β} {err : ε} (answer : step buffer = .error err) :
    drain step buffer = ([], some err, buffer) := by
  simp [drain, drainFor, pull, answer]

theorem drain_some (stable : StableStep step) {buffer : List β} {value : γ} {n : Nat}
    (answer : step buffer = .ok (some (value, n))) :
    drain step buffer =
      (value :: (drain step (buffer.drop n)).1, (drain step (buffer.drop n)).2) := by
  obtain ⟨positive, bounded⟩ := stable.progress answer
  have tail := drainFor_enough stable buffer.length (buffer.drop n) (by
    rw [List.length_drop]
    omega)
  rw [drain, drainFor, pull, answer]
  simp only [tail]

theorem drain_induction (stable : StableStep step) {motive : List β → Prop}
    (stuck : ∀ {buffer}, (drain step buffer).1 = [] → (drain step buffer).2.2 = buffer →
      motive buffer)
    (pulled : ∀ {buffer value n}, step buffer = .ok (some (value, n)) →
      motive (buffer.drop n) → motive buffer) (buffer : List β) : motive buffer := by
  induction size : buffer.length using Nat.strong_induction_on generalizing buffer with
  | _ size ih =>
      cases answer : step buffer with
      | error err =>
          have still := drain_error answer
          exact stuck (by rw [still]) (by rw [still])
      | ok parsed =>
          cases parsed with
          | none =>
              have still : drain step buffer = ([], none, buffer) := by
                simp [drain, drainFor, pull, answer]
              exact stuck (by rw [still]) (by rw [still])
          | some pair =>
              obtain ⟨positive, bounded⟩ := stable.progress answer
              exact pulled answer (ih _ (by rw [List.length_drop]; omega) (buffer.drop pair.2) rfl)

/-- A buffer drained before more bytes come yields what the whole yields. -/
theorem drain_append (stable : StableStep step) (buffer more : List β) :
    (drain step (buffer ++ more)).1 =
      (drain step buffer).1 ++ (drain step ((drain step buffer).2.2 ++ more)).1 ∧
    (drain step (buffer ++ more)).2 = (drain step ((drain step buffer).2.2 ++ more)).2 := by
  induction buffer using drain_induction stable with
  | stuck empty still => simp [empty, still]
  | pulled answer ih =>
      have bounded := (stable.progress answer).2
      rw [drain_some stable answer, drain_some stable (stable.accepted answer more),
        List.drop_append_of_le_length bounded]
      exact ⟨congrArg _ ih.1, ih.2⟩

/-! ### Values with their sizes -/

def sized (step : Step ε β γ) : Step ε β (γ × Nat) := refine step fun value n => .ok (value, n)

theorem sized_size {buffer : List β} {value : γ × Nat} {n : Nat}
    (answer : sized step buffer = .ok (some (value, n))) : value.2 = n := by
  rw [sized, StreamParser.refine] at answer
  cases parsed : step buffer with
  | error err => simp [parsed] at answer
  | ok outcome =>
      cases outcome with
      | none => simp [parsed] at answer
      | some pair =>
          simp only [parsed, Except.map, Except.ok.injEq, Option.some.injEq,
            Prod.mk.injEq] at answer
          rw [← answer.1, ← answer.2]

theorem drain_sizes_positive (stable : StableStep step) (buffer : List β) :
    ∀ parsed ∈ (drain (sized step) buffer).1, 0 < parsed.2 := by
  have sizes : StableStep (sized step) := stable.refine _
  induction buffer using drain_induction sizes with
  | stuck empty _ => simp [empty]
  | pulled answer ih =>
      rw [drain_some sizes answer, List.forall_mem_cons, sized_size answer]
      exact ⟨(sizes.progress answer).1, ih⟩

theorem drain_sizes_sum (stable : StableStep step) (buffer : List β) :
    ((drain (sized step) buffer).1.map Prod.snd).sum + (drain (sized step) buffer).2.2.length =
      buffer.length := by
  have sizes : StableStep (sized step) := stable.refine _
  induction buffer using drain_induction sizes with
  | stuck empty still => simp [empty, still]
  | pulled answer ih =>
      have bounded := (sizes.progress answer).2
      rw [List.length_drop] at ih
      rw [drain_some sizes answer]
      simp only [List.map_cons, List.sum_cons, sized_size answer]
      omega

theorem drain_behind (stable : StableStep step) (buffer : List β) {early late : List (γ × Nat)}
    (parsed : (drain (sized step) buffer).1 = early ++ late) :
    (drain (sized step) (buffer.drop (early.map Prod.snd).sum)).1 = late := by
  have sizes : StableStep (sized step) := stable.refine _
  induction buffer using drain_induction sizes generalizing early with
  | stuck empty _ =>
      obtain ⟨rfl, rfl⟩ := List.append_eq_nil_iff.mp (parsed.symm.trans empty)
      exact empty
  | pulled answer ih =>
      cases early with
      | nil => exact parsed
      | cons first early =>
          rw [drain_some sizes answer, List.cons_append] at parsed
          obtain ⟨rfl, later⟩ := List.cons.inj parsed
          rw [List.map_cons, List.sum_cons, sized_size answer, ← List.drop_drop]
          exact ih later

theorem play_failed (stable : StableStep step) {buffer : List β} {err : ε}
    (failed : step buffer = .error err) (ops : List (Op β)) :
    (play step ops buffer).2 = buffer ++ fed ops := by
  induction ops generalizing buffer with
  | nil => simp [play, fed]
  | cons op ops ih =>
      cases op with
      | feed bytes =>
          simp only [play, fed]
          rw [ih (stable.refused failed bytes), List.append_assoc]
      | pull =>
          simp only [play, fed, pull, failed]
          exact ih failed

theorem observe_eq_drain (stable : StableStep step) (ops : List (Op β)) (buffer : List β) :
    observe step ops buffer = drain step (buffer ++ fed ops) := by
  induction ops generalizing buffer with
  | nil => simp [observe, play, fed, yielded, firstError]
  | cons op ops ih =>
      cases op with
      | feed bytes =>
          have tail := ih (buffer ++ bytes)
          rw [List.append_assoc] at tail
          exact tail
      | pull =>
          cases answer : step buffer with
          | error err =>
              have later := stable.refused answer (fed ops)
              have kept := play_failed stable answer ops
              rw [fed, drain_error later]
              simp only [observe, play, pull, answer, yielded, firstError, kept,
                drain_error later, Option.some_or, List.append_nil]
          | ok parsed =>
              cases parsed with
              | none =>
                  rw [fed, ← ih buffer]
                  simp only [observe, play, pull, answer, yielded, firstError]
              | some pair =>
                  obtain ⟨positive, bounded⟩ := stable.progress answer
                  have later := stable.accepted answer (fed ops)
                  have cut : (buffer ++ fed ops).drop pair.2 = buffer.drop pair.2 ++ fed ops :=
                    List.drop_append_of_le_length bounded
                  rw [fed, drain_some stable later, cut, ← ih (buffer.drop pair.2)]
                  simp only [observe, play, pull, answer, yielded, firstError, List.cons_append]

end Strata.StreamParser
