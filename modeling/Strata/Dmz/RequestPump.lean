import Mathlib.Tactic
import Strata.Lib.RustInt
import Strata.Lib.Utf8

/-! The pump that streams a request body upstream (`pump_request_body_upstream`): chunk by chunk
under a cap, each chunk in as many pieces as the peer grants capacity for. A run is over lists of
what the body and the peer answer; where a list ends, the pump waits. -/

namespace Strata.Dmz.RequestPump

open Utf8 (Bytes)
open RustInt (usizeMax)

inductive PumpFail where
  | bodyReadError
  | capExceeded
  | upstreamGone
  deriving DecidableEq

inductive Reason where
  | internalError
  | cancel
  deriving DecidableEq

/-- What the body yields; its end comes with the answer of `send_data` to the end mark. -/
inductive Item where
  | chunk (bytes : Bytes)
  | failed
  | finished (taken : Bool)

/-- What `poll_capacity` answers, with the answer of `send_data` to the piece. -/
inductive Grant where
  | capacity (granted : Nat) (taken : Bool)
  | gone

structure Upload where
  total : Nat
  sent : Bytes
  marked : Bool
  reset : Option Reason

def Upload.start : Upload := ⟨0, [], false, none⟩

inductive Outcome where
  | waiting
  | failed (fail : PumpFail)
  | done

def saturatingAdd (first second : Nat) : Nat := min (first + second) usizeMax

def sendChunk (up : Upload) (remaining : Bytes) (grants : List Grant) :
    Upload × (Outcome ⊕ List Grant) :=
  if remaining = [] then (up, .inr grants)
  else
    match grants with
    | [] => (up, .inl .waiting)
    | .gone :: _ => (up, .inl (.failed .upstreamGone))
    | .capacity granted taken :: grants =>
        let take := min granted remaining.length
        if taken then
          sendChunk
            { up with
              total := saturatingAdd up.total take
              sent := up.sent ++ remaining.take take }
            (remaining.drop take) grants
        else (up, .inl (.failed .upstreamGone))

def pump (cap : Nat) (up : Upload) (items : List Item) (grants : List Grant) : Upload × Outcome :=
  match items with
  | [] => (up, .waiting)
  | .failed :: _ => ({ up with reset := some .internalError }, .failed .bodyReadError)
  | .finished taken :: _ =>
      if taken then ({ up with marked := true }, .done) else (up, .failed .upstreamGone)
  | .chunk bytes :: items =>
      if saturatingAdd up.total bytes.length > cap then
        ({ up with reset := some .cancel }, .failed .capExceeded)
      else
        match sendChunk up bytes grants with
        | (up, .inl outcome) => (up, outcome)
        | (up, .inr grants) => pump cap up items grants

def readable : List Item → Bytes
  | .chunk bytes :: items => bytes ++ readable items
  | _ => []

/-- The body that is read to its end without an error, and whether the end mark is taken. -/
def wholeBody : List Item → Option (Bytes × Bool)
  | .chunk bytes :: items => (wholeBody items).map fun whole => (bytes ++ whole.1, whole.2)
  | .finished taken :: _ => some ([], taken)
  | _ => none

/-! ### One chunk -/

def Tallied (up : Upload) : Prop := up.total = min up.sent.length usizeMax

theorem saturatingAdd_min (count more : Nat) :
    saturatingAdd (min count usizeMax) more = min (count + more) usizeMax := by
  rw [saturatingAdd]
  omega

structure Sent (up : Upload) (chunk : Bytes) (result : Upload × (Outcome ⊕ List Grant)) :
    Prop where
  tallied : Tallied result.1
  marked : result.1.marked = up.marked
  part : ∃ rest, up.sent ++ chunk = result.1.sent ++ rest ∧ (rest = [] ↔ result.2.isRight = true)

theorem sendChunk_sent {up : Upload} (tallied : Tallied up) (remaining : Bytes)
    (grants : List Grant) : Sent up remaining (sendChunk up remaining grants) := by
  induction grants generalizing up remaining with
  | nil =>
      rw [sendChunk]
      split_ifs with empty
      · exact ⟨tallied, rfl, [], by rw [empty], by simp⟩
      · exact ⟨tallied, rfl, remaining, rfl, by simp [empty]⟩
  | cons grant grants ih =>
      rw [sendChunk.eq_def]
      split_ifs with empty
      · exact ⟨tallied, rfl, [], by rw [empty], by simp⟩
      have stopped (fail : PumpFail) : Sent up remaining (up, .inl (.failed fail)) :=
        ⟨tallied, rfl, remaining, rfl, by simp [empty]⟩
      cases grant with
      | gone => exact stopped _
      | capacity granted taken =>
          cases taken with
          | false => exact stopped _
          | true =>
              have counted : Tallied
                  { up with
                    total := saturatingAdd up.total (min granted remaining.length)
                    sent := up.sent ++ remaining.take (min granted remaining.length) } := by
                rw [Tallied] at tallied ⊢
                rw [tallied, saturatingAdd_min, List.length_append, List.length_take,
                  min_eq_left (min_le_right ..)]
              have later := ih counted (remaining.drop (min granted remaining.length))
              obtain ⟨rest, split, whole⟩ := later.part
              refine ⟨later.tallied, later.marked, rest, ?_, whole⟩
              rwa [List.append_assoc, List.take_append_drop] at split

/-! ### The body -/

structure Pumped (cap : Nat) (up : Upload) (items : List Item) (after : Upload) : Prop where
  front : after.sent <+: up.sent ++ readable items
  within : after.sent.length ≤ cap
  marked : after.marked = true ↔ ∃ body, wholeBody items = some (body, true) ∧
    (up.sent ++ body).length ≤ cap ∧ after.sent = up.sent ++ body

section

variable {cap : Nat} {up after : Upload} {bytes : Bytes} {items : List Item}

theorem pumped_short (unmarked : after.marked = false) (within : after.sent.length ≤ cap)
    (front : after.sent <+: up.sent ++ readable items)
    (short : ∀ body, wholeBody items = some (body, true) → (up.sent ++ body).length ≤ cap →
      after.sent ≠ up.sent ++ body) : Pumped cap up items after := by
  refine ⟨front, within, ?_⟩
  rw [unmarked]
  constructor
  · exact nofun
  · rintro ⟨body, whole, fits, same⟩
    exact absurd same (short body whole fits)

theorem wholeBody_chunk {body : Bytes} {taken : Bool} :
    wholeBody (.chunk bytes :: items) = some (body, taken) ↔
      ∃ rest, wholeBody items = some (rest, taken) ∧ bytes ++ rest = body := by
  rw [wholeBody, Option.map_eq_some_iff]
  constructor
  · rintro ⟨⟨rest, flag⟩, whole, same⟩
    cases same
    exact ⟨rest, whole, rfl⟩
  · rintro ⟨rest, whole, rfl⟩
    exact ⟨(rest, taken), whole, rfl⟩

theorem Pumped.chunk {middle : Upload} (joined : middle.sent = up.sent ++ bytes)
    (pumped : Pumped cap middle items after) : Pumped cap up (.chunk bytes :: items) after := by
  obtain ⟨front, within, marked⟩ := pumped
  rw [joined] at front marked
  refine ⟨by rwa [readable, ← List.append_assoc], within, marked.trans ?_⟩
  simp only [wholeBody_chunk]
  constructor
  · rintro ⟨rest, whole, fits, same⟩
    exact ⟨_, ⟨rest, whole, rfl⟩, by rwa [← List.append_assoc], by rwa [← List.append_assoc]⟩
  · rintro ⟨_, ⟨rest, whole, rfl⟩, fits, same⟩
    rw [← List.append_assoc] at fits same
    exact ⟨rest, whole, fits, same⟩

end

theorem pump_pumped {cap : Nat} {up : Upload} {items : List Item}
    (countable : cap < usizeMax ∨ (up.sent ++ readable items).length ≤ usizeMax)
    (tallied : Tallied up) (unmarked : up.marked = false) (within : up.sent.length ≤ cap)
    (grants : List Grant) : Pumped cap up items (pump cap up items grants).1 := by
  induction items generalizing up grants with
  | nil => exact pumped_short unmarked within (List.prefix_append ..) nofun
  | cons item items ih =>
      cases item with
      | failed => exact pumped_short unmarked within (List.prefix_append ..) nofun
      | finished taken =>
          cases taken with
          | false => exact pumped_short unmarked within (List.prefix_append ..) nofun
          | true =>
              refine ⟨List.prefix_append .., within, fun _ => ⟨[], rfl, ?_, ?_⟩, fun _ => rfl⟩
              · rwa [List.append_nil]
              · exact (List.append_nil _).symm
      | chunk bytes =>
          rw [pump, tallied, saturatingAdd_min]
          split_ifs with full
          · refine pumped_short unmarked within (List.prefix_append ..) fun body whole fits => ?_
            obtain ⟨rest, -, rfl⟩ := wholeBody_chunk.mp whole
            simp only [List.length_append] at fits
            omega
          · have sent := sendChunk_sent tallied bytes grants
            generalize sendChunk up bytes grants = result at sent
            obtain ⟨middle, next⟩ := result
            obtain ⟨rest, split, whole⟩ := sent.part
            have lengths := congrArg List.length split
            simp only [List.length_append] at lengths
            simp only [readable, List.length_append] at countable
            have fits : middle.sent.length ≤ cap := by omega
            cases next with
            | inl outcome =>
                have unsent : rest ≠ [] := fun none => absurd (whole.mp none) Bool.false_ne_true
                refine pumped_short (sent.marked.trans unmarked) fits ?_ ?_
                · rw [readable, ← List.append_assoc, split, List.append_assoc]
                  exact List.prefix_append ..
                · intro body found _ same
                  obtain ⟨more, -, rfl⟩ := wholeBody_chunk.mp found
                  have sizes := congrArg List.length same
                  have positive := List.length_pos_of_ne_nil unsent
                  simp only [List.length_append] at sizes
                  omega
            | inr grants =>
                rw [whole.mpr rfl, List.append_nil] at split
                have countable : cap < usizeMax ∨
                    (middle.sent ++ readable items).length ≤ usizeMax := by
                  rw [← split, List.length_append, List.length_append]
                  omega
                exact (ih countable sent.tallied (sent.marked.trans unmarked) fits grants).chunk
                  split.symm

/-- What is sent is a front part of the body within the cap, and the end is marked exactly if the
whole body was read without an error, fits and was sent, and the stream takes the mark. The counter
cannot tell a body beyond `usize::MAX` from one at a cap of `usize::MAX`. -/
theorem pump_sends_body {cap : Nat} {items : List Item}
    (countable : cap < usizeMax ∨ (readable items).length ≤ usizeMax) (grants : List Grant) :
    let up := (pump cap .start items grants).1
    up.sent <+: readable items ∧ up.sent.length ≤ cap ∧
      (up.marked = true ↔
        ∃ body, wholeBody items = some (body, true) ∧ body.length ≤ cap ∧ up.sent = body) := by
  have pumped := pump_pumped countable (rfl : Tallied .start) rfl (Nat.zero_le cap) grants
  exact ⟨pumped.front, pumped.within, pumped.marked⟩

theorem pump_sends_small_body :
    (4 : Nat) < usizeMax ∧
      (pump 4 .start [.chunk [1, 2, 3], .chunk [4], .finished true]
        [.capacity 2 true, .capacity 0 true, .capacity 9 true, .capacity 1 true]).1.marked = true :=
  ⟨by decide, ((pump_sends_body (.inl (by decide)) _).2.2.mpr ⟨[1, 2, 3, 4], by decide⟩)⟩

/-- The whole body is read and sent, and the stream refuses its end mark. -/
theorem refused_mark_unmarked :
    let items : List Item := [.chunk [1, 2, 3], .finished false]
    let up := (pump 4 .start items [.capacity 3 true]).1
    ¬ (up.marked = true ↔ ∃ body taken, wholeBody items = some (body, taken) ∧
      body.length ≤ 4 ∧ up.sent = body) := by
  intro items up marks
  exact absurd (marks.mpr ⟨[1, 2, 3], false, by decide⟩) (by decide)

end Strata.Dmz.RequestPump
