import Mathlib.Tactic
import Strata.Protocol.GuacamoleStability
import Strata.Protocol.Instruction

/-! The buffered decoder between the socket and the session: bytes are appended
as they are read and complete instructions are pulled off the front. -/

namespace Strata.Transport.Decoder

open Utf8 (Text Bytes)
open StreamParser
open Protocol.Guacamole
open Protocol.Instruction

def defaultDecodeLimit : Nat := 16 * 1024 * 1024

structure GuacDecoder where
  buf : Bytes
  limit : Nat
  deriving DecidableEq, Repr

abbrev Answer := Except WireError (Option ClientInstruction)

namespace GuacDecoder

def new (limit : Nat) : GuacDecoder := ⟨[], limit⟩

def extend (decoder : GuacDecoder) (bytes : Bytes) : GuacDecoder :=
  { decoder with buf := decoder.buf ++ bytes }

def buffered (decoder : GuacDecoder) : Nat := decoder.buf.length

def nextInstruction (decoder : GuacDecoder) : Answer × GuacDecoder :=
  match tryParseInstruction decoder.buf with
  | .error err => (.error err, decoder)
  | .ok (some (raw, consumed)) =>
      match fromWire raw with
      | .error err => (.error err, decoder)
      | .ok decoded => (.ok (some decoded), { decoder with buf := decoder.buf.drop consumed })
  | .ok none =>
      if decoder.buf.length > decoder.limit then
        (.error (.bufferOverflow decoder.limit), decoder)
      else (.ok none, decoder)

def play : List (Op UInt8) → GuacDecoder → List Answer × GuacDecoder
  | [], decoder => ([], decoder)
  | .feed bytes :: calls, decoder => play calls (decoder.extend bytes)
  | .pull :: calls, decoder =>
      let answer := decoder.nextInstruction
      let tail := play calls answer.2
      (answer.1 :: tail.1, tail.2)

def drainFor : Nat → GuacDecoder → List ClientInstruction × Option WireError × GuacDecoder
  | 0, decoder => ([], none, decoder)
  | fuel + 1, decoder =>
      match decoder.nextInstruction with
      | (.error err, rest) => ([], some err, rest)
      | (.ok none, rest) => ([], none, rest)
      | (.ok (some instruction), rest) =>
          let tail := drainFor fuel rest
          (instruction :: tail.1, tail.2)

/-- The loop of `forward_instructions`: every complete instruction, up to the
first failure. -/
def drain (decoder : GuacDecoder) : List ClientInstruction × Option WireError × GuacDecoder :=
  drainFor (decoder.buffered + 1) decoder

def observe (calls : List (Op UInt8)) (decoder : GuacDecoder) :
    List ClientInstruction × Option WireError × Bytes :=
  let run := decoder.play calls
  let rest := run.2.drain
  (yielded run.1 ++ rest.1, (firstError run.1).or rest.2.1, rest.2.2.buf)

def WithinLimit : List (Op UInt8) → GuacDecoder → Prop
  | [], decoder => decoder.buffered ≤ decoder.limit
  | .feed bytes :: calls, decoder =>
      decoder.buffered ≤ decoder.limit ∧ WithinLimit calls (decoder.extend bytes)
  | .pull :: calls, decoder =>
      decoder.buffered ≤ decoder.limit ∧ WithinLimit calls decoder.nextInstruction.2

instance decidableWithinLimit :
    (calls : List (Op UInt8)) → (decoder : GuacDecoder) → Decidable (WithinLimit calls decoder)
  | [], decoder => inferInstanceAs (Decidable (decoder.buffered ≤ decoder.limit))
  | .feed bytes :: calls, decoder =>
      have := decidableWithinLimit calls (decoder.extend bytes)
      inferInstanceAs (Decidable (_ ∧ _))
  | .pull :: calls, decoder =>
      have := decidableWithinLimit calls decoder.nextInstruction.2
      inferInstanceAs (Decidable (_ ∧ _))

end GuacDecoder

def decodeStep : Step WireError UInt8 ClientInstruction :=
  refine tryParseInstruction (fun raw _ => fromWire raw)

theorem decodeStep_stable : StableStep decodeStep := tryParse_step.refine _

theorem next_eq_pull (decoder : GuacDecoder) (within : decoder.buffered ≤ decoder.limit) :
    decoder.nextInstruction =
      ((pull decodeStep decoder.buf).1,
        { decoder with buf := (pull decodeStep decoder.buf).2 }) := by
  unfold GuacDecoder.nextInstruction pull decodeStep refine
  cases parsed : tryParseInstruction decoder.buf with
  | error err => rfl
  | ok outcome =>
      cases outcome with
      | none =>
          have fits : ¬ decoder.buf.length > decoder.limit := Nat.not_lt.mpr within
          simp only [if_neg fits]
      | some pair =>
          cases typed : fromWire pair.1 with
          | error err => simp [typed, Except.map]
          | ok decoded => simp [typed, Except.map]

theorem next_eq_some {decoder rest : GuacDecoder} {instruction : ClientInstruction}
    (answered : decoder.nextInstruction = (.ok (some instruction), rest)) :
    ∃ raw consumed, tryParseInstruction decoder.buf = .ok (some (raw, consumed)) ∧
      fromWire raw = .ok instruction ∧
      rest = { decoder with buf := decoder.buf.drop consumed } := by
  unfold GuacDecoder.nextInstruction at answered
  split at answered
  · cases answered
  · next raw consumed parsed =>
      split at answered
      · cases answered
      · next decoded typed =>
          cases answered
          exact ⟨raw, consumed, parsed, typed, rfl⟩
  · split at answered <;> cases answered

theorem next_buffered_le (decoder : GuacDecoder) :
    decoder.nextInstruction.2.buffered ≤ decoder.buffered := by
  unfold GuacDecoder.nextInstruction
  split
  · exact le_rfl
  · split
    · exact le_rfl
    · simp only [GuacDecoder.buffered, List.length_drop]
      omega
  · split <;> exact le_rfl

theorem next_error_keeps (decoder : GuacDecoder) (err : WireError)
    (failed : decoder.nextInstruction.1 = .error err) : decoder.nextInstruction.2 = decoder := by
  unfold GuacDecoder.nextInstruction at *
  split
  · rfl
  · next parsed =>
      split
      · rfl
      · next typed => simp [parsed, typed] at failed
  · split <;> rfl

theorem drainFor_eq (fuel : Nat) (decoder : GuacDecoder)
    (within : decoder.buffered ≤ decoder.limit) :
    ((decoder.drainFor fuel).1, (decoder.drainFor fuel).2.1, (decoder.drainFor fuel).2.2.buf) =
      StreamParser.drainFor decodeStep fuel decoder.buf := by
  induction fuel generalizing decoder with
  | zero => rfl
  | succ fuel ih =>
      have next := next_eq_pull decoder within
      have smaller := next_buffered_le decoder
      simp only [GuacDecoder.drainFor, StreamParser.drainFor]
      rw [next] at smaller ⊢
      cases answer : pull decodeStep decoder.buf with
      | mk outcome rest =>
          cases outcome with
          | error err => rfl
          | ok value =>
              cases value with
              | none => rfl
              | some instruction =>
                  simp only [answer] at smaller
                  have tail := ih { decoder with buf := rest } (le_trans smaller within)
                  simp only [← tail]

theorem play_eq (calls : List (Op UInt8)) (decoder : GuacDecoder)
    (within : decoder.WithinLimit calls) :
    (decoder.play calls).1 = (StreamParser.play decodeStep calls decoder.buf).1 ∧
    (decoder.play calls).2.buf = (StreamParser.play decodeStep calls decoder.buf).2 ∧
    (decoder.play calls).2.buffered ≤ (decoder.play calls).2.limit := by
  induction calls generalizing decoder with
  | nil => exact ⟨rfl, rfl, within⟩
  | cons call calls ih =>
      cases call with
      | feed bytes => exact ih (decoder.extend bytes) within.2
      | pull =>
          obtain ⟨answers, bytes, bounded⟩ := ih decoder.nextInstruction.2 within.2
          have next := next_eq_pull decoder within.1
          simp only [GuacDecoder.play, StreamParser.play]
          refine ⟨?_, ?_, bounded⟩
          · rw [answers, next]
          · rw [bytes, next]

theorem observe_eq (calls : List (Op UInt8)) (decoder : GuacDecoder)
    (within : decoder.WithinLimit calls) :
    decoder.observe calls = StreamParser.drain decodeStep (decoder.buf ++ fed calls) := by
  obtain ⟨answers, bytes, bounded⟩ := play_eq calls decoder within
  have drained := drainFor_eq ((decoder.play calls).2.buffered + 1) _ bounded
  rw [← observe_eq_drain decodeStep_stable, StreamParser.observe, ← answers, ← bytes]
  simp only [GuacDecoder.observe, GuacDecoder.drain, StreamParser.drain]
  rw [GuacDecoder.buffered] at drained ⊢
  rw [← drained]

/-- However a client byte stream is cut into reads and however often the decoder
is asked in between, the caller sees the same instructions, the same first error
and the same bytes left; a failed call moves nothing. -/
theorem decoder_confluence (limit : Nat) (first second : List (Op UInt8))
    (same : fed first = fed second)
    (firstWithin : (GuacDecoder.new limit).WithinLimit first)
    (secondWithin : (GuacDecoder.new limit).WithinLimit second) :
    (GuacDecoder.new limit).observe first = (GuacDecoder.new limit).observe second ∧
    ∀ (decoder : GuacDecoder) (err : WireError), decoder.nextInstruction.1 = .error err →
      decoder.nextInstruction.2.buf = decoder.buf := by
  refine ⟨?_, ?_⟩
  · rw [observe_eq first _ firstWithin, observe_eq second _ secondWithin, same]
  · intro decoder err failed
    rw [next_error_keeps decoder err failed]

theorem decoder_confluence_split_mouse :
    (GuacDecoder.new 64).observe
        [.feed (Utf8.encode "5.mou".toList), .pull,
          .feed (Utf8.encode "se,1.4,1.2,1.1;3.k".toList), .pull, .pull] =
      (GuacDecoder.new 64).observe [.feed (Utf8.encode "5.mouse,1.4,1.2,1.1;3.k".toList)] ∧
    ((GuacDecoder.new 64).extend (Utf8.encode "3.key,1.x,1.1;".toList)).nextInstruction.2.buf =
      Utf8.encode "3.key,1.x,1.1;".toList := by
  have confluent := decoder_confluence 64
    [.feed (Utf8.encode "5.mou".toList), .pull,
      .feed (Utf8.encode "se,1.4,1.2,1.1;3.k".toList), .pull, .pull]
    [.feed (Utf8.encode "5.mouse,1.4,1.2,1.1;3.k".toList)]
    (by decide) (by decide) (by decide)
  exact ⟨confluent.1, confluent.2 _ (.badArgument "key".toList 0) (by decide)⟩

end Strata.Transport.Decoder
