import Mathlib.Tactic
import Strata.Lib.Machine
import Strata.Transport.EncoderStreams

/-! Whether an allocated index is in use. A payload ends its stream within the call that
opens it, but the audio stream is never ended: once the counter has gone round, it comes
back to the audio's index. -/

namespace Strata.Transport.EncoderStreams

open Utf8 (Text Bytes)
open Engine
open Protocol.Instruction (ServerInstruction)
open GuacWire

def settle (opened : List Int) : ServerInstruction → List Int
  | .img stream .. | .clipboard stream _ | .audio stream _ | .body _ stream _ _ | .h264 stream .. =>
      stream :: opened
  | .endStream stream => opened.filter (· != stream)
  | _ => opened

structure Wire where
  encoder : GuacWireEncoder
  opened : List Int

def Wire.new : Wire := ⟨.new, []⟩

def Allocates (encoder : GuacWireEncoder) (call : Call) : Prop :=
  (payloadOf call).isSome ∨ (audioOf call).isSome ∧ encoder.audioStream = none

/-- An index the call allocates is not 0 and not that of an open stream. -/
def Fresh (wire : Wire) (call : Call) : Prop :=
  Allocates wire.encoder call →
    wire.encoder.nextStream ≠ 0 ∧ wire.encoder.nextStream ∉ wire.opened

def sinceAudio : List Call → Nat
  | [] => 0
  | call :: calls =>
      if (audioOf call).isSome then 1 + (calls.filterMap payloadOf).length else sinceAudio calls

variable (base64 : Base64.Codec)

def Wire.step (wire : Wire) (call : Call) : Wire × List ServerInstruction :=
  let sent := script base64 wire.encoder call
  (⟨((wireStep base64 wire.encoder call).map Prod.fst).getD wire.encoder,
    sent.foldl settle wire.opened⟩, sent)

/-! ### Open streams -/

theorem mem_settle {instruction : ServerInstruction} {stream : Int} (opened : List Int)
    (off : streamOf instruction ≠ some stream) :
    stream ∈ settle opened instruction ↔ stream ∈ opened := by
  cases instruction with
  | img other | clipboard other | audio other | h264 other =>
      have different : stream ≠ other := fun same => off (congrArg some same.symm)
      simp [settle, different]
  | body object other =>
      have different : stream ≠ other := fun same => off (congrArg some same.symm)
      simp [settle, different]
  | endStream other =>
      have different : stream ≠ other := fun same => off (congrArg some same.symm)
      simp [settle, different]
  | _ => exact Iff.rfl

theorem mem_settle_end (opened : List Int) (own stream : Int) :
    stream ∈ settle opened (.endStream own) ↔ stream ≠ own ∧ stream ∈ opened := by
  simp [settle, and_comm]

theorem mem_foldl_settle {sent : List ServerInstruction} {stream : Int} (opened : List Int)
    (off : ∀ instruction ∈ sent, streamOf instruction ≠ some stream) :
    stream ∈ sent.foldl settle opened ↔ stream ∈ opened := by
  induction sent generalizing opened with
  | nil => exact Iff.rfl
  | cons instruction sent ih =>
      obtain ⟨first, rest⟩ := List.forall_mem_cons.mp off
      rw [List.foldl_cons, ih _ rest, mem_settle opened first]

theorem settle_blobs (opened : List Int) (stream : Int) (data : Bytes) :
    (blobs base64 stream data).foldl settle opened = opened := by
  rw [blobs, List.foldl_map]
  exact List.foldl_fixed _

theorem mem_settle_transcript {front back : List ServerInstruction}
    (plain : ∀ instruction ∈ front ++ back, streamOf instruction = none)
    (payload : Payload) (opened : List Int) (own stream : Int) :
    stream ∈ (front ++ payload.transcript base64 own ++ back).foldl settle opened ↔
      stream ≠ own ∧ stream ∈ opened := by
  have skips : ∀ part : List ServerInstruction, part ⊆ front ++ back →
      ∀ instruction ∈ part, streamOf instruction ≠ some stream := by
    intro part inside instruction member named
    rw [plain instruction (inside member)] at named
    cases named
  rw [List.foldl_append, List.foldl_append, mem_foldl_settle _ (skips back (by simp)),
    Payload.transcript, List.foldl_cons, List.foldl_append, settle_blobs, List.foldl_cons,
    List.foldl_nil, mem_settle_end]
  refine and_congr_right fun different => ?_
  have off : streamOf (payload.opening own) ≠ some stream := by
    rw [payload.opens]
    exact fun named => different (Option.some.inj named).symm
  rw [mem_settle _ off, mem_foldl_settle _ (skips front (by simp))]

/-! ### Counting allocations -/

theorem filterMap_concat_none {β : Type} {pick : Call → Option β} {call : Call}
    (calls : List Call) (skipped : pick call = none) :
    (calls ++ [call]).filterMap pick = calls.filterMap pick := by
  simp [List.filterMap_append, skipped]

theorem filterMap_concat_some {β : Type} {pick : Call → Option β} {call : Call} {value : β}
    (calls : List Call) (picked : pick call = some value) :
    (calls ++ [call]).filterMap pick = calls.filterMap pick ++ [value] := by
  simp [List.filterMap_append, picked]

variable {calls : List Call} {call : Call}

theorem sinceAudio_of_quiet (quiet : calls.filterMap audioOf = []) : sinceAudio calls = 0 := by
  induction calls with
  | nil => rfl
  | cons call calls ih =>
      cases packet : audioOf call with
      | none =>
          simp only [List.filterMap_cons, packet] at quiet
          simp [sinceAudio, packet, ih quiet]
      | some data => simp [packet] at quiet

theorem sinceAudio_concat (call : Call) (heard : calls.filterMap audioOf ≠ []) :
    sinceAudio (calls ++ [call]) = sinceAudio calls + ([call].filterMap payloadOf).length := by
  induction calls with
  | nil => exact absurd rfl heard
  | cons first calls ih =>
      cases packet : audioOf first with
      | none =>
          simp only [List.filterMap_cons, packet] at heard
          simp [sinceAudio, packet, ih heard]
      | some data =>
          simp [sinceAudio, packet, List.filterMap_append, Nat.add_assoc]

theorem sinceAudio_concat_quiet (call : Call) (quiet : calls.filterMap audioOf = []) :
    sinceAudio (calls ++ [call]) = if (audioOf call).isSome then 1 else 0 := by
  induction calls with
  | nil => simp [sinceAudio]
  | cons first calls ih =>
      cases packet : audioOf first with
      | none =>
          simp only [List.filterMap_cons, packet] at quiet
          simp [sinceAudio, packet, ih quiet]
      | some data => simp [packet] at quiet

theorem sinceAudio_bounds (heard : calls.filterMap audioOf ≠ []) :
    1 ≤ sinceAudio calls ∧ sinceAudio calls ≤ (calls.filterMap payloadOf).length + 1 := by
  induction calls with
  | nil => exact absurd rfl heard
  | cons first calls ih =>
      cases packet : audioOf first with
      | none =>
          simp only [List.filterMap_cons, packet] at heard
          have := ih heard
          simp only [sinceAudio, packet, List.filterMap_cons]
          cases payloadOf first <;> simp <;> omega
      | some data =>
          simp only [sinceAudio, packet, List.filterMap_cons]
          cases payloadOf first <;> simp <;> omega

theorem allocations_of_heard (heard : calls.filterMap audioOf ≠ []) :
    allocations calls = (calls.filterMap payloadOf).length + 1 := by
  rw [allocations, if_neg heard]

theorem allocations_of_quiet (quiet : calls.filterMap audioOf = []) :
    allocations calls = (calls.filterMap payloadOf).length := by
  rw [allocations, if_pos quiet, Nat.add_zero]

/-! ### Where the counter and the audio stand -/

def indexAt (count : Nat) : Int := (count % 0x7FFFFFFE : Nat) + 1

theorem allocateStream_next {encoder : GuacWireEncoder} {count : Nat}
    (next : encoder.nextStream = indexAt count) :
    encoder.allocateStream.2.nextStream = indexAt (count + 1) := by
  rw [GuacWireEncoder.allocateStream]
  dsimp only
  rw [next, indexAt, indexAt]
  split_ifs <;> omega

structure Placed (calls : List Call) (wire : Wire) : Prop where
  next : wire.encoder.nextStream = indexAt (allocations calls)
  audio : wire.encoder.audioStream =
    if calls.filterMap audioOf = [] then none
    else some (indexAt (allocations calls - sinceAudio calls))
  opened : ∀ stream, 1 ≤ stream →
    (stream ∈ wire.opened ↔ wire.encoder.audioStream = some stream)

theorem placed_new : Placed [] Wire.new where
  next := rfl
  audio := rfl
  opened := by
    intro stream _
    simp [Wire.new, GuacWireEncoder.new]

variable {wire : Wire}

theorem Placed.quiet (placed : Placed calls wire) (none : wire.encoder.audioStream = none) :
    calls.filterMap audioOf = [] := by
  by_contra heard
  rw [placed.audio, if_neg heard] at none
  cases none

theorem Placed.heard (placed : Placed calls wire) {stream : Int}
    (opened : wire.encoder.audioStream = some stream) : calls.filterMap audioOf ≠ [] := by
  intro quiet
  rw [placed.audio, if_pos quiet] at opened
  cases opened

theorem Placed.fresh_iff (placed : Placed calls wire) (few : sinceAudio calls ≤ 0x7FFFFFFE) :
    Fresh wire call ↔ sinceAudio (calls ++ [call]) ≤ 0x7FFFFFFE := by
  have positive : 1 ≤ wire.encoder.nextStream := by
    rw [placed.next, indexAt]
    omega
  have apart : wire.encoder.nextStream ≠ 0 := by omega
  rw [Fresh, placed.opened _ positive]
  by_cases quiet : calls.filterMap audioOf = []
  · have unheard : wire.encoder.audioStream = none := by rw [placed.audio, if_pos quiet]
    have small : sinceAudio (calls ++ [call]) ≤ 0x7FFFFFFE := by
      rw [sinceAudio_concat_quiet call quiet]
      split <;> omega
    simp [unheard, small, apart]
  · have bounds := sinceAudio_bounds quiet
    have counted := allocations_of_heard quiet
    have heard : wire.encoder.audioStream =
        some (indexAt (allocations calls - sinceAudio calls)) := by
      rw [placed.audio, if_neg quiet]
    rw [sinceAudio_concat call quiet, Allocates, heard]
    cases carries : payloadOf call with
    | none => simp [carries, few]
    | some payload =>
        have round : indexAt (allocations calls - sinceAudio calls) =
            indexAt (allocations calls) ↔ sinceAudio calls = 0x7FFFFFFE := by
          rw [indexAt, indexAt]
          omega
        simp only [Option.isSome_some, true_or, true_implies, Option.some.injEq, placed.next, round,
          List.filterMap_cons, carries, List.filterMap_nil, List.length_singleton]
        rw [placed.next] at apart
        simp only [ne_eq, apart, not_false_eq_true, true_and]
        omega

variable {base64}

theorem Placed.step (placed : Placed calls wire)
    (reserved : FileReserved call) (fresh : Fresh wire call) :
    Placed (calls ++ [call]) (wire.step base64 call).1 := by
  obtain ⟨scripts, after, stepped, -, framed⟩ := wireStep_emits base64 wire.encoder call
  have emits := framed reserved
  have encoder : (wire.step base64 call).1.encoder = after := by
    simp [Wire.step, stepped]
  have opened : (wire.step base64 call).1.opened =
      (script base64 wire.encoder call).foldl settle wire.opened := rfl
  generalize script base64 wire.encoder call = sent at emits opened
  cases emits with
  | quiet noPayload noAudio reserved silent next audio =>
      have payloads := filterMap_concat_none calls noPayload
      have packets := filterMap_concat_none calls noAudio
      have counted : allocations (calls ++ [call]) = allocations calls := by
        rw [allocations, allocations, payloads, packets]
      refine ⟨by rw [encoder, next, placed.next, counted], ?_, ?_⟩
      · rw [encoder, audio, placed.audio, packets, counted]
        by_cases quiet : calls.filterMap audioOf = []
        · rw [if_pos quiet, if_pos quiet]
        · rw [if_neg quiet, if_neg quiet, sinceAudio_concat call quiet]
          simp [noPayload]
      · intro stream positive
        rw [encoder, audio, opened, mem_foldl_settle, placed.opened stream positive]
        intro instruction member named
        have low := reserved instruction member stream named
        omega
  | payload payload front back carries noAudio plain shape state =>
      have payloads := filterMap_concat_some calls carries
      have packets := filterMap_concat_none calls noAudio
      have counted : allocations (calls ++ [call]) = allocations calls + 1 := by
        rw [allocations, allocations, payloads, packets, List.length_append, List.length_singleton]
        omega
      have kept : after.audioStream = wire.encoder.audioStream := by rw [state]; rfl
      refine ⟨by rw [encoder, state, counted]; exact allocateStream_next placed.next, ?_, ?_⟩
      · rw [encoder, kept, placed.audio, packets, counted]
        by_cases quiet : calls.filterMap audioOf = []
        · rw [if_pos quiet, if_pos quiet]
        · have one : ([call].filterMap payloadOf).length = 1 := by simp [carries]
          rw [if_neg quiet, if_neg quiet, sinceAudio_concat call quiet, one, Nat.add_sub_add_right]
      · intro stream positive
        have unused := (fresh (.inl (by simp [carries]))).2
        rw [encoder, kept, opened, shape, mem_settle_transcript base64 plain,
          placed.opened stream positive, and_iff_right_iff_imp]
        rintro audible rfl
        exact unused ((placed.opened _ positive).mpr audible)
  | announce data packet noPayload first shape state =>
      have quiet := placed.quiet first
      have payloads := filterMap_concat_none calls noPayload
      have heard : (calls ++ [call]).filterMap audioOf ≠ [] := by
        simp [filterMap_concat_some calls packet]
      have counted : allocations (calls ++ [call]) = allocations calls + 1 := by
        rw [allocations_of_heard heard, allocations_of_quiet quiet, payloads]
      have since : sinceAudio (calls ++ [call]) = 1 := by
        rw [sinceAudio_concat_quiet call quiet, packet]
        rfl
      have index : after.audioStream = some wire.encoder.nextStream := by rw [state]
      refine ⟨?_, ?_, ?_⟩
      · rw [encoder, state, counted]
        exact allocateStream_next placed.next
      · rw [encoder, index, if_neg heard, counted, since, Nat.add_sub_cancel, placed.next]
      · intro stream positive
        rw [encoder, index, opened, shape, List.foldl_cons, settle_blobs, settle, List.mem_cons,
          placed.opened stream positive, first]
        simp [eq_comm]
  | packet data stream packet noPayload heardOn shape state =>
      have heard := placed.heard heardOn
      have heardAfter : (calls ++ [call]).filterMap audioOf ≠ [] := by
        simp [filterMap_concat_some calls packet]
      have counted : allocations (calls ++ [call]) = allocations calls := by
        rw [allocations_of_heard heard, allocations_of_heard heardAfter,
          filterMap_concat_none calls noPayload]
      refine ⟨by rw [encoder, state, placed.next, counted], ?_, ?_⟩
      · rw [encoder, state, placed.audio, if_neg heard, if_neg heardAfter, counted,
          sinceAudio_concat call heard]
        simp [noPayload]
      · intro other positive
        rw [encoder, state, opened, shape, settle_blobs, placed.opened other positive]

theorem placed_run (calls : List Call) (reserved : FilesReserved calls)
    (fresh : Machine.Meets (Wire.step base64) Fresh .new calls) :
    Placed calls (Machine.run (Wire.step base64) .new calls).1 := by
  induction calls using List.reverseRecOn with
  | nil => exact placed_new
  | append_singleton calls call ih =>
      rw [Machine.meets_concat] at fresh
      have placed := ih (fun c member => reserved c (by simp [member])) fresh.1
      rw [Machine.run_concat]
      exact placed.step (reserved call (by simp)) fresh.2

theorem sinceAudio_le_concat (calls : List Call) (call : Call) :
    sinceAudio calls ≤ sinceAudio (calls ++ [call]) := by
  by_cases quiet : calls.filterMap audioOf = []
  · rw [sinceAudio_of_quiet quiet]
    exact Nat.zero_le _
  · rw [sinceAudio_concat call quiet]
    exact Nat.le_add_right _ _

theorem few_of_fresh (calls : List Call) (reserved : FilesReserved calls)
    (fresh : Machine.Meets (Wire.step base64) Fresh .new calls) :
    sinceAudio calls ≤ 0x7FFFFFFE := by
  induction calls using List.reverseRecOn with
  | nil => exact Nat.zero_le _
  | append_singleton calls call ih =>
      have front : FilesReserved calls := fun c member => reserved c (by simp [member])
      rw [Machine.meets_concat] at fresh
      exact ((placed_run calls front fresh.1).fresh_iff (ih front fresh.1)).mp fresh.2

theorem fresh_of_few (calls : List Call) (reserved : FilesReserved calls)
    (few : sinceAudio calls ≤ 0x7FFFFFFE) :
    Machine.Meets (Wire.step base64) Fresh .new calls := by
  induction calls using List.reverseRecOn with
  | nil => trivial
  | append_singleton calls call ih =>
      have front : FilesReserved calls := fun c member => reserved c (by simp [member])
      have fewer := (sinceAudio_le_concat calls call).trans few
      rw [Machine.meets_concat]
      exact ⟨ih front fewer, ((placed_run calls front (ih front fewer)).fresh_iff fewer).mpr few⟩

/-- Every index a run allocates is fresh just as long as the counter has not come back to
the audio stream's index. -/
theorem allocated_indices_fresh_iff (base64 : Base64.Codec) (calls : List Call)
    (reserved : FilesReserved calls) :
    Machine.Meets (Wire.step base64) Fresh .new calls ↔ sinceAudio calls ≤ 0x7FFFFFFE :=
  ⟨few_of_fresh calls reserved, fresh_of_few calls reserved⟩

theorem image_beside_audio_is_fresh :
    Machine.Meets (Wire.step Base64.standard) Fresh .new
      [.event (.audio [1, 2]), .event (.file (.body 0 (-1) [] [])),
        .event (.imageUpdate 0 0 [] [7])] :=
  (allocated_indices_fresh_iff _ _ (by simp [FilesReserved, FileReserved, fileStream])).mpr
    (by decide)

theorem sinceAudio_replicate (packet data : Bytes) (count : Nat) :
    sinceAudio (.event (.audio packet) :: List.replicate count (.event (.clipboard data))) =
      1 + count := by
  have carries : (payloadOf (.event (.clipboard data))).isSome := rfl
  obtain ⟨payload, picked⟩ := Option.isSome_iff_exists.mp carries
  have packets : (audioOf (.event (.audio packet))).isSome := rfl
  rw [sinceAudio, if_pos packets, List.filterMap_replicate_of_some picked, List.length_replicate]

/-- With the audio stream open, the 2147483646th index after it is its own again. -/
theorem counter_returns_to_audio :
    ¬ Machine.Meets (Wire.step Base64.standard) Fresh .new
      (.event (.audio [1, 2]) :: List.replicate 0x7FFFFFFE (.event (.clipboard [9]))) := by
  intro fresh
  have few := few_of_fresh _ ?_ fresh
  · rw [sinceAudio_replicate] at few
    omega
  · intro call member stream named
    rcases List.mem_cons.mp member with rfl | inside
    · cases named
    · rw [List.eq_of_mem_replicate inside] at named
      cases named

/-! ### Reading a run back -/

open Protocol.Guacamole StreamParser

def frameBytes : ClientFrame → Bytes
  | .text bytes | .binary bytes => bytes

/-- What a run sends, or nothing where an arm is reached that must not be. -/
def runBytes (base64 : Base64.Codec) : GuacWireEncoder → List Call → Option Bytes
  | _, [] => some []
  | encoder, call :: calls => do
      let (encoder, frames) ← wireStep base64 encoder call
      return frames.flatMap frameBytes ++ (← runBytes base64 encoder calls)

theorem textFrames_bytes (scripts : List (List ServerInstruction)) :
    (scripts.map textFrame).flatMap frameBytes =
      encodeAll (scripts.flatten.map ServerInstruction.toWire) := by
  induction scripts with
  | nil => rfl
  | cons sent scripts ih =>
      rw [List.map_cons, List.flatMap_cons, ih, List.flatten_cons, List.map_append,
        encodeAll_append]
      rfl

theorem runBytes_eq (base64 : Base64.Codec) (calls : List Call) (wire : Wire) :
    runBytes base64 wire.encoder calls = some (encodeAll
      ((Machine.run (Wire.step base64) wire calls).2.map ServerInstruction.toWire)) := by
  induction calls generalizing wire with
  | nil => rfl
  | cons call calls ih =>
      obtain ⟨scripts, after, stepped, whole, -⟩ := wireStep_emits base64 wire.encoder call
      have rest := ih (wire.step base64 call).1
      have moved : (wire.step base64 call).1.encoder = after := by simp [Wire.step, stepped]
      rw [moved] at rest
      simp only [runBytes, stepped, Option.bind_eq_bind, Option.bind_some, rest, textFrames_bytes,
        whole]
      rw [Machine.run, List.map_append, encodeAll_append]
      rfl

theorem drain_encodeAll (instructions : List GuacInstruction)
    (limits : ∀ instruction ∈ instructions, WithinLimits instruction) :
    drain tryParseInstruction (encodeAll instructions) = (instructions, none, []) := by
  induction instructions with
  | nil => rfl
  | cons instruction instructions ih =>
      obtain ⟨first, rest⟩ := List.forall_mem_cons.mp limits
      rw [encodeAll_cons, drain_some tryParse_step (tryParse_wire instruction first _),
        List.drop_left, ih rest]

/-- Every run succeeds, and what it sends, read in any pieces, is the instructions of its calls in
order and nothing else. -/
theorem run_reads_back (base64 : Base64.Codec) (calls : List Call)
    (limits : ∀ sent ∈ (Machine.run (Wire.step base64) .new calls).2, WithinLimits sent.toWire) :
    ∃ bytes, runBytes base64 .new calls = some bytes ∧
      ∀ ops, fed ops = bytes → observe tryParseInstruction ops [] =
        ((Machine.run (Wire.step base64) .new calls).2.map ServerInstruction.toWire, none, []) := by
  refine ⟨_, runBytes_eq base64 calls .new, fun ops pieces => ?_⟩
  rw [observe_eq_drain tryParse_step, List.nil_append, pieces]
  exact drain_encodeAll _ (List.forall_mem_map.mpr limits)

theorem paste_reads_back :
    ∃ bytes, runBytes Base64.standard .new [.event (.clipboard [104, 105])] = some bytes ∧
      ∀ ops, fed ops = bytes → (observe tryParseInstruction ops []).1.length = 3 := by
  obtain ⟨bytes, ran, reads⟩ := run_reads_back Base64.standard [.event (.clipboard [104, 105])]
    (List.forall_mem_cons.mpr ⟨⟨by decide, by decide⟩,
      List.forall_mem_cons.mpr ⟨⟨by decide, by decide⟩, List.forall_mem_singleton.mpr
        ⟨by decide, by decide⟩⟩⟩)
  exact ⟨bytes, ran, fun ops pieces => by rw [reads ops pieces]; decide⟩

end Strata.Transport.EncoderStreams
