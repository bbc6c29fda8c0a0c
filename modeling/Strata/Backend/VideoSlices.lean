import Mathlib.Tactic
import Strata.Actor.Runs

/-! Video under backpressure. The frames of a slice that is no keyframe are each tried against
the operator's queue; a slice is whole for the operator only if the queue treats all of them
alike. -/

namespace Strata.Backend.SessionEngine

open Actor
open Engine (TargetEvent)
open Transport.GuacWire (GuacWireEncoder)

theorem encode_isSome (base64 : Base64.Codec) (encoder : GuacWireEncoder) (event : TargetEvent) :
    (encoder.encode base64 event).isSome = true := by
  cases event with
  | videoSlice codec keyframe x y width height timestamp data => cases codec <;> rfl
  | _ => rfl

def wireEncoder (base64 : Base64.Codec) : FrameEncoder GuacWireEncoder where
  encode encoder event := (encoder.encode base64 event).get (encode_isSome base64 encoder event)
  sync := GuacWireEncoder.sync

end Strata.Backend.SessionEngine

namespace Strata.Backend.VideoSlices

open Utf8 (Text Bytes)
open Strata.Action
open Actor
open Engine (TargetEvent)
open Machine (run Meets run_concat meets_concat)
open Transport.GuacWire (ClientFrame GuacWireEncoder)
open Protocol.Instruction (ServerInstruction)

variable {τ σ : Type}

def reached (trace : List Effect) : List ClientFrame :=
  trace.filterMap fun
    | .client frame => some frame
    | _ => none

theorem reached_append (first second : List Effect) :
    reached (first ++ second) = reached first ++ reached second := List.filterMap_append

def sliceOf (config : SessionConfig τ σ) (session : Session τ σ) (woken : Env × Wake) :
    Option TargetEvent :=
  match session.ended, woken.2, (config.engine.nextEvent session.actor.engine).1 with
  | none, .engineEvent, .ok (some event) => if droppable event then some event else none
  | _, _, _ => none

def sliceFrames (config : SessionConfig τ σ) (session : Session τ σ) (event : TargetEvent) :
    List ClientFrame :=
  (config.encoder.encode session.actor.encoder event).2

def encoded (config : SessionConfig τ σ) (session : Session τ σ) (event : TargetEvent) :
    SessionActor τ σ :=
  { session.actor with
    engine := (config.engine.nextEvent session.actor.engine).2
    encoder := (config.encoder.encode session.actor.encoder event).1 }

def sliceEffects (config : SessionConfig τ σ) (session : Session τ σ) (env : Env)
    (event : TargetEvent) : List Effect :=
  (forEach (sliceFrames config session event)
    (fun frame => emit config env frame (droppable event) (isGraphicalOutput event))
    (encoded config session event)).trace

/-- All frames of the slice the wake-up brings reach the operator, or none of them. -/
def Whole (config : SessionConfig τ σ) (session : Session τ σ) (woken : Env × Wake) : Prop :=
  ∀ event ∈ sliceOf config session woken,
    let sent := sliceEffects config session woken.1 event
    (∃ rest, (sessionStep config session woken).2 = .polled :: (sent ++ rest)) ∧
      (reached sent = sliceFrames config session event ∨ reached sent = [])

def written (config : SessionConfig τ σ) (env : Env) (seq : Nat) : Prop :=
  config.recording.excludeOutput = true ∨ env.record seq = .ok ()

/-- While the frames of the slice are tried, the queue has room for each of them and the
recording takes each; or the recording stops before the first one there is room for. -/
def Takes (config : SessionConfig τ σ) (session : Session τ σ) (woken : Env × Wake) : Prop :=
  ∀ event ∈ sliceOf config session woken,
    let start := session.actor.seq
    let stop := start + (sliceFrames config session event).length
    (∀ seq, start ≤ seq → seq < stop →
        written config woken.1 seq ∧ woken.1.clientReady seq = true) ∨
      ∀ seq, start ≤ seq → seq < stop → woken.1.clientReady seq = true →
        ∃ earlier, start ≤ earlier ∧ earlier ≤ seq ∧ ¬written config woken.1 earlier

/-! ### One slice -/

instance decidableWritten (config : SessionConfig τ σ) (env : Env) (seq : Nat) :
    Decidable (written config env seq) := inferInstanceAs (Decidable (_ ∨ _))

def gets (config : SessionConfig τ σ) (env : Env) : Nat → List ClientFrame → List ClientFrame
  | _, [] => []
  | seq, frame :: frames =>
      if written config env seq then
        if env.clientReady seq then frame :: gets config env (seq + 1) frames
        else gets config env (seq + 1) frames
      else []

theorem graphical_of_droppable {event : TargetEvent} (may : droppable event = true) :
    isGraphicalOutput event = true := by
  cases event with
  | videoSlice codec keyframe x y width height timestamp data => rfl
  | _ => exact absurd may Bool.false_ne_true

section Sending

variable (config : SessionConfig τ σ) (env : Env)

theorem emit_droppable (frame : ClientFrame) (actor : SessionActor τ σ) :
    let out := emit config env frame true true actor
    out.state.seq = actor.seq + 1 ∧
      if written config env actor.seq then
        out.result = .ok () ∧
          reached out.trace = if env.clientReady actor.seq then [frame] else []
      else (∃ err, out.result = .error err) ∧ reached out.trace = [] := by
  cases excluded : config.recording.excludeOutput <;>
  cases recorded : env.record actor.seq <;>
  cases ready : env.clientReady actor.seq <;>
    simp [emit, recordFrame, sendFrame, bind, andThen, current, update, effect, fallible, done,
      fail, reached, written, excluded, recorded, ready]

theorem reached_forEach (frames : List ClientFrame) (actor : SessionActor τ σ) :
    reached (forEach frames (fun frame => emit config env frame true true) actor).trace =
      gets config env actor.seq frames := by
  induction frames generalizing actor with
  | nil => rfl
  | cons frame frames ih =>
      have ⟨seq, sent⟩ := emit_droppable config env frame actor
      simp only [forEach, andThen, gets]
      by_cases kept : written config env actor.seq
      · rw [if_pos kept] at sent ⊢
        rw [sent.1]
        dsimp only
        rw [reached_append, sent.2, ih, seq]
        split <;> rfl
      · rw [if_neg kept] at sent ⊢
        obtain ⟨⟨err, failed⟩, silent⟩ := sent
        rw [failed]
        exact silent

theorem gets_length_le (seq : Nat) (frames : List ClientFrame) :
    (gets config env seq frames).length ≤ frames.length := by
  induction frames generalizing seq with
  | nil => exact Nat.le_refl 0
  | cons frame frames ih =>
      rw [gets]
      split
      · split
        · exact Nat.succ_le_succ (ih (seq + 1))
        · exact Nat.le_succ_of_le (ih (seq + 1))
      · exact Nat.zero_le _

theorem forall_numbers {good : Nat → Prop} (start length : Nat) :
    (∀ seq, start ≤ seq → seq < start + (length + 1) → good seq) ↔
      good start ∧ ∀ seq, start + 1 ≤ seq → seq < start + 1 + length → good seq := by
  constructor
  · intro all
    exact ⟨all start (Nat.le_refl _) (by omega), fun seq low high => all seq (by omega) (by omega)⟩
  · rintro ⟨first, later⟩ seq low high
    by_cases same : seq = start
    · rw [same]
      exact first
    · exact later seq (by omega) (by omega)

theorem gets_all (seq : Nat) (frames : List ClientFrame) :
    gets config env seq frames = frames ↔
      ∀ number, seq ≤ number → number < seq + frames.length →
        written config env number ∧ env.clientReady number = true := by
  induction frames generalizing seq with
  | nil =>
      refine ⟨fun _ number low high => ?_, fun _ => rfl⟩
      exact absurd high (Nat.not_lt.mpr low)
  | cons frame frames ih =>
      rw [List.length_cons, forall_numbers, ← ih (seq + 1), gets]
      by_cases kept : written config env seq
      · rw [if_pos kept]
        cases ready : env.clientReady seq with
        | true => simp [kept]
        | false =>
            simp only [Bool.false_eq_true, if_false, and_false, false_and, iff_false]
            intro same
            have short := gets_length_le config env (seq + 1) frames
            rw [same, List.length_cons] at short
            omega
      · simp [kept]

theorem gets_none (seq : Nat) (frames : List ClientFrame) :
    gets config env seq frames = [] ↔
      ∀ number, seq ≤ number → number < seq + frames.length → env.clientReady number = true →
        ∃ earlier, seq ≤ earlier ∧ earlier ≤ number ∧ ¬written config env earlier := by
  induction frames generalizing seq with
  | nil =>
      refine ⟨fun _ number low high => ?_, fun _ => rfl⟩
      exact absurd high (Nat.not_lt.mpr low)
  | cons frame frames ih =>
      rw [gets]
      by_cases kept : written config env seq
      · rw [if_pos kept, List.length_cons, forall_numbers]
        -- the first number is written, so an earlier failure is one of the later numbers
        have later : ∀ number, (∃ earlier, seq ≤ earlier ∧ earlier ≤ number ∧
            ¬written config env earlier) ↔
            ∃ earlier, seq + 1 ≤ earlier ∧ earlier ≤ number ∧ ¬written config env earlier := by
          intro number
          constructor
          · rintro ⟨earlier, low, high, failed⟩
            refine ⟨earlier, Nat.lt_of_le_of_ne low ?_, high, failed⟩
            rintro rfl
            exact failed kept
          · rintro ⟨earlier, low, high, failed⟩
            exact ⟨earlier, Nat.le_of_succ_le low, high, failed⟩
        simp only [later, ← ih (seq + 1)]
        cases ready : env.clientReady seq with
        | true =>
            simp only [if_true, forall_const, reduceCtorEq, false_iff, not_and]
            rintro ⟨earlier, low, high, _⟩
            omega
        | false => simp
      · rw [if_neg kept]
        simp only [true_iff]
        intro number low _ _
        exact ⟨seq, Nat.le_refl _, low, kept⟩

end Sending

/-! ### Whole runs -/

section Runs

variable (config : SessionConfig τ σ)

theorem sliceOf_spec {session : Session τ σ} {woken : Env × Wake} {event : TargetEvent}
    (slice : sliceOf config session woken = some event) :
    session.ended = none ∧ woken.2 = .engineEvent ∧
      (config.engine.nextEvent session.actor.engine).1 = .ok (some event) ∧
      droppable event = true := by
  unfold sliceOf at slice
  split at slice
  · next running wake polled =>
      split at slice
      · next may =>
          obtain rfl := Option.some.inj slice
          exact ⟨running, wake, polled, may⟩
      · cases slice
  · cases slice

theorem showEvent_trace (env : Env) (event : TargetEvent) (actor : SessionActor τ σ) :
    ∃ rest, (showEvent config env event actor).trace =
      (forEach (config.encoder.encode actor.encoder event).2
        (fun frame => emit config env frame (droppable event) (isGraphicalOutput event))
        { actor with encoder := (config.encoder.encode actor.encoder event).1 }).trace ++ rest :=
  trace_bind (forEach (config.encoder.encode actor.encoder event).2
      fun frame => emit config env frame (droppable event) (isGraphicalOutput event))
    (fun _ => emitSync config env) _

theorem freeRefused_of_droppable {event : TargetEvent} (may : droppable event = true)
    (streams : ClientStreams) : streams.freeRefused event = streams := by
  cases event with
  | videoSlice codec keyframe x y width height timestamp data => rfl
  | _ => exact absurd may Bool.false_ne_true

theorem sessionStep_slice {session : Session τ σ} {woken : Env × Wake} {event : TargetEvent}
    (slice : sliceOf config session woken = some event) :
    ∃ rest, (sessionStep config session woken).2 =
      .polled :: (sliceEffects config session woken.1 event ++ rest) := by
  obtain ⟨running, wake, polled, may⟩ := sliceOf_spec config slice
  obtain ⟨actor, ended⟩ := session
  obtain ⟨env, wake⟩ := woken
  dsimp only at running wake polled
  subst running wake
  have turned : ∃ rest, (turn config env .engineEvent actor).trace =
      .polled :: (sliceEffects config ⟨actor, none⟩ env event ++ rest) := by
    obtain ⟨rest, shown⟩ := showEvent_trace config env event
      { actor with engine := (config.engine.nextEvent actor.engine).2 }
    have handled : (onTargetEvent config env event
        { actor with engine := (config.engine.nextEvent actor.engine).2 }).trace =
        sliceEffects config ⟨actor, none⟩ env event ++ rest := by
      refine Eq.trans ?_ shown
      change (showEvent config env event { actor with
        engine := (config.engine.nextEvent actor.engine).2
        streams := actor.streams.freeRefused event }).trace = _
      rw [freeRefused_of_droppable may]
    have turns : (turn config env .engineEvent actor).trace =
        .polled :: (onEngineEvent config env (.ok (some event))
          { actor with engine := (config.engine.nextEvent actor.engine).2 }).trace := by
      rw [← polled]
      rfl
    rw [turns, onEngineEvent, resume, handled, List.append_assoc]
    exact ⟨_, rfl⟩
  obtain ⟨rest, turned⟩ := turned
  cases answered : answer (turn config env .engineEvent) actor with
  | none =>
      simp only [sessionStep, answered]
      exact ⟨rest, turned⟩
  | some reason =>
      simp only [sessionStep, answered, turned, List.cons_append, List.append_assoc]
      exact ⟨_, rfl⟩

theorem whole_iff_takes (session : Session τ σ) (woken : Env × Wake) :
    Whole config session woken ↔ Takes config session woken := by
  refine forall₂_congr fun event slice => ?_
  obtain ⟨_, _, _, may⟩ := sliceOf_spec config slice
  have sent : reached (sliceEffects config session woken.1 event) =
      gets config woken.1 session.actor.seq (sliceFrames config session event) := by
    rw [sliceEffects, may, graphical_of_droppable may]
    exact reached_forEach config woken.1 _ _
  have shown := sessionStep_slice config slice
  simp only [shown, true_and, sent]
  rw [gets_all, gets_none]

/-- Every non-keyframe slice of a run reaches the operator whole or not at all exactly where the
queue takes all of the frames it is offered for a slice, or none. -/
theorem slices_whole_iff (start : Session τ σ) (wakes : List (Env × Wake)) :
    Meets (sessionStep config) (Whole config) start wakes ↔
      Meets (sessionStep config) (Takes config) start wakes := by
  have same : Whole config = Takes config := by
    funext session woken
    exact propext (whole_iff_takes config session woken)
  rw [same]

end Runs

def clientQueueDepth : Nat := 256

/-- The operator's writer has stalled: the queue takes the first frames and no more. -/
def stalled : Env := { calm with clientReady := fun seq => seq < clientQueueDepth }

def smallSlices : SessionConfig Unit GuacWireEncoder where
  engine := ⟨fun _ _ => (.ok (), ()),
    fun _ => (.ok (some (.videoSlice .h264 false 0 0 16 16 0 [1, 2, 3])), ())⟩
  encoder := SessionEngine.wireEncoder Base64.standard
  recording := ⟨false, false⟩
  moderated := false
  credential := false
  base64 := Base64.standard

theorem syncTicks_run (ticks : Nat) :
    (run (sessionStep smallSlices) (spawn () .new) (List.replicate ticks (stalled, .syncTick))).1 =
      ⟨⟨(), .new, ticks, 0, .empty⟩, none⟩ := by
  induction ticks with
  | zero => rfl
  | succ ticks ih =>
      rw [List.replicate_succ', run_concat, ih]
      rfl

/-- A stalled operator with room for one more frame: of the next slice the opening gets through,
its data and its end do not. -/
theorem slice_opened_and_never_ended :
    let wakes := List.replicate 255 (stalled, Wake.syncTick)
    let session := (run (sessionStep smallSlices) (spawn () .new) wakes).1
    let event := TargetEvent.videoSlice .h264 false 0 0 16 16 0 [1, 2, 3]
    sliceOf smallSlices session (stalled, .engineEvent) = some event ∧
      sliceFrames smallSlices session event =
        [.text (ServerInstruction.h264 1 0 false 0 0 16 16).toBytes,
          .text (ServerInstruction.blob 1 "AQID".toList).toBytes,
          .text (ServerInstruction.endStream 1).toBytes] ∧
      reached (sliceEffects smallSlices session stalled event) =
        [.text (ServerInstruction.h264 1 0 false 0 0 16 16).toBytes] ∧
      ¬Meets (sessionStep smallSlices) (Whole smallSlices) (spawn () .new)
        (wakes ++ [(stalled, .engineEvent)]) := by
  intro wakes session event
  have full : session = ⟨⟨(), .new, 255, 0, .empty⟩, none⟩ := syncTicks_run 255
  have frames : sliceFrames smallSlices session event =
      [.text (ServerInstruction.h264 1 0 false 0 0 16 16).toBytes,
        .text (ServerInstruction.blob 1 "AQID".toList).toBytes,
        .text (ServerInstruction.endStream 1).toBytes] := by
    rw [full]
    decide
  have sent : reached (sliceEffects smallSlices session stalled event) =
      [.text (ServerInstruction.h264 1 0 false 0 0 16 16).toBytes] := by
    rw [full]
    decide
  have slice : sliceOf smallSlices session (stalled, .engineEvent) = some event := by
    rw [full]
    rfl
  refine ⟨slice, frames, sent, ?_⟩
  rw [meets_concat]
  rintro ⟨_, whole⟩
  obtain ⟨_, all | none⟩ := whole event slice
  · cases (sent.symm.trans all).trans frames
  · cases sent.symm.trans none

end Strata.Backend.VideoSlices
