import Mathlib.Tactic
import Strata.Actor.Session

/-! What a handler of the session actor can do, said once: to the client streams
only elementary changes, to the engine only the calls in its trace. Every handler
is shown to move this way; invariants of the actor are then about single changes. -/

namespace Strata.Actor

open Utf8 (Text Bytes)
open Engine
open Strata.Action
open Protocol.Instruction (ClientInstruction)
open Transport.GuacWire (ClientFrame)

variable {τ σ α : Type}

def counterOps (trace : List Effect) : List CounterOp :=
  trace.filterMap fun
    | .counter op => some op
    | _ => none

theorem counterOps_append (first second : List Effect) :
    counterOps (first ++ second) = counterOps first ++ counterOps second :=
  List.filterMap_append

def engineAfter (engine : ProtocolEngine τ) (start : τ) (trace : List Effect) : τ :=
  trace.foldl (fun state happened =>
    match happened with
    | .engine input => (engine.handleInput state input).2
    | .polled => (engine.nextEvent state).2
    | _ => state) start

theorem engineAfter_append (engine : ProtocolEngine τ) (start : τ) (first second : List Effect) :
    engineAfter engine start (first ++ second) =
      engineAfter engine (engineAfter engine start first) second :=
  List.foldl_append

/-- The client streams change step by step, in one of the `sequences`. -/
structure Moves (config : SessionConfig τ σ) (sequences : List Change → Prop)
    (fine : Effect → Prop) (before : SessionActor τ σ) (trace : List Effect)
    (after : SessionActor τ σ) : Prop where
  streams : ∃ changes, StreamChain config.base64 before.streams changes (counterOps trace)
    after.streams ∧ sequences changes
  engine : after.engine = engineAfter config.engine before.engine trace
  effects : ∀ happened ∈ trace, fine happened

def Each (allowed : Change → Prop) (changes : List Change) : Prop :=
  ∀ change ∈ changes, allowed change

theorem each_one {allowed : Change → Prop} {change : Change} (good : allowed change) :
    Each allowed [change] := by
  intro other member
  obtain rfl := List.mem_singleton.mp member
  exact good

variable {config : SessionConfig τ σ} {env : Env} {allowed : Change → Prop} {fine : Effect → Prop}
  {sequences : List Change → Prop}

theorem Moves.refl (before : SessionActor τ σ) (empty : sequences []) :
    Moves config sequences fine before [] before :=
  ⟨⟨[], .nil before.streams, empty⟩, rfl, by simp⟩

theorem Moves.trans {first second both : List Change → Prop} {s t u : SessionActor τ σ}
    {a b : List Effect} (joins : ∀ {l m}, first l → second m → both (l ++ m))
    (front : Moves config first fine s a t) (back : Moves config second fine t b u) :
    Moves config both fine s (a ++ b) u := by
  obtain ⟨changes, chain, starts⟩ := front.streams
  obtain ⟨later, rest, goesOn⟩ := back.streams
  constructor
  case streams =>
    rw [counterOps_append]
    exact ⟨changes ++ later, chain.append rest, joins starts goesOn⟩
  case engine => rw [back.engine, front.engine, engineAfter_append]
  case effects =>
    intro happened member
    exact (List.mem_append.mp member).elim (front.effects happened) (back.effects happened)

theorem Moves.mono {sequences' : List Change → Prop} {fine' : Effect → Prop}
    {before after : SessionActor τ σ} {trace : List Effect}
    (moves : Moves config sequences fine before trace after)
    (more : ∀ changes, sequences changes → sequences' changes)
    (finer : ∀ happened, fine happened → fine' happened) :
    Moves config sequences' fine' before trace after := by
  obtain ⟨changes, chain, inside⟩ := moves.streams
  exact ⟨⟨changes, chain, more changes inside⟩, moves.engine,
    fun happened member => finer happened (moves.effects happened member)⟩

theorem moves_closed : Closed (Moves config (Each allowed) fine) where
  refl := fun before => Moves.refl before (by simp [Each])
  trans := Moves.trans fun starts goesOn change member =>
    (List.mem_append.mp member).elim (starts change) (goesOn change)

def outside : Effect → Bool
  | .counter _ | .engine _ | .polled => false
  | _ => true

inductive Outbound : Effect → Prop where
  | audit (record : SessionFrame) : Outbound (.audit record)
  | observers (record : SessionFrame) : Outbound (.observers record)
  | client (frame : ClientFrame) : Outbound (.client frame)

section Parts

variable {ε : Type}

theorem within_update {change : SessionActor τ σ → SessionActor τ σ}
    (streams : ∀ actor, (change actor).streams = actor.streams)
    (engine : ∀ actor, (change actor).engine = actor.engine) :
    Within (Moves config (Each allowed) fine)
      (update change : Act (SessionActor τ σ) Effect ε Unit) := by
  intro actor
  constructor
  · refine ⟨[], ?_, by simp [Each]⟩
    change StreamChain config.base64 actor.streams [] [] (change actor).streams
    rw [streams]
    exact .nil _
  · exact engine actor
  · intro happened member
    cases member

theorem within_effect {happened : Effect} (plain : outside happened = true)
    (good : fine happened) :
    Within (Moves config (Each allowed) fine)
      (effect happened : Act (SessionActor τ σ) Effect ε Unit) := by
  intro actor
  constructor
  · refine ⟨[], ?_, by simp [Each]⟩
    cases happened <;> first | exact absurd plain Bool.false_ne_true | exact .nil _
  · cases happened <;> first | exact absurd plain Bool.false_ne_true | rfl
  · intro other member
    obtain rfl := List.mem_singleton.mp member
    exact good

theorem within_fallible (outcome : Except SessionError α) :
    Within (Moves config (Each allowed) fine) (fallible outcome : Handler τ σ α) := by
  cases outcome with
  | error err => exact within_fail moves_closed err
  | ok value => exact within_done moves_closed value

theorem withinAt_onStreams {change : ClientStreams → α × ClientStreams × List CounterOp}
    {actor : SessionActor τ σ} (counted : ∀ op, fine (.counter op))
    (chain : ∃ changes, StreamChain config.base64 actor.streams changes
      (change actor.streams).2.2 (change actor.streams).2.1 ∧ sequences changes) :
    WithinAt (Moves config sequences fine) (onStreams change : Handler τ σ α) actor := by
  constructor
  · have same : counterOps ((change actor.streams).2.2.map .counter) =
        (change actor.streams).2.2 := by
      simp [counterOps, List.filterMap_map]
    change ∃ changes, StreamChain config.base64 actor.streams changes
      (counterOps ((change actor.streams).2.2.map .counter)) (change actor.streams).2.1 ∧ _
    rw [same]
    exact chain
  · change actor.engine =
      engineAfter config.engine actor.engine ((change actor.streams).2.2.map .counter)
    simp [engineAfter, List.foldl_map]
  · intro happened member
    obtain ⟨op, _, rfl⟩ := List.mem_map.mp member
    exact counted op

theorem within_attempt {action : Act (SessionActor τ σ) Effect ε α}
    (inside : Within (Moves config (Each allowed) fine) action) :
    Within (Moves config (Each allowed) fine)
      (attempt action : Act (SessionActor τ σ) Effect Empty Unit) :=
  inside

end Parts

section Emitting

variable (sends : ∀ happened, Outbound happened → fine happened)
include sends

theorem recordFrame_within (record : SessionFrame) (output : Bool) :
    Within (Moves config (Each allowed) fine)
      (recordFrame config env record output : Handler τ σ Unit) := by
  apply within_ite
  · intro skipped
    exact within_done moves_closed ()
  · intro kept
    apply within_bind moves_closed
    · exact within_effect rfl (sends _ (.audit record))
    · intro _
      exact within_fallible _

theorem sendFrame_within (record : SessionFrame) (droppable : Bool) :
    Within (Moves config (Each allowed) fine)
      (sendFrame env record droppable : Handler τ σ Unit) := by
  apply within_ite
  · intro mayDrop
    apply within_ite
    · intro ready
      exact within_effect rfl (sends _ (.client record.frame))
    · intro full
      exact within_update (fun _ => rfl) fun _ => rfl
  · intro mustSend
    apply within_ite
    · intro opened
      exact within_effect rfl (sends _ (.client record.frame))
    · intro closed
      exact within_fail moves_closed _

theorem emit_within (frame : ClientFrame) (droppable output : Bool) :
    Within (Moves config (Each allowed) fine) (emit config env frame droppable output) := by
  apply within_current moves_closed
  intro actor
  refine within_bind moves_closed ?_ (fun _ => ?_) actor
  · exact within_update (fun _ => rfl) fun _ => rfl
  refine within_bind moves_closed (recordFrame_within sends _ output) fun _ => ?_
  refine within_bind moves_closed (within_effect rfl (sends _ (.observers _))) fun _ => ?_
  exact sendFrame_within sends _ droppable

theorem emitSync_within : Within (Moves config (Each allowed) fine) (emitSync config env) := by
  apply within_current moves_closed
  intro actor
  refine within_bind moves_closed ?_ (fun _ => ?_) actor
  · exact within_update (fun _ => rfl) fun _ => rfl
  apply within_forEach moves_closed
  intro frame _
  exact emit_within sends frame false false

theorem showEvent_within (event : TargetEvent) :
    Within (Moves config (Each allowed) fine) (showEvent config env event) := by
  apply within_current moves_closed
  intro actor
  refine within_bind moves_closed ?_ (fun _ => ?_) actor
  · exact within_update (fun _ => rfl) fun _ => rfl
  refine within_bind moves_closed ?_ fun _ => emitSync_within sends
  apply within_forEach moves_closed
  intro frame _
  exact emit_within sends frame _ _

theorem onTargetEvent_within (event : TargetEvent)
    (counted : ∀ op, fine (.counter op))
    (frees : ∀ stream message status, event = .file (.ack stream message status) → status ≠ 0 →
      allowed (.uploadClosed stream)) :
    Within (Moves config (Each allowed) fine) (onTargetEvent config env event) := by
  refine within_bind moves_closed ?_ fun _ => showEvent_within sends event
  intro actor
  apply withinAt_onStreams counted
  unfold ClientStreams.freeRefused
  split
  · next stream message status =>
      by_cases refused : status ≠ 0
      · rw [if_pos refused]
        exact ⟨_, (StreamStep.uploadClosed actor.streams stream).chain,
          each_one (frees stream message status rfl refused)⟩
      · rw [if_neg refused]
        exact ⟨[], .nil _, by simp [Each]⟩
  · exact ⟨[], .nil _, by simp [Each]⟩

theorem refuse_within (stream : Int) (refusal : Refusal)
    (counted : ∀ op, fine (.counter op)) (frees : allowed (.uploadClosed stream)) :
    Within (Moves config (Each allowed) fine) (refuse config env stream refusal) := by
  apply within_current moves_closed
  intro actor
  by_cases used : actor.streams.streamInUse stream = true
  · rw [if_pos used]
    exact within_done moves_closed () actor
  · rw [if_neg used]
    refine onTargetEvent_within sends _ counted ?_ actor
    intro other message status same _
    cases same
    exact frees

theorem refuseSome_within (stream : Int) (refusal : Option Refusal)
    (counted : ∀ op, fine (.counter op)) (frees : allowed (.uploadClosed stream)) :
    Within (Moves config (Each allowed) fine) (refuseSome config env stream refusal) := by
  cases refusal with
  | none => exact within_done moves_closed ()
  | some refusal => exact refuse_within sends stream refusal counted frees

end Emitting

section Delivering

variable (audits : ∀ record, fine (.audit record))
include audits

theorem recordInput_within (input : InputEvent) :
    Within (Moves config (Each allowed) fine) (recordInput config env input) := by
  unfold recordInput
  split
  · next keysym pressed =>
      apply within_ite
      · intro recorded
        apply within_current moves_closed
        intro actor
        refine within_bind moves_closed ?_ (fun _ => ?_) actor
        · exact within_update (fun _ => rfl) fun _ => rfl
        refine within_bind moves_closed (within_effect rfl (audits _)) fun _ => ?_
        exact within_fallible _
      · intro unrecorded
        exact within_done moves_closed ()
  · exact within_done moves_closed ()

omit audits in
theorem handleInput_within (input : InputEvent) (reaches : fine (.engine input)) :
    Within (Moves config (Each allowed) fine) (handleInput config input) := by
  intro actor
  refine ⟨⟨[], .nil _, by simp [Each]⟩, rfl, ?_⟩
  intro happened member
  obtain rfl := List.mem_singleton.mp member
  exact reaches

theorem deliver_within (input : InputEvent) (reaches : fine (.engine input)) :
    Within (Moves config (Each allowed) fine) (deliver config env input) := by
  apply within_ite
  · intro refused
    exact within_done moves_closed ()
  · intro admitted
    apply within_bind moves_closed (recordInput_within audits input)
    intro _
    exact handleInput_within input reaches

end Delivering

def Wake.said : Wake → Option (Bool × ClientInstruction)
  | .clientInput instruction => some (false, instruction)
  | .guestInput instruction => some (true, instruction)
  | _ => none

/-- What a wake-up may first do to the client streams it finds. -/
inductive Begins (streams : ClientStreams) (wake : Wake) : List Change → Prop where
  | nothing : Begins streams wake []
  | evicted {guest : Bool} {stream : Int} {mimetype : Text}
      (said : wake.said = some (guest, .clipboard stream mimetype)) :
      Begins streams wake [.evicted guest]
  | opened {guest : Bool} {stream : Int} {mimetype : Text}
      (said : wake.said = some (guest, .clipboard stream mimetype)) :
      Begins streams wake [.evicted guest, .opened guest stream]
  | refused {guest : Bool} {stream : Int} {blob : Text}
      (said : wake.said = some (guest, .blob stream blob)) :
      Begins streams wake [.refused guest stream]
  | appended {guest : Bool} {stream : Int} {blob : Text}
      (said : wake.said = some (guest, .blob stream blob)) :
      Begins streams wake [.appended guest stream blob]
  | finished {guest : Bool} {stream : Int} {pending : PendingClipboard}
      (said : wake.said = some (guest, .endStream stream))
      (present : (streams.table guest).lookup stream = some pending) :
      Begins streams wake [.finished guest stream pending.data]
  | uploadOpened {object stream : Int} {mimetype name : Text}
      (said : wake.said = some (false, .put object stream mimetype name)) :
      Begins streams wake [.uploadOpened stream]

inductive Closes (wake : Wake) : Change → Prop where
  | upload (stream : Int) (operator : ∀ instruction, wake ≠ .guestInput instruction) :
      Closes wake (.uploadClosed stream)

/-- The changes one wake-up may make. -/
def Causes (streams : ClientStreams) (wake : Wake) (changes : List Change) : Prop :=
  ∃ front back, changes = front ++ back ∧ Begins streams wake front ∧ Each (Closes wake) back

theorem Begins.causes {streams : ClientStreams} {wake : Wake} {changes : List Change}
    (begins : Begins streams wake changes) : Causes streams wake changes :=
  ⟨changes, [], (List.append_nil changes).symm, begins, by simp [Each]⟩

theorem causes_join {streams : ClientStreams} {wake : Wake} {front back : List Change}
    (begins : Causes streams wake front) (closes : Each (Closes wake) back) :
    Causes streams wake (front ++ back) := by
  obtain ⟨start, rest, rfl, first, later⟩ := begins
  refine ⟨start, rest ++ back, List.append_assoc start rest back, first, ?_⟩
  intro change member
  exact (List.mem_append.mp member).elim (later change) (closes change)

theorem Moves.causes {wake : Wake} {before after : SessionActor τ σ} {trace : List Effect}
    (moves : Moves config (Each (Closes wake)) fine before trace after) :
    Moves config (Causes before.streams wake) fine before trace after :=
  moves.mono (fun _ closes => causes_join Begins.nothing.causes closes) fun _ good => good

theorem causes_bind {ε β : Type} {wake : Wake} {first : Act (SessionActor τ σ) Effect ε α}
    {next : α → Act (SessionActor τ σ) Effect ε β} {actor : SessionActor τ σ}
    (head : WithinAt (Moves config (Causes actor.streams wake) fine) first actor)
    (tail : ∀ value, (first actor).result = .ok value →
      Within (Moves config (Each (Closes wake)) fine) (next value)) :
    WithinAt (Moves config (Causes actor.streams wake) fine) (first >>= next) actor :=
  withinAt_bind_of head (fun value answered => tail value answered _) (fun moved => moved)
    (Moves.trans causes_join)

theorem causes_resume {ε ε' β : Type} {wake : Wake} {first : Act (SessionActor τ σ) Effect ε α}
    {next : Except ε α → Act (SessionActor τ σ) Effect ε' β} {actor : SessionActor τ σ}
    (head : WithinAt (Moves config (Causes actor.streams wake) fine) first actor)
    (tail : ∀ outcome, Within (Moves config (Each (Closes wake)) fine) (next outcome)) :
    WithinAt (Moves config (Causes actor.streams wake) fine) (resume first next) actor :=
  Moves.trans causes_join head (tail _ _)

theorem withinAt_reading {ε β : Type} {next : SessionActor τ σ → Act (SessionActor τ σ) Effect ε β}
    {actor : SessionActor τ σ}
    (inside : WithinAt (Moves config sequences fine) (next actor) actor) :
    WithinAt (Moves config sequences fine) (current >>= next) actor :=
  inside

/-- A clipboard goes to the engine only as the whole of a pending stream its sender
has just ended. -/
def Delivers (streams : ClientStreams) (wake : Wake) (happened : Effect) : Prop :=
  ∀ data, happened = .engine (.clipboard data) →
    ∃ guest stream pending, wake.said = some (guest, .endStream stream) ∧
      (streams.table guest).lookup stream = some pending ∧ data = pending.data

theorem delivers_other (streams : ClientStreams) (wake : Wake) {happened : Effect}
    (other : ∀ data, happened ≠ .engine (.clipboard data)) : Delivers streams wake happened :=
  fun data same => absurd same (other data)

def GuestEffect : Effect → Prop
  | .counter _ | .audit _ => True
  | .engine input => input ≠ .disconnect ∧ ∀ request, input ≠ .file request
  | _ => False

section Clipboard

variable (counted : ∀ op, fine (.counter op)) {wake : Wake} {guest : Bool} {stream : Int}
include counted

theorem openClipboard_within {mimetype : Text}
    (said : wake.said = some (guest, .clipboard stream mimetype)) (actor : SessionActor τ σ) :
    WithinAt (Moves config (Causes actor.streams wake) fine)
      (onStreams fun streams => streams.openClipboard env.toReading stream guest) actor := by
  apply withinAt_onStreams counted
  obtain ⟨changes, chain, every⟩ :=
    openClipboard_chain config.base64 env.toReading actor.streams stream guest
  refine ⟨changes, chain, ?_⟩
  rcases every with rfl | rfl | rfl
  · exact Begins.nothing.causes
  · exact (Begins.evicted said).causes
  · exact (Begins.opened said).causes

theorem appendClipboard_within {blob : Text}
    (said : wake.said = some (guest, .blob stream blob)) (actor : SessionActor τ σ) :
    WithinAt (Moves config (Causes actor.streams wake) fine)
      (onStreams fun streams =>
        streams.appendClipboard config.base64 env.toReading stream blob guest) actor := by
  apply withinAt_onStreams counted
  obtain ⟨changes, chain, every⟩ :=
    appendClipboard_chain config.base64 env.toReading actor.streams stream blob guest
  refine ⟨changes, chain, ?_⟩
  rcases every with rfl | rfl | rfl
  · exact Begins.nothing.causes
  · exact (Begins.refused said).causes
  · exact (Begins.appended said).causes

theorem takeClipboard_within (said : wake.said = some (guest, .endStream stream))
    (actor : SessionActor τ σ) :
    WithinAt (Moves config (Causes actor.streams wake) fine)
      (onStreams fun streams => streams.takeClipboard stream guest) actor := by
  apply withinAt_onStreams counted
  obtain ⟨changes, chain, every⟩ := takeClipboard_chain config.base64 actor.streams stream guest
  refine ⟨changes, chain, ?_⟩
  rcases every with rfl | ⟨pending, present, rfl⟩
  · exact Begins.nothing.causes
  · exact (Begins.finished said present).causes

omit counted in
theorem delivers_taken {streams : ClientStreams} {data : Bytes}
    (said : wake.said = some (guest, .endStream stream))
    (taken : (streams.takeClipboard stream guest).1 = some data) :
    Delivers streams wake (.engine (.clipboard data)) := by
  obtain ⟨pending, present, same⟩ := takeClipboard_some taken
  intro other sent
  cases sent
  exact ⟨guest, stream, pending, said, present, same⟩

end Clipboard

theorem onGuestInput_within (instruction : ClientInstruction) (actor : SessionActor τ σ) :
    WithinAt (Moves config (Causes actor.streams (.guestInput instruction))
        fun happened => GuestEffect happened ∧
          Delivers actor.streams (.guestInput instruction) happened)
      (onGuestInput config env instruction) actor := by
  have audits : ∀ record : SessionFrame, GuestEffect (.audit record) ∧
      Delivers actor.streams (.guestInput instruction) (.audit record) := fun record =>
    ⟨trivial, delivers_other _ _ (by simp)⟩
  have counted : ∀ op : CounterOp, GuestEffect (.counter op) ∧
      Delivers actor.streams (.guestInput instruction) (.counter op) := fun op =>
    ⟨trivial, delivers_other _ _ (by simp)⟩
  cases instruction with
  | mouse x y mask =>
      apply Moves.causes
      exact deliver_within audits _ ⟨⟨by simp, by simp⟩, delivers_other _ _ (by simp)⟩ actor
  | key keysym pressed =>
      apply Moves.causes
      exact deliver_within audits _ ⟨⟨by simp, by simp⟩, delivers_other _ _ (by simp)⟩ actor
  | size width height dpi =>
      apply Moves.causes
      exact deliver_within audits _ ⟨⟨by simp, by simp⟩, delivers_other _ _ (by simp)⟩ actor
  | clipboard stream mimetype =>
      by_cases text : "text/".toList.isPrefixOf mimetype = true
      · simp only [onGuestInput, text, if_true]
        apply causes_bind (openClipboard_within counted rfl actor)
        intro _ _
        exact within_done moves_closed ()
      · simp only [onGuestInput, text]
        exact Moves.refl actor Begins.nothing.causes
  | blob stream data =>
      apply causes_bind (appendClipboard_within counted rfl actor)
      intro _ _
      exact within_done moves_closed ()
  | endStream stream =>
      apply causes_bind (takeClipboard_within counted rfl actor)
      intro taken answered
      cases taken with
      | none => exact within_done moves_closed ()
      | some data =>
          apply deliver_within audits
          exact ⟨⟨by simp, by simp⟩, delivers_taken rfl (Except.ok.inj answered)⟩
  | _ => exact Moves.refl actor Begins.nothing.causes

theorem onClientInput_within (instruction : ClientInstruction) (actor : SessionActor τ σ) :
    WithinAt (Moves config (Causes actor.streams (.clientInput instruction))
        (Delivers actor.streams (.clientInput instruction)))
      (onClientInput config env instruction) actor := by
  have sends : ∀ happened, Outbound happened →
      Delivers actor.streams (.clientInput instruction) happened := by
    intro happened outbound
    cases outbound <;> exact delivers_other _ _ (by simp)
  have counted : ∀ op, Delivers actor.streams (.clientInput instruction) (.counter op) :=
    fun op => delivers_other _ _ (by simp)
  have closes : ∀ stream, Closes (.clientInput instruction) (.uploadClosed stream) :=
    fun stream => .upload stream (by simp)
  have refuses : ∀ stream refusal, Within (Moves config (Each (Closes (.clientInput instruction)))
      (Delivers actor.streams (.clientInput instruction)))
      (do refuseSome config env stream refusal; done (none : Option Text)) := by
    intro stream refusal
    apply within_bind moves_closed (refuseSome_within sends stream refusal counted (closes stream))
    intro _
    exact within_done moves_closed none
  have delivers : ∀ input, Delivers actor.streams (.clientInput instruction) (.engine input) →
      Within (Moves config (Each (Closes (.clientInput instruction)))
        (Delivers actor.streams (.clientInput instruction)))
        (do deliver config env input; done (none : Option Text)) := by
    intro input reaches
    apply within_bind moves_closed
    · exact deliver_within (fun record => sends _ (.audit record)) input reaches
    · intro _
      exact within_done moves_closed none
  cases instruction with
  | mouse x y mask => exact (delivers _ (delivers_other _ _ (by simp)) actor).causes
  | key keysym pressed => exact (delivers _ (delivers_other _ _ (by simp)) actor).causes
  | size width height dpi => exact (delivers _ (delivers_other _ _ (by simp)) actor).causes
  | ack stream message status => exact (delivers _ (delivers_other _ _ (by simp)) actor).causes
  | clipboard stream mimetype =>
      apply causes_bind
      · by_cases text : "text/".toList.isPrefixOf mimetype = true
        · rw [if_pos text]
          exact openClipboard_within counted rfl actor
        · rw [if_neg text]
          exact Moves.refl actor Begins.nothing.causes
      · intro refusal _
        exact refuses stream refusal
  | blob stream data =>
      apply withinAt_reading
      by_cases upload : stream ∈ actor.streams.uploadStreams
      · rw [if_pos upload]
        cases config.base64.decode data with
        | none => exact Moves.refl actor Begins.nothing.causes
        | some decoded => exact (delivers _ (delivers_other _ _ (by simp)) actor).causes
      · rw [if_neg upload]
        apply causes_bind (appendClipboard_within counted rfl actor)
        intro refusal _
        exact refuses stream refusal
  | endStream stream =>
      apply withinAt_reading
      by_cases upload : stream ∈ actor.streams.uploadStreams
      · rw [if_pos upload]
        apply Moves.causes
        apply withinAt_bind moves_closed
        · apply withinAt_onStreams counted
          exact ⟨_, (StreamStep.uploadClosed actor.streams stream).chain, each_one (closes stream)⟩
        · intro _ _
          exact delivers _ (delivers_other _ _ (by simp)) _
      · rw [if_neg upload]
        apply causes_bind (takeClipboard_within counted rfl actor)
        intro taken answered
        cases taken with
        | none => exact within_done moves_closed none
        | some data => exact delivers _ (delivers_taken rfl (Except.ok.inj answered))
  | get object name =>
      by_cases mayOpen : env.mayOpen = true
      · simp only [onClientInput, mayOpen, if_true]
        exact (delivers _ (delivers_other _ _ (by simp)) actor).causes
      · simp only [onClientInput, mayOpen]
        exact Moves.refl actor Begins.nothing.causes
  | put object stream mimetype name =>
      apply withinAt_reading
      by_cases used : actor.streams.streamInUse stream = true
      · rw [if_pos used]
        exact (refuses stream (some _) actor).causes
      rw [if_neg used]
      by_cases full : actor.streams.uploadStreams.card ≥ maxUploadStreams
      · rw [if_pos full]
        exact (refuses stream (some _) actor).causes
      rw [if_neg full]
      by_cases fast : (!env.mayOpen) = true
      · rw [if_pos fast]
        exact (refuses stream (some _) actor).causes
      rw [if_neg fast]
      apply causes_bind
      · apply withinAt_onStreams counted
        have free : stream ∉ actor.streams.clipboardStreams ∧
            stream ∉ actor.streams.uploadStreams := by
          simpa [ClientStreams.streamInUse] using used
        exact ⟨_, (StreamStep.uploadOpened actor.streams stream free.1 free.2
          (Nat.lt_of_not_le full)).chain, (Begins.uploadOpened rfl).causes⟩
      · intro _ _
        exact delivers _ (delivers_other _ _ (by simp))
  | _ => exact Moves.refl actor Begins.nothing.causes

section Ending

variable (sends : ∀ happened, Outbound happened → fine happened)
  (counted : ∀ op, fine (.counter op))
include sends

theorem disconnected_within (counted : ∀ op, fine (.counter op)) (reason : Text)
    (cause : DisconnectCause) :
    Within (Moves config (Each allowed) fine)
      (onTargetEvent config env (.disconnected reason cause)) :=
  onTargetEvent_within sends _ counted fun _ _ _ same => nomatch same

theorem endAfterFailure_within (err : SessionError) :
    Within (Moves config (Each allowed) fine) (endAfterFailure config env err) := by
  cases err with
  | audit why =>
      refine within_bind moves_closed ?_ fun _ => within_done moves_closed _
      apply within_current moves_closed
      intro actor
      refine within_bind moves_closed ?_ (fun _ => ?_) actor
      · exact within_update (fun _ => rfl) fun _ => rfl
      apply within_forEach moves_closed
      intro frame _
      apply within_ite
      · intro ready
        exact within_effect rfl (sends _ (.client frame.1))
      · intro full
        exact within_done moves_closed ()
  | engine err => exact within_done moves_closed _
  | pipelineClosed what => exact within_done moves_closed _

omit sends in
theorem pollEngine_within (polls : fine .polled) :
    Within (Moves config (Each allowed) fine) (pollEngine config) := by
  intro actor
  refine ⟨⟨[], .nil _, by simp [Each]⟩, rfl, ?_⟩
  intro happened member
  obtain rfl := List.mem_singleton.mp member
  exact polls

variable (polls : fine .polled)
include counted polls

theorem endAfterInputFailure_within (err : EngineError) :
    Within (Moves config (Each allowed) fine) (endAfterInputFailure config env err) := by
  apply within_bind moves_closed
  · apply within_ite
    · intro answers
      exact pollEngine_within polls
    · intro late
      exact within_done moves_closed _
  · intro said
    split
    · next reason cause =>
        refine within_bind moves_closed ?_ fun _ => within_done moves_closed _
        exact within_attempt (disconnected_within sends counted reason cause)
    · refine within_bind moves_closed ?_ fun _ => within_done moves_closed _
      exact within_attempt (disconnected_within sends counted _ _)

theorem onInputFailure_within (err : SessionError) :
    Within (Moves config (Each allowed) fine) (onInputFailure config env err) := by
  cases err with
  | engine err => exact endAfterInputFailure_within sends counted polls err
  | audit why => exact endAfterFailure_within sends _
  | pipelineClosed what => exact endAfterFailure_within sends _

omit polls in
theorem onEngineEvent_within (closes : ∀ stream, allowed (.uploadClosed stream))
    (event : Except EngineError (Option TargetEvent)) :
    Within (Moves config (Each allowed) fine) (onEngineEvent config env event) := by
  cases event with
  | error err =>
      refine within_bind moves_closed ?_ fun _ => within_done moves_closed _
      exact within_attempt (disconnected_within sends counted _ _)
  | ok event =>
      cases event with
      | none =>
          refine within_bind moves_closed ?_ fun _ => within_done moves_closed _
          exact within_attempt (disconnected_within sends counted _ _)
      | some event =>
          intro actor
          apply withinAt_resume moves_closed
          · exact onTargetEvent_within sends event counted (fun stream _ _ _ _ => closes stream)
              actor
          · intro outcome
            cases outcome with
            | error err => exact within_map moves_closed some (endAfterFailure_within sends err)
            | ok done => cases event <;> exact within_done moves_closed _

end Ending

theorem turn_within (wake : Wake) (actor : SessionActor τ σ) :
    WithinAt (Moves config (Causes actor.streams wake) (Delivers actor.streams wake))
      (turn config env wake) actor := by
  have sends : ∀ happened, Outbound happened → Delivers actor.streams wake happened := by
    intro happened outbound
    cases outbound <;> exact delivers_other _ _ (by simp)
  have counted : ∀ op, Delivers actor.streams wake (.counter op) :=
    fun op => delivers_other _ _ (by simp)
  have polls : Delivers actor.streams wake .polled := delivers_other _ _ (by simp)
  have fails : ∀ err, Within (Moves config (Each (Closes wake)) (Delivers actor.streams wake))
      (some <$> onInputFailure config env err : Settled τ σ (Option Text)) := fun err =>
    within_map moves_closed some (onInputFailure_within sends counted polls err)
  cases wake with
  | clientInput instruction =>
      apply causes_resume (onClientInput_within instruction actor)
      intro outcome
      cases outcome with
      | ok reason => exact within_done moves_closed reason
      | error err => exact fails err
  | guestInput instruction =>
      apply causes_resume
      · exact (onGuestInput_within instruction actor).mono (fun _ caused => caused)
          fun _ both => both.2
      · intro outcome
        cases outcome with
        | ok done => exact within_done moves_closed none
        | error err => exact fails err
  | attachObserver => exact Moves.refl actor Begins.nothing.causes
  | terminate reason => exact Moves.refl actor Begins.nothing.causes
  | commandsClosed => exact Moves.refl actor Begins.nothing.causes
  | syncTick =>
      apply Moves.causes
      apply withinAt_resume moves_closed
      · refine within_bind moves_closed (emitSync_within sends) (fun _ => ?_) actor
        refine within_bind moves_closed (within_effect rfl ?_) fun _ => within_fallible _
        exact delivers_other _ _ (by simp)
      · intro outcome
        cases outcome with
        | ok done => exact within_done moves_closed none
        | error err => exact within_map moves_closed some (endAfterFailure_within sends err)
  | engineEvent =>
      apply Moves.causes
      refine within_bind moves_closed (pollEngine_within polls) (fun event => ?_) actor
      exact onEngineEvent_within sends counted (fun stream => .upload stream (by simp)) event

end Strata.Actor
