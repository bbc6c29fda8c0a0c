import Mathlib.Tactic
import Strata.Actor.Runs

/-! A shared-control guest beside the operator: what a guest's instruction cannot
touch, and where the bytes of every delivered clipboard came from. -/

namespace Strata.Actor

open Utf8 (Text Bytes)
open Strata.Action
open Machine
open Tables
open Protocol.Instruction (ClientInstruction)

variable {τ σ : Type}

def Change.guestOnly : Change → Bool
  | .evicted guest | .opened guest _ | .refused guest _ | .appended guest _ _
  | .finished guest _ _ => guest
  | .uploadOpened _ | .uploadClosed _ => false

section Frame

variable {base64 : Base64.Codec} {streams next : ClientStreams} {ops : List CounterOp}

theorem StreamStep.frame {change : Change} (step : StreamStep base64 streams change ops next)
    (own : change.guestOnly = true) :
    next.clipboardStreams = streams.clipboardStreams ∧
      next.uploadStreams = streams.uploadStreams := by
  cases step with
  | evicted guest live => cases own; exact ⟨rfl, rfl⟩
  | opened guest stream touched absent room apart => cases own; exact ⟨rfl, rfl⟩
  | refused guest stream pending present => cases own; exact ⟨rfl, rfl⟩
  | appended guest stream pending blob decoded touched present read fits within =>
      cases own; exact ⟨rfl, rfl⟩
  | finished guest stream pending present => cases own; exact ⟨rfl, rfl⟩
  | uploadOpened stream apart fresh room => cases own
  | uploadClosed stream => cases own

theorem StreamChain.frame {changes : List Change}
    (chain : StreamChain base64 streams changes ops next)
    (own : ∀ change ∈ changes, change.guestOnly = true) :
    next.clipboardStreams = streams.clipboardStreams ∧
      next.uploadStreams = streams.uploadStreams := by
  induction chain with
  | nil streams => exact ⟨rfl, rfl⟩
  | cons step rest ih =>
      have first := step.frame (own _ (by simp))
      have later := ih fun change member => own change (List.mem_cons_of_mem _ member)
      exact ⟨later.1.trans first.1, later.2.trans first.2⟩

end Frame

theorem Causes.guestOnly {streams : ClientStreams} {instruction : ClientInstruction}
    {changes : List Change} (caused : Causes streams (.guestInput instruction) changes) :
    ∀ change ∈ changes, change.guestOnly = true := by
  obtain ⟨front, back, rfl, begins, closes⟩ := caused
  intro change member
  rcases List.mem_append.mp member with first | later
  · cases begins with
    | nothing => cases first
    | evicted said =>
        cases said
        obtain rfl := List.mem_singleton.mp first
        rfl
    | opened said =>
        cases said
        rcases List.mem_pair.mp first with rfl | rfl <;> rfl
    | refused said =>
        cases said
        obtain rfl := List.mem_singleton.mp first
        rfl
    | appended said =>
        cases said
        obtain rfl := List.mem_singleton.mp first
        rfl
    | finished said present =>
        cases said
        obtain rfl := List.mem_singleton.mp first
        rfl
    | uploadOpened said => cases said
  · cases closes change later with
    | upload stream operator => exact absurd rfl (operator instruction)

/-- The bytes are the decoded content of some of the blobs `sent`, in their order. -/
def MadeOf (base64 : Base64.Codec) (sent : List Text) (data : Bytes) : Prop :=
  ∃ (blobs : List Text) (parts : List Bytes), blobs.Sublist sent ∧
    blobs.mapM base64.decode = some parts ∧ data = parts.flatten

section Origin

variable {base64 : Base64.Codec}

theorem madeOf_nil (sent : List Text) : MadeOf base64 sent [] :=
  ⟨[], [], List.nil_sublist sent, rfl, rfl⟩

theorem MadeOf.mono {sent more : List Text} {data : Bytes} (made : MadeOf base64 sent data)
    (included : sent.Sublist more) : MadeOf base64 more data := by
  obtain ⟨blobs, parts, inside, decoded, same⟩ := made
  exact ⟨blobs, parts, inside.trans included, decoded, same⟩

theorem MadeOf.append {sent : List Text} {data decoded : Bytes} {blob : Text}
    (made : MadeOf base64 sent data) (read : base64.decode blob = some decoded) :
    MadeOf base64 (sent ++ [blob]) (data ++ decoded) := by
  obtain ⟨blobs, parts, inside, each, rfl⟩ := made
  refine ⟨blobs ++ [blob], parts ++ [decoded], inside.append (List.Sublist.refl [blob]), ?_, ?_⟩
  · rw [List.mapM_append, each]
    simp [read]
  · simp

def Change.blobOn (guest : Bool) (stream : Int) : Change → List Text
  | .appended side id blob => if side = guest ∧ id = stream then [blob] else []
  | _ => []

/-- Every pending clipboard is made of what was sent on its stream. -/
def Sourced (base64 : Base64.Codec) (sent : Bool → Int → List Text) (streams : ClientStreams) :
    Prop :=
  ∀ guest stream pending, (streams.table guest).lookup stream = some pending →
    MadeOf base64 (sent guest stream) pending.data

variable {sent : Bool → Int → List Text} {streams next : ClientStreams} {ops : List CounterOp}

theorem sourced_empty : Sourced base64 sent .empty := by
  intro guest stream pending present
  cases guest <;> simp [ClientStreams.empty, ClientStreams.table] at present

theorem Sourced.mono {more : Bool → Int → List Text} (sourced : Sourced base64 sent streams)
    (included : ∀ guest stream, (sent guest stream).Sublist (more guest stream)) :
    Sourced base64 more streams :=
  fun guest stream pending present =>
    (sourced guest stream pending present).mono (included guest stream)

theorem Sourced.withTable (sourced : Sourced base64 sent streams) (guest : Bool)
    (table : Table Int PendingClipboard)
    (own : ∀ stream pending, table.lookup stream = some pending →
      MadeOf base64 (sent guest stream) pending.data) :
    Sourced base64 sent (streams.withTable guest table) := by
  intro side stream pending present
  by_cases same : side = guest
  · subst same
    rw [ClientStreams.table_withTable] at present
    exact own stream pending present
  · have other : side = !guest := Bool.eq_not_of_ne same
    subst other
    rw [ClientStreams.table_withTable_not] at present
    exact sourced _ stream pending present

theorem Sourced.erase (sourced : Sourced base64 sent streams) (guest : Bool) (stream : Int) :
    Sourced base64 sent (streams.withTable guest ((streams.table guest).erase stream)) := by
  apply sourced.withTable
  intro other pending present
  exact sourced guest other pending (Tables.of_lookup_erase _ present).2

theorem Sourced.insert (sourced : Sourced base64 sent streams) (guest : Bool) (stream : Int)
    (held : PendingClipboard) (made : MadeOf base64 (sent guest stream) held.data) :
    Sourced base64 sent (streams.withTable guest ((streams.table guest).insert stream held)) := by
  apply sourced.withTable
  intro other pending present
  rcases Tables.of_lookup_insert _ present with ⟨rfl, rfl⟩ | ⟨_, old⟩
  · exact made
  · exact sourced guest other pending old

theorem StreamStep.sourced {change : Change} (step : StreamStep base64 streams change ops next)
    (sourced : Sourced base64 sent streams) :
    Sourced base64 (fun guest stream => sent guest stream ++ change.blobOn guest stream) next := by
  have wider : Sourced base64
      (fun guest stream => sent guest stream ++ change.blobOn guest stream) streams :=
    sourced.mono fun guest stream => List.sublist_append_left _ _
  cases step with
  | evicted guest live =>
      apply wider.withTable
      intro stream pending present
      exact wider guest stream pending (lookup_retain live _ present)
  | opened guest stream touched absent room apart =>
      exact wider.insert guest stream _ (madeOf_nil _)
  | refused guest stream pending present => exact wider.erase guest stream
  | appended guest stream pending blob decoded touched present read fits within =>
      apply wider.insert guest stream
      have mine : Change.blobOn guest stream (.appended guest stream blob) = [blob] :=
        if_pos ⟨rfl, rfl⟩
      rw [mine]
      exact (sourced guest stream pending present).append read
  | finished guest stream pending present => exact wider.erase guest stream
  | uploadOpened stream apart fresh room => exact wider
  | uploadClosed stream => exact wider

theorem StreamChain.sourced {changes : List Change}
    (chain : StreamChain base64 streams changes ops next) (sourced : Sourced base64 sent streams) :
    Sourced base64
      (fun guest stream => sent guest stream ++ changes.flatMap (Change.blobOn guest stream))
      next := by
  induction chain generalizing sent with
  | nil streams =>
      apply sourced.mono
      intro guest stream
      exact List.sublist_append_left _ _
  | cons step rest ih =>
      have later := ih (step.sourced sourced)
      simpa only [List.flatMap_cons, List.append_assoc] using later

end Origin

def Wake.blobOn (guest : Bool) (stream : Int) (wake : Wake) : List Text :=
  match wake.said with
  | some (side, .blob id data) => if side = guest ∧ id = stream then [data] else []
  | _ => []

def sentOn (wakes : List (Env × Wake)) (guest : Bool) (stream : Int) : List Text :=
  wakes.flatMap fun woken => woken.2.blobOn guest stream

theorem Causes.blobOn {streams : ClientStreams} {wake : Wake} {changes : List Change}
    (caused : Causes streams wake changes) (guest : Bool) (stream : Int) :
    (changes.flatMap (Change.blobOn guest stream)).Sublist (wake.blobOn guest stream) := by
  obtain ⟨front, back, rfl, begins, closes⟩ := caused
  have later : back.flatMap (Change.blobOn guest stream) = [] := by
    rw [List.flatMap_eq_nil_iff]
    intro change member
    cases closes change member
    rfl
  rw [List.flatMap_append, later, List.append_nil]
  cases begins with
  | appended said =>
      rw [Wake.blobOn, said]
      simp [Change.blobOn]
  | _ => exact List.nil_sublist _

theorem sentOn_concat (past : List (Env × Wake)) (woken : Env × Wake) (guest : Bool)
    (stream : Int) :
    sentOn (past ++ [woken]) guest stream =
      sentOn past guest stream ++ woken.2.blobOn guest stream := by
  simp [sentOn]

theorem SessionStep.sourced {config : SessionConfig τ σ} {woken : Env × Wake}
    {before after : Session τ σ} {trace : List Effect} {past : List (Env × Wake)}
    (step : SessionStep config woken.2 before trace after)
    (sourced : Sourced config.base64 (sentOn past) before.actor.streams) :
    Sourced config.base64 (sentOn (past ++ [woken])) after.actor.streams := by
  cases step with
  | past actor reason =>
      apply sourced.mono
      intro guest stream
      rw [sentOn_concat]
      exact List.sublist_append_left _ _
  | turned moves =>
      obtain ⟨changes, chain, caused⟩ := moves.streams
      apply (chain.sourced sourced).mono
      intro guest stream
      rw [sentOn_concat]
      exact (List.Sublist.refl _).append (caused.blobOn guest stream)
  | closed reason moves dropped silent => exact sourced_empty

theorem SessionStep.delivers {config : SessionConfig τ σ} {wake : Wake}
    {before after : Session τ σ} {trace : List Effect} {data : Bytes}
    (step : SessionStep config wake before trace after)
    (delivered : .engine (.clipboard data) ∈ trace) :
    Delivers before.actor.streams wake (.engine (.clipboard data)) := by
  cases step with
  | past actor reason => cases delivered
  | turned moves => exact moves.effects _ delivered
  | closed reason moves dropped silent =>
      rcases List.mem_append.mp delivered with early | late
      · exact moves.effects _ early
      · exact absurd late (silent _)

theorem SessionStep.delivered {config : SessionConfig τ σ} {wake : Wake}
    {before after : Session τ σ} {trace : List Effect} {sent : Bool → Int → List Text}
    (step : SessionStep config wake before trace after)
    (sourced : Sourced config.base64 sent before.actor.streams) {data : Bytes}
    (delivered : .engine (.clipboard data) ∈ trace) :
    ∃ guest stream, MadeOf config.base64 (sent guest stream) data := by
  obtain ⟨guest, stream, pending, _, present, rfl⟩ := step.delivers delivered data rfl
  exact ⟨guest, stream, sourced guest stream pending present⟩

theorem delivered_clipboard_source (config : SessionConfig τ σ) (engine : τ) (encoder : σ)
    (wakes : List (Env × Wake)) (data : Bytes)
    (delivered : .engine (.clipboard data) ∈
      (run (sessionStep config) (spawn engine encoder) wakes).2) :
    ∃ guest stream, MadeOf config.base64 (sentOn wakes guest stream) data := by
  refine run_effects
    (fun past (session : Session τ σ) =>
      Sourced config.base64 (sentOn past) session.actor.streams)
    (fun past happened => ∀ data, happened = .engine (.clipboard data) →
      ∃ guest stream, MadeOf config.base64 (sentOn past guest stream) data)
    sourced_empty ?_ ?_ ?_ wakes _ delivered data rfl
  · intro past woken session sourced
    exact (sessionStep_spec config session woken).sourced sourced
  · intro past woken session sourced happened member data same
    subst same
    have wider : Sourced config.base64 (sentOn (past ++ [woken])) session.actor.streams := by
      apply sourced.mono
      intro guest stream
      rw [sentOn_concat]
      exact List.sublist_append_left _ _
    exact (sessionStep_spec config session woken).delivered wider member
  · intro past woken happened known data same
    obtain ⟨guest, stream, made⟩ := known data same
    refine ⟨guest, stream, made.mono ?_⟩
    rw [sentOn_concat]
    exact List.sublist_append_left _ _

theorem turn_guestInput_ok {config : SessionConfig τ σ} {env : Env}
    {instruction : ClientInstruction} {actor : SessionActor τ σ}
    (succeeded : (onGuestInput config env instruction actor).result = .ok ()) :
    turn config env (.guestInput instruction) actor =
      ⟨.ok none, (onGuestInput config env instruction actor).state,
        (onGuestInput config env instruction actor).trace⟩ := by
  simp only [turn, resume]
  rw [succeeded]
  simp [done]

/-- A guest's instruction leaves the operator's streams alone, sends the engine no file
request and no disconnect, and the operator no frame; where it succeeds, the session
just goes on. Every clipboard the engine gets was sent by one side, on one stream. -/
theorem guest_isolated (config : SessionConfig τ σ) :
    (∀ (env : Env) (instruction : ClientInstruction) (actor : SessionActor τ σ),
      let out := onGuestInput config env instruction actor
      out.state.streams.clipboardStreams = actor.streams.clipboardStreams ∧
      out.state.streams.uploadStreams = actor.streams.uploadStreams ∧
      (∀ request, .engine (.file request) ∉ out.trace) ∧
      .engine .disconnect ∉ out.trace ∧
      (∀ frame, .client frame ∉ out.trace) ∧
      (out.result = .ok () →
        turn config env (.guestInput instruction) actor = ⟨.ok none, out.state, out.trace⟩)) ∧
    ∀ (engine : τ) (encoder : σ) (wakes : List (Env × Wake)) (data : Bytes),
      .engine (.clipboard data) ∈ (run (sessionStep config) (spawn engine encoder) wakes).2 →
      ∃ (guest : Bool) (stream : Int) (blobs : List Text) (parts : List Bytes),
        blobs.Sublist (sentOn wakes guest stream) ∧
        blobs.mapM config.base64.decode = some parts ∧ data = parts.flatten := by
  constructor
  · intro env instruction actor out
    have moves := @onGuestInput_within τ σ config env instruction actor
    obtain ⟨changes, chain, caused⟩ := moves.streams
    have frame := chain.frame caused.guestOnly
    refine ⟨frame.1, frame.2, ?_, ?_, ?_, ?_⟩
    · intro request member
      exact (moves.effects _ member).1.2 request rfl
    · intro member
      exact (moves.effects _ member).1.1 rfl
    · intro frame member
      exact (moves.effects _ member).1
    · intro succeeded
      exact turn_guestInput_ok succeeded
  · intro engine encoder wakes data delivered
    exact delivered_clipboard_source config engine encoder wakes data delivered

/-- Operator and guest paste on the same stream number; the guest ends first. -/
def sharedNumber : List (Env × Wake) :=
  [(calm, .clientInput (.clipboard 1 "text/plain".toList)),
    (calm, .guestInput (.clipboard 1 "text/plain".toList)),
    (calm, .clientInput (.blob 1 "YQ==".toList)),
    (calm, .guestInput (.blob 1 "Yg==".toList)),
    (calm, .guestInput (.endStream 1))]

theorem guest_isolated_shared_number :
    (onGuestInput plainSession calm (.endStream 1) (spawn () ()).actor).result = .ok () ∧
    turn plainSession calm (.guestInput (.endStream 1)) (spawn () ()).actor =
      ⟨.ok none, (onGuestInput plainSession calm (.endStream 1) (spawn () ()).actor).state,
        (onGuestInput plainSession calm (.endStream 1) (spawn () ()).actor).trace⟩ ∧
    .engine (.clipboard [98]) ∈ (run (sessionStep plainSession) (spawn () ()) sharedNumber).2 ∧
    ∃ (guest : Bool) (stream : Int) (blobs : List Text) (parts : List Bytes),
      blobs.Sublist (sentOn sharedNumber guest stream) ∧
      blobs.mapM plainSession.base64.decode = some parts ∧ [98] = parts.flatten :=
  ⟨rfl, ((guest_isolated plainSession).1 calm (.endStream 1) (spawn () ()).actor).2.2.2.2.2 rfl,
    by decide, (guest_isolated plainSession).2 () () sharedNumber [98] (by decide)⟩

end Strata.Actor
