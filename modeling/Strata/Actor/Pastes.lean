import Mathlib.Tactic
import Strata.Actor.Isolation

/-! What a paste holds when it reaches the engine. Every wake-up does one thing to the pending
clipboards, whatever else its handler goes on to do, so that a pending clipboard can be traced
back to the opening it belongs to. -/

namespace Strata.Actor

open Utf8 (Text Bytes)
open Engine
open Strata.Action
open Tables
open Machine
open Protocol.Instruction (ClientInstruction)

variable {τ σ α : Type}

/-! ### One wake-up -/

def ClientStreams.settled (base64 : Base64.Codec) (reading : Reading) (streams : ClientStreams) :
    Option (Bool × ClientInstruction) → ClientStreams
  | some (guest, .clipboard stream mimetype) =>
      if "text/".toList.isPrefixOf mimetype then (streams.openClipboard reading stream guest).2.1
      else streams
  | some (guest, .blob stream data) =>
      if guest = false ∧ stream ∈ streams.uploadStreams then streams
      else (streams.appendClipboard base64 reading stream data guest).2.1
  | some (guest, .endStream stream) =>
      if guest = false ∧ stream ∈ streams.uploadStreams then streams
      else (streams.takeClipboard stream guest).2.1
  | _ => streams

def ofPaste : Option (Bool × ClientInstruction) → Bool
  | some (_, .clipboard ..) | some (_, .blob ..) | some (_, .endStream _) => true
  | _ => false

def Change.ofUpload : Change → Bool
  | .uploadOpened _ | .uploadClosed _ => true
  | _ => false

theorem StreamChain.tables {base64 : Base64.Codec} {first last : ClientStreams}
    {changes : List Change} {ops : List CounterOp}
    (chain : StreamChain base64 first changes ops last)
    (uploads : ∀ change ∈ changes, change.ofUpload = true) (guest : Bool) :
    last.table guest = first.table guest := by
  induction chain with
  | nil streams => rfl
  | cons step rest ih =>
      have ⟨head, tail⟩ := List.forall_mem_cons.mp uploads
      rw [ih tail]
      cases step with
      | uploadOpened stream apart fresh room => rfl
      | uploadClosed stream => rfl
      | _ => exact absurd head Bool.false_ne_true

theorem Closes.ofUpload {wake : Wake} {change : Change} (closes : Closes wake change) :
    change.ofUpload = true := by
  cases closes
  rfl

def SameTables (before : SessionActor τ σ) (_ : List Effect) (after : SessionActor τ σ) : Prop :=
  ∀ guest, after.streams.table guest = before.streams.table guest

theorem sameTables_closed : Closed (SameTables (τ := τ) (σ := σ)) where
  refl _ _ := rfl
  trans first second guest := (second guest).trans (first guest)

theorem within_sameTables {ε : Type} (config : SessionConfig τ σ)
    {action : Act (SessionActor τ σ) Effect ε α}
    (inside : Within (Moves config (Each (Closes .syncTick)) fun _ => True) action) :
    Within SameTables action := by
  intro actor guest
  obtain ⟨changes, chain, closes⟩ := (inside actor).streams
  exact chain.tables (fun change member => (closes change member).ofUpload) guest

variable {config : SessionConfig τ σ} {env : Env}

theorem deliver_sameTables (input : InputEvent) :
    Within SameTables (do deliver config env input; done (none : Option Text)) := by
  refine within_bind sameTables_closed (within_sameTables config ?_) fun _ =>
    within_done sameTables_closed none
  exact deliver_within (fun _ => trivial) input trivial

theorem refuseSome_sameTables (stream : Int) (refusal : Option Refusal) :
    Within SameTables (do refuseSome config env stream refusal; done (none : Option Text)) := by
  refine within_bind sameTables_closed (within_sameTables config ?_) fun _ =>
    within_done sameTables_closed none
  exact refuseSome_within (fun _ _ => trivial) stream refusal (fun _ => trivial)
    (.upload stream (by simp))

theorem onInputFailure_sameTables (err : SessionError) :
    Within SameTables (some <$> onInputFailure config env err : Settled τ σ (Option Text)) := by
  refine within_map sameTables_closed some (within_sameTables config ?_)
  exact onInputFailure_within (fun _ _ => trivial) (fun _ => trivial) trivial err

def Leaves (streams : ClientStreams) (_ : SessionActor τ σ) (_ : List Effect)
    (after : SessionActor τ σ) : Prop :=
  ∀ guest, after.streams.table guest = streams.table guest

theorem leaves_bind {ε β : Type} {streams : ClientStreams}
    {first : Act (SessionActor τ σ) Effect ε α} {next : α → Act (SessionActor τ σ) Effect ε β}
    {actor : SessionActor τ σ} (head : WithinAt (Leaves streams) first actor)
    (tail : ∀ value, Within SameTables (next value)) :
    WithinAt (Leaves streams) (first >>= next) actor :=
  withinAt_bind_of head (fun value _ => tail value _) (fun left => left)
    fun left same guest => (same guest).trans (left guest)

theorem onStreams_leaves (change : ClientStreams → α × ClientStreams × List CounterOp)
    (actor : SessionActor τ σ) :
    WithinAt (Leaves (change actor.streams).2.1) (onStreams change : Handler τ σ α) actor :=
  fun _ => rfl

theorem onClientInput_leaves {instruction : ClientInstruction}
    (pasting : ofPaste (some (false, instruction)) = true) (actor : SessionActor τ σ) :
    WithinAt (Leaves (actor.streams.settled config.base64 env.toReading
      (some (false, instruction)))) (onClientInput config env instruction) actor := by
  cases instruction with
  | clipboard stream mimetype =>
      refine leaves_bind ?_ fun refusal => refuseSome_sameTables stream refusal
      by_cases text : "text/".toList.isPrefixOf mimetype = true
      · rw [if_pos text, ClientStreams.settled, if_pos text]
        exact onStreams_leaves _ actor
      · rw [if_neg text, ClientStreams.settled, if_neg text]
        exact fun _ => rfl
  | blob stream data =>
      change WithinAt _ (if stream ∈ actor.streams.uploadStreams then _ else _) actor
      by_cases upload : stream ∈ actor.streams.uploadStreams
      · rw [if_pos upload, ClientStreams.settled, if_pos ⟨rfl, upload⟩]
        cases config.base64.decode data with
        | none => exact fun _ => rfl
        | some decoded => exact deliver_sameTables _ actor
      · rw [if_neg upload, ClientStreams.settled, if_neg fun both => upload both.2]
        refine leaves_bind ?_ fun refusal => refuseSome_sameTables stream refusal
        exact onStreams_leaves _ actor
  | endStream stream =>
      change WithinAt _ (if stream ∈ actor.streams.uploadStreams then _ else _) actor
      by_cases upload : stream ∈ actor.streams.uploadStreams
      · rw [if_pos upload, ClientStreams.settled, if_pos ⟨rfl, upload⟩]
        refine leaves_bind ?_ fun _ => deliver_sameTables _
        exact fun _ => rfl
      · rw [if_neg upload, ClientStreams.settled, if_neg fun both => upload both.2]
        refine leaves_bind (onStreams_leaves _ actor) fun taken => ?_
        cases taken with
        | none => exact within_done sameTables_closed none
        | some data => exact deliver_sameTables _
  | _ => exact absurd pasting Bool.false_ne_true

theorem onGuestInput_leaves {instruction : ClientInstruction}
    (pasting : ofPaste (some (true, instruction)) = true) (actor : SessionActor τ σ) :
    WithinAt (Leaves (actor.streams.settled config.base64 env.toReading
      (some (true, instruction)))) (onGuestInput config env instruction) actor := by
  have guest : ∀ {held : Prop}, ¬(true = false ∧ held) := fun both => Bool.false_ne_true both.1.symm
  cases instruction with
  | clipboard stream mimetype =>
      by_cases text : "text/".toList.isPrefixOf mimetype = true
      · simp only [onGuestInput, ClientStreams.settled, text, if_true]
        exact leaves_bind (onStreams_leaves _ actor) fun _ => within_done sameTables_closed ()
      · simp only [onGuestInput, ClientStreams.settled, text]
        exact fun _ => rfl
  | blob stream data =>
      rw [ClientStreams.settled, if_neg guest]
      exact leaves_bind (onStreams_leaves _ actor) fun _ => within_done sameTables_closed ()
  | endStream stream =>
      rw [ClientStreams.settled, if_neg guest]
      refine leaves_bind (onStreams_leaves _ actor) fun taken => ?_
      cases taken with
      | none => exact within_done sameTables_closed ()
      | some data => exact within_sameTables config (deliver_within (fun _ => trivial) _ trivial)
  | _ => exact absurd pasting Bool.false_ne_true

theorem Begins.ofUpload {streams : ClientStreams} {wake : Wake} {changes : List Change}
    (begins : Begins streams wake changes) (other : ofPaste wake.said = false) :
    ∀ change ∈ changes, change.ofUpload = true := by
  cases begins with
  | nothing => simp
  | uploadOpened said => simp [Change.ofUpload]
  | _ said => exact absurd (other.symm.trans (said ▸ rfl)) Bool.false_ne_true

theorem settled_other {base64 : Base64.Codec} {reading : Reading} {streams : ClientStreams}
    {said : Option (Bool × ClientInstruction)} (other : ofPaste said = false) :
    streams.settled base64 reading said = streams := by
  unfold ClientStreams.settled
  split <;> first | rfl | exact absurd other Bool.false_ne_true.symm

theorem turn_leaves (wake : Wake) (actor : SessionActor τ σ) :
    WithinAt (Leaves (actor.streams.settled config.base64 env.toReading wake.said))
      (turn config env wake) actor := by
  by_cases pasting : ofPaste wake.said = true
  · cases wake with
    | clientInput instruction =>
        intro guest
        refine Eq.trans ?_ (onClientInput_leaves pasting actor guest)
        cases outcome : (onClientInput config env instruction actor).result with
        | ok reason => simp [turn, resume, outcome, done]
        | error err =>
            simp only [turn, resume, outcome]
            exact onInputFailure_sameTables err _ guest
    | guestInput instruction =>
        intro guest
        refine Eq.trans ?_ (onGuestInput_leaves pasting actor guest)
        cases outcome : (onGuestInput config env instruction actor).result with
        | ok reason => simp [turn, resume, outcome, done]
        | error err =>
            simp only [turn, resume, outcome]
            exact onInputFailure_sameTables err _ guest
    | _ => exact absurd pasting Bool.false_ne_true
  · rw [Bool.not_eq_true] at pasting
    have moves : WithinAt (Moves config _ _) (turn config env wake) actor := turn_within wake actor
    obtain ⟨_, chain, front, back, rfl, begins, closes⟩ := moves.streams
    rw [settled_other pasting]
    refine chain.tables fun change member => ?_
    rcases List.mem_append.mp member with early | late
    · exact begins.ofUpload pasting change early
    · exact (closes change late).ofUpload

/-! ### One pending clipboard -/

section Lookups

variable {reading : Reading} {streams : ClientStreams} {guest side : Bool} {id stream : Int}
  {pending : PendingClipboard}

theorem lookup_withTable {table : Table Int PendingClipboard}
    (present : ((streams.withTable side table).table guest).lookup stream = some pending) :
    side = guest ∧ table.lookup stream = some pending ∨
      side ≠ guest ∧ (streams.table guest).lookup stream = some pending := by
  by_cases same : side = guest
  · subst same
    rw [ClientStreams.table_withTable] at present
    exact .inl ⟨rfl, present⟩
  · have other : guest = !side := Bool.eq_not_of_ne (Ne.symm same)
    subst other
    rw [ClientStreams.table_withTable_not] at present
    exact .inr ⟨same, present⟩

theorem lookup_openClipboard
    (present : ((streams.openClipboard reading id side).2.1.table guest).lookup stream =
      some pending) :
    (side = guest ∧ id = stream ∧ (streams.openClipboard reading id side).1 = none ∧
        pending.data = []) ∨
      ((streams.openClipboard reading id side).1 = none → ¬(side = guest ∧ id = stream)) ∧
        (streams.table guest).lookup stream = some pending := by
  have kept : ((streams.withTable side (retain reading.live (streams.table side))).table
      guest).lookup stream = some pending → (streams.table guest).lookup stream = some pending := by
    intro found
    rcases lookup_withTable found with ⟨rfl, inside⟩ | ⟨_, inside⟩
    · exact lookup_retain _ _ inside
    · exact inside
  unfold ClientStreams.openClipboard at present ⊢
  by_cases used : (!side && streams.streamInUse id) = true
  · rw [if_pos used] at present ⊢
    exact .inr ⟨fun accepted => absurd accepted (Option.some_ne_none _), present⟩
  rw [if_neg used] at present ⊢
  dsimp only at present ⊢
  by_cases taken : id ∈ (streams.withTable side (retain reading.live (streams.table side))).table
      side
  · rw [if_pos taken] at present ⊢
    exact .inr ⟨fun accepted => absurd accepted (Option.some_ne_none _), kept present⟩
  rw [if_neg taken] at present ⊢
  by_cases full : size ((streams.withTable side
      (retain reading.live (streams.table side))).table side) ≥ ClientStreams.limit side
  · rw [if_pos full] at present ⊢
    exact .inr ⟨fun accepted => absurd accepted (Option.some_ne_none _), kept present⟩
  rw [if_neg full] at present ⊢
  by_cases fast : (!reading.mayOpen) = true
  · rw [if_pos fast] at present ⊢
    exact .inr ⟨fun accepted => absurd accepted (Option.some_ne_none _), kept present⟩
  rw [if_neg fast] at present ⊢
  rcases lookup_withTable present with ⟨rfl, inside⟩ | ⟨apart, inside⟩
  · rcases of_lookup_insert _ inside with ⟨rfl, rfl⟩ | ⟨apart, old⟩
    · exact .inl ⟨rfl, rfl, rfl, rfl⟩
    · exact .inr ⟨fun _ both => apart both.2.symm, kept old⟩
  · exact .inr ⟨fun _ both => apart both.1, kept inside⟩

theorem lookup_appendClipboard {base64 : Base64.Codec} {blob : Text}
    (present : ((streams.appendClipboard base64 reading id blob side).2.1.table guest).lookup
      stream = some pending) :
    (side = guest ∧ id = stream ∧ ∃ old decoded, (streams.table guest).lookup stream = some old ∧
        base64.decode blob = some decoded ∧ pending = ⟨old.data ++ decoded, reading.now⟩) ∨
      ¬(side = guest ∧ id = stream) ∧ (streams.table guest).lookup stream = some pending := by
  have removed : ((streams.withTable side ((streams.table side).erase id)).table guest).lookup
      stream = some pending →
      ¬(side = guest ∧ id = stream) ∧ (streams.table guest).lookup stream = some pending := by
    intro found
    rcases lookup_withTable found with ⟨rfl, inside⟩ | ⟨apart, inside⟩
    · have ⟨apart, old⟩ := of_lookup_erase _ inside
      exact ⟨fun both => apart both.2.symm, old⟩
    · exact ⟨fun both => apart both.1, inside⟩
  unfold ClientStreams.appendClipboard at present
  cases held : (streams.table side).lookup id with
  | none =>
      rw [held] at present
      refine .inr ⟨?_, present⟩
      rintro ⟨rfl, rfl⟩
      rw [held] at present
      cases present
  | some old =>
      simp only [held] at present
      split at present
      · exact .inr (removed present)
      split at present
      · exact .inr (removed present)
      cases read : base64.decode blob with
      | none =>
          rw [read] at present
          exact .inr (removed present)
      | some decoded =>
          rw [read] at present
          rcases lookup_withTable present with ⟨rfl, inside⟩ | ⟨apart, inside⟩
          · rcases of_lookup_insert _ inside with ⟨rfl, rfl⟩ | ⟨apart, found⟩
            · exact .inl ⟨rfl, rfl, old, decoded, held, rfl, rfl⟩
            · exact .inr ⟨fun both => apart both.2.symm, found⟩
          · exact .inr ⟨fun both => apart both.1, inside⟩

theorem lookup_takeClipboard
    (present : ((streams.takeClipboard id side).2.1.table guest).lookup stream = some pending) :
    (streams.table guest).lookup stream = some pending := by
  unfold ClientStreams.takeClipboard at present
  split at present
  · exact present
  · rcases lookup_withTable present with ⟨rfl, inside⟩ | ⟨_, inside⟩
    · exact (of_lookup_erase _ inside).2
    · exact inside

end Lookups

def Opens (session : Session τ σ) (woken : Env × Wake) (guest : Bool) (stream : Int) : Prop :=
  session.ended = none ∧
    (∃ mimetype, "text/".toList.isPrefixOf mimetype = true ∧
      woken.2.said = some (guest, .clipboard stream mimetype)) ∧
    (session.actor.streams.openClipboard woken.1.toReading stream guest).1 = none

/-- How a clipboard came to be pending after a wake-up. -/
inductive Held (base64 : Base64.Codec) (session : Session τ σ) (woken : Env × Wake)
    (guest : Bool) (stream : Int) : Bytes → Prop where
  | opened (opens : Opens session woken guest stream) : Held base64 session woken guest stream []
  | appended {pending : PendingClipboard} {blob : Text} {decoded : Bytes}
      (present : (session.actor.streams.table guest).lookup stream = some pending)
      (sent : woken.2.blobOn guest stream = [blob]) (read : base64.decode blob = some decoded) :
      Held base64 session woken guest stream (pending.data ++ decoded)
  | kept {pending : PendingClipboard}
      (present : (session.actor.streams.table guest).lookup stream = some pending)
      (sent : woken.2.blobOn guest stream = []) (shut : ¬Opens session woken guest stream) :
      Held base64 session woken guest stream pending.data

theorem Opens.said {session : Session τ σ} {woken : Env × Wake} {guest : Bool} {stream : Int}
    (opens : Opens session woken guest stream) :
    ∃ mimetype, woken.2.said = some (guest, .clipboard stream mimetype) := by
  obtain ⟨_, ⟨mimetype, _, said⟩, _⟩ := opens
  exact ⟨mimetype, said⟩

theorem not_opens_of_blobOn {session : Session τ σ} {woken : Env × Wake} {guest : Bool}
    {stream : Int} {blob : Text} (sent : woken.2.blobOn guest stream = [blob]) :
    ¬Opens session woken guest stream := by
  intro opens
  obtain ⟨mimetype, said⟩ := opens.said
  rw [Wake.blobOn, said] at sent
  cases sent

theorem held_of_settled {base64 : Base64.Codec} {session : Session τ σ} {woken : Env × Wake}
    {guest : Bool} {stream : Int} {pending : PendingClipboard} (going : session.ended = none)
    (limits : Limits session.actor.streams)
    (present : ((session.actor.streams.settled base64 woken.1.toReading woken.2.said).table
      guest).lookup stream = some pending) :
    Held base64 session woken guest stream pending.data := by
  have unsaid : ∀ {said}, woken.2.said = said →
      (∀ mimetype, said ≠ some (guest, .clipboard stream mimetype)) →
      ¬Opens session woken guest stream := by
    intro said spoken other opens
    obtain ⟨mimetype, opening⟩ := opens.said
    exact other mimetype (spoken.symm.trans opening)
  unfold ClientStreams.settled at present
  split at present
  · next side id mimetype said =>
      have silent : woken.2.blobOn guest stream = [] := by rw [Wake.blobOn, said]
      split at present
      · next text =>
          rcases lookup_openClipboard present with ⟨rfl, rfl, accepted, empty⟩ | ⟨refused, old⟩
          · rw [empty]
            exact .opened ⟨going, ⟨mimetype, text, said⟩, accepted⟩
          · refine .kept old silent fun opens => ?_
            obtain ⟨other, opening⟩ := opens.said
            cases said.symm.trans opening
            exact refused opens.2.2 ⟨rfl, rfl⟩
      · next binary =>
          refine .kept present silent fun opens => ?_
          obtain ⟨_, ⟨other, text, opening⟩, _⟩ := opens
          cases said.symm.trans opening
          exact binary text
  · next side id blob said =>
      have spoke : woken.2.blobOn guest stream =
          if side = guest ∧ id = stream then [blob] else [] := by rw [Wake.blobOn, said]
      have shut := unsaid said (by simp)
      split at present
      · next upload =>
          -- an upload has the number, so this side has no clipboard pending under it
          refine .kept present (spoke.trans (if_neg ?_)) shut
          rintro ⟨rfl, rfl⟩
          have member := AList.lookup_isSome.mp (Option.isSome_of_eq_some present)
          exact limits.apart upload.1 member upload.2
      · rcases lookup_appendClipboard present with
          ⟨rfl, rfl, old, decoded, held, read, rfl⟩ | ⟨apart, old⟩
        · exact .appended held (spoke.trans (if_pos ⟨rfl, rfl⟩)) read
        · exact .kept old (spoke.trans (if_neg apart)) shut
  · next side id said =>
      have silent : woken.2.blobOn guest stream = [] := by rw [Wake.blobOn, said]
      have shut := unsaid said (by simp)
      split at present
      · exact .kept present silent shut
      · exact .kept (lookup_takeClipboard present) silent shut
  · next said notClipboard notBlob notEnd =>
      refine .kept present ?_ fun opens => ?_
      · rw [Wake.blobOn]
        split
        · next side id data said => exact absurd said (notBlob side id data)
        · rfl
      · obtain ⟨mimetype, opening⟩ := opens.said
        exact notClipboard guest stream mimetype opening

theorem lookup_empty {guest : Bool} {stream : Int} {pending : PendingClipboard}
    (present : (ClientStreams.empty.table guest).lookup stream = some pending) : False := by
  cases guest <;> simp [ClientStreams.empty, ClientStreams.table] at present

theorem sessionStep_held {session : Session τ σ} {woken : Env × Wake} {guest : Bool}
    {stream : Int} {pending : PendingClipboard} (limits : Limits session.actor.streams)
    (torn : session.ended ≠ none → session.actor.streams = .empty)
    (present : ((sessionStep config session woken).1.actor.streams.table guest).lookup stream =
      some pending) :
    Held config.base64 session woken guest stream pending.data := by
  obtain ⟨actor, ended⟩ := session
  cases ended with
  | some reason =>
      have empty : actor.streams = .empty := torn (by simp)
      change (actor.streams.table guest).lookup stream = some pending at present
      rw [empty] at present
      exact (lookup_empty present).elim
  | none =>
      have left : WithinAt (Leaves _) (turn config woken.1 woken.2) actor :=
        turn_leaves woken.2 actor
      cases answered : answer (turn config woken.1 woken.2) actor with
      | none =>
          simp only [sessionStep, answered] at present
          rw [left guest] at present
          exact held_of_settled rfl limits present
      | some reason =>
          simp only [sessionStep, answered, teardown_state] at present
          exact (lookup_empty present).elim

theorem sessionStep_torn {session : Session τ σ} (woken : Env × Wake)
    (torn : session.ended ≠ none → session.actor.streams = .empty)
    (ended : (sessionStep config session woken).1.ended ≠ none) :
    (sessionStep config session woken).1.actor.streams = .empty := by
  have step := sessionStep_spec config session woken
  generalize (sessionStep config session woken).2 = trace at step
  generalize (sessionStep config session woken).1 = after at step ended ⊢
  cases step with
  | past actor reason => exact torn ended
  | turned moves => exact absurd rfl ended
  | closed reason moves dropped silent => rfl

/-! ### Whole runs -/

/-- One side's stream was opened in the past, has been open ever since without being opened
again, and all the blobs that side sent on it since then decode, one after the other, to
`data`. -/
def Collected (config : SessionConfig τ σ) (start : Session τ σ) (past : List (Env × Wake))
    (guest : Bool) (stream : Int) (data : Bytes) : Prop :=
  ∃ before opening since parts, past = before ++ opening :: since ∧
    Opens (run (sessionStep config) start before).1 opening guest stream ∧
    (∀ front, front <+: since →
      stream ∈ (run (sessionStep config) start (before ++ opening :: front)).1.actor.streams.table
        guest) ∧
    (∀ front woken rest, since = front ++ woken :: rest →
      ¬Opens (run (sessionStep config) start (before ++ opening :: front)).1 woken guest stream) ∧
    (sentOn since guest stream).mapM config.base64.decode = some parts ∧ data = parts.flatten

section Histories

variable {start : Session τ σ} {past : List (Env × Wake)} {woken : Env × Wake} {guest : Bool}
  {stream : Int} {data : Bytes}

theorem Collected.concat {more : List Bytes}
    (collected : Collected config start past guest stream data)
    (held : stream ∈ (run (sessionStep config) start (past ++ [woken])).1.actor.streams.table guest)
    (shut : ¬Opens (run (sessionStep config) start past).1 woken guest stream)
    (read : (woken.2.blobOn guest stream).mapM config.base64.decode = some more) :
    Collected config start (past ++ [woken]) guest stream (data ++ more.flatten) := by
  obtain ⟨before, opening, since, parts, rfl, opens, stays, once, decoded, rfl⟩ := collected
  refine ⟨before, opening, since ++ [woken], parts ++ more, by simp, opens, ?_, ?_, ?_, by simp⟩
  · intro front inside
    rcases List.prefix_concat_iff.mp inside with rfl | early
    · simpa using held
    · exact stays front early
  · intro front other rest split
    rcases List.eq_nil_or_concat rest with rfl | ⟨rest, last, rfl⟩
    · obtain ⟨rfl, same⟩ := List.append_inj' split rfl
      cases same
      exact shut
    · rw [List.concat_eq_append, ← List.cons_append, ← List.append_assoc] at split
      exact once front other rest (List.append_inj' split rfl).1
  · rw [sentOn_concat, List.mapM_append, decoded, read]
    rfl

theorem collected_of_opens
    (opens : Opens (run (sessionStep config) start past).1 woken guest stream)
    (held : stream ∈ (run (sessionStep config) start (past ++ [woken])).1.actor.streams.table guest)
    : Collected config start (past ++ [woken]) guest stream [] := by
  refine ⟨past, woken, [], [], rfl, opens, ?_, ?_, rfl, rfl⟩
  · intro front inside
    rw [List.prefix_nil.mp inside]
    exact held
  · intro front other rest split
    cases front <;> cases split

theorem collected_of_held
    (known : ∀ guest stream pending,
      ((run (sessionStep config) start past).1.actor.streams.table guest).lookup stream =
        some pending → Collected config start past guest stream pending.data)
    (present : stream ∈
      (run (sessionStep config) start (past ++ [woken])).1.actor.streams.table guest)
    (held : Held config.base64 (run (sessionStep config) start past).1 woken guest stream data) :
    Collected config start (past ++ [woken]) guest stream data := by
  cases held with
  | opened opens => exact collected_of_opens opens present
  | @appended pending blob decoded old sent read =>
      have one : (woken.2.blobOn guest stream).mapM config.base64.decode = some [decoded] := by
        simp [sent, read]
      have grown := (known guest stream _ old).concat present (not_opens_of_blobOn sent) one
      simpa using grown
  | kept old sent shut =>
      have none : (woken.2.blobOn guest stream).mapM config.base64.decode = some [] := by
        simp [sent]
      have same := (known guest stream _ old).concat present shut none
      simpa using same

end Histories

theorem pending_collected (config : SessionConfig τ σ) (engine : τ) (encoder : σ)
    (past : List (Env × Wake)) :
    let session := (run (sessionStep config) (spawn engine encoder) past).1
    (session.ended ≠ none → session.actor.streams = .empty) ∧
    ∀ guest stream pending, (session.actor.streams.table guest).lookup stream = some pending →
      Collected config (spawn engine encoder) past guest stream pending.data := by
  refine run_history (fun past _ (session : Session τ σ) =>
    (session.ended ≠ none → session.actor.streams = .empty) ∧
    ∀ guest stream pending, (session.actor.streams.table guest).lookup stream = some pending →
      Collected config (spawn engine encoder) past guest stream pending.data) ?_ ?_ past
  · refine ⟨fun _ => rfl, ?_⟩
    intro guest stream pending present
    exact (lookup_empty present).elim
  · intro past woken ⟨torn, known⟩
    refine ⟨sessionStep_torn woken torn, ?_⟩
    intro guest stream pending present
    have limits := session_within_limits config engine encoder past
    refine collected_of_held known ?_ (sessionStep_held limits torn present)
    rw [run_concat, ← AList.lookup_isSome, present]
    rfl

/-- Over every interleaving, a paste reaches the engine only where its sender ends a stream, and
holds just what was sent on it since it was opened: all of it, in order. A stream that a refused
or malformed blob has closed has nothing left to end. -/
theorem paste_is_whole (config : SessionConfig τ σ) (engine : τ) (encoder : σ)
    (past : List (Env × Wake)) (woken : Env × Wake) (data : Bytes)
    (delivered : .engine (.clipboard data) ∈
      (sessionStep config (run (sessionStep config) (spawn engine encoder) past).1 woken).2) :
    ∃ guest stream, woken.2.said = some (guest, .endStream stream) ∧
      Collected config (spawn engine encoder) past guest stream data := by
  have known := (pending_collected config engine encoder past).2
  have held : Delivers (run (sessionStep config) (spawn engine encoder) past).1.actor.streams
      woken.2 (.engine (.clipboard data)) :=
    (sessionStep_spec config _ woken).delivers delivered
  obtain ⟨guest, stream, pending, said, present, rfl⟩ := held data rfl
  exact ⟨guest, stream, said, known guest stream pending present⟩

/-- A guest's paste is refused at a broken blob, opened again and sent in two blobs, while the
operator pastes under the same number. -/
def pasteAgain : List (Env × Wake) :=
  [(calm, .guestInput (.clipboard 1 "text/plain".toList)),
    (calm, .guestInput (.blob 1 "YQ==".toList)),
    (calm, .guestInput (.blob 1 "?".toList)),
    (calm, .guestInput (.blob 1 "YQ==".toList)),
    (calm, .guestInput (.clipboard 1 "text/plain".toList)),
    (calm, .clientInput (.clipboard 1 "text/plain".toList)),
    (calm, .guestInput (.blob 1 "Yg==".toList)),
    (calm, .clientInput (.blob 1 "YQ==".toList)),
    (calm, .guestInput (.blob 1 "Yw==".toList))]

theorem paste_is_whole_again :
    .engine (.clipboard [98, 99]) ∈
      (sessionStep plainSession (run (sessionStep plainSession) (spawn () ()) pasteAgain).1
        (calm, .guestInput (.endStream 1))).2 ∧
    ∃ guest stream, Wake.said (.guestInput (.endStream 1)) = some (guest, .endStream stream) ∧
      Collected plainSession (spawn () ()) pasteAgain guest stream [98, 99] :=
  ⟨by decide, paste_is_whole plainSession () () pasteAgain (calm, .guestInput (.endStream 1))
    [98, 99] (by decide)⟩

end Strata.Actor
