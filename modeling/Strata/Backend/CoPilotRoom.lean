import Mathlib.Tactic
import Strata.Lib.Machine
import Strata.Lib.RustStr
import Strata.Lib.Tables

/-! The co-pilot room of a session: who is in it, in which order they came, and who of them holds
the one input token. Every call runs under the room's write lock. -/

namespace Strata.Backend.CoPilot

open Utf8 (Text)
open RustInt (natText)
open RustStr (isWhitespace trimEndMatches)
open Tables
open Machine

def maxDisplayNameLen : Nat := 40
def maxParticipants : Nat := 6

def inputIdleGrantAfter : Nat := 2 * 1000000000

def colorPalette : List Text :=
  ["#3b82f6", "#10b981", "#f59e0b", "#ef4444", "#8b5cf6", "#ec4899", "#14b8a6", "#f97316"].map
    String.toList

/-! ### Names and colours -/

/-- `char::is_control`: the category `Cc`. -/
def isControl (c : Char) : Bool := c.toNat ≤ 0x1F || (0x7F ≤ c.toNat && c.toNat ≤ 0x9F)

def byteLen (text : Text) : Nat := (Utf8.encode text).length

def collapse : Text → Text → Bool → Text
  | [], out, _ => out
  | c :: rest, out, prevWasWs =>
      if isWhitespace c then
        if prevWasWs || out.isEmpty then collapse rest out prevWasWs
        else if byteLen (out ++ [' ']) ≥ maxDisplayNameLen then out ++ [' ']
        else collapse rest (out ++ [' ']) true
      else if isControl c then collapse rest out prevWasWs
      else if byteLen (out ++ [c]) ≥ maxDisplayNameLen then out ++ [c]
      else collapse rest (out ++ [c]) false

/-- Pops characters off the end, here the front of the reversed text, until it fits. -/
def popToFit : Text → Text
  | [] => []
  | c :: rest => if byteLen (c :: rest) > maxDisplayNameLen then popToFit rest else c :: rest

def sanitiseDisplayName (raw : Text) : Text :=
  (popToFit (trimEndMatches ' ' (collapse raw [] false)).reverse).reverse

def suffixed (base suffix : Text) : Text := base ++ " (".toList ++ suffix ++ ")".toList

/-- `tag` is the short random tag of the last resort. -/
def disambiguate (tag base : Text) (used : List Text) : Text :=
  if base ∉ used then base
  else
    match (List.range' 2 98).find? fun n => suffixed base (natText n) ∉ used with
    | some n => suffixed base (natText n)
    | none => suffixed base tag

def pickColor (used : List Text) (index : Nat) : Text :=
  match colorPalette.find? (· ∉ used) with
  | some color => color
  | none => colorPalette.getD (index % colorPalette.length) []

theorem disambiguate_notMem {tag base : Text} {used : List Text}
    (unused : suffixed base tag ∉ used) : disambiguate tag base used ∉ used := by
  unfold disambiguate
  by_cases free : base ∉ used
  · rw [if_pos free]
    exact free
  · rw [if_neg free]
    cases found : (List.range' 2 98).find? fun n => suffixed base (natText n) ∉ used with
    | some n => simpa using List.find?_some found
    | none => exact unused

/-! ### The room -/

variable {κ : Type}

structure Participant (κ : Type) where
  pid : κ
  displayName : Text
  color : Text
  isOwner : Bool
  joinedAt : Nat
  deriving DecidableEq, Repr

inductive InputClaimResult (κ : Type) where
  | granted (previous : Option κ)
  | denied (currentHolder : κ)
  | alreadyHeld
  | unknownParticipant
  deriving DecidableEq, Repr

inductive JoinError where
  | roomFull
  | emptyDisplayName
  deriving DecidableEq, Repr

structure RosterEntry (κ : Type) where
  pid : κ
  displayName : Text
  color : Text
  hasInput : Bool
  isOwner : Bool
  deriving DecidableEq, Repr

structure RoomState (κ : Type) where
  participants : Table κ (Participant κ)
  joinOrder : List κ
  inputHolder : Option κ
  inputLastActivity : Nat

structure Iteration (α : Type) where
  values : List α → List α
  perm : ∀ all, (values all).Perm all

namespace RoomState

def new (now : Nat) : RoomState κ := ⟨∅, [], none, now⟩

def all (state : RoomState κ) : List (Participant κ) :=
  state.participants.entries.map fun entry => entry.2

def usedNames (state : RoomState κ) : List Text := state.all.map (·.displayName)

def revokeInput (now : Nat) (state : RoomState κ) : Option κ × RoomState κ :=
  (state.inputHolder, { state with inputHolder := none, inputLastActivity := now })

variable [DecidableEq κ]

/-- The owner may always come in, even where the room is full. -/
def join (displayName : Text) (isOwner : Bool) (pid : κ) (tag : Text) (now : Nat)
    (state : RoomState κ) : Except JoinError (Participant κ) × RoomState κ :=
  if !isOwner && size state.participants ≥ maxParticipants then (.error .roomFull, state)
  else
    let cleaned := sanitiseDisplayName displayName
    if cleaned.isEmpty then (.error .emptyDisplayName, state)
    else
      let participant : Participant κ :=
        { pid := pid
          displayName := disambiguate tag cleaned state.usedNames
          color := pickColor (state.all.map (·.color)) (size state.participants)
          isOwner := isOwner
          joinedAt := now }
      let takes := isOwner && state.inputHolder.isNone
      (.ok participant,
        { participants := state.participants.insert pid participant
          joinOrder := state.joinOrder ++ [pid]
          inputHolder := if takes then some pid else state.inputHolder
          inputLastActivity := if takes then now else state.inputLastActivity })

def leave (iteration : Iteration (Participant κ)) (pid : κ) (now : Nat) (state : RoomState κ) :
    Bool × RoomState κ :=
  match state.participants.lookup pid with
  | none => (false, state)
  | some _ =>
      let rest : RoomState κ :=
        { state with
          participants := state.participants.erase pid
          joinOrder := state.joinOrder.filter (· != pid) }
      if state.inputHolder = some pid then
        let ownerPid := ((iteration.values rest.all).find? (·.isOwner)).map (·.pid)
        (true, { rest with inputHolder := ownerPid, inputLastActivity := now })
      else (true, rest)

def roster (state : RoomState κ) : List (RosterEntry κ) :=
  state.joinOrder.filterMap fun pid =>
    (state.participants.lookup pid).map fun p =>
      ⟨pid, p.displayName, p.color, state.inputHolder = some pid, p.isOwner⟩

def tryClaimInput (pid : κ) (now : Nat) (state : RoomState κ) :
    InputClaimResult κ × RoomState κ :=
  match state.participants.lookup pid with
  | none => (.unknownParticipant, state)
  | some p =>
      let granted := (InputClaimResult.granted state.inputHolder,
        { state with inputHolder := some pid, inputLastActivity := now })
      match state.inputHolder with
      | none => granted
      | some current =>
          if current = pid then (.alreadyHeld, state)
          else if !p.isOwner && now - state.inputLastActivity < inputIdleGrantAfter then
            (.denied current, state)
          else granted

def releaseInput (pid : κ) (now : Nat) (state : RoomState κ) : Bool × RoomState κ :=
  if state.inputHolder = some pid then
    (true, { state with inputHolder := none, inputLastActivity := now })
  else (false, state)

/-- The error for an unknown target is borrowed from `join`. -/
def forceGrant (target : κ) (now : Nat) (state : RoomState κ) :
    Except JoinError (Option κ) × RoomState κ :=
  if target ∉ state.participants then (.error .emptyDisplayName, state)
  else (.ok state.inputHolder, { state with inputHolder := some target, inputLastActivity := now })

def noteInputActivity (pid : κ) (now : Nat) (state : RoomState κ) : Bool × RoomState κ :=
  if state.inputHolder = some pid then (true, { state with inputLastActivity := now })
  else (false, state)

end RoomState

def nonOwners (participants : Table κ (Participant κ)) : Nat :=
  total (fun p => if p.isOwner then 0 else 1) participants

inductive Call (κ : Type) where
  | join (displayName : Text) (isOwner : Bool) (pid : κ) (tag : Text)
  | leave (pid : κ)
  | tryClaimInput (pid : κ)
  | releaseInput (pid : κ)
  | revokeInput
  | forceGrant (target : κ)
  | noteInputActivity (pid : κ)
  deriving DecidableEq, Repr

inductive Answer (κ : Type) where
  | joined (result : Except JoinError (Participant κ))
  | left (removed : Bool)
  | claimed (result : InputClaimResult κ)
  | released (was : Bool)
  | revoked (previous : Option κ)
  | granted (result : Except JoinError (Option κ))
  | noted (active : Bool)

variable [DecidableEq κ]

def roomStep (iteration : Iteration (Participant κ)) (state : RoomState κ) (call : Call κ × Nat) :
    RoomState κ × List (Answer κ) :=
  match call.1 with
  | .join displayName isOwner pid tag =>
      let out := state.join displayName isOwner pid tag call.2
      (out.2, [.joined out.1])
  | .leave pid =>
      let out := state.leave iteration pid call.2
      (out.2, [.left out.1])
  | .tryClaimInput pid =>
      let out := state.tryClaimInput pid call.2
      (out.2, [.claimed out.1])
  | .releaseInput pid =>
      let out := state.releaseInput pid call.2
      (out.2, [.released out.1])
  | .revokeInput =>
      let out := state.revokeInput call.2
      (out.2, [.revoked out.1])
  | .forceGrant target =>
      let out := state.forceGrant target call.2
      (out.2, [.granted out.1])
  | .noteInputActivity pid =>
      let out := state.noteInputActivity pid call.2
      (out.2, [.noted out.1])

/-- The random values drawn for a joining participant are not in use. -/
def Fresh (state : RoomState κ) (call : Call κ × Nat) : Prop :=
  match call.1 with
  | .join displayName _ pid tag =>
      pid ∉ state.participants ∧ suffixed (sanitiseDisplayName displayName) tag ∉ state.usedNames
  | _ => True

instance decidableFresh (state : RoomState κ) :
    (call : Call κ × Nat) → Decidable (Fresh state call)
  | (.join .., _) => inferInstanceAs (Decidable (_ ∧ _))
  | (.leave _, _) | (.tryClaimInput _, _) | (.releaseInput _, _) | (.revokeInput, _)
  | (.forceGrant _, _) | (.noteInputActivity _, _) => .isTrue trivial

/-! ### What holds in every room -/

structure Consistent (state : RoomState κ) : Prop where
  keyed : ∀ pid p, state.participants.lookup pid = some p → p.pid = pid
  holder : ∀ pid, state.inputHolder = some pid → pid ∈ state.participants
  distinct : state.joinOrder.Nodup
  present : state.joinOrder.Perm state.participants.keys
  names : ∀ first second p q, state.participants.lookup first = some p →
    state.participants.lookup second = some q → p.displayName = q.displayName → first = second
  guests : nonOwners state.participants ≤ maxParticipants

theorem consistent_new (now : Nat) : Consistent (RoomState.new now : RoomState κ) where
  keyed := fun pid p found => by cases found
  holder := fun pid held => by cases held
  distinct := List.nodup_nil
  present := .refl _
  names := fun first second p q found => by cases found
  guests := Nat.zero_le _

namespace Consistent

variable {state : RoomState κ}

theorem hand (consistent : Consistent state) (holder : Option κ) (now : Nat)
    (inside : ∀ pid, holder = some pid → pid ∈ state.participants) :
    Consistent { state with inputHolder := holder, inputLastActivity := now } :=
  ⟨consistent.keyed, inside, consistent.distinct, consistent.present, consistent.names,
    consistent.guests⟩

theorem mem_usedNames {pid : κ} {p : Participant κ}
    (found : state.participants.lookup pid = some p) : p.displayName ∈ state.usedNames := by
  have member : Sigma.mk pid p ∈ state.participants.entries := AList.mem_lookup_iff.mp found
  exact List.mem_map_of_mem (List.mem_map_of_mem member)

theorem enter (consistent : Consistent state) {pid : κ} {p : Participant κ}
    (absent : pid ∉ state.participants) (own : p.pid = pid)
    (named : p.displayName ∉ state.usedNames)
    (room : p.isOwner = true ∨ size state.participants < maxParticipants) (holder : Option κ)
    (now : Nat)
    (inside : ∀ other, holder = some other → other = pid ∨ other ∈ state.participants) :
    Consistent ⟨state.participants.insert pid p, state.joinOrder ++ [pid], holder, now⟩ := by
  have outside : pid ∉ state.participants.keys := absent
  constructor
  case keyed =>
    intro other q found
    rcases of_lookup_insert _ found with ⟨rfl, rfl⟩ | ⟨_, old⟩
    · exact own
    · exact consistent.keyed other q old
  case holder =>
    intro other held
    exact (AList.mem_insert _).mpr (inside other held)
  case distinct =>
    refine consistent.distinct.append (List.nodup_singleton pid) (List.disjoint_singleton.mpr ?_)
    exact fun member => outside (consistent.present.mem_iff.mp member)
  case present =>
    rw [AList.keys_insert, List.erase_of_not_mem outside]
    exact (List.perm_append_singleton pid _).trans (consistent.present.cons pid)
  case names =>
    intro first second q r found other same
    rcases of_lookup_insert _ found with ⟨rfl, rfl⟩ | ⟨_, old⟩
    · rcases of_lookup_insert _ other with ⟨rfl, rfl⟩ | ⟨_, old'⟩
      · rfl
      · exact absurd (same ▸ mem_usedNames old') named
    · rcases of_lookup_insert _ other with ⟨rfl, rfl⟩ | ⟨_, old'⟩
      · exact absurd (same ▸ mem_usedNames old) named
      · exact consistent.names first second q r old old' same
  case guests =>
    rw [nonOwners, total_insert_of_notMem _ _ absent]
    rcases room with owner | free
    · rw [owner]
      exact consistent.guests
    · have few : nonOwners state.participants ≤ size state.participants * 1 := by
        refine total_le_of_each _ _ fun entry _ => ?_
        split <;> decide
      rw [nonOwners] at few
      split <;> omega

theorem dismiss (consistent : Consistent state) (pid : κ) (holder : Option κ) (now : Nat)
    (inside : ∀ other, holder = some other → other ∈ state.participants.erase pid) :
    Consistent ⟨state.participants.erase pid, state.joinOrder.filter (· != pid), holder, now⟩ := by
  constructor
  case keyed =>
    intro other p found
    exact consistent.keyed other p (of_lookup_erase _ found).2
  case holder => exact inside
  case distinct => exact consistent.distinct.filter _
  case present =>
    rw [← consistent.distinct.erase_eq_filter, AList.keys_erase]
    exact consistent.present.erase pid
  case names =>
    intro first second p q found other
    exact consistent.names first second p q (of_lookup_erase _ found).2 (of_lookup_erase _ other).2
  case guests =>
    have split := total_erase (fun p : Participant κ => if p.isOwner then 0 else 1)
      state.participants pid
    have most := consistent.guests
    rw [nonOwners] at most ⊢
    dsimp only
    omega

theorem owner_mem (consistent : Consistent state) (iteration : Iteration (Participant κ)) (pid : κ)
    {owner : κ}
    (found : ((iteration.values ((state.participants.erase pid).entries.map fun entry =>
      entry.2)).find? (·.isOwner)).map (·.pid) = some owner) :
    owner ∈ state.participants.erase pid := by
  obtain ⟨p, first, rfl⟩ := Option.map_eq_some_iff.mp found
  have member := (iteration.perm _).mem_iff.mp (List.mem_of_find?_eq_some first)
  obtain ⟨⟨key, q⟩, inside, rfl⟩ := List.mem_map.mp member
  have present : (state.participants.erase pid).lookup key = some q :=
    AList.mem_lookup_iff.mpr inside
  have own := consistent.keyed key q (of_lookup_erase _ present).2
  rw [← AList.lookup_isSome]
  dsimp only
  rw [own, present]
  rfl

end Consistent

section Steps

variable {state : RoomState κ}

theorem join_consistent (consistent : Consistent state) (displayName : Text) (isOwner : Bool)
    {pid : κ} {tag : Text} (now : Nat) (absent : pid ∉ state.participants)
    (unused : suffixed (sanitiseDisplayName displayName) tag ∉ state.usedNames) :
    Consistent (state.join displayName isOwner pid tag now).2 := by
  unfold RoomState.join
  split
  · exact consistent
  · next room =>
      dsimp only
      split
      · exact consistent
      · refine consistent.enter absent rfl (disambiguate_notMem unused) ?_ _ _ ?_
        · cases isOwner
          · right
            simpa using room
          · exact .inl rfl
        · intro other held
          split at held
          · exact .inl (Option.some.inj held).symm
          · exact .inr (consistent.holder other held)

theorem leave_consistent (consistent : Consistent state) (iteration : Iteration (Participant κ))
    (pid : κ) (now : Nat) : Consistent (state.leave iteration pid now).2 := by
  unfold RoomState.leave
  split
  · exact consistent
  · dsimp only
    split
    · refine consistent.dismiss pid _ now ?_
      intro owner found
      exact consistent.owner_mem iteration pid found
    · next other =>
        refine consistent.dismiss pid _ _ ?_
        intro holder held
        refine AList.mem_erase.mpr ⟨?_, consistent.holder holder held⟩
        rintro rfl
        exact other held

theorem tryClaimInput_consistent (consistent : Consistent state) (pid : κ) (now : Nat) :
    Consistent (state.tryClaimInput pid now).2 := by
  unfold RoomState.tryClaimInput
  cases found : state.participants.lookup pid with
  | none => exact consistent
  | some p =>
      have granted :
          Consistent { state with inputHolder := some pid, inputLastActivity := now } := by
        refine consistent.hand _ now ?_
        rintro other ⟨⟩
        exact AList.lookup_isSome.mp (Option.isSome_of_eq_some found)
      dsimp only
      split
      · exact granted
      · split
        · exact consistent
        · split
          · exact consistent
          · exact granted

theorem roomStep_consistent (consistent : Consistent state) (iteration : Iteration (Participant κ))
    (call : Call κ × Nat) (fresh : Fresh state call) :
    Consistent (roomStep iteration state call).1 := by
  obtain ⟨call, now⟩ := call
  cases call with
  | join displayName isOwner pid tag =>
      exact join_consistent consistent displayName isOwner now fresh.1 fresh.2
  | leave pid => exact leave_consistent consistent iteration pid now
  | tryClaimInput pid => exact tryClaimInput_consistent consistent pid now
  | releaseInput pid =>
      change Consistent (state.releaseInput pid now).2
      unfold RoomState.releaseInput
      split
      · exact consistent.hand none now (fun _ held => by cases held)
      · exact consistent
  | revokeInput => exact consistent.hand none now (fun _ held => by cases held)
  | forceGrant target =>
      change Consistent (state.forceGrant target now).2
      unfold RoomState.forceGrant
      split
      · exact consistent
      · next known =>
          refine consistent.hand (some target) now ?_
          rintro other ⟨⟩
          exact not_not.mp known
  | noteInputActivity pid =>
      change Consistent (state.noteInputActivity pid now).2
      unfold RoomState.noteInputActivity
      split
      · exact consistent.hand state.inputHolder now consistent.holder
      · exact consistent

theorem roster_inputs_le (consistent : Consistent state) :
    state.roster.countP (·.hasInput) ≤ 1 := by
  have shown : state.roster.countP (·.hasInput) ≤
      state.joinOrder.countP fun pid => state.inputHolder = some pid := by
    rw [RoomState.roster, List.countP_filterMap]
    refine List.countP_mono_left fun pid _ input => ?_
    cases found : state.participants.lookup pid <;> simp_all
  refine shown.trans ?_
  cases holder : state.inputHolder with
  | none => simp
  | some pid =>
      have once := List.nodup_iff_count_le_one.mp consistent.distinct pid
      rw [List.count] at once
      refine Nat.le_trans (List.countP_mono_left fun other _ same => ?_) once
      exact beq_iff_eq.mpr (Option.some.inj (of_decide_eq_true same)).symm

end Steps

/-- However its calls are ordered, a room stays consistent, the token shows at one participant at
most, and only its holder's input is passed on. -/
theorem room_consistent (iteration : Iteration (Participant κ)) (opened : Nat)
    (calls : List (Call κ × Nat))
    (fresh : Meets (roomStep iteration) Fresh (RoomState.new opened) calls) :
    let state := (run (roomStep iteration) (RoomState.new opened) calls).1
    Consistent state ∧ state.roster.countP (·.hasInput) ≤ 1 ∧
      ∀ pid now, (state.noteInputActivity pid now).1 = true → state.inputHolder = some pid := by
  intro state
  have consistent : Consistent state :=
    run_invariant_of (fun _ (state : RoomState κ) => Consistent state) (consistent_new opened)
      (fun _ call _ kept drawn => roomStep_consistent kept iteration call drawn) calls fresh
  refine ⟨consistent, roster_inputs_le consistent, ?_⟩
  intro pid now active
  unfold RoomState.noteInputActivity at active
  split at active
  · next held => exact held
  · cases active

def sameName : List (Call Nat × Nat) :=
  [(.join "Alex".toList true 1 "0a1b2c3d".toList, 0),
    (.join " Al\tex".toList false 2 "4e5f6071".toList, 1),
    (.join "Alex".toList false 3 "82930a1b".toList, 2),
    (.tryClaimInput 3, 3), (.tryClaimInput 3, inputIdleGrantAfter), (.leave 3, 3000000000)]

theorem room_consistent_same_name :
    let iteration : Iteration (Participant Nat) := ⟨id, fun _ => .refl _⟩
    let state := (run (roomStep iteration) (RoomState.new 0) sameName).1
    Meets (roomStep iteration) Fresh (RoomState.new 0) sameName ∧ state.inputHolder = some 1 ∧
      state.usedNames = ["Al ex".toList, "Alex".toList] ∧
      Consistent state ∧ state.roster.countP (·.hasInput) ≤ 1 ∧
      ∀ pid now, (state.noteInputActivity pid now).1 = true → state.inputHolder = some pid :=
  ⟨by decide, by decide, by decide, room_consistent ⟨id, fun _ => .refl _⟩ 0 sameName (by decide)⟩

end Strata.Backend.CoPilot
