import Mathlib.Tactic
import Strata.Lib.Machine
import Strata.Lib.Tables

/-! One replica at a time for a periodic job. A pass claims the job's row by one conditional
upsert and ends its claim by one update. A statement that waits for the row keeps the `now()` it
began with, so it may be carried out long after that time. -/

namespace Strata.Backend.WorkerLease

open Tables (Table)

variable {κ ι : Type}

structure Lease (ι : Type) where
  holder : ι
  startedAt : Int
  expiresAt : Int
  completedAt : Option Int
  deriving DecidableEq, Repr

/-- The upsert, and whether it returned the holder. -/
def tryClaim (now : Int) (holder : ι) (ttl minGap : Nat) :
    Option (Lease ι) → Option (Lease ι) × Bool
  | none => (some ⟨holder, now, now + ttl, none⟩, true)
  | some row =>
      if row.expiresAt ≤ now ∧ row.startedAt ≤ now - minGap then
        (some { row with holder := holder, startedAt := now, expiresAt := now + ttl }, true)
      else (some row, false)

def complete [DecidableEq ι] (now : Int) (holder : ι) : Option (Lease ι) → Option (Lease ι)
  | none => none
  | some row =>
      if row.holder = holder then
        some { row with expiresAt := now, completedAt := some now }
      else some row

inductive Statement (ι : Type) where
  | tryClaim (holder : ι) (ttl minGap : Nat)
  | complete (holder : ι)
  deriving DecidableEq, Repr

structure Claim (ι : Type) where
  holder : ι
  startedAt : Int
  expiresAt : Int
  minGap : Nat
  deriving DecidableEq, Repr

/-- `inFlight` holds the statements that have begun, each with its `now()`. `claims` is history:
the successful claims in order, each with the end its holder gave it. -/
structure State (κ ι : Type) where
  clock : Int
  row : Option (Lease ι)
  inFlight : Table κ (Statement ι × Int)
  claims : List (Claim ι)

def State.new : State κ ι := ⟨0, none, ∅, []⟩

inductive Event (κ ι : Type) where
  | tick (elapsed : Nat)
  | start (key : κ) (statement : Statement ι)
  /-- The statement has the row and is carried out. -/
  | execute (key : κ)
  /-- The statement is given up before that. -/
  | abandon (key : κ)

def Claim.Unexpired (claim : Claim ι) (time : Int) : Prop :=
  claim.startedAt ≤ time ∧ time < claim.expiresAt

def TakenOver (claims : List (Claim ι)) (holder : ι) : Prop :=
  ∃ claim ∈ claims.dropLast, claim.holder = holder

def claimant : Event κ ι → Option ι
  | .start _ (.tryClaim holder _ _) => some holder
  | _ => none

section Steps

variable [DecidableEq κ] [DecidableEq ι]

def Claim.close (holder : ι) (now : Int) (claim : Claim ι) : Claim ι :=
  if claim.holder = holder then { claim with expiresAt := now } else claim

def execute (state : State κ ι) (now : Int) : Statement ι → State κ ι × List (ι × Bool)
  | .tryClaim holder ttl minGap =>
      let (row, granted) := tryClaim now holder ttl minGap state.row
      ({ state with
          row := row
          claims := state.claims ++ if granted then [⟨holder, now, now + ttl, minGap⟩] else [] },
        [(holder, granted)])
  | .complete holder =>
      ({ state with
          row := complete now holder state.row
          claims :=
            if state.row.any fun row => row.holder = holder then
              state.claims.map (Claim.close holder now)
            else state.claims }, [])

def step (state : State κ ι) : Event κ ι → State κ ι × List (ι × Bool)
  | .tick elapsed => ({ state with clock := state.clock + elapsed }, [])
  | .start key statement =>
      if (state.inFlight.lookup key).isSome then (state, [])
      else ({ state with inFlight := state.inFlight.insert key (statement, state.clock) }, [])
  | .execute key =>
      match state.inFlight.lookup key with
      | none => (state, [])
      | some (statement, now) =>
          execute { state with inFlight := state.inFlight.erase key } now statement
  | .abandon key => ({ state with inFlight := state.inFlight.erase key }, [])

/-- What the lease promises: successful claims are the gap apart, no two are unexpired at one
time, and a completion by a holder that was replaced changes nothing. -/
structure Exclusive (state : State κ ι) : Prop where
  apart : state.claims.Pairwise fun earlier later =>
    earlier.startedAt + (later.minGap : Int) ≤ later.startedAt
  single : ∀ time, ∀ first ∈ state.claims, ∀ second ∈ state.claims,
    first.Unexpired time → second.Unexpired time → first = second
  replaced : ∀ key holder now, state.inFlight.lookup key = some (.complete holder, now) →
    TakenOver state.claims holder →
    (step state (.execute key)).1.row = state.row ∧
      (step state (.execute key)).1.claims = state.claims

end Steps

/-! ### The row and the claims made on it -/

def Before (earlier later : Claim ι) : Prop :=
  earlier.startedAt + (later.minGap : Int) ≤ later.startedAt ∧
    earlier.expiresAt ≤ later.startedAt

def Current (claims : List (Claim ι)) : Option (Lease ι) → Prop
  | none => claims = []
  | some row => ∃ front claim, claims = front ++ [claim] ∧ claim.holder = row.holder ∧
      claim.startedAt = row.startedAt ∧ claim.expiresAt = row.expiresAt

structure Ledger (claims : List (Claim ι)) (row : Option (Lease ι)) : Prop where
  current : Current claims row
  ordered : claims.Pairwise Before
  holders : (claims.map Claim.holder).Nodup

variable {claims : List (Claim ι)} {row : Option (Lease ι)} {holder : ι}

theorem Ledger.append (ledger : Ledger claims row) (claim : Claim ι)
    (after : ∀ earlier ∈ claims, Before earlier claim)
    (unheld : claim.holder ∉ claims.map Claim.holder) (completedAt : Option Int) :
    Ledger (claims ++ [claim])
      (some ⟨claim.holder, claim.startedAt, claim.expiresAt, completedAt⟩) where
  current := ⟨claims, claim, rfl, rfl, rfl, rfl⟩
  ordered := by
    rw [List.pairwise_append]
    exact ⟨ledger.ordered, List.pairwise_singleton .., by simpa using after⟩
  holders := by
    rw [List.map_append]
    exact ledger.holders.append (List.nodup_singleton _) (by simpa using unheld)

theorem Ledger.before {row : Lease ι} (ledger : Ledger claims (some row)) {claim : Claim ι}
    (expired : row.expiresAt ≤ claim.startedAt)
    (gap : row.startedAt ≤ claim.startedAt - claim.minGap) :
    ∀ earlier ∈ claims, Before earlier claim := by
  obtain ⟨front, last, rfl, -, started, ends⟩ := ledger.current
  have ordered := (List.pairwise_append.mp ledger.ordered).2.2
  intro earlier member
  rcases List.mem_append.mp member with inside | atEnd
  · obtain ⟨apart, done⟩ := ordered earlier inside last (List.mem_singleton.mpr rfl)
    exact ⟨by omega, by omega⟩
  · rw [List.mem_singleton.mp atEnd]
    exact ⟨by omega, by omega⟩

theorem Ledger.tryClaim (ledger : Ledger claims row) (unheld : holder ∉ claims.map Claim.holder)
    (now : Int) (ttl minGap : Nat) :
    Ledger
      (claims ++ if (tryClaim now holder ttl minGap row).2 then [⟨holder, now, now + ttl, minGap⟩]
        else [])
      (tryClaim now holder ttl minGap row).1 := by
  cases row with
  | none =>
      have empty : claims = [] := ledger.current
      exact ledger.append ⟨holder, now, now + ttl, minGap⟩ (by simp [empty]) unheld none
  | some row =>
      rw [WorkerLease.tryClaim]
      by_cases free : row.expiresAt ≤ now ∧ row.startedAt ≤ now - minGap
      · rw [if_pos free]
        exact ledger.append ⟨holder, now, now + ttl, minGap⟩ (ledger.before free.1 free.2) unheld
          row.completedAt
      · rw [if_neg free]
        simpa using ledger

theorem Ledger.single (ledger : Ledger claims row) (time : Int) :
    ∀ first ∈ claims, ∀ second ∈ claims,
      first.Unexpired time → second.Unexpired time → first = second := by
  have apart : claims.Pairwise fun first second =>
      ¬ (first.Unexpired time ∧ second.Unexpired time) := by
    refine ledger.ordered.imp fun before both => ?_
    have starts := both.2.1
    have ends := both.1.2
    have done := before.2
    omega
  have symmetric : Std.Symm fun first second : Claim ι =>
      ¬ (first.Unexpired time ∧ second.Unexpired time) :=
    ⟨fun _ _ unheld both => unheld both.symm⟩
  intro first one second two held alsoHeld
  by_contra different
  exact apart.forall one two different ⟨held, alsoHeld⟩

theorem Ledger.replaced {row : Lease ι} (ledger : Ledger claims (some row))
    (replaced : TakenOver claims holder) : row.holder ≠ holder := by
  obtain ⟨front, last, rfl, named, -, -⟩ := ledger.current
  obtain ⟨claim, earlier, rfl⟩ := replaced
  have holders := ledger.holders
  rw [List.dropLast_concat] at earlier
  rw [List.map_append, List.nodup_append] at holders
  rw [← named]
  exact (holders.2.2 _ (List.mem_map_of_mem earlier) _ (by simp)).symm

/-! ### Passes -/

variable [DecidableEq κ] {past : List (Event κ ι)} {state : State κ ι}

def Waits (inFlight : Table κ (Statement ι × Int)) (key : κ) (holder : ι) : Prop :=
  ∃ ttl minGap now, inFlight.lookup key = some (.tryClaim holder ttl minGap, now)

structure Passes (past : List (Event κ ι)) (state : State κ ι) : Prop where
  ledger : Ledger state.claims state.row
  begun : ∀ holder ∈ state.claims.map Claim.holder, holder ∈ past.filterMap claimant
  waiting : ∀ key holder, Waits state.inFlight key holder →
    holder ∈ past.filterMap claimant ∧ holder ∉ state.claims.map Claim.holder
  once : ∀ key other holder, Waits state.inFlight key holder → Waits state.inFlight other holder →
    key = other

theorem waits_erase {inFlight : Table κ (Statement ι × Int)} {key other : κ}
    (waits : Waits (inFlight.erase key) other holder) :
    other ≠ key ∧ Waits inFlight other holder := by
  obtain ⟨ttl, minGap, now, found⟩ := waits
  obtain ⟨different, found⟩ := Tables.of_lookup_erase _ found
  exact ⟨different, ttl, minGap, now, found⟩

theorem Passes.erase (passes : Passes past state) (key : κ) :
    Passes past { state with inFlight := state.inFlight.erase key } where
  ledger := passes.ledger
  begun := passes.begun
  waiting := fun other holder waits => passes.waiting other holder (waits_erase waits).2
  once := fun first second holder one two =>
    passes.once first second holder (waits_erase one).2 (waits_erase two).2

theorem Passes.later (passes : Passes past state) (event : Event κ ι) :
    Passes (past ++ [event]) state := by
  have grows : ∀ holder ∈ past.filterMap claimant,
      holder ∈ (past ++ [event]).filterMap claimant := by
    intro holder member
    rw [List.filterMap_append]
    exact List.mem_append_left _ member
  refine ⟨passes.ledger, fun holder member => grows holder (passes.begun holder member), ?_,
    passes.once⟩
  intro key holder waits
  obtain ⟨known, unheld⟩ := passes.waiting key holder waits
  exact ⟨grows holder known, unheld⟩

theorem Passes.start (passes : Passes past state) (key : κ) (statement : Statement ι)
    (distinct : ((past ++ [Event.start key statement]).filterMap claimant).Nodup) :
    Passes (past ++ [.start key statement])
      { state with inFlight := state.inFlight.insert key (statement, state.clock) } := by
  have waits : ∀ other holder,
      Waits (state.inFlight.insert key (statement, state.clock)) other holder →
      other = key ∧ claimant (.start key statement) = some holder ∨
        Waits state.inFlight other holder := by
    rintro other holder ⟨ttl, minGap, now, found⟩
    rcases Tables.of_lookup_insert _ found with ⟨rfl, same⟩ | ⟨-, old⟩
    · obtain ⟨rfl, -⟩ := Prod.mk.inj same
      exact .inl ⟨rfl, rfl⟩
    · exact .inr ⟨ttl, minGap, now, old⟩
  have unknown : ∀ holder, claimant (.start key statement) = some holder →
      holder ∉ past.filterMap claimant := by
    intro holder named known
    rw [List.filterMap_append, List.nodup_append] at distinct
    exact distinct.2.2 holder known holder (by simp [named]) rfl
  have later := passes.later (.start key statement)
  refine ⟨later.ledger, later.begun, ?_, ?_⟩
  · intro other holder found
    rcases waits other holder found with ⟨-, named⟩ | old
    · refine ⟨by simp [List.filterMap_append, named], fun held => ?_⟩
      exact unknown holder named (passes.begun holder held)
    · exact later.waiting other holder old
  · intro first second holder one two
    rcases waits first holder one with ⟨rfl, named⟩ | old
    · rcases waits second holder two with ⟨rfl, -⟩ | other
      · rfl
      · exact absurd (passes.waiting second holder other).1 (unknown holder named)
    · rcases waits second holder two with ⟨rfl, named⟩ | other
      · exact absurd (passes.waiting first holder old).1 (unknown holder named)
      · exact passes.once first second holder old other

/-! ### Completion -/

variable [DecidableEq ι]

theorem close_of_other {claim : Claim ι} (other : claim.holder ≠ holder) (now : Int) :
    claim.close holder now = claim := if_neg other

theorem close_own (claim : Claim ι) (now : Int) :
    claim.close claim.holder now = { claim with expiresAt := now } := if_pos rfl

theorem close_holder (claim : Claim ι) (now : Int) :
    (claim.close holder now).holder = claim.holder := by
  rw [Claim.close]
  split <;> rfl

theorem map_close_holder (claims : List (Claim ι)) (now : Int) :
    (claims.map (Claim.close holder now)).map Claim.holder = claims.map Claim.holder := by
  rw [List.map_map]
  exact List.map_congr_left fun claim _ => close_holder claim now

theorem Ledger.close {row : Lease ι} (ledger : Ledger claims (some row)) (now : Int)
    (completedAt : Option Int) :
    Ledger (claims.map (Claim.close row.holder now))
      (some ⟨row.holder, row.startedAt, now, completedAt⟩) := by
  have holders := ledger.holders
  rw [← map_close_holder claims now] at holders
  refine ⟨?_, ?_, holders⟩
  all_goals
    obtain ⟨front, last, rfl, named, started, -⟩ := ledger.current
    have earlier : front.map (Claim.close row.holder now) = front := by
      conv_rhs => rw [← List.map_id front]
      refine List.map_congr_left fun claim member => close_of_other ?_ now
      have distinct := ledger.holders
      rw [List.map_append, List.nodup_append] at distinct
      rw [← named]
      exact distinct.2.2 _ (List.mem_map_of_mem member) _ (by simp)
    rw [List.map_append, earlier, List.map_singleton, ← named, close_own]
  · exact ⟨front, _, rfl, rfl, started, rfl⟩
  · obtain ⟨before, -, after⟩ := List.pairwise_append.mp ledger.ordered
    refine List.pairwise_append.mpr ⟨before, List.pairwise_singleton .., ?_⟩
    intro claim member closed atEnd
    rw [List.mem_singleton.mp atEnd]
    exact after claim member last (List.mem_singleton.mpr rfl)

theorem complete_of_replaced (ledger : Ledger claims row) (replaced : TakenOver claims holder)
    (now : Int) :
    row.any (fun row => row.holder = holder) = false ∧ complete now holder row = row := by
  cases row with
  | none => exact ⟨rfl, rfl⟩
  | some row =>
      have other := ledger.replaced replaced
      exact ⟨by simpa using other, if_neg other⟩

theorem Ledger.complete (ledger : Ledger claims row) (holder : ι) (now : Int) :
    Ledger
      (if row.any fun row => row.holder = holder then claims.map (Claim.close holder now)
        else claims)
      (complete now holder row) := by
  cases row with
  | none => exact ledger
  | some row =>
      by_cases own : row.holder = holder
      · subst own
        simpa [WorkerLease.complete] using ledger.close now (some now)
      · simpa [WorkerLease.complete, own] using ledger

/-! ### Runs -/

theorem Passes.execute (passes : Passes past state) {key : κ} {statement : Statement ι} {now : Int}
    (found : state.inFlight.lookup key = some (statement, now)) :
    Passes past
      (execute { state with inFlight := state.inFlight.erase key } now statement).1 := by
  have erased := passes.erase key
  cases statement with
  | tryClaim holder ttl minGap =>
      have own : Waits state.inFlight key holder := ⟨ttl, minGap, now, found⟩
      obtain ⟨known, unheld⟩ := passes.waiting key holder own
      rw [WorkerLease.execute]
      refine ⟨passes.ledger.tryClaim unheld now ttl minGap, ?_, ?_, erased.once⟩
      · intro claimed member
        rw [List.map_append, List.mem_append] at member
        rcases member with old | new
        · exact passes.begun claimed old
        · split at new
          · rwa [List.mem_singleton.mp new]
          · cases new
      · intro other waiting waits
        obtain ⟨different, before⟩ := waits_erase waits
        obtain ⟨begun, without⟩ := passes.waiting other waiting before
        refine ⟨begun, fun member => ?_⟩
        rw [List.map_append, List.mem_append] at member
        rcases member with old | new
        · exact without old
        · split at new
          · rw [List.mem_singleton.mp new] at before
            exact different (passes.once other key holder before own)
          · cases new
  | complete holder =>
      rw [WorkerLease.execute]
      have holders : (if state.row.any fun row => row.holder = holder then
          state.claims.map (Claim.close holder now) else state.claims).map Claim.holder =
            state.claims.map Claim.holder := by
        split
        · exact map_close_holder state.claims now
        · rfl
      refine ⟨passes.ledger.complete holder now, ?_, ?_, erased.once⟩
      · rw [holders]
        exact passes.begun
      · rw [holders]
        exact erased.waiting

theorem Passes.step (passes : Passes past state) (event : Event κ ι)
    (distinct : ((past ++ [event]).filterMap claimant).Nodup) :
    Passes (past ++ [event]) (step state event).1 := by
  cases event with
  | tick elapsed =>
      have later := passes.later (.tick elapsed)
      exact ⟨later.ledger, later.begun, later.waiting, later.once⟩
  | start key statement =>
      rw [WorkerLease.step]
      split
      · exact passes.later _
      · exact passes.start key statement distinct
  | execute key =>
      rw [WorkerLease.step]
      split
      · exact passes.later _
      · next found => exact (passes.execute found).later _
  | abandon key => exact (passes.erase key).later _

theorem passes_run (events : List (Event κ ι)) (distinct : (events.filterMap claimant).Nodup) :
    Passes events (Machine.run step .new events).1 := by
  induction events using List.reverseRecOn with
  | nil =>
      have idle : ∀ key holder, ¬ Waits (State.new : State κ ι).inFlight key holder := by
        rintro key holder ⟨ttl, minGap, now, found⟩
        cases found
      exact ⟨⟨rfl, .nil, .nil⟩, by simp [Machine.run, State.new],
        fun key holder waits => absurd waits (idle key holder),
        fun key other holder waits => absurd waits (idle key holder)⟩
  | append_singleton events event ih =>
      rw [Machine.run_concat]
      refine (ih ?_).step event distinct
      rw [List.filterMap_append] at distinct
      exact distinct.of_append_left

theorem step_answers (state : State κ ι) (event : Event κ ι) :
    (step state event).1.claims.map Claim.holder =
      state.claims.map Claim.holder ++ ((step state event).2.filter Prod.snd).map Prod.fst := by
  cases event with
  | tick elapsed => simp [step]
  | start key statement =>
      rw [step]
      split <;> simp
  | abandon key => simp [step]
  | execute key =>
      rw [step]
      split
      · simp
      · next statement now found =>
          cases statement with
          | tryClaim holder ttl minGap =>
              rw [execute]
              cases granted : (tryClaim now holder ttl minGap state.row).2 <;> simp [granted]
          | complete holder =>
              rw [execute]
              dsimp only
              split
              · simp [close_holder]
              · simp

theorem run_answers (events : List (Event κ ι)) :
    (Machine.run step .new events).1.claims.map Claim.holder =
      ((Machine.run step .new events).2.filter Prod.snd).map Prod.fst := by
  refine Machine.run_history
    (fun _ answers (state : State κ ι) =>
      state.claims.map Claim.holder = (answers.filter Prod.snd).map Prod.fst)
    rfl ?_ events
  intro past event holds
  rw [step_answers, holds, List.filter_append, List.map_append]

/-- With a holder id of its own for every pass, the lease is exclusive in every state. -/
theorem lease_exclusive (events : List (Event κ ι)) (distinct : (events.filterMap claimant).Nodup) :
    ((Machine.run step .new events).1.claims.map Claim.holder =
      ((Machine.run step .new events).2.filter Prod.snd).map Prod.fst) ∧
    Exclusive (Machine.run step .new events).1 := by
  have passes := passes_run events distinct
  refine ⟨run_answers events, ?_, passes.ledger.single, ?_⟩
  · exact passes.ledger.ordered.imp fun before => before.1
  · intro key holder now found replaced
    obtain ⟨other, same⟩ := complete_of_replaced passes.ledger replaced now
    simp only [step, found, execute, other]
    exact ⟨same, rfl⟩

/-- The second replica's claim begins while the first is under way, waits for it and is refused;
the third takes the lapsed claim over, and the completion of the first comes too late. -/
theorem late_completion_changes_nothing :
    let events : List (Event Nat Nat) :=
      [.start 0 (.tryClaim 10 60 30), .start 1 (.tryClaim 11 60 30), .execute 0, .tick 50,
        .execute 1, .tick 20, .start 2 (.tryClaim 12 60 30), .execute 2, .start 3 (.complete 10)]
    (Machine.run step .new events).1.claims = [⟨10, 0, 60, 30⟩, ⟨12, 70, 130, 30⟩] ∧
      Exclusive (Machine.run step .new events).1 :=
  ⟨by decide, (lease_exclusive _ (by decide)).2⟩

end Strata.Backend.WorkerLease
