import Mathlib.Tactic
import Strata.Lib.Machine
import Strata.Lib.RustInt
import Strata.Lib.Tables

/-! Session admission: a byte budget for the whole process and a session count for each user. The
byte total is an atomic outside the lock, the counts are a map inside it. -/

namespace Strata.Backend.Admission

open Tables (Table)
open Utf8 (Text)

structure Ledger (υ : Type) where
  reserved : UInt64
  rejected : UInt64
  perUser : Table υ Nat

structure AdmissionStats where
  reservedBytes : UInt64
  limitBytes : UInt64
  rejected : UInt64
  sessions : Nat

def tooManySessions (held : Nat) : Text :=
  "You already have ".toList ++ RustInt.natText held ++
    " open session(s), the most your role allows. Close one and try again.".toList

def atCapacity : Text := "The server is at capacity. Try again in a few minutes.".toList

variable {υ κ : Type}

def Ledger.new : Ledger υ := ⟨0, 0, ∅⟩

def Ledger.reject (ledger : Ledger υ) : Ledger υ := { ledger with rejected := ledger.rejected + 1 }

/-- `try_update` with the closure of `admit`. -/
def fits (budget bytes reserved : UInt64) : Option UInt64 :=
  if reserved + bytes ≤ budget then some (reserved + bytes) else none

def Ledger.stats (ledger : Ledger υ) (limit : UInt64) : AdmissionStats :=
  ⟨ledger.reserved, limit, ledger.rejected, Tables.total id ledger.perUser⟩

structure Request (υ : Type) where
  user : υ
  userLimit : Option Nat
  bytes : UInt64
  budget : UInt64

inductive Task (υ : Type) where
  /-- The budget is read, the lock is not taken. -/
  | asked (request : Request υ)
  /-- The lock is taken and the user's count read. -/
  | checked (request : Request υ) (held : Nat)
  /-- The bytes are in the total, the user's count is to follow. -/
  | counted (request : Request υ) (held : Nat)
  | holding (user : υ) (bytes : UInt64)
  /-- Dropped, and out of the total but not of the user's count. -/
  | leaving (user : υ)

structure System (κ υ : Type) where
  ledger : Ledger υ
  lock : Option κ
  tasks : Table κ (Task υ)

def System.new : System κ υ := ⟨.new, none, ∅⟩

inductive Event (κ υ : Type) where
  | ask (key : κ) (request : Request υ)
  | enter (key : κ)
  | reserve (key : κ)
  | book (key : κ)
  | subtract (key : κ)
  | leave (key : κ)

inductive Answer (κ υ : Type) where
  /-- `AppError::RateLimited` -/
  | refused (key : κ) (message : Text)
  | admitted (key : κ) (request : Request υ)

variable [DecidableEq υ] [DecidableEq κ]

def Ledger.held (ledger : Ledger υ) (user : υ) : Nat := (ledger.perUser.lookup user).getD 0

def Ledger.leave (ledger : Ledger υ) (user : υ) : Ledger υ :=
  match ledger.perUser.lookup user with
  | some held =>
      { ledger with
        perUser := if held - 1 = 0 then ledger.perUser.erase user
          else ledger.perUser.insert user (held - 1) }
  | none => ledger

def System.enter (s : System κ υ) (key : κ) (request : Request υ) :
    System κ υ × List (Answer κ υ) :=
  let held := s.ledger.held request.user
  if request.userLimit.any (fun limit => held ≥ limit) then
    ({ s with ledger := s.ledger.reject, tasks := s.tasks.erase key },
      [.refused key (tooManySessions held)])
  else ({ s with lock := some key, tasks := s.tasks.insert key (.checked request held) }, [])

def System.reserve (s : System κ υ) (key : κ) (request : Request υ) (held : Nat) :
    System κ υ × List (Answer κ υ) :=
  match fits request.budget request.bytes s.ledger.reserved with
  | none =>
      ({ ledger := s.ledger.reject, lock := none, tasks := s.tasks.erase key },
        [.refused key atCapacity])
  | some total =>
      ({ s with
          ledger := { s.ledger with reserved := total }
          tasks := s.tasks.insert key (.counted request held) }, [])

def step (s : System κ υ) : Event κ υ → System κ υ × List (Answer κ υ)
  | .ask key request =>
      if key ∈ s.tasks then (s, [])
      else ({ s with tasks := s.tasks.insert key (.asked request) }, [])
  | .enter key =>
      match s.lock, s.tasks.lookup key with
      | none, some (.asked request) => s.enter key request
      | _, _ => (s, [])
  | .reserve key =>
      match s.tasks.lookup key with
      | some (.checked request held) => s.reserve key request held
      | _ => (s, [])
  | .book key =>
      match s.tasks.lookup key with
      | some (.counted request held) =>
          ({ ledger := { s.ledger with perUser := s.ledger.perUser.insert request.user (held + 1) }
             lock := none
             tasks := s.tasks.insert key (.holding request.user request.bytes) },
            [.admitted key request])
      | _ => (s, [])
  | .subtract key =>
      match s.tasks.lookup key with
      | some (.holding user bytes) =>
          ({ s with
              ledger := { s.ledger with reserved := s.ledger.reserved - bytes }
              tasks := s.tasks.insert key (.leaving user) }, [])
      | _ => (s, [])
  | .leave key =>
      match s.lock, s.tasks.lookup key with
      | none, some (.leaving user) =>
          ({ s with ledger := s.ledger.leave user, tasks := s.tasks.erase key }, [])
      | _, _ => (s, [])

/-! ### What a step does -/

inductive Stepped (s : System κ υ) : Event κ υ → System κ υ × List (Answer κ υ) → Prop where
  | idle (event : Event κ υ) : Stepped s event (s, [])
  | asked {key : κ} (request : Request υ) (fresh : key ∉ s.tasks) :
      Stepped s (.ask key request)
        ({ s with tasks := s.tasks.insert key (.asked request) }, [])
  | tooMany {key : κ} {request : Request υ} (opened : s.lock = none)
      (found : s.tasks.lookup key = some (.asked request)) (message : Text) :
      Stepped s (.enter key)
        ({ s with ledger := s.ledger.reject, tasks := s.tasks.erase key },
          [.refused key message])
  | entered {key : κ} {request : Request υ} (opened : s.lock = none)
      (found : s.tasks.lookup key = some (.asked request))
      (below : ∀ limit ∈ request.userLimit, s.ledger.held request.user < limit) :
      Stepped s (.enter key)
        ({ s with
            lock := some key
            tasks := s.tasks.insert key (.checked request (s.ledger.held request.user)) }, [])
  | full {key : κ} {request : Request υ} {held : Nat}
      (found : s.tasks.lookup key = some (.checked request held)) (message : Text) :
      Stepped s (.reserve key)
        ({ ledger := s.ledger.reject, lock := none, tasks := s.tasks.erase key },
          [.refused key message])
  | counted {key : κ} {request : Request υ} {held : Nat}
      (found : s.tasks.lookup key = some (.checked request held))
      (within : s.ledger.reserved + request.bytes ≤ request.budget) :
      Stepped s (.reserve key)
        ({ s with
            ledger := { s.ledger with reserved := s.ledger.reserved + request.bytes }
            tasks := s.tasks.insert key (.counted request held) }, [])
  | booked {key : κ} {request : Request υ} {held : Nat}
      (found : s.tasks.lookup key = some (.counted request held)) :
      Stepped s (.book key)
        ({ ledger := { s.ledger with perUser := s.ledger.perUser.insert request.user (held + 1) }
           lock := none
           tasks := s.tasks.insert key (.holding request.user request.bytes) },
          [.admitted key request])
  | subtracted {key : κ} {user : υ} {bytes : UInt64}
      (found : s.tasks.lookup key = some (.holding user bytes)) :
      Stepped s (.subtract key)
        ({ s with
            ledger := { s.ledger with reserved := s.ledger.reserved - bytes }
            tasks := s.tasks.insert key (.leaving user) }, [])
  | left {key : κ} {user : υ} (opened : s.lock = none)
      (found : s.tasks.lookup key = some (.leaving user)) :
      Stepped s (.leave key)
        ({ s with ledger := s.ledger.leave user, tasks := s.tasks.erase key }, [])

variable {s : System κ υ}

theorem enter_stepped {key : κ} {request : Request υ} (opened : s.lock = none)
    (found : s.tasks.lookup key = some (.asked request)) :
    Stepped s (.enter key) (s.enter key request) := by
  rw [System.enter]
  split_ifs with many
  · exact .tooMany opened found _
  · refine .entered opened found fun limit given => ?_
    rw [Option.mem_def.mp given] at many
    simpa using many

theorem reserve_stepped {key : κ} {request : Request υ} {held : Nat}
    (found : s.tasks.lookup key = some (.checked request held)) :
    Stepped s (.reserve key) (s.reserve key request held) := by
  rw [System.reserve, fits]
  split_ifs with within
  · exact .counted found within
  · exact .full found _

theorem step_stepped (s : System κ υ) (event : Event κ υ) : Stepped s event (step s event) := by
  cases event with
  | ask key request =>
      rw [step]
      split_ifs with known
      · exact .idle _
      · exact .asked request known
  | enter key =>
      rw [step]
      split
      · rename_i opened found
        exact enter_stepped opened found
      · exact .idle _
  | reserve key =>
      rw [step]
      split
      · rename_i found
        exact reserve_stepped found
      · exact .idle _
  | book key =>
      rw [step]
      split
      · rename_i found
        exact .booked found
      · exact .idle _
  | subtract key =>
      rw [step]
      split
      · rename_i found
        exact .subtracted found
      · exact .idle _
  | leave key =>
      rw [step]
      split
      · rename_i opened found
        exact .left opened found
      · exact .idle _

/-! ### The books -/

def Task.bytes : Task υ → Nat
  | .counted request _ => request.bytes.toNat
  | .holding _ bytes => bytes.toNat
  | _ => 0

def Task.holder : Task υ → Option υ
  | .holding user _ => some user
  | .leaving user => some user
  | _ => none

def Task.heldBy (user : υ) (task : Task υ) : Nat := if task.holder = some user then 1 else 0

def Task.session (task : Task υ) : Nat := if task.holder.isSome then 1 else 0

/-- The total is the bytes of the reservations not yet released, and each count the sessions its
user holds. -/
structure Accounts (s : System κ υ) : Prop where
  reserved : s.ledger.reserved.toNat = Tables.total Task.bytes s.tasks
  perUser : ∀ user, s.ledger.held user = Tables.total (Task.heldBy user) s.tasks
  sessions : ∀ limit, (s.ledger.stats limit).sessions = Tables.total Task.session s.tasks

def Task.inside : Task υ → Option (Request υ × Nat)
  | .checked request held => some (request, held)
  | .counted request held => some (request, held)
  | _ => none

/-- Only the lock's holder stands between the check and the booking; what it read still holds. -/
structure Guarded (s : System κ υ) : Prop where
  inside : ∀ key task request held, s.tasks.lookup key = some task →
    task.inside = some (request, held) →
      s.lock = some key ∧ held = s.ledger.held request.user ∧
        ∀ limit ∈ request.userLimit, held < limit
  within : ∀ key request held, s.tasks.lookup key = some (.counted request held) →
    s.ledger.reserved ≤ request.budget

/-- The sum of bytes an admission computes does not wrap around. -/
def Sums (s : System κ υ) : Event κ υ → Prop
  | .reserve key => ∀ task ∈ s.tasks.lookup key, ∀ inside ∈ task.inside,
      s.ledger.reserved.toNat + inside.1.bytes.toNat < 2 ^ 64
  | _ => True

instance (s : System κ υ) : (event : Event κ υ) → Decidable (Sums s event)
  | .reserve key =>
      inferInstanceAs (Decidable (∀ task ∈ s.tasks.lookup key, ∀ inside ∈ task.inside,
        s.ledger.reserved.toNat + inside.1.bytes.toNat < 2 ^ 64))
  | .ask .. => .isTrue trivial
  | .enter _ => .isTrue trivial
  | .book _ => .isTrue trivial
  | .subtract _ => .isTrue trivial
  | .leave _ => .isTrue trivial

theorem held_insert (ledger : Ledger υ) (user other : υ) (count : Nat) :
    Ledger.held { ledger with perUser := ledger.perUser.insert user count } other =
      if other = user then count else ledger.held other := by
  rw [Ledger.held]
  split_ifs with same
  · rw [same, AList.lookup_insert]
    rfl
  · rw [AList.lookup_insert_ne same]
    rfl

theorem reserved_leave (ledger : Ledger υ) (user : υ) :
    (ledger.leave user).reserved = ledger.reserved := by
  rw [Ledger.leave]
  split <;> rfl

theorem held_leave (ledger : Ledger υ) (user other : υ) :
    (ledger.leave user).held other =
      if other = user then ledger.held user - 1 else ledger.held other := by
  rw [Ledger.leave]
  cases found : ledger.perUser.lookup user with
  | none =>
      have none : ledger.held user = 0 := by rw [Ledger.held, found, Option.getD_none]
      dsimp only
      split_ifs with same
      · rw [same, none]
      · rfl
  | some held =>
      have some : ledger.held user = held := by rw [Ledger.held, found, Option.getD_some]
      dsimp only
      rw [some]
      by_cases last : held - 1 = 0
      · rw [if_pos last, last, Ledger.held]
        split_ifs with same
        · rw [same, AList.lookup_erase, Option.getD_none]
        · rw [AList.lookup_erase_ne same]
          rfl
      · rw [if_neg last, held_insert]

theorem total_book (ledger : Ledger υ) (user : υ) :
    Tables.total id (ledger.perUser.insert user (ledger.held user + 1)) =
      Tables.total id ledger.perUser + 1 := by
  rw [Ledger.held]
  cases found : ledger.perUser.lookup user with
  | none =>
      rw [Tables.total_insert_of_notMem id _ (AList.lookup_eq_none.mp found)]
      rfl
  | some held =>
      have moved := Tables.total_insert_of_lookup id _ found (held + 1)
      simp only [id_eq, Option.getD_some] at moved ⊢
      omega

theorem total_leave (ledger : Ledger υ) {user : υ} (holds : 0 < ledger.held user) :
    Tables.total id (ledger.leave user).perUser + 1 = Tables.total id ledger.perUser := by
  rw [Ledger.held] at holds
  rw [Ledger.leave]
  cases found : ledger.perUser.lookup user with
  | none =>
      rw [found] at holds
      cases holds
  | some held =>
      rw [found, Option.getD_some] at holds
      dsimp only
      split_ifs with last
      · have erased := Tables.total_erase_of_lookup id _ found
        rw [id_eq] at erased
        omega
      · have moved := Tables.total_insert_of_lookup id _ found (held - 1)
        simp only [id_eq] at moved
        omega

variable {event : Event κ υ} {outcome : System κ υ × List (Answer κ υ)}

omit [DecidableEq κ] in
theorem new_accounts : Accounts (System.new : System κ υ) where
  reserved := rfl
  perUser _ := rfl
  sessions _ := rfl

theorem new_guarded : Guarded (System.new : System κ υ) where
  inside _ _ _ _ found := nomatch found
  within _ _ _ found := nomatch found

theorem reserved_stepped (accounts : Accounts s) (sums : Sums s event)
    (stepped : Stepped s event outcome) :
    outcome.1.ledger.reserved.toNat = Tables.total Task.bytes outcome.1.tasks := by
  have before := accounts.reserved
  cases stepped with
  | idle => exact before
  | asked request fresh =>
      rw [Tables.total_insert_of_notMem _ _ fresh]
      exact before
  | tooMany _ found => exact before.trans (Tables.total_erase_of_light Task.bytes _ found rfl).symm
  | entered _ found =>
      exact before.trans (Tables.total_insert_of_same Task.bytes _ found rfl).symm
  | full found => exact before.trans (Tables.total_erase_of_light Task.bytes _ found rfl).symm
  | @counted key request held found _ =>
      have below := sums _ found _ rfl
      have moved := Tables.total_insert_of_lookup Task.bytes _ found (.counted request held)
      dsimp only at below ⊢
      rw [UInt64.toNat_add, Nat.mod_eq_of_lt below, before]
      exact moved.symm
  | booked found => exact before.trans (Tables.total_insert_of_same Task.bytes _ found rfl).symm
  | @subtracted key user bytes found =>
      have moved := Tables.total_insert_of_lookup Task.bytes _ found (.leaving user)
      simp only [Task.bytes] at moved
      have least : bytes ≤ s.ledger.reserved := UInt64.le_iff_toNat_le.mpr (by omega)
      dsimp only
      rw [UInt64.toNat_sub_of_le _ _ least]
      omega
  | @left key user _ found =>
      dsimp only
      rw [reserved_leave]
      exact before.trans (Tables.total_erase_of_light Task.bytes _ found rfl).symm

theorem perUser_stepped (accounts : Accounts s) (guarded : Guarded s)
    (stepped : Stepped s event outcome) (user : υ) :
    outcome.1.ledger.held user = Tables.total (Task.heldBy user) outcome.1.tasks := by
  have before := accounts.perUser user
  cases stepped with
  | idle => exact before
  | asked request fresh =>
      rw [Tables.total_insert_of_notMem _ _ fresh]
      exact before
  | tooMany _ found =>
      exact before.trans (Tables.total_erase_of_light (Task.heldBy user) _ found rfl).symm
  | entered _ found =>
      exact before.trans (Tables.total_insert_of_same (Task.heldBy user) _ found rfl).symm
  | full found =>
      exact before.trans (Tables.total_erase_of_light (Task.heldBy user) _ found rfl).symm
  | counted found _ =>
      exact before.trans (Tables.total_insert_of_same (Task.heldBy user) _ found rfl).symm
  | @booked key request held found =>
      obtain ⟨-, read, -⟩ := guarded.inside _ _ _ _ found rfl
      have moved := Tables.total_insert_of_lookup (Task.heldBy user) _ found
        (.holding request.user request.bytes)
      dsimp only
      rw [held_insert, read]
      simp only [Task.heldBy, Task.holder, Option.some.injEq, reduceCtorEq, if_false] at moved
      by_cases same : user = request.user
      · subst same
        rw [if_pos rfl] at moved ⊢
        omega
      · rw [if_neg same]
        rw [if_neg (Ne.symm same)] at moved
        omega
  | subtracted found =>
      exact before.trans (Tables.total_insert_of_same (Task.heldBy user) _ found rfl).symm
  | @left key other _ found =>
      have moved := Tables.total_erase_of_lookup (Task.heldBy user) _ found
      dsimp only
      rw [held_leave]
      simp only [Task.heldBy, Task.holder, Option.some.injEq] at moved
      by_cases same : user = other
      · subst same
        rw [if_pos rfl] at moved ⊢
        omega
      · rw [if_neg same]
        rw [if_neg (Ne.symm same)] at moved
        omega

theorem sessions_stepped (accounts : Accounts s) (guarded : Guarded s)
    (stepped : Stepped s event outcome) (limit : UInt64) :
    (outcome.1.ledger.stats limit).sessions = Tables.total Task.session outcome.1.tasks := by
  have before := accounts.sessions limit
  cases stepped with
  | idle => exact before
  | asked request fresh =>
      rw [Tables.total_insert_of_notMem _ _ fresh]
      exact before
  | tooMany _ found =>
      exact before.trans (Tables.total_erase_of_light Task.session _ found rfl).symm
  | entered _ found =>
      exact before.trans (Tables.total_insert_of_same Task.session _ found rfl).symm
  | full found => exact before.trans (Tables.total_erase_of_light Task.session _ found rfl).symm
  | counted found _ =>
      exact before.trans (Tables.total_insert_of_same Task.session _ found rfl).symm
  | @booked key request held found =>
      obtain ⟨-, rfl, -⟩ := guarded.inside _ _ _ _ found rfl
      have moved := Tables.total_insert_of_lookup Task.session _ found
        (.holding request.user request.bytes)
      dsimp only [Ledger.stats]
      rw [total_book]
      exact (congrArg (· + 1) before).trans moved.symm
  | subtracted found =>
      exact before.trans (Tables.total_insert_of_same Task.session _ found rfl).symm
  | @left key other _ found =>
      have moved := Tables.total_erase_of_lookup Task.session _ found
      have own := Tables.total_erase_of_lookup (Task.heldBy other) _ found
      have holds : 0 < s.ledger.held other := by
        rw [accounts.perUser, ← own]
        simp [Task.heldBy, Task.holder]
      have taken := total_leave s.ledger holds
      have whole : Tables.total id s.ledger.perUser = Tables.total Task.session s.tasks := before
      rw [← whole, ← taken] at moved
      exact (Nat.add_right_cancel moved).symm

theorem Guarded.outside (guarded : Guarded s) (opened : s.lock = none) {key : κ} {task : Task υ}
    (found : s.tasks.lookup key = some task) : task.inside = none := by
  cases inside : task.inside with
  | none => rfl
  | some read =>
      have locked := (guarded.inside key task _ _ found inside).1
      rw [opened] at locked
      cases locked

theorem Guarded.single (guarded : Guarded s) {key other : κ} {task found : Task υ}
    {read : Request υ × Nat} (present : s.tasks.lookup key = some task)
    (inside : task.inside = some read) (away : other ≠ key)
    (second : s.tasks.lookup other = some found) : found.inside = none := by
  cases also : found.inside with
  | none => rfl
  | some _ =>
      have first := (guarded.inside key task _ _ present inside).1
      rw [(guarded.inside other found _ _ second also).1] at first
      exact absurd (Option.some.inj first) away

theorem inside_stepped (guarded : Guarded s)
    (stepped : Stepped s event outcome) (key : κ) (task : Task υ) (request : Request υ) (held : Nat)
    (found : outcome.1.tasks.lookup key = some task)
    (inside : task.inside = some (request, held)) :
    outcome.1.lock = some key ∧ held = outcome.1.ledger.held request.user ∧
      ∀ limit ∈ request.userLimit, held < limit := by
  cases stepped with
  | idle => exact guarded.inside key task request held found inside
  | asked _ _ =>
      rcases Tables.of_lookup_insert _ found with ⟨-, rfl⟩ | ⟨-, before⟩
      · cases inside
      · exact guarded.inside key task request held before inside
  | tooMany _ _ _ =>
      exact guarded.inside key task request held (Tables.of_lookup_erase _ found).2 inside
  | entered opened present below =>
      rcases Tables.of_lookup_insert _ found with ⟨rfl, rfl⟩ | ⟨-, before⟩
      · cases inside
        exact ⟨rfl, rfl, below⟩
      · rw [guarded.outside opened before] at inside
        cases inside
  | full present _ =>
      obtain ⟨away, before⟩ := Tables.of_lookup_erase _ found
      rw [guarded.single present rfl away before] at inside
      cases inside
  | counted present _ =>
      rcases Tables.of_lookup_insert _ found with ⟨rfl, rfl⟩ | ⟨away, before⟩
      · exact guarded.inside _ _ request held present inside
      · exact guarded.inside key task request held before inside
  | booked present =>
      rcases Tables.of_lookup_insert _ found with ⟨-, rfl⟩ | ⟨away, before⟩
      · cases inside
      · rw [guarded.single present rfl away before] at inside
        cases inside
  | subtracted present =>
      rcases Tables.of_lookup_insert _ found with ⟨-, rfl⟩ | ⟨-, before⟩
      · cases inside
      · exact guarded.inside key task request held before inside
  | left opened _ =>
      rw [guarded.outside opened (Tables.of_lookup_erase _ found).2] at inside
      cases inside

theorem within_stepped (accounts : Accounts s) (guarded : Guarded s)
    (stepped : Stepped s event outcome) (key : κ) (request : Request υ) (held : Nat)
    (found : outcome.1.tasks.lookup key = some (.counted request held)) :
    outcome.1.ledger.reserved ≤ request.budget := by
  cases stepped with
  | idle => exact guarded.within key request held found
  | asked _ _ =>
      rcases Tables.of_lookup_insert _ found with ⟨-, same⟩ | ⟨-, before⟩
      · cases same
      · exact guarded.within key request held before
  | tooMany _ _ _ => exact guarded.within key request held (Tables.of_lookup_erase _ found).2
  | entered _ _ _ =>
      rcases Tables.of_lookup_insert _ found with ⟨-, same⟩ | ⟨-, before⟩
      · cases same
      · exact guarded.within key request held before
  | full _ _ => exact guarded.within key request held (Tables.of_lookup_erase _ found).2
  | counted present within =>
      rcases Tables.of_lookup_insert _ found with ⟨-, same⟩ | ⟨away, before⟩
      · cases same
        exact within
      · cases guarded.single present rfl away before
  | booked _ =>
      rcases Tables.of_lookup_insert _ found with ⟨-, same⟩ | ⟨-, before⟩
      · cases same
      · exact guarded.within key request held before
  | @subtracted _ user bytes present =>
      rcases Tables.of_lookup_insert _ found with ⟨-, same⟩ | ⟨-, before⟩
      · cases same
      · have moved := Tables.total_insert_of_lookup Task.bytes _ present (.leaving user)
        have whole := accounts.reserved
        have most := UInt64.le_iff_toNat_le.mp (guarded.within key request held before)
        simp only [Task.bytes] at moved
        have least : bytes ≤ s.ledger.reserved := UInt64.le_iff_toNat_le.mpr (by omega)
        rw [UInt64.le_iff_toNat_le]
        dsimp only
        rw [UInt64.toNat_sub_of_le _ _ least]
        omega
  | left _ _ =>
      dsimp only
      rw [reserved_leave]
      exact guarded.within key request held (Tables.of_lookup_erase _ found).2

/-! ### Every interleaving -/

def Event.asks : Event κ υ → Bool
  | .ask _ _ => true
  | .enter _ => true
  | _ => false

/-- An admission leaves the total within the budget it read and the user's count within its limit.
One that is refused had nothing in the books and changes nothing but the counter of refusals, as
its steps before that change nothing. -/
structure Sound (s : System κ υ) (event : Event κ υ) : Prop where
  admitted : ∀ key request, .admitted key request ∈ (step s event).2 →
    (step s event).1.ledger.reserved ≤ request.budget ∧
      ∀ limit ∈ request.userLimit, (step s event).1.ledger.held request.user ≤ limit
  refused : ∀ key message, .refused key message ∈ (step s event).2 →
    (step s event).1.ledger = s.ledger.reject ∧
      ∃ task ∈ s.tasks.lookup key, task.bytes = 0 ∧ task.holder = none
  waiting : event.asks = true → (step s event).2 = [] → (step s event).1.ledger = s.ledger

structure Invariant (s : System κ υ) : Prop where
  accounts : Accounts s
  guarded : Guarded s

theorem step_invariant (holds : Invariant s) (sums : Sums s event) :
    Invariant (step s event).1 := by
  obtain ⟨accounts, guarded⟩ := holds
  have stepped := step_stepped s event
  exact ⟨⟨reserved_stepped accounts sums stepped, perUser_stepped accounts guarded stepped,
      sessions_stepped accounts guarded stepped⟩,
    ⟨inside_stepped guarded stepped, within_stepped accounts guarded stepped⟩⟩

theorem step_sound (guarded : Guarded s) (event : Event κ υ) : Sound s event := by
  have stepped := step_stepped s event
  constructor
  case admitted =>
    intro key request answered
    generalize step s event = outcome at stepped answered ⊢
    cases stepped with
    | booked found =>
        cases List.mem_singleton.mp answered
        obtain ⟨-, rfl, below⟩ := guarded.inside _ _ _ _ found rfl
        refine ⟨guarded.within _ _ _ found, fun limit given => ?_⟩
        rw [held_insert, if_pos rfl]
        exact below limit given
    | tooMany => cases List.mem_singleton.mp answered
    | full => cases List.mem_singleton.mp answered
    | _ => cases answered
  case refused =>
    intro key message answered
    generalize step s event = outcome at stepped answered ⊢
    cases stepped with
    | tooMany _ found =>
        cases List.mem_singleton.mp answered
        exact ⟨rfl, _, found, rfl, rfl⟩
    | full found =>
        cases List.mem_singleton.mp answered
        exact ⟨rfl, _, found, rfl, rfl⟩
    | booked => cases List.mem_singleton.mp answered
    | _ => cases answered
  case waiting =>
    intro asks silent
    generalize step s event = outcome at stepped silent ⊢
    cases stepped with
    | idle => rfl
    | asked => rfl
    | entered => rfl
    | tooMany => cases silent
    | _ => cases asks

/-- Over every interleaving whose byte sums stay below 2^64: the books are exact in the state
reached, and every admission on the way was sound. -/
theorem ledger_exact (events : List (Event κ υ))
    (sums : Machine.Meets step Sums (.new : System κ υ) events) :
    Accounts (Machine.run step (.new : System κ υ) events).1 ∧
      Machine.Meets step Sound (.new : System κ υ) events := by
  have initial : Invariant (.new : System κ υ) := ⟨new_accounts, new_guarded⟩
  constructor
  · have reached := Machine.run_invariant_of (fun _ => Invariant) initial
      (fun _ _ _ holds meets => step_invariant holds meets) events sums
    exact reached.accounts
  · exact Machine.meets_of_invariant Invariant initial (fun _ _ holds => step_invariant holds)
      (fun _ event holds _ => step_sound holds.guarded event) events sums

def oneAtATime : List (Event Nat Nat) :=
  [.ask 0 ⟨7, some 1, 10, 100⟩, .ask 1 ⟨7, some 1, 10, 50⟩, .enter 0, .reserve 0, .book 0, .enter 1,
    .subtract 0, .leave 0]

theorem one_at_a_time_exact :
    Machine.Meets step Sums .new oneAtATime ∧
      Accounts (Machine.run step .new oneAtATime).1 ∧ Machine.Meets step Sound .new oneAtATime := by
  have sums : Machine.Meets step Sums .new oneAtATime := by decide
  exact ⟨sums, ledger_exact oneAtATime sums⟩

end Strata.Backend.Admission
