import Mathlib.Tactic
import Strata.Lib.Machine
import Strata.Lib.Tables
import Strata.Lib.Utf8

/-! Responses cached under an `Idempotency-Key`. The table has the key alone as its primary key,
while a cached response belongs to a user, a route and a key. -/

namespace Strata.Backend.Idempotency

open Tables (Table)
open Utf8 (Text)

/-- Times are in microseconds, as PostgreSQL has them. -/
def hour : Nat := 3600000000

def idempotencyTtlHours : Nat := 24

structure CachedResponse (β : Type) where
  statusCode : Int
  body : β
  deriving DecidableEq

structure Row (υ β : Type) where
  userId : υ
  route : Text
  response : CachedResponse β
  expiresAt : Nat

structure Triple (υ : Type) where
  userId : υ
  route : Text
  key : Text
  deriving DecidableEq

variable {υ β : Type} [DecidableEq υ]

def Row.belongs (row : Row υ β) (call : Triple υ) : Bool :=
  row.userId = call.userId && row.route = call.route

/-- `WHERE key = $1 AND user_id = $2 AND route = $3 AND expires_at > now()` -/
def lookup (rows : Table Text (Row υ β)) (now : Nat) (call : Triple υ) :
    Option (CachedResponse β) :=
  ((rows.lookup call.key).filter fun row => row.belongs call && now < row.expiresAt).map
    Row.response

/-- `ON CONFLICT (key) DO NOTHING` -/
def store (rows : Table Text (Row υ β)) (now : Nat) (call : Triple υ)
    (response : CachedResponse β) : Table Text (Row υ β) :=
  if call.key ∈ rows then rows
  else
    rows.insert call.key
      ⟨call.userId, call.route, response, now + idempotencyTtlHours * hour⟩

/-- `DELETE FROM idempotency_keys WHERE expires_at < now()` -/
def sweep (rows : Table Text (Row υ β)) (now : Nat) : Table Text (Row υ β) :=
  Tables.retain (fun row => decide (now ≤ row.expiresAt)) rows

/-! ### Histories of calls -/

/-- What a caller was promised: the response of its first store, for as long as it lives. -/
structure Promise (β : Type) where
  response : CachedResponse β
  lapses : Nat

structure Store (υ β : Type) where
  rows : Table Text (Row υ β)
  clock : Nat
  promises : Triple υ → Option (Promise β)

def Store.new : Store υ β := ⟨∅, 0, fun _ => none⟩

inductive Event (υ β : Type) where
  | store (call : Triple υ) (response : CachedResponse β) (after : Nat)
  | sweep (after : Nat)

def Store.promised (s : Store υ β) (now : Nat) (call : Triple υ) : Option (CachedResponse β) :=
  ((s.promises call).filter fun promise => now < promise.lapses).map Promise.response

/-- A store binds the backend unless an earlier one still does. -/
def Store.promise (s : Store υ β) (now : Nat) (call : Triple υ) (response : CachedResponse β) :
    Triple υ → Option (Promise β) :=
  if (s.promised now call).isSome then s.promises
  else Function.update s.promises call (some ⟨response, now + idempotencyTtlHours * hour⟩)

def step (s : Store υ β) : Event υ β → Store υ β × List Unit
  | .store call response after =>
      ({ rows := store s.rows (s.clock + after) call response
         clock := s.clock + after
         promises := s.promise (s.clock + after) call response }, [])
  | .sweep after =>
      ({ s with rows := sweep s.rows (s.clock + after), clock := s.clock + after }, [])

/-- From now on every lookup a promise covers returns what was promised. -/
def Kept (s : Store υ β) : Prop :=
  ∀ now call response, s.clock ≤ now → s.promised now call = some response →
    lookup s.rows now call = some response

def Free (s : Store υ β) : Event υ β → Prop
  | .store call _ after =>
      ∀ row ∈ s.rows.lookup call.key, row.belongs call ∧ s.clock + after < row.expiresAt
  | .sweep _ => True

/-! ### The table and the promises -/

def Agree (s : Store υ β) : Prop :=
  ∀ now call, s.clock ≤ now → lookup s.rows now call = s.promised now call

variable {s : Store υ β} {rows : Table Text (Row υ β)} {call other : Triple υ}
  {response : CachedResponse β} {now later : Nat}

theorem new_agree : Agree (Store.new : Store υ β) := fun _ _ _ => rfl

theorem lookup_of_absent (absent : rows.lookup call.key = none) : lookup rows now call = none := by
  rw [lookup, absent]
  rfl

theorem lookup_of_row {row : Row υ β} (present : rows.lookup call.key = some row) :
    lookup rows now call =
      if row.belongs call && now < row.expiresAt then some row.response else none := by
  rw [lookup, present, Option.filter_some]
  split_ifs <;> rfl

theorem lookup_sweep (past : now ≤ later) (call : Triple υ) :
    lookup (sweep rows now) later call = lookup rows later call := by
  rw [lookup, lookup, sweep, Tables.lookup_retain_eq]
  cases found : rows.lookup call.key with
  | none => rfl
  | some row =>
      by_cases kept : now ≤ row.expiresAt
      · simp [kept]
      · have lapsed : row.expiresAt ≤ later := (Nat.le_of_not_le kept).trans past
        simp [kept, lapsed]

theorem lookup_store_of_absent (absent : rows.lookup call.key = none) (other : Triple υ) :
    lookup (store rows now call response) later other =
      if other = call then
        if later < now + idempotencyTtlHours * hour then some response else none
      else lookup rows later other := by
  have missing : call.key ∉ rows := AList.lookup_eq_none.mp absent
  rw [store, if_neg missing]
  by_cases same : other.key = call.key
  · have unread : lookup rows later other = none := lookup_of_absent (same ▸ absent)
    rw [unread, lookup, same, AList.lookup_insert]
    by_cases equal : other = call
    · subst equal
      rw [if_pos rfl, Option.filter_some]
      simp only [Row.belongs, decide_true, Bool.true_and, decide_eq_true_eq]
      split_ifs <;> rfl
    · have foreign : (call.userId = other.userId && call.route = other.route) = false := by
        rw [Bool.and_eq_false_iff, decide_eq_false_iff_not, decide_eq_false_iff_not,
          ← not_and_or]
        rintro ⟨user, route⟩
        refine equal ?_
        cases other
        cases call
        simp_all
      rw [if_neg equal, Option.filter_some, Row.belongs, foreign]
      rfl
  · have away : other ≠ call := fun equal => same (congrArg Triple.key equal)
    rw [if_neg away, lookup, lookup, AList.lookup_insert_ne same]

omit [DecidableEq υ] in
theorem store_of_row {row : Row υ β} (present : rows.lookup call.key = some row) :
    store rows now call response = rows := by
  have member : call.key ∈ rows := AList.lookup_isSome.mp (Option.isSome_of_eq_some present)
  rw [store, if_pos member]

theorem promised_step (call : Triple υ) (response : CachedResponse β) (after : Nat) :
    ∃ first, (step s (.store call response after)).1.promised (s.clock + after) call =
      some first := by
  rw [Store.promised, step, Store.promise]
  split_ifs with bound
  · exact Option.isSome_iff_exists.mp bound
  · have ahead : s.clock + after < s.clock + after + idempotencyTtlHours * hour :=
      Nat.lt_add_of_pos_right (by decide)
    exact ⟨response, by simp [ahead]⟩

theorem store_agree (agree : Agree s) (response : CachedResponse β) {after : Nat}
    (free : Free s (.store call response after)) :
    Agree (step s (.store call response after)).1 := by
  intro later other past
  have before : s.clock ≤ s.clock + after := Nat.le_add_right ..
  have past : s.clock + after ≤ later := past
  have same := agree (s.clock + after) call before
  have rest := agree later other (before.trans past)
  rw [Store.promised]
  dsimp only [step]
  rw [Store.promise, ← same]
  cases found : s.rows.lookup call.key with
  | none =>
      rw [lookup_of_absent found, lookup_store_of_absent found, rest]
      by_cases equal : other = call
      · subst equal
        rw [if_pos rfl, Option.isSome_none, if_neg Bool.false_ne_true, Function.update_self,
          Option.filter_some]
        simp only [decide_eq_true_eq]
        split_ifs <;> rfl
      · rw [if_neg equal, Option.isSome_none, if_neg Bool.false_ne_true,
          Function.update_of_ne equal, Store.promised]
  | some row =>
      obtain ⟨owned, live⟩ := free row found
      rw [store_of_row found, lookup_of_row found, owned, decide_eq_true live, rest]
      rfl

theorem step_agree (agree : Agree s) {event : Event υ β} (free : Free s event) :
    Agree (step s event).1 := by
  cases event with
  | store call response after => exact store_agree agree response free
  | sweep after =>
      intro later call past
      have past : s.clock + after ≤ later := past
      have rest := agree later call ((Nat.le_add_right ..).trans past)
      rwa [← lookup_sweep past] at rest

theorem free_of_kept {event : Event υ β} (kept : Kept (step s event).1) :
    Free s event := by
  cases event with
  | sweep after => trivial
  | store call response after =>
      intro row found
      obtain ⟨first, promised⟩ := promised_step (s := s) call response after
      have read := kept (s.clock + after) call first le_rfl promised
      dsimp only [step] at read
      rw [store_of_row found, lookup_of_row found] at read
      split_ifs at read with live
      rw [Bool.and_eq_true, decide_eq_true_eq] at live
      exact live

theorem kept_of_agree (agree : Agree s) : Kept s := by
  intro now call response later promised
  rw [agree now call later, promised]

/-- Whatever stores and sweeps came before, every lookup within the time to live returns the first
response stored for its user, route and key, exactly if every store found the key free of other
callers' rows and of lapsed ones. -/
theorem lookups_keep_promises_iff (events : List (Event υ β)) :
    (∀ past, past <+: events → Kept (Machine.run step (.new : Store υ β) past).1) ↔
      Machine.Meets step Free (.new : Store υ β) events := by
  refine Machine.kept_iff_meets Agree new_agree (kept_of_agree new_agree)
    (fun _ _ agree => step_agree agree) (fun s event agree => ⟨free_of_kept, fun free => ?_⟩) events
  exact kept_of_agree (step_agree agree free)

/-- Two users choose the same key: the second one's response is not stored, and a lookup at the
same moment finds nothing. -/
theorem second_user_is_not_answered :
    let first : Triple Nat := ⟨1, "r".toList, "k".toList⟩
    let second : Triple Nat := ⟨2, "r".toList, "k".toList⟩
    let s := (Machine.run step (.new : Store Nat Nat)
      [.store first ⟨200, 10⟩ 0, .store second ⟨200, 20⟩ 0]).1
    s.promised s.clock second = some ⟨200, 20⟩ ∧ lookup s.rows s.clock second = none := by
  decide

-- a day later the lapsed row still stands in the way of its own user
example :
    let call : Triple Nat := ⟨1, "r".toList, "k".toList⟩
    let s := (Machine.run step (.new : Store Nat Nat)
      [.store call ⟨200, 10⟩ 0, .store call ⟨200, 20⟩ (idempotencyTtlHours * hour)]).1
    s.promised s.clock call = some ⟨200, 20⟩ ∧ lookup s.rows s.clock call = none := by
  decide

end Strata.Backend.Idempotency
