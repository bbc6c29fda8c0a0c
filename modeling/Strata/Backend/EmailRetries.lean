import Mathlib.Data.List.Sort
import Mathlib.Tactic
import Strata.Lib.Machine
import Strata.Lib.RustInt
import Strata.Lib.Tables

/-! The worker that sends failed e-mail deliveries again. A row's attempt count is written only
behind the sending, so a row that fails before it stays as it is and is picked again. -/

namespace Strata.Backend.EmailRetries

open Utf8 (Text)
open Tables (Table)

inductive Status where
  | queued | sent | failed | bounced | suppressed
  deriving DecidableEq, Repr

inductive SendError where
  | transient (detail : Text)
  | permanent (detail : Text)
  | disabled (detail : Text)
  deriving DecidableEq, Repr

def SendError.text : SendError → Text
  | .transient detail => "transient transport error: ".toList ++ detail
  | .permanent detail => "permanent transport error: ".toList ++ detail
  | .disabled detail => "transport disabled: ".toList ++ detail

def SendError.isRetryable : SendError → Bool
  | .transient _ => true
  | _ => false

/-- A row of `email_deliveries`, under its id. Times are in seconds. -/
structure Delivery where
  templateKey : Text
  recipientEmail : Text
  relatedEntityId : Option Nat
  status : Status
  attempts : Nat
  lastError : Option Text
  createdAt : Nat
  sentAt : Option Nat
  deriving DecidableEq, Repr

inductive TemplateKey where
  | checkoutPending | checkoutApproved | checkoutRejected | checkoutSelfApproved
  deriving DecidableEq, Repr

def templateOf (key : Text) : Option TemplateKey :=
  if key = "checkout_pending".toList then some .checkoutPending
  else if key = "checkout_approved".toList then some .checkoutApproved
  else if key = "checkout_rejected".toList then some .checkoutRejected
  else if key = "checkout_self_approved".toList then some .checkoutSelfApproved
  else none

/-- What the turn of one row finds: the clock, the checkouts, and how rendering, settings, transport
and sending turn out. An error is given by its text. -/
structure Turn where
  now : Nat
  checkoutExists : Nat → Bool
  render : TemplateKey → Nat → Except Text Unit
  smtpSettings : Except Text Unit
  smtpTransport : Except Text Unit
  send : Delivery → Except SendError Unit

/-- A pass, with the turns of its rows by their ids. -/
structure Pass where
  now : Nat
  turn : Nat → Turn

def recordSend (turn : Turn) (result : Except SendError Unit) (row : Delivery) : Delivery :=
  match result with
  | .ok () => { row with status := .sent, sentAt := some turn.now, attempts := row.attempts + 1 }
  | .error e =>
      { row with
        status := if e.isRetryable then .failed else .bounced
        lastError := some e.text
        attempts := row.attempts + 1 }

def labelled {α : Type} (label : String) : Except Text α → Except Text α
  | .ok value => .ok value
  | .error detail => .error (label.toList ++ detail)

/-- The change made to the row, or the error that is logged in its place. -/
def retryOne (turn : Turn) (row : Delivery) : Except Text (Delivery → Delivery) := do
  let template ← (templateOf row.templateKey).elim
    (.error ("unknown template_key ".toList ++ row.templateKey)) .ok
  let checkout ← row.relatedEntityId.elim
    (.error "delivery has no related_entity_id".toList) .ok
  if !turn.checkoutExists checkout then
    .error ("source checkout ".toList ++ RustInt.natText checkout ++
      " no longer exists".toList)
  else
    labelled "render: " (turn.render template checkout)
    labelled "load smtp: " turn.smtpSettings
    labelled "smtp transport: " turn.smtpTransport
    return recordSend turn (turn.send row)

def due (now : Nat) (row : Delivery) : Bool :=
  decide (row.status = .failed) && decide (row.attempts < 3) &&
    decide (row.createdAt + 2 ^ row.attempts * 30 < now)

abbrev Deliveries := Table Nat Delivery

def candidates (now : Nat) (table : Deliveries) : List (Σ _ : Nat, Delivery) :=
  ((table.entries.filter fun entry => due now entry.2).insertionSort
    fun a b => a.2.createdAt ≤ b.2.createdAt).take 50

def retry (pass : Pass) (table : Deliveries) (picked : Σ _ : Nat, Delivery) : Deliveries :=
  match retryOne (pass.turn picked.1) picked.2 with
  | .ok change => Tables.modify table picked.1 change
  | .error _ => table

def abandon (row : Delivery) : Delivery :=
  if row.status = .failed ∧ 3 ≤ row.attempts then
    { row with
      status := .bounced
      lastError := some (row.lastError.getD [] ++ " [abandoned after 3 attempts]".toList) }
  else row

def runRetryPass (table : Deliveries) (pass : Pass) : Deliveries :=
  let picked := candidates pass.now table
  if picked = [] then table else Tables.mapValues abandon (picked.foldl (retry pass) table)

def step (table : Deliveries) (pass : Pass) : Deliveries × List Nat :=
  (runRetryPass table pass, (candidates pass.now table).keys)

/-! ### What a pass does to the rows it picks -/

def Prepared (turn : Turn) (row : Delivery) : Prop :=
  ∃ template checkout, templateOf row.templateKey = some template ∧
    row.relatedEntityId = some checkout ∧ turn.checkoutExists checkout = true ∧
    turn.render template checkout = .ok () ∧ turn.smtpSettings = .ok () ∧
    turn.smtpTransport = .ok ()

theorem retryOne_of_prepared {turn : Turn} {row : Delivery} (prepared : Prepared turn row) :
    retryOne turn row = .ok (recordSend turn (turn.send row)) := by
  obtain ⟨template, checkout, known, related, there, renders, loads, builds⟩ := prepared
  simp [retryOne, known, related, there, renders, loads, builds, labelled, bind, Except.bind,
    pure, Except.pure]

theorem prepared_of_retryOne {turn : Turn} {row : Delivery} {change : Delivery → Delivery}
    (tried : retryOne turn row = .ok change) : Prepared turn row := by
  rw [retryOne] at tried
  cases known : templateOf row.templateKey with
  | none => simp [known, bind, Except.bind] at tried
  | some template =>
      cases related : row.relatedEntityId with
      | none => simp [known, related, bind, Except.bind] at tried
      | some checkout =>
          simp only [known, related, Option.elim_some, bind, Except.bind] at tried
          split at tried
          · cases tried
          · next there =>
              cases renders : turn.render template checkout with
              | error e => simp [renders, labelled] at tried
              | ok =>
                  cases loads : turn.smtpSettings with
                  | error e => simp [renders, loads, labelled] at tried
                  | ok =>
                      cases builds : turn.smtpTransport with
                      | error e => simp [renders, loads, builds, labelled] at tried
                      | ok =>
                          exact ⟨template, checkout, known, related, by simpa using there, renders,
                            loads, builds⟩

theorem recordSend_attempts (turn : Turn) (result : Except SendError Unit) (row : Delivery) :
    (recordSend turn result row).attempts = row.attempts + 1 := by
  cases result <;> rfl

theorem abandon_attempts (row : Delivery) : (abandon row).attempts = row.attempts := by
  rw [abandon]
  split <;> rfl

def retried (turn : Turn) (row : Delivery) : Delivery :=
  match retryOne turn row with
  | .ok change => change row
  | .error _ => row

theorem lookup_retry (pass : Pass) (table : Deliveries) (picked : Σ _ : Nat, Delivery)
    (present : table.lookup picked.1 = some picked.2) (id : Nat) :
    (retry pass table picked).lookup id =
      if id = picked.1 then some (retried (pass.turn picked.1) picked.2) else table.lookup id := by
  rw [retry, retried]
  cases retryOne (pass.turn picked.1) picked.2 with
  | ok change =>
      simp only [Tables.lookup_modify, present, Option.map_some]
  | error e =>
      simp only
      split
      · next same => rw [same, present]
      · rfl

theorem lookup_retries (pass : Pass) (picked : List (Σ _ : Nat, Delivery)) :
    ∀ table : Deliveries, picked.NodupKeys →
      (∀ entry ∈ picked, table.lookup entry.1 = some entry.2) →
      (∀ entry ∈ picked, (picked.foldl (retry pass) table).lookup entry.1 =
        some (retried (pass.turn entry.1) entry.2)) ∧
      ∀ id, id ∉ picked.keys → (picked.foldl (retry pass) table).lookup id = table.lookup id := by
  induction picked with
  | nil => exact fun table _ _ => ⟨List.forall_mem_nil _, fun id _ => rfl⟩
  | cons first picked ih =>
      intro table distinct present
      rw [List.forall_mem_cons] at present
      obtain ⟨apart, distinct⟩ := List.nodupKeys_cons.mp distinct
      have turned := lookup_retry pass table first present.1
      have later : ∀ entry ∈ picked, (retry pass table first).lookup entry.1 = some entry.2 := by
        intro entry member
        have other : entry.1 ≠ first.1 := by
          intro same
          exact apart (same ▸ List.mem_keys_of_mem member)
        rw [turned, if_neg other]
        exact present.2 entry member
      obtain ⟨these, others⟩ := ih (retry pass table first) distinct later
      rw [List.foldl_cons, List.forall_mem_cons]
      refine ⟨⟨?_, these⟩, ?_⟩
      · rw [others first.1 apart, turned, if_pos rfl]
      · intro id absent
        rw [List.keys_cons, List.mem_cons, not_or] at absent
        rw [others id absent.2, turned, if_neg absent.1]

theorem candidates_entries (now : Nat) (table : Deliveries) :
    (candidates now table).NodupKeys ∧
      ∀ entry ∈ candidates now table, table.lookup entry.1 = some entry.2 ∧
        entry.2.status = .failed ∧ entry.2.attempts < 3 := by
  have sorted := List.perm_insertionSort
    (fun a b : Σ _ : Nat, Delivery => a.2.createdAt ≤ b.2.createdAt)
    (table.entries.filter fun entry => due now entry.2)
  constructor
  · have kept : (table.entries.filter fun entry => due now entry.2).NodupKeys :=
      table.nodupKeys.sublist List.filter_sublist
    exact ((List.perm_nodupKeys sorted).mpr kept).sublist (List.take_sublist _ _)
  · intro entry member
    have inside := sorted.mem_iff.mp (List.mem_of_mem_take member)
    obtain ⟨present, waits⟩ := List.mem_filter.mp inside
    simp only [due, Bool.and_eq_true, decide_eq_true_eq] at waits
    exact ⟨AList.mem_lookup_iff.mpr present, waits.1⟩

theorem lookup_runRetryPass (table : Deliveries) (pass : Pass) :
    (∀ entry ∈ candidates pass.now table, (runRetryPass table pass).lookup entry.1 =
      some (abandon (retried (pass.turn entry.1) entry.2))) ∧
    ∀ id, id ∉ (candidates pass.now table).keys →
      ∀ row, table.lookup id = some row →
        ∃ after, (runRetryPass table pass).lookup id = some after ∧
          after.attempts = row.attempts := by
  obtain ⟨distinct, present⟩ := candidates_entries pass.now table
  obtain ⟨these, others⟩ := lookup_retries pass (candidates pass.now table) table distinct
    fun entry member => (present entry member).1
  rw [runRetryPass]
  split
  · next none_due =>
      rw [none_due]
      exact ⟨List.forall_mem_nil _, fun id _ row found => ⟨row, found, rfl⟩⟩
  · constructor
    · intro entry member
      rw [Tables.lookup_mapValues, these entry member, Option.map_some]
    · intro id absent row found
      rw [Tables.lookup_mapValues, others id absent, found, Option.map_some]
      exact ⟨abandon row, rfl, abandon_attempts row⟩

/-! ### Passes that make progress -/

/-- Every row the pass picks has a higher count afterwards, or is no longer failed. -/
def Progresses (table : Deliveries) (pass : Pass) : Prop :=
  ∀ entry ∈ candidates pass.now table, ∃ after,
    (runRetryPass table pass).lookup entry.1 = some after ∧
      (entry.2.attempts < after.attempts ∨ after.status ≠ .failed)

def AllPrepared (table : Deliveries) (pass : Pass) : Prop :=
  ∀ entry ∈ candidates pass.now table, Prepared (pass.turn entry.1) entry.2

theorem retried_of_prepared {turn : Turn} {row : Delivery} (prepared : Prepared turn row) :
    (abandon (retried turn row)).attempts = row.attempts + 1 := by
  rw [abandon_attempts, retried, retryOne_of_prepared prepared]
  exact recordSend_attempts turn (turn.send row) row

theorem retried_of_not_prepared {turn : Turn} {row : Delivery} (stopped : ¬ Prepared turn row)
    (few : row.attempts < 3) : abandon (retried turn row) = row := by
  have same : retried turn row = row := by
    rw [retried]
    cases tried : retryOne turn row with
    | ok change => exact absurd (prepared_of_retryOne tried) stopped
    | error e => rfl
  rw [same, abandon, if_neg fun both => absurd both.2 (by omega)]

theorem progresses_iff (table : Deliveries) (pass : Pass) :
    Progresses table pass ↔ AllPrepared table pass := by
  obtain ⟨these, -⟩ := lookup_runRetryPass table pass
  constructor
  · intro progresses entry member
    obtain ⟨-, failed, few⟩ := (candidates_entries pass.now table).2 entry member
    by_contra stopped
    obtain ⟨after, found, moved⟩ := progresses entry member
    rw [these entry member, retried_of_not_prepared stopped few] at found
    cases found
    rcases moved with more | other
    · omega
    · exact other failed
  · intro prepared entry member
    refine ⟨_, these entry member, Or.inl ?_⟩
    rw [retried_of_prepared (prepared entry member)]
    exact Nat.lt_succ_self _

theorem picks_le (passes : List Pass) :
    ∀ (table : Deliveries) (id : Nat) (row : Delivery), table.lookup id = some row →
      Machine.Meets step AllPrepared table passes →
      (Machine.run step table passes).2.count id ≤ 3 - row.attempts := by
  induction passes with
  | nil => exact fun _ _ _ _ _ => Nat.zero_le _
  | cons pass passes ih =>
      intro table id row found meets
      obtain ⟨distinct, present⟩ := candidates_entries pass.now table
      obtain ⟨these, others⟩ := lookup_runRetryPass table pass
      rw [Machine.run, List.count_append]
      by_cases member : id ∈ (candidates pass.now table).keys
      · obtain ⟨entry, inside, rfl⟩ := List.mem_map.mp member
        obtain ⟨same, -, few⟩ := present entry inside
        rw [same] at found
        cases found
        have once : (candidates pass.now table).keys.count entry.1 ≤ 1 :=
          List.nodup_iff_count_le_one.mp distinct entry.1
        have later := ih _ entry.1 _ (these entry inside) meets.2
        rw [retried_of_prepared (meets.1 entry inside)] at later
        simp only [step] at later ⊢
        omega
      · obtain ⟨after, found', same⟩ := others id member row found
        have later := ih _ id after found' meets.2
        have never : (candidates pass.now table).keys.count id = 0 :=
          List.count_eq_zero_of_not_mem member
        rw [same] at later
        simp only [step] at later ⊢
        omega

def delivery (key : Text) (createdAt : Nat) : Delivery :=
  ⟨key, "ops@example.com".toList, some 7, .failed, 1, none, createdAt, none⟩

def fairPass : Pass where
  now := 1000
  turn _ :=
    { now := 1000
      checkoutExists := fun _ => true
      render := fun _ _ => .ok ()
      smtpSettings := .ok ()
      smtpTransport := .ok ()
      send := fun _ => .ok () }

/-- Fifty failed share notices, whose template the worker does not know, and one younger row it
could send. -/
def blocked : Deliveries :=
  (List.range 50).foldl
    (fun table id => table.insert id (delivery "outbound_share_pending".toList 0))
    (AList.singleton 50 (delivery "checkout_approved".toList 1))

end Strata.Backend.EmailRetries
