import Mathlib.Tactic
import Strata.Lib.Machine
import Strata.Lib.RustStr
import Strata.Lib.Tables

/-! `request_checkout` for one user: whether a checkout of the account is open is one statement, the
insert of the new row another, and no index of the table stands between two requests. Decisions,
activations, check-ins and expiries read a row's status and write a new one later, `WHERE id`
alone. Times are microseconds. -/

namespace Strata.Backend.CheckoutRequests

open Tables (Table)
open Utf8 (Text)

def second : Nat := 1000000

def minute : Nat := 60 * second

inductive Status where
  | pending
  | approved
  | scheduled
  | active
  | denied
  | expired
  | checkedIn
  deriving DecidableEq

inductive AppError where
  | validation (message : Text)
  | forbidden
  deriving DecidableEq

structure UserAccountMapping where
  managedAdDn : Text
  canSelfApprove : Bool
  adSyncConfigId : Option Nat
  friendlyName : Option Text
  deriving DecidableEq

structure RequestCheckoutBody where
  managedAdDn : Text
  requestedDurationMins : Option Int
  justificationComment : Option Text
  emergencyBypass : Option Bool
  scheduledStartAt : Option Nat
  deriving DecidableEq

structure Row where
  managedAdDn : Text
  adSyncConfigId : Option Nat
  status : Status
  requestedDurationMins : Int
  justificationComment : Text
  friendlyName : Option Text
  emergencyBypass : Bool
  scheduledStartAt : Option Nat
  deriving DecidableEq

/-- The statuses `has_open_checkout` looks for. -/
def isOpen : Status → Bool
  | .pending | .approved | .scheduled | .active => true
  | .denied | .expired | .checkedIn => false

variable {κ ι : Type}

/-- A request behind its open-checkout check; `seen` are the rows that were open then. -/
structure Request (ι : Type) where
  body : RequestCheckoutBody
  managedAdDn : Text
  mapping : UserAccountMapping
  seen : List ι

/-- What is done to a row: `decide_checkout`, `activate_checkout`, `checkin_checkout`,
`expire_checkout` and the sweep of stale rows. -/
inductive Change where
  | approve
  | deny
  | activate
  | checkIn
  | expire
  deriving DecidableEq

def Change.takes : Change → Status → Bool
  | .approve, status | .deny, status => status == .pending
  | .activate, status => status == .approved || status == .scheduled || status == .active
  | .checkIn, status => status == .active
  | .expire, status => status == .pending || status == .approved || status == .active

def Change.status : Change → Status
  | .approve => .approved
  | .deny => .denied
  | .activate => .active
  | .checkIn => .checkedIn
  | .expire => .expired

/-- A change behind its read of the row; an activation is `cleared` once it has looked for another
holder. -/
structure Update (ι : Type) where
  id : ι
  change : Change
  cleared : Bool
  seen : List ι

structure System (κ ι : Type) where
  rows : Table ι Row
  requests : Table κ (Request ι)
  updates : Table κ (Update ι)

def System.new : System κ ι := ⟨∅, ∅, ∅⟩

inductive Event (κ ι : Type) where
  /-- The request as far as its open-checkout check. -/
  | check (key : κ) (body : RequestCheckoutBody)
  /-- The rest of the request, with the id of the new row and the answer of
  `emergency_bypass_allowed`. -/
  | insert (key : κ) (id : ι) (allowBypass : Bool) (now : Nat)
  | look (key : κ) (id : ι) (change : Change)
  /-- The activation's `SELECT` for another active row of the account. -/
  | clear (key : κ)
  /-- `UPDATE … WHERE id` -/
  | write (key : κ)
  /-- A request's or a change's future is dropped, or fails on the way. -/
  | drop (key : κ)

inductive Effect (κ ι : Type) where
  | refused (key : κ) (error : AppError)
  | requested (key : κ) (id : ι) (status : Status)

def shortJustification : AppError :=
  .validation ("A justification of at least 10 characters is required for " ++
    "approval-required checkouts").toList

def shortBypassJustification : AppError :=
  .validation "Emergency Approval Bypass requires a justification of at least 10 characters".toList

def alreadyOpen : AppError :=
  .validation "You already have a pending or active checkout for this account".toList

def startTooLate : AppError :=
  .validation "Scheduled start time cannot be more than 14 days in the future".toList

/-- The user needs an approval and the trimmed comment has fewer than ten bytes. -/
def Request.unjustified (request : Request ι) : Bool :=
  !request.mapping.canSelfApprove &&
    (Utf8.encode (RustStr.trim (request.body.justificationComment.getD []))).length < 10

def Request.bypasses (request : Request ι) : Bool :=
  request.body.emergencyBypass.getD false && !request.mapping.canSelfApprove

def Request.start (request : Request ι) (now : Nat) : Option Nat :=
  request.body.scheduledStartAt.filter fun start => decide (now + 30 * second < start)

def Request.status (request : Request ι) (now : Nat) : Status :=
  if request.mapping.canSelfApprove ∨ request.bypasses then
    if (request.start now).isSome ∧ ¬ request.bypasses then .scheduled else .approved
  else .pending

def Request.duration (request : Request ι) : Int :=
  let duration := max 1 (min 720 (request.body.requestedDurationMins.getD 60))
  if request.bypasses then min duration 30 else duration

def Request.row (request : Request ι) (now : Nat) : Row where
  managedAdDn := request.managedAdDn
  adSyncConfigId := request.mapping.adSyncConfigId
  status := request.status now
  requestedDurationMins := request.duration
  justificationComment := request.body.justificationComment.getD []
  friendlyName := request.mapping.friendlyName
  emergencyBypass := request.bypasses && request.status now == .approved
  scheduledStartAt := request.start now

def Request.finish (request : Request ι) (allowBypass : Bool) (now : Nat) : Except AppError Row :=
  if request.unjustified then .error shortJustification
  else if request.bypasses ∧ request.unjustified then .error shortBypassJustification
  else if request.bypasses ∧ allowBypass = false then .error .forbidden
  else if (request.start now).any fun start => decide (now + 14 * 24 * 60 * minute < start) then
    .error startTooLate
  else .ok (request.row now)

theorem row_open (request : Request ι) (now : Nat) : isOpen (request.row now).status = true := by
  rw [Request.row, Request.status]
  split_ifs <;> rfl

theorem finish_ok {request : Request ι} {allowBypass : Bool} {now : Nat} {row : Row}
    (done : request.finish allowBypass now = .ok row) : row = request.row now := by
  rw [Request.finish] at done
  split_ifs at done
  exact (Except.ok.inj done).symm

variable [DecidableEq κ] [DecidableEq ι]

def hasOpenCheckout (rows : Table ι Row) (managedAdDn : Text) : Bool :=
  rows.entries.any fun entry => entry.2.managedAdDn = managedAdDn && isOpen entry.2.status

def openIds (rows : Table ι Row) : List ι :=
  (rows.entries.filter fun entry => isOpen entry.2.status).map (·.1)

def otherHolder (lower : Text → Text) (rows : Table ι Row) (managedAdDn : Text) (id : ι) : Bool :=
  rows.entries.any fun entry =>
    lower entry.2.managedAdDn = lower managedAdDn && entry.2.status == .active && entry.1 ≠ id

def step (lower : Text → Text) (mappings : Table Text UserAccountMapping) (s : System κ ι) :
    Event κ ι → System κ ι × List (Effect κ ι)
  | .check key body =>
      let dn := RustStr.trim body.managedAdDn
      if key ∈ s.requests then (s, [])
      else if dn = [] then (s, [.refused key (.validation "managed_ad_dn is required".toList)])
      else
        match mappings.lookup dn with
        | none => (s, [.refused key .forbidden])
        | some mapping =>
            if hasOpenCheckout s.rows dn then (s, [.refused key alreadyOpen])
            else
              ({ s with requests := s.requests.insert key ⟨body, dn, mapping, openIds s.rows⟩ }, [])
  | .insert key id allowBypass now =>
      match s.requests.lookup key with
      | none => (s, [])
      | some request =>
          if id ∈ s.rows then (s, [])
          else
            match request.finish allowBypass now with
            | .error error =>
                ({ s with requests := s.requests.erase key }, [.refused key error])
            | .ok row =>
                ({ s with rows := s.rows.insert id row, requests := s.requests.erase key },
                  [.requested key id row.status])
  | .look key id change =>
      match s.rows.lookup id with
      | none => (s, [])
      | some row =>
          if key ∉ s.updates ∧ change.takes row.status then
            let update := ⟨id, change, change != .activate, openIds s.rows⟩
            ({ s with updates := s.updates.insert key update }, [])
          else (s, [])
  | .clear key =>
      match s.updates.lookup key with
      | none => (s, [])
      | some update =>
          match s.rows.lookup update.id with
          | none => (s, [])
          | some row =>
              if otherHolder lower s.rows row.managedAdDn update.id then
                ({ s with updates := s.updates.erase key }, [])
              else
                let cleared := { update with cleared := true }
                ({ s with updates := s.updates.insert key cleared }, [])
  | .write key =>
      match s.updates.lookup key with
      | none => (s, [])
      | some update =>
          match s.rows.lookup update.id with
          | none => (s, [])
          | some row =>
              if update.cleared then
                let written := { row with status := update.change.status }
                ({ s with rows := s.rows.insert update.id written,
                          updates := s.updates.erase key }, [])
              else (s, [])
  | .drop key =>
      ({ s with requests := s.requests.erase key, updates := s.updates.erase key }, [])

/-! ### One open checkout an account -/

variable (lower : Text → Text)

/-- No two open rows of one account, whatever the case it is written in. -/
def OneOpen (s : System κ ι) : Prop :=
  ∀ first second row other, s.rows.lookup first = some row → s.rows.lookup second = some other →
    isOpen row.status = true → isOpen other.status = true →
    lower row.managedAdDn = lower other.managedAdDn → first = second

/-- Every open row of the account was open already, and written alike, when the request looked. -/
def Seen (rows : Table ι Row) (request : Request ι) : Prop :=
  ∀ id row, rows.lookup id = some row → isOpen row.status = true →
    lower row.managedAdDn = lower request.managedAdDn →
    id ∈ request.seen ∧ row.managedAdDn = request.managedAdDn

/-- The row is still open, or no row of its account was opened since the change read it. -/
def Awaited (rows : Table ι Row) (update : Update ι) (own : Row) : Prop :=
  isOpen own.status = false → ∀ id row, rows.lookup id = some row → isOpen row.status = true →
    lower row.managedAdDn = lower own.managedAdDn → id ∈ update.seen

/-- Whatever opens a row, by its insert or over a closed status, does so before another row of the
account is opened behind its read. -/
def OpensAlone (s : System κ ι) : Event κ ι → Prop
  | .insert key id allowBypass now =>
      ∀ request ∈ s.requests.lookup key, id ∉ s.rows →
        (request.finish allowBypass now).isOk = true → Seen lower s.rows request
  | .write key =>
      ∀ update ∈ s.updates.lookup key, update.cleared = true →
        isOpen update.change.status = true →
        ∀ own ∈ s.rows.lookup update.id, Awaited lower s.rows update own
  | _ => True

/-- What was open at a read is written otherwise than the request's account, or is the one open row
of the change's. -/
structure Checked (s : System κ ι) : Prop where
  requests : ∀ key request, s.requests.lookup key = some request → ∀ id ∈ request.seen,
    ∃ row, s.rows.lookup id = some row ∧ row.managedAdDn ≠ request.managedAdDn
  updates : ∀ key update, s.updates.lookup key = some update → ∀ id ∈ update.seen,
    id = update.id ∨ ∃ row own, s.rows.lookup id = some row ∧ s.rows.lookup update.id = some own ∧
      lower row.managedAdDn ≠ lower own.managedAdDn

variable {lower} {mappings : Table Text UserAccountMapping} {s : System κ ι}

theorem mem_openIds {rows : Table ι Row} {id : ι} :
    id ∈ openIds rows ↔ ∃ row, rows.lookup id = some row ∧ isOpen row.status = true := by
  simp only [openIds, List.mem_map, List.mem_filter]
  constructor
  · rintro ⟨entry, ⟨inside, opened⟩, rfl⟩
    exact ⟨entry.2, AList.mem_lookup_iff.mpr inside, opened⟩
  · rintro ⟨row, present, opened⟩
    exact ⟨⟨id, row⟩, ⟨AList.mem_lookup_iff.mp present, opened⟩, rfl⟩

theorem closed_of_check {rows : Table ι Row} {managedAdDn : Text}
    (none : hasOpenCheckout rows managedAdDn = false) {id : ι} {row : Row}
    (present : rows.lookup id = some row) (own : row.managedAdDn = managedAdDn) :
    isOpen row.status = false := by
  rw [hasOpenCheckout, List.any_eq_false] at none
  have closed := none _ (AList.mem_lookup_iff.mp present)
  simpa [own] using closed

/-- An open row of the account that the check saw would have stopped the request. -/
theorem seen_iff (checked : Checked lower s) {key : κ} {request : Request ι}
    (found : s.requests.lookup key = some request) :
    Seen lower s.rows request ↔ ∀ id row, s.rows.lookup id = some row →
      isOpen row.status = true → lower row.managedAdDn ≠ lower request.managedAdDn := by
  constructor
  · intro seen id row present opened same
    obtain ⟨looked, alike⟩ := seen id row present opened same
    obtain ⟨known, again, other⟩ := checked.requests key request found id looked
    rw [present] at again
    obtain rfl := Option.some.inj again
    exact other alike
  · intro none id row present opened same
    exact absurd same (none id row present opened)

theorem awaited_iff (checked : Checked lower s) {key : κ} {update : Update ι}
    (found : s.updates.lookup key = some update) {own : Row}
    (present : s.rows.lookup update.id = some own) :
    Awaited lower s.rows update own ↔ (isOpen own.status = false → ∀ id row,
      s.rows.lookup id = some row → isOpen row.status = true →
      lower row.managedAdDn ≠ lower own.managedAdDn) := by
  constructor
  · intro awaited closed id row held opened same
    rcases checked.updates key update found id (awaited closed id row held opened same) with
      rfl | ⟨row', own', held', present', other⟩
    · rw [present] at held
      obtain rfl := Option.some.inj held
      rw [closed] at opened
      cases opened
    · rw [held] at held'
      rw [present] at present'
      obtain rfl := Option.some.inj held'
      obtain rfl := Option.some.inj present'
      exact other same
  · intro none closed id row held opened same
    exact absurd same (none closed id row held opened)

omit [DecidableEq κ] in
theorem OneOpen.put_iff (one : OneOpen lower s) {id : ι} {row : Row}
    (closed : ∀ old, s.rows.lookup id = some old → isOpen old.status = false)
    (opened : isOpen row.status = true) (requests : Table κ (Request ι))
    (updates : Table κ (Update ι)) :
    OneOpen lower ⟨s.rows.insert id row, requests, updates⟩ ↔ ∀ other held,
      s.rows.lookup other = some held → isOpen held.status = true →
      lower held.managedAdDn ≠ lower row.managedAdDn := by
  constructor
  · intro after other held present outstanding same
    have apart : other ≠ id := by
      rintro rfl
      rw [closed held present] at outstanding
      cases outstanding
    exact apart (after other id held row (by rw [AList.lookup_insert_ne apart, present])
      (AList.lookup_insert _) outstanding opened same)
  · intro none first second row₁ row₂ present₁ present₂ open₁ open₂ same
    rcases Tables.of_lookup_insert _ present₁ with ⟨rfl, rfl⟩ | ⟨-, old₁⟩ <;>
      rcases Tables.of_lookup_insert _ present₂ with ⟨rfl, rfl⟩ | ⟨-, old₂⟩
    · rfl
    · exact absurd same.symm (none second row₂ old₂ open₂)
    · exact absurd same (none first row₁ old₁ open₁)
    · exact one first second row₁ row₂ old₁ old₂ open₁ open₂ same

omit [DecidableEq κ] in
theorem OneOpen.rewrite (one : OneOpen lower s) {id : ι} {row : Row}
    (present : s.rows.lookup id = some row) {status : Status}
    (kept : isOpen status = true → isOpen row.status = true) (requests : Table κ (Request ι))
    (updates : Table κ (Update ι)) :
    OneOpen lower ⟨s.rows.insert id { row with status := status }, requests, updates⟩ := by
  have before {other : ι} {held : Row}
      (after : (s.rows.insert id { row with status := status }).lookup other = some held)
      (outstanding : isOpen held.status = true) :
      ∃ old, s.rows.lookup other = some old ∧ isOpen old.status = true ∧
        old.managedAdDn = held.managedAdDn := by
    rcases Tables.of_lookup_insert _ after with ⟨rfl, rfl⟩ | ⟨-, old⟩
    · exact ⟨row, present, kept outstanding, rfl⟩
    · exact ⟨held, old, outstanding, rfl⟩
  intro first second row₁ row₂ present₁ present₂ open₁ open₂ same
  obtain ⟨old₁, held₁, was₁, name₁⟩ := before present₁ open₁
  obtain ⟨old₂, held₂, was₂, name₂⟩ := before present₂ open₂
  exact one first second old₁ old₂ held₁ held₂ was₁ was₂ (by rw [name₁, name₂, same])

omit [DecidableEq κ] in
/-- A write keeps the account exactly if the row was open or no other one of the account is. -/
theorem OneOpen.write_iff (one : OneOpen lower s) {id : ι} {row : Row}
    (present : s.rows.lookup id = some row) (status : Status) (requests : Table κ (Request ι))
    (updates : Table κ (Update ι)) :
    OneOpen lower ⟨s.rows.insert id { row with status := status }, requests, updates⟩ ↔
      (isOpen status = true → isOpen row.status = false → ∀ other held,
        s.rows.lookup other = some held → isOpen held.status = true →
        lower held.managedAdDn ≠ lower row.managedAdDn) := by
  by_cases reopens : isOpen status = true ∧ isOpen row.status = false
  · obtain ⟨opened, closed⟩ := reopens
    have was : ∀ old, s.rows.lookup id = some old → isOpen old.status = false := by
      intro old held
      rw [present] at held
      obtain rfl := Option.some.inj held
      exact closed
    have opens : isOpen ({ row with status := status } : Row).status = true := opened
    rw [one.put_iff was opens]
    exact ⟨fun none _ _ => none, fun none => none opened closed⟩
  · have kept : isOpen status = true → isOpen row.status = true := by
      intro opened
      by_contra closed
      exact reopens ⟨opened, by simpa using closed⟩
    refine iff_of_true (one.rewrite present kept requests updates) fun opened closed => ?_
    exact absurd ⟨opened, closed⟩ reopens

/-- Rows stay and keep their account. -/
def Kept (before after : Table ι Row) : Prop :=
  ∀ id row, before.lookup id = some row →
    ∃ held, after.lookup id = some held ∧ held.managedAdDn = row.managedAdDn

theorem Kept.refl (rows : Table ι Row) : Kept rows rows := fun _ row found => ⟨row, found, rfl⟩

theorem Kept.new {rows : Table ι Row} {id : ι} (absent : id ∉ rows) (row : Row) :
    Kept rows (rows.insert id row) := by
  intro other held found
  refine ⟨held, ?_, rfl⟩
  rw [AList.lookup_insert_ne, found]
  rintro rfl
  exact absent (AList.lookup_isSome.mp (by rw [found]; rfl))

theorem Kept.rewrite {rows : Table ι Row} {id : ι} {row : Row}
    (present : rows.lookup id = some row) (status : Status) :
    Kept rows (rows.insert id { row with status := status }) := by
  intro other held found
  by_cases same : other = id
  · subst same
    rw [present] at found
    obtain rfl := Option.some.inj found
    exact ⟨_, AList.lookup_insert _, rfl⟩
  · exact ⟨held, by rw [AList.lookup_insert_ne same, found], rfl⟩

theorem Checked.keep (checked : Checked lower s) {after : System κ ι}
    (kept : Kept s.rows after.rows)
    (requests : ∀ key request, after.requests.lookup key = some request →
      s.requests.lookup key = some request)
    (updates : ∀ key update, after.updates.lookup key = some update →
      ∃ old, s.updates.lookup key = some old ∧ old.id = update.id ∧ old.seen = update.seen) :
    Checked lower after where
  requests := by
    intro key request found id looked
    obtain ⟨row, present, other⟩ := checked.requests key request (requests key request found) id
      looked
    obtain ⟨held, still, name⟩ := kept id row present
    exact ⟨held, still, by rwa [name]⟩
  updates := by
    intro key update found id looked
    obtain ⟨old, was, same, seen⟩ := updates key update found
    rw [← seen] at looked
    rcases checked.updates key old was id looked with own | ⟨row, own, held, present, other⟩
    · exact .inl (own.trans same)
    · obtain ⟨row', held', name⟩ := kept id row held
      obtain ⟨own', present', name'⟩ := kept old.id own present
      exact .inr ⟨row', own', held', by rw [← same, present'], by rwa [name, name']⟩

theorem of_erased {β : Type} {table : Table κ β} {key other : κ} {value : β}
    (found : (table.erase key).lookup other = some value) : table.lookup other = some value :=
  (Tables.of_lookup_erase _ found).2

theorem check_cases (mappings : Table Text UserAccountMapping) (s : System κ ι) (key : κ)
    (body : RequestCheckoutBody) :
    (step lower mappings s (.check key body)).1 = s ∨
      ∃ dn mapping, hasOpenCheckout s.rows dn = false ∧
        (step lower mappings s (.check key body)).1 =
          { s with requests := s.requests.insert key ⟨body, dn, mapping, openIds s.rows⟩ } := by
  rw [step]
  split
  · exact .inl rfl
  · split
    · exact .inl rfl
    · split
      · exact .inl rfl
      · split
        · exact .inl rfl
        · next mapping _ none =>
            exact .inr ⟨_, mapping, by simpa using none, rfl⟩

theorem Checked.check (checked : Checked lower s) {dn : Text}
    (none : hasOpenCheckout s.rows dn = false) (key : κ) (body : RequestCheckoutBody)
    (mapping : UserAccountMapping) :
    Checked lower
      { s with requests := s.requests.insert key ⟨body, dn, mapping, openIds s.rows⟩ } where
  requests := by
    intro other request found id looked
    rcases Tables.of_lookup_insert _ found with ⟨rfl, rfl⟩ | ⟨-, old⟩
    · obtain ⟨row, present, opened⟩ := mem_openIds.mp looked
      refine ⟨row, present, fun own => ?_⟩
      rw [closed_of_check none present own] at opened
      cases opened
    · exact checked.requests other request old id looked
  updates := checked.updates

/-- An update reads a row that is open, so whatever else is open is of another account. -/
theorem Checked.look (checked : Checked lower s) (one : OneOpen lower s) {id : ι} {row : Row}
    (present : s.rows.lookup id = some row) {change : Change}
    (taken : change.takes row.status = true) (key : κ) (cleared : Bool) :
    Checked lower
      { s with updates := s.updates.insert key ⟨id, change, cleared, openIds s.rows⟩ } where
  requests := checked.requests
  updates := by
    have opened : isOpen row.status = true := by
      cases change <;> cases status : row.status <;> simp_all [Change.takes, isOpen]
    intro other update found held looked
    rcases Tables.of_lookup_insert _ found with ⟨rfl, rfl⟩ | ⟨-, old⟩
    · obtain ⟨second, there, outstanding⟩ := mem_openIds.mp looked
      by_cases same : held = id
      · exact .inl same
      · exact .inr ⟨second, row, there, present, fun account =>
          same (one held id second row there present outstanding opened account)⟩
    · exact checked.updates other update old held looked

theorem checked_step (checked : Checked lower s) (one : OneOpen lower s) (event : Event κ ι) :
    Checked lower (step lower mappings s event).1 := by
  cases event with
  | check key body =>
      rcases check_cases mappings s key body with same | ⟨dn, mapping, none, after⟩
      · rw [same]
        exact checked
      · rw [after]
        exact checked.check none key body mapping
  | insert key id allowBypass now =>
      rw [step]
      split
      · exact checked
      · split_ifs with present
        · exact checked
        · split
          · exact checked.keep (.refl _) (fun _ _ found => of_erased found)
              fun _ update found => ⟨update, found, rfl, rfl⟩
          · exact checked.keep (.new present _) (fun _ _ found => of_erased found)
              fun _ update found => ⟨update, found, rfl, rfl⟩
  | look key id change =>
      rw [step]
      split
      · exact checked
      · next row present =>
          split_ifs with taken
          · exact checked.look one present taken.2 key _
          · exact checked
  | clear key =>
      rw [step]
      split
      · exact checked
      · next update found =>
          split
          · exact checked
          · split_ifs
            · exact checked.keep (.refl _) (fun _ _ held => held)
                fun _ other held => ⟨other, of_erased held, rfl, rfl⟩
            · refine checked.keep (.refl _) (fun _ _ held => held) fun other held after => ?_
              rcases Tables.of_lookup_insert _ after with ⟨rfl, rfl⟩ | ⟨-, old⟩
              · exact ⟨update, found, rfl, rfl⟩
              · exact ⟨held, old, rfl, rfl⟩
  | write key =>
      rw [step]
      split
      · exact checked
      · split
        · exact checked
        · next row present =>
            split_ifs
            · exact checked.keep (.rewrite present _) (fun _ _ held => held)
                fun _ other held => ⟨other, of_erased held, rfl, rfl⟩
            · exact checked
  | drop key =>
      exact checked.keep (.refl _) (fun _ _ held => of_erased held)
        fun _ other held => ⟨other, of_erased held, rfl, rfl⟩

theorem insert_step (checked : Checked lower s) (one : OneOpen lower s) (key : κ) (id : ι)
    (allowBypass : Bool) (now : Nat) :
    OneOpen lower (step lower mappings s (.insert key id allowBypass now)).1 ↔
      OpensAlone lower s (.insert key id allowBypass now) := by
  rw [step, OpensAlone]
  cases found : s.requests.lookup key with
  | none => exact iff_of_true one fun request none => by cases none
  | some request =>
      by_cases present : id ∈ s.rows
      · simp only [if_pos present]
        exact iff_of_true one fun _ _ absent => absurd present absent
      · simp only [if_neg present]
        cases done : request.finish allowBypass now with
        | error error =>
            refine iff_of_true one fun _ own _ through => ?_
            obtain rfl := Option.some.inj own
            rw [done] at through
            cases through
        | ok row =>
            have opened := row_open request now
            rw [← finish_ok done] at opened
            have name : row.managedAdDn = request.managedAdDn := by
              rw [finish_ok done]
              rfl
            have new : ∀ old, s.rows.lookup id = some old → isOpen old.status = false :=
              fun old held => absurd (AList.lookup_isSome.mp (by rw [held]; rfl)) present
            simp only [one.put_iff new opened, name, ← seen_iff checked found]
            refine ⟨fun seen _ own _ _ => ?_, fun seen => ?_⟩
            · obtain rfl := Option.some.inj own
              exact seen
            · exact seen request rfl present (by rw [done]; rfl)

theorem write_step (checked : Checked lower s) (one : OneOpen lower s) (key : κ) :
    OneOpen lower (step lower mappings s (.write key)).1 ↔ OpensAlone lower s (.write key) := by
  rw [step, OpensAlone]
  cases found : s.updates.lookup key with
  | none => exact iff_of_true one fun update none => by cases none
  | some update =>
      cases present : s.rows.lookup update.id with
      | none =>
          simp only [present]
          refine iff_of_true one fun _ own _ _ row held => ?_
          obtain rfl := Option.some.inj own
          rw [present] at held
          cases held
      | some row =>
          by_cases cleared : update.cleared = true
          · simp only [present, if_pos cleared]
            rw [one.write_iff present]
            constructor
            · intro alone _ same _ opened held own
              obtain rfl := Option.some.inj same
              rw [present] at own
              obtain rfl := Option.some.inj own
              exact (awaited_iff checked found present).mpr (alone opened)
            · intro alone opened
              exact (awaited_iff checked found present).mp
                (alone update rfl cleared opened row present)
          · simp only [present, if_neg cleared]
            refine iff_of_true one fun _ own through => ?_
            obtain rfl := Option.some.inj own
            exact absurd through cleared

theorem one_open_step (checked : Checked lower s) (one : OneOpen lower s) (event : Event κ ι) :
    OneOpen lower (step lower mappings s event).1 ↔ OpensAlone lower s event := by
  cases event with
  | check key body =>
      rcases check_cases mappings s key body with same | ⟨dn, mapping, -, after⟩
      · rw [same]
        exact iff_of_true one trivial
      · rw [after]
        exact iff_of_true one trivial
  | insert key id allowBypass now => exact insert_step checked one key id allowBypass now
  | look key id change =>
      refine iff_of_true ?_ trivial
      rw [step]
      repeat' split
      all_goals exact one
  | clear key =>
      refine iff_of_true ?_ trivial
      rw [step]
      repeat' split
      all_goals exact one
  | write key => exact write_step checked one key
  | drop key => exact iff_of_true one trivial

/-- The user has one open checkout an account throughout exactly if no row is opened, by a request
or over a closed status, once another row of the account was opened behind the read that led to it
or is written otherwise. -/
theorem one_open_iff_opens_alone (lower : Text → Text)
    (mappings : Table Text UserAccountMapping) (events : List (Event κ ι)) :
    (∀ past, past <+: events →
        OneOpen lower (Machine.run (step lower mappings) .new past).1) ↔
      Machine.Meets (step lower mappings) (OpensAlone lower) (.new : System κ ι) events := by
  have none : OneOpen lower (.new : System κ ι) := by
    intro first second row other found
    cases found
  have fresh : Checked lower (.new : System κ ι) :=
    ⟨fun _ _ found => (by cases found), fun _ _ found => (by cases found)⟩
  refine Machine.kept_iff_meets (fun s => Checked lower s ∧ OneOpen lower s) ⟨fresh, none⟩ none
    ?_ ?_ events
  · rintro s event ⟨checked, one⟩ alone
    exact ⟨checked_step checked one event, (one_open_step checked one event).mpr alone⟩
  · rintro s event ⟨checked, one⟩
    exact one_open_step checked one event

def plainBody : RequestCheckoutBody := ⟨"CN=svc".toList, none, none, none, none⟩

def plainMappings : Table Text UserAccountMapping :=
  (∅ : Table Text UserAccountMapping).insert "CN=svc".toList ⟨"CN=svc".toList, true, none, none⟩

/-- Both requests look for an open checkout before either has inserted its own. -/
theorem two_requests_both_open :
    ¬ OneOpen id (Machine.run (step id plainMappings) (.new : System Nat Nat)
      [.check 1 plainBody, .check 2 plainBody, .insert 1 10 false 0, .insert 2 20 false 0]).1 := by
  intro one
  have same := one 10 20 _ _ (by rfl) (by rfl) (by decide) (by decide) rfl
  cases same

end Strata.Backend.CheckoutRequests
