import Mathlib.Tactic
import Strata.Lib.Machine
import Strata.Lib.Tables
import Strata.Backend.SessionBuffer

/-! All the session buffers under one budget. Each is cut to its share by its own pushes alone,
and the share shrinks when another buffer is made: the budget holds as long as no buffer that
stays idle is left with more than the share of the moment. -/

namespace Strata.Backend.Nvr

open Utf8 (Text)
open RustStr
open Pieces
open ReplayFilter (filterSensitiveInstructions isSensitive parseOpcode)
open Tables (Table)

variable {κ : Type} [DecidableEq κ]

structure Pool (κ : Type) where
  budget : NvrBudget
  buffers : Table κ SessionBuffer

def Pool.start (limit : Nat) : Pool κ := ⟨.new limit, ∅⟩

inductive Event (κ : Type) where
  | create (key : κ)
  | push (key : κ) (data : Text) (timestamp now : Nat)
  | drop (key : κ)

def Pool.create (pool : Pool κ) (key : κ) : Pool κ :=
  if key ∈ pool.buffers then pool
  else
    ⟨{ pool.budget with buffers := pool.budget.buffers + 1 }, pool.buffers.insert key .new⟩

def Pool.push (pool : Pool κ) (key : κ) (data : Text) (timestamp now : Nat) : Pool κ :=
  match pool.buffers.lookup key with
  | none => pool
  | some buffer =>
      let pushed := buffer.push pool.budget data timestamp now
      ⟨pushed.2, pool.buffers.insert key pushed.1⟩

def Pool.drop (pool : Pool κ) (key : κ) : Pool κ :=
  match pool.buffers.lookup key with
  | none => pool
  | some buffer =>
      ⟨{ pool.budget with
          used := pool.budget.used - buffer.accounted
          buffers := pool.budget.buffers - 1 }, pool.buffers.erase key⟩

def step (pool : Pool κ) : Event κ → Pool κ × List Empty
  | .create key => (pool.create key, [])
  | .push key data timestamp now => (pool.push key data timestamp now, [])
  | .drop key => (pool.drop key, [])

def SessionBuffer.held (buffer : SessionBuffer) : Nat :=
  buffer.totalBytes + buffer.persistentStateBytes

/-! ### The books -/

/-- Every buffer has reported all it holds, and the tally is the sum of the reports. -/
structure Balanced (limit : Nat) (pool : Pool κ) : Prop where
  limit : pool.budget.limit = limit
  count : pool.budget.buffers = Tables.size pool.buffers
  used : pool.budget.used = Tables.total (·.accounted) pool.buffers
  tallied : ∀ {key buffer}, pool.buffers.lookup key = some buffer → Tallied buffer
  reported : ∀ {key buffer}, pool.buffers.lookup key = some buffer →
    buffer.accounted = buffer.held

variable {pool : Pool κ} {limit : Nat}

theorem start_balanced (limit : Nat) : Balanced limit (Pool.start limit : Pool κ) := by
  constructor
  case limit => rfl
  case count => rfl
  case used => rfl
  case tallied => exact nofun
  case reported => exact nofun

theorem create_balanced (balanced : Balanced limit pool) (key : κ) :
    Balanced limit (pool.create key) := by
  rw [Pool.create]
  split_ifs with present
  · exact balanced
  -- the new buffer holds nothing and has reported nothing
  constructor
  case limit => exact balanced.limit
  case count => rw [Tables.size_insert_of_notMem _ present, ← balanced.count]
  case used =>
    rw [Tables.total_insert_of_notMem _ _ present, ← balanced.used]
    rfl
  case tallied =>
    intro other buffer inserted
    rcases Tables.of_lookup_insert _ inserted with ⟨_, rfl⟩ | ⟨_, old⟩
    · exact new_tallied
    · exact balanced.tallied old
  case reported =>
    intro other buffer inserted
    rcases Tables.of_lookup_insert _ inserted with ⟨_, rfl⟩ | ⟨_, old⟩
    · rfl
    · exact balanced.reported old

theorem accounted_le_used (balanced : Balanced limit pool) {key : κ} {buffer : SessionBuffer}
    (present : pool.buffers.lookup key = some buffer) : buffer.accounted ≤ pool.budget.used := by
  have split := Tables.total_erase_of_lookup (·.accounted) pool.buffers present
  rw [balanced.used]
  omega

theorem push_accounted {buffer : SessionBuffer} (tallied : Tallied buffer)
    (reported : buffer.accounted = buffer.held) (budget : NvrBudget) (data : Text)
    (timestamp now : Nat) :
    Accounted budget (buffer.push budget data timestamp now).2 buffer
      (buffer.push budget data timestamp now).1 := by
  by_cases nothing : filterSensitiveInstructions data = []
  · rw [push_nothing nothing]
    exact ⟨tallied, reported, fun _ => rfl, rfl, rfl⟩
  · have stored := store_tallied tallied (filterSensitiveInstructions data) timestamp
    have cut := cut_cut stored budget now
    have accounted := account_accounted cut.tallied budget
    rw [push_eq nothing]
    refine ⟨accounted.tallied, accounted.accounted, fun within => ?_, accounted.limit,
      accounted.buffers⟩
    rw [← accounted.used (cut.accounted.le.trans within), cut.accounted]
    rfl

theorem push_balanced (balanced : Balanced limit pool) (key : κ) (data : Text)
    (timestamp now : Nat) : Balanced limit (pool.push key data timestamp now) := by
  rw [Pool.push]
  split
  · exact balanced
  rename_i buffer present
  have pushed := push_accounted (balanced.tallied present) (balanced.reported present) pool.budget
    data timestamp now
  have member : key ∈ pool.buffers :=
    AList.lookup_isSome.mp (Option.isSome_of_eq_some present)
  constructor
  case limit => exact pushed.limit.trans balanced.limit
  case count =>
    rw [Tables.size_insert_of_mem _ member, ← balanced.count]
    exact pushed.buffers
  case used =>
    have replaced := Tables.total_insert_of_lookup (·.accounted) pool.buffers present
      (buffer.push pool.budget data timestamp now).1
    have used := pushed.used (accounted_le_used balanced present)
    rw [balanced.used] at used
    dsimp only
    omega
  case tallied =>
    intro other found inserted
    rcases Tables.of_lookup_insert _ inserted with ⟨_, rfl⟩ | ⟨_, old⟩
    · exact pushed.tallied
    · exact balanced.tallied old
  case reported =>
    intro other found inserted
    rcases Tables.of_lookup_insert _ inserted with ⟨_, rfl⟩ | ⟨_, old⟩
    · exact pushed.accounted
    · exact balanced.reported old

theorem drop_balanced (balanced : Balanced limit pool) (key : κ) :
    Balanced limit (pool.drop key) := by
  rw [Pool.drop]
  split
  · exact balanced
  rename_i buffer present
  have member : key ∈ pool.buffers :=
    AList.lookup_isSome.mp (Option.isSome_of_eq_some present)
  constructor
  case limit => exact balanced.limit
  case count =>
    have fewer := Tables.size_erase_of_mem pool.buffers member
    change pool.budget.buffers - 1 = Tables.size (pool.buffers.erase key)
    rw [balanced.count]
    omega
  case used =>
    have left := Tables.total_erase_of_lookup (·.accounted) pool.buffers present
    change pool.budget.used - buffer.accounted =
      Tables.total (·.accounted) (pool.buffers.erase key)
    rw [balanced.used]
    omega
  case tallied =>
    intro other found left
    exact balanced.tallied (Tables.of_lookup_erase _ left).2
  case reported =>
    intro other found left
    exact balanced.reported (Tables.of_lookup_erase _ left).2

theorem step_balanced (balanced : Balanced limit pool) (event : Event κ) :
    Balanced limit (step pool event).1 := by
  cases event with
  | create key => exact create_balanced balanced key
  | push key data timestamp now => exact push_balanced balanced key data timestamp now
  | drop key => exact drop_balanced balanced key

/-! ### The limit -/

/-- Every other buffer is within the share of the moment, and what this one has salvaged within
its cap. -/
def Trimmed (pool : Pool κ) : Event κ → Prop
  | .create _ => True
  | .push key _ _ _ =>
      (∀ entry ∈ pool.buffers.entries, entry.1 ≠ key →
        entry.2.accounted ≤ pool.budget.share) ∧
      ∀ buffer ∈ pool.buffers.lookup key, buffer.persistentStateBytes ≤ pool.budget.caps.2
  | .drop _ => True

instance (pool : Pool κ) (event : Event κ) : Decidable (Trimmed pool event) :=
  match event with
  | .create _ => inferInstanceAs (Decidable True)
  | .push key _ _ _ =>
      inferInstanceAs (Decidable ((∀ entry ∈ pool.buffers.entries, entry.1 ≠ key →
        entry.2.accounted ≤ pool.budget.share) ∧
        ∀ buffer ∈ pool.buffers.lookup key, buffer.persistentStateBytes ≤ pool.budget.caps.2))
  | .drop _ => inferInstanceAs (Decidable True)

theorem push_within_share {buffer : SessionBuffer} (tallied : Tallied buffer) {data : Text}
    (something : filterSensitiveInstructions data ≠ []) {budget : NvrBudget}
    (fits : buffer.persistentStateBytes ≤ budget.caps.2) (timestamp now : Nat) :
    (buffer.push budget data timestamp now).1.accounted ≤ budget.share := by
  have stored := store_tallied tallied (filterSensitiveInstructions data) timestamp
  have cut := cut_cut stored budget now
  rw [push_eq something]
  exact (Nat.add_le_add cut.ring (cut.fits fits)).trans (caps_le_share budget)

theorem push_within (balanced : Balanced limit pool) (within : pool.budget.used ≤ limit)
    {key : κ} {data : Text} {timestamp now : Nat}
    (trimmed : Trimmed pool (.push key data timestamp now)) :
    (pool.push key data timestamp now).budget.used ≤ limit := by
  have after := push_balanced balanced key data timestamp now
  rw [Pool.push] at after ⊢
  split at after
  · exact within
  rename_i buffer present
  by_cases something : filterSensitiveInstructions data = []
  · rw [push_nothing something]
    exact within
  have member : key ∈ pool.buffers :=
    AList.lookup_isSome.mp (Option.isSome_of_eq_some present)
  have own := push_within_share (balanced.tallied present) something
    (trimmed.2 buffer present) timestamp now
  have others : Tables.total (·.accounted) (pool.buffers.erase key) ≤
      Tables.size (pool.buffers.erase key) * pool.budget.share := by
    refine Tables.total_le_of_each _ _ fun entry left => trimmed.1 entry ?_ ?_
    · exact (List.kerase_sublist key pool.buffers.entries).subset left
    · exact (AList.mem_erase.mp (List.mem_keys_of_mem left)).1
  have used := after.used
  rw [Tables.total_insert] at used
  have fewer := Tables.size_erase_of_mem pool.buffers member
  have all := shares_le_limit pool.budget balanced.count.ge
  rw [← fewer, Nat.add_mul, Nat.one_mul, balanced.limit] at all
  rw [used]
  omega

theorem step_within (balanced : Balanced limit pool) (within : pool.budget.used ≤ limit)
    {event : Event κ} (trimmed : Trimmed pool event) :
    (step pool event).1.budget.used ≤ limit := by
  cases event with
  | create key =>
      change (pool.create key).budget.used ≤ limit
      rw [Pool.create]
      split_ifs
      · exact within
      · exact within
  | push key data timestamp now => exact push_within balanced within trimmed
  | drop key =>
      change (pool.drop key).budget.used ≤ limit
      rw [Pool.drop]
      split
      · exact within
      · exact (Nat.sub_le ..).trans within

/-- The bytes of all the buffers are the tally, and the tally is within the limit. -/
theorem used_within_limit (limit : Nat) (events : List (Event κ))
    (trimmed : Machine.Meets step Trimmed (.start limit) events) :
    (Machine.run step (.start limit) events).1.budget.used =
        Tables.total SessionBuffer.held (Machine.run step (.start limit) events).1.buffers ∧
      (Machine.run step (.start limit) events).1.budget.used ≤ limit := by
  have kept := Machine.run_invariant_of
    (fun _ pool => Balanced limit pool ∧ pool.budget.used ≤ limit)
    (And.intro (start_balanced limit) (Nat.zero_le limit)) ?_ events trimmed
  · obtain ⟨balanced, within⟩ := kept
    refine ⟨balanced.used.trans ?_, within⟩
    refine congrArg List.sum (List.map_congr_left fun entry member => ?_)
    exact balanced.reported (AList.mem_lookup_iff.mpr member)
  · rintro past event pool ⟨balanced, within⟩ met
    exact ⟨step_balanced balanced event, step_within balanced within met⟩

def smallEvents : List (Event Nat) :=
  [.create 0, .push 0 "4.size,1.0,2.64,2.48;".toList 0 0, .create 1,
    .push 1 "4.sync,1.5;".toList 1 1, .push 0 "3.nop;".toList (301 * second) (301 * second),
    .drop 1]

theorem small_buffers_within_limit :
    Machine.Meets step Trimmed (.start 1048576) smallEvents ∧
      (Machine.run step (.start 1048576) smallEvents).1.budget.used = 27 ∧
      (Machine.run step (.start 1048576) smallEvents).1.budget.used ≤ 1048576 :=
  ⟨by decide +kernel, by decide +kernel,
    (used_within_limit 1048576 smallEvents (by decide +kernel)).2⟩

/-! ### A buffer that stays idle -/

def filler (size : Nat) : Text := List.replicate size 'a'

theorem filler_bytes (size : Nat) : byteLen (filler size) = size := by
  rw [byteLen, filler, Utf8.encode]
  induction size with
  | zero => rfl
  | succ size ih =>
      rw [List.replicate_succ, List.flatMap_cons, List.length_append, ih, Nat.add_comm]
      rfl

theorem filler_trimmed (size : Nat) : trim (filler size) = filler size := by
  cases size with
  | zero => rfl
  | succ size =>
      rw [trim, filler, List.replicate_succ, trimStart_cons rfl, ← List.replicate_succ,
        List.replicate_succ', trimEnd_concat rfl]

theorem filler_harmless (size : Nat) : isSensitive (filler size) = false := by
  have dotless : '.' ∉ filler size := by
    intro member
    exact absurd (List.eq_of_mem_replicate member) (by decide)
  rw [isSensitive, parseOpcode]
  cases split : splitOnce '.' (filler size) with
  | none => rfl
  | some parts =>
      obtain ⟨whole, -⟩ := splitOnce_eq_some split
      rw [whole] at dotless
      exact absurd (List.mem_append_right _ (List.mem_cons_self ..)) dotless

theorem filler_filtered {size : Nat} (positive : 0 < size) :
    filterSensitiveInstructions (filler size) = filler size := by
  have filled : filler size ≠ [] := by
    intro empty
    rw [filler, List.replicate_eq_nil_iff] at empty
    omega
  have markless : ';' ∉ filler size := by
    intro member
    exact absurd (List.eq_of_mem_replicate member) (by decide)
  rw [ReplayFilter.filter_eq, splitInclusive_of_notMem filled markless, List.filter_singleton,
    ReplayFilter.keepPiece, filler_trimmed, filler_harmless, decide_eq_true filled]
  exact List.flatten_singleton

theorem first_push (budget : NvrBudget) {size : Nat} (positive : 0 < size)
    (fits : size ≤ budget.caps.1) :
    (SessionBuffer.new.push budget (filler size) 0 0).2 =
      { budget with used := budget.used + size } := by
  have kept := filler_filtered positive
  have filled : filterSensitiveInstructions (filler size) ≠ [] := by
    rw [kept, Ne, filler, List.replicate_eq_nil_iff]
    omega
  have stored : (SessionBuffer.new.store (filler size) 0).totalBytes = size :=
    (Nat.zero_add _).trans (filler_bytes size)
  have young (front : BufferedFrame) :
      isOld 0 (SessionBuffer.new.store (filler size) 0) front = false :=
    decide_eq_false (Nat.not_lt_zero _)
  have fitting (front : BufferedFrame) :
      isOver budget.caps.1 (SessionBuffer.new.store (filler size) 0) front = false := by
    rw [isOver, stored]
    exact decide_eq_false (Nat.not_lt.mpr fits)
  have whole : (SessionBuffer.new.store (filler size) 0).cut budget 0 =
      SessionBuffer.new.store (filler size) 0 := by
    have ring : (SessionBuffer.new.store (filler size) 0).frames =
        [⟨0, filler size, byteLen (filler size)⟩] := rfl
    simp only [SessionBuffer.cut, ring, SessionBuffer.evict, young, fitting, Bool.false_eq_true,
      if_false]
  rw [push_eq filled, kept, whole, SessionBuffer.account]
  dsimp only
  rw [stored]
  exact if_pos positive

theorem pool_first_push {key : κ} {size : Nat} (present : pool.buffers.lookup key = some .new)
    (positive : 0 < size) (fits : size ≤ pool.budget.caps.1) :
    (pool.push key (filler size) 0 0).budget =
      { pool.budget with used := pool.budget.used + size } := by
  rw [Pool.push, present]
  exact first_push pool.budget positive fits

theorem pool_push_keys (pool : Pool κ) (key other : κ) (data : Text) (timestamp now : Nat) :
    other ∈ (pool.push key data timestamp now).buffers ↔ other ∈ pool.buffers := by
  rw [Pool.push]
  split
  · exact Iff.rfl
  · rename_i buffer present
    have member : key ∈ pool.buffers :=
      AList.lookup_isSome.mp (Option.isSome_of_eq_some present)
    rw [AList.mem_insert]
    constructor
    · rintro (rfl | before)
      · exact member
      · exact before
    · exact .inr

def idleEvents (first second : Nat) : List (Event Nat) :=
  [.create 0, .push 0 (filler first) 0 0, .create 1, .push 1 (filler second) 0 0]

theorem idle_used {limit first second : Nat} (some : 0 < first ∧ 0 < second)
    (alone : first ≤ (NvrBudget.mk limit 0 1).caps.1)
    (beside : second ≤ (NvrBudget.mk limit first 2).caps.1) :
    (Machine.run step (.start limit) (idleEvents first second)).1.budget.used =
      first + second := by
  let early : Pool Nat := Pool.create (.start limit) 0
  let later : Pool Nat := early.push 0 (filler first) 0 0
  have empty : early.buffers.lookup 0 = .some .new := AList.lookup_insert _
  have filled : later.budget = ⟨limit, first, 1⟩ := by
    have pushed := pool_first_push empty some.1 alone
    rw [pushed, show early.budget.used + first = first from Nat.zero_add first]
    rfl
  have absent : 1 ∉ later.buffers := by
    rw [pool_push_keys]
    exact of_decide_eq_true rfl
  have joined : (later.create 1).budget = ⟨limit, first, 2⟩ := by
    rw [Pool.create, if_neg absent, filled]
  have made : (later.create 1).buffers.lookup 1 = .some .new := by
    rw [Pool.create, if_neg absent]
    exact AList.lookup_insert _
  rw [← joined] at beside
  change ((later.create 1).push 1 (filler second) 0 0).budget.used = first + second
  rw [pool_first_push made some.2 beside, joined]

/-- With a budget of one mebibyte. -/
theorem idle_buffer_breaks_limit :
    1048576 < (Machine.run step (.start 1048576) (idleEvents 748982 374491)).1.budget.used := by
  have used : (Machine.run step (.start 1048576) (idleEvents 748982 374491)).1.budget.used =
      748982 + 374491 :=
    idle_used ⟨by omega, by omega⟩ (by decide +kernel) (by decide +kernel)
  omega

end Strata.Backend.Nvr
