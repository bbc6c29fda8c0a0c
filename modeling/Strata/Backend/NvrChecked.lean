import Mathlib.Tactic
import Strata.Backend.NvrBudget

/-! The counters of the session buffers with every subtraction checked: in no state that a run
reaches does one go below zero. -/

namespace Strata.Backend.Nvr

open Utf8 (Text)
open RustStr
open Pieces
open ReplayFilter (filterSensitiveInstructions)

def checkedSub (first second : Nat) : Option Nat :=
  if second ≤ first then some (first - second) else none

theorem checkedSub_eq {first second : Nat} (within : second ≤ first) :
    checkedSub first second = some (first - second) := if_pos within

def dropOldestChecked (most : Nat) : List Text → Nat → Option (List Text × Nat)
  | [], bytes => some ([], bytes)
  | old :: rest, bytes =>
      if most < bytes then do
        let left ← checkedSub bytes (byteLen old)
        dropOldestChecked most rest left
      else some (old :: rest, bytes)

namespace SessionBuffer

def salvageChecked (budget : NvrBudget) (buffer : SessionBuffer) (data : Text) :
    Option SessionBuffer := do
  let kept := (splitInclusive ';' data).foldl keepInstruction buffer
  let fitted ← dropOldestChecked budget.caps.2 kept.persistentState kept.persistentStateBytes
  some { kept with persistentState := fitted.1, persistentStateBytes := fitted.2 }

def popFrontChecked (buffer : SessionBuffer) (budget : NvrBudget) (front : BufferedFrame)
    (frames : List BufferedFrame) : Option SessionBuffer := do
  let left ← checkedSub buffer.totalBytes front.byteSize
  salvageChecked budget { buffer with frames := frames, totalBytes := left } front.data

def evictChecked (budget : NvrBudget) (due : SessionBuffer → BufferedFrame → Bool)
    (buffer : SessionBuffer) : List BufferedFrame → Option SessionBuffer
  | [] => some buffer
  | front :: frames =>
      if due buffer front then do
        let popped ← buffer.popFrontChecked budget front frames
        evictChecked budget due popped frames
      else some buffer

def cutChecked (buffer : SessionBuffer) (budget : NvrBudget) (now : Nat) :
    Option SessionBuffer := do
  let young ← buffer.evictChecked budget (isOld now) buffer.frames
  young.evictChecked budget (isOver budget.caps.1) young.frames

def accountChecked (buffer : SessionBuffer) (budget : NvrBudget) :
    Option (SessionBuffer × NvrBudget) :=
  let now := buffer.totalBytes + buffer.persistentStateBytes
  if now > buffer.accounted then do
    let more ← checkedSub now buffer.accounted
    some ({ buffer with accounted := now }, { budget with used := budget.used + more })
  else do
    let less ← checkedSub buffer.accounted now
    let used ← checkedSub budget.used less
    some ({ buffer with accounted := now }, { budget with used := used })

def pushChecked (buffer : SessionBuffer) (budget : NvrBudget) (data : Text)
    (timestamp now : Nat) : Option (SessionBuffer × NvrBudget) :=
  let filtered := filterSensitiveInstructions data
  if filtered = [] then some (buffer, budget)
  else do
    let cut ← (buffer.store filtered timestamp).cutChecked budget now
    cut.accountChecked budget

end SessionBuffer

variable {κ : Type} [DecidableEq κ]

def Pool.pushChecked (pool : Pool κ) (key : κ) (data : Text) (timestamp now : Nat) :
    Option (Pool κ) :=
  match pool.buffers.lookup key with
  | none => some pool
  | some buffer => do
      let pushed ← buffer.pushChecked pool.budget data timestamp now
      some ⟨pushed.2, pool.buffers.insert key pushed.1⟩

def Pool.dropChecked (pool : Pool κ) (key : κ) : Option (Pool κ) :=
  match pool.buffers.lookup key with
  | none => some pool
  | some buffer => do
      let used ← checkedSub pool.budget.used buffer.accounted
      let buffers ← checkedSub pool.budget.buffers 1
      some ⟨{ pool.budget with used := used, buffers := buffers }, pool.buffers.erase key⟩

def stepChecked (pool : Pool κ) : Event κ → Option (Pool κ)
  | .create key => some (pool.create key)
  | .push key data timestamp now => pool.pushChecked key data timestamp now
  | .drop key => pool.dropChecked key

/-! ### No subtraction underflows -/

section

variable {budget : NvrBudget} {buffer : SessionBuffer}

theorem dropOldest_checked (most : Nat) (texts : List Text) :
    dropOldestChecked most texts (textBytes texts) =
      some (dropOldest most texts (textBytes texts)) := by
  induction texts with
  | nil => rfl
  | cons old rest ih =>
      have within : byteLen old ≤ textBytes (old :: rest) := by
        rw [textBytes_cons]
        exact Nat.le_add_right ..
      rw [dropOldestChecked, dropOldest, checkedSub_eq within]
      split_ifs
      · rw [textBytes_cons, Nat.add_sub_cancel_left]
        exact ih
      · rfl

theorem salvage_checked (tallied : Tallied buffer) (data : Text) :
    buffer.salvageChecked budget data = some (buffer.salvagePersistentState budget data) := by
  have kept := kept_tallied (splitInclusive ';' data) tallied
  rw [SessionBuffer.salvageChecked, kept.salvaged, dropOldest_checked,
    SessionBuffer.salvagePersistentState, SessionBuffer.fitPersistentState, kept.salvaged]
  rfl

theorem popFront_checked (tallied : Tallied buffer) {front : BufferedFrame}
    {frames : List BufferedFrame} (ring : buffer.frames = front :: frames) :
    buffer.popFrontChecked budget front frames = some (buffer.popFront budget front frames) := by
  have within : front.byteSize ≤ buffer.totalBytes := by
    rw [tallied.ring, ring, ringBytes_cons]
    exact Nat.le_add_right ..
  rw [SessionBuffer.popFrontChecked, checkedSub_eq within]
  exact salvage_checked (front_tallied tallied ring) front.data

theorem evict_checked (due : SessionBuffer → BufferedFrame → Bool) (tallied : Tallied buffer)
    {frames : List BufferedFrame} (ring : buffer.frames = frames) :
    buffer.evictChecked budget due frames = some (buffer.evict budget due frames) := by
  induction frames generalizing buffer with
  | nil => rfl
  | cons front frames ih =>
      rw [SessionBuffer.evictChecked, SessionBuffer.evict, popFront_checked tallied ring]
      split_ifs
      · exact ih (popFront_tallied tallied ring) (popFront_frames ..)
      · rfl

theorem cut_checked (tallied : Tallied buffer) (now : Nat) :
    buffer.cutChecked budget now = some (buffer.cut budget now) := by
  have young := evict_evicted budget (isOld now) tallied rfl
  rw [SessionBuffer.cutChecked, evict_checked _ tallied rfl]
  exact evict_checked _ young.tallied rfl

theorem account_checked (within : buffer.accounted ≤ budget.used) :
    buffer.accountChecked budget = some (buffer.account budget) := by
  simp only [SessionBuffer.accountChecked, SessionBuffer.account]
  split_ifs with grew
  · rw [checkedSub_eq (Nat.le_of_lt grew)]
    rfl
  · rw [checkedSub_eq (Nat.le_of_not_lt grew)]
    simp only [Option.bind_eq_bind, Option.bind_some]
    rw [checkedSub_eq ((Nat.sub_le ..).trans within)]
    rfl

theorem push_checked (tallied : Tallied buffer) (within : buffer.accounted ≤ budget.used)
    (data : Text) (timestamp now : Nat) :
    buffer.pushChecked budget data timestamp now =
      some (buffer.push budget data timestamp now) := by
  simp only [SessionBuffer.pushChecked, SessionBuffer.push]
  split_ifs
  · rfl
  · have stored := store_tallied tallied (filterSensitiveInstructions data) timestamp
    rw [cut_checked stored]
    refine account_checked ?_
    rw [(cut_cut stored budget now).accounted]
    exact within

end

section

variable {pool : Pool κ} {limit : Nat}

theorem step_checked (balanced : Balanced limit pool) (event : Event κ) :
    stepChecked pool event = some (step pool event).1 := by
  cases event with
  | create key => rfl
  | push key data timestamp now =>
      change pool.pushChecked key data timestamp now = some (pool.push key data timestamp now)
      rw [Pool.pushChecked, Pool.push]
      cases present : pool.buffers.lookup key with
      | none => rfl
      | some buffer =>
          dsimp only
          rw [push_checked (balanced.tallied present) (accounted_le_used balanced present)]
          rfl
  | drop key =>
      change pool.dropChecked key = some (pool.drop key)
      rw [Pool.dropChecked, Pool.drop]
      cases present : pool.buffers.lookup key with
      | none => rfl
      | some buffer =>
          have member : key ∈ pool.buffers :=
            AList.lookup_isSome.mp (Option.isSome_of_eq_some present)
          have one : 1 ≤ pool.budget.buffers := by
            rw [balanced.count, ← Tables.size_erase_of_mem pool.buffers member]
            exact Nat.le_add_left ..
          dsimp only
          rw [checkedSub_eq (accounted_le_used balanced present), checkedSub_eq one]
          rfl

end

theorem foldlM_checked (limit : Nat) (events : List (Event κ)) :
    events.foldlM stepChecked (.start limit) = some (Machine.run step (.start limit) events).1 ∧
      Balanced limit (Machine.run step (.start limit) events).1 := by
  induction events using List.reverseRecOn with
  | nil => exact ⟨rfl, start_balanced limit⟩
  | append_singleton events event ih =>
      obtain ⟨ran, balanced⟩ := ih
      rw [List.foldlM_append, ran, Machine.run_concat]
      refine ⟨?_, step_balanced balanced event⟩
      simp only [Option.bind_eq_bind, Option.bind_some, List.foldlM_cons, List.foldlM_nil,
        step_checked balanced]
      rfl

/-! ### The sizes of frames -/

def Sized (pool : Pool κ) : Prop :=
  ∀ key buffer, pool.buffers.lookup key = some buffer →
    ∀ frame ∈ buffer.frames, frame.byteSize = byteLen frame.data

theorem step_sized {pool : Pool κ} (sized : Sized pool) (event : Event κ) :
    Sized (step pool event).1 := by
  cases event with
  | create key =>
      change Sized (pool.create key)
      rw [Pool.create]
      split_ifs
      · exact sized
      · intro other buffer found
        rcases Tables.of_lookup_insert _ found with ⟨rfl, rfl⟩ | ⟨_, old⟩
        · intro frame member
          cases member
        · exact sized other buffer old
  | push key data timestamp now =>
      change Sized (pool.push key data timestamp now)
      rw [Pool.push]
      cases present : pool.buffers.lookup key with
      | none => exact sized
      | some before =>
          intro other buffer found frame member
          rcases Tables.of_lookup_insert _ found with ⟨rfl, rfl⟩ | ⟨_, old⟩
          · rcases mem_push_frames member with earlier | rfl
            · exact sized other before present frame earlier
            · rfl
          · exact sized other buffer old frame member
  | drop key =>
      change Sized (pool.drop key)
      rw [Pool.drop]
      cases present : pool.buffers.lookup key with
      | none => exact sized
      | some before =>
          intro other buffer found
          exact sized other buffer (Tables.of_lookup_erase _ found).2

/-- After any run the counters of every live buffer are the bytes it holds, the tally is the sum
over the live buffers, and no subtraction on the way has underflowed. -/
theorem counters_exact (limit : Nat) (events : List (Event κ)) :
    let pool := (Machine.run step (.start limit) events).1
    (∀ key buffer, pool.buffers.lookup key = some buffer →
      buffer.totalBytes = (buffer.frames.map (·.byteSize)).sum ∧
        (∀ frame ∈ buffer.frames, frame.byteSize = byteLen frame.data) ∧
        buffer.persistentStateBytes = (buffer.persistentState.map byteLen).sum) ∧
      pool.budget.used =
        Tables.total (fun buffer => buffer.totalBytes + buffer.persistentStateBytes)
          pool.buffers ∧
      pool.budget.buffers = Tables.size pool.buffers ∧
      events.foldlM stepChecked (.start limit) = some pool := by
  intro pool
  obtain ⟨checked, balanced⟩ := foldlM_checked limit events
  have sized : Sized pool := Machine.run_invariant (fun _ pool => Sized pool) nofun
    (fun _ event _ before => step_sized before event) events
  refine ⟨fun key buffer found => ?_, ?_, balanced.count, checked⟩
  · have tallied := balanced.tallied found
    exact ⟨tallied.ring, sized key buffer found, tallied.salvaged⟩
  · refine balanced.used.trans (congrArg List.sum (List.map_congr_left fun entry member => ?_))
    exact balanced.reported (AList.mem_lookup_iff.mpr member)

end Strata.Backend.Nvr
