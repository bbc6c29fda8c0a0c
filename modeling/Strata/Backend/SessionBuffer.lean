import Mathlib.Tactic
import Strata.Backend.ReplayFilter

/-! The replay buffer of a session: a ring of frames, and behind it the drawing instructions
salvaged from the frames that left the ring. Both are cut to the buffer's share of one budget
for the whole process, the ring on every push, the salvaged instructions only when a frame
leaves the ring. -/

namespace Strata.Backend.Nvr

open Utf8 (Text)
open RustStr
open RustInt
open Pieces
open ReplayFilter (filterSensitiveInstructions)

def second : Nat := 1000000000

def maxBufferDuration : Nat := 300 * second

def maxBufferBytes : Nat := 50 * 1024 * 1024

def maxPersistentStateBytes : Nat := 20 * 1024 * 1024

/-! ### The budget -/

structure NvrBudget where
  limit : Nat
  used : Nat
  buffers : Nat
  deriving DecidableEq

def NvrBudget.new (limit : Nat) : NvrBudget := ⟨limit, 0, 0⟩

def NvrBudget.share (budget : NvrBudget) : Nat := budget.limit / max budget.buffers 1

def saturatingMul (first second : Nat) : Nat := min (first * second) usizeMax

def cap (share most : Nat) : Nat :=
  min most (saturatingMul share most / (maxBufferBytes + maxPersistentStateBytes))

def NvrBudget.caps (budget : NvrBudget) : Nat × Nat :=
  (cap budget.share maxBufferBytes, cap budget.share maxPersistentStateBytes)

/-! ### The buffer -/

structure BufferedFrame where
  timestamp : Nat
  data : Text
  byteSize : Nat
  deriving DecidableEq

structure SessionBuffer where
  frames : List BufferedFrame
  totalBytes : Nat
  lastSizeInstruction : Option Text
  persistentState : List Text
  persistentStateBytes : Nat
  accounted : Nat
  deriving DecidableEq

def SessionBuffer.new : SessionBuffer := ⟨[], 0, none, [], 0, 0⟩

def byteLen (text : Text) : Nat := (Utf8.encode text).length

def ephemeralOpcodes : List Text :=
  ["4.sync".toList, "3.nop".toList, "3.key".toList, "5.mouse".toList]

def isLasting (inst : Text) : Bool :=
  trim inst ≠ [] &&
    !ephemeralOpcodes.contains ((trim inst).takeWhile fun c => c != ',' && c != ';')

def dropOldest (most : Nat) : List Text → Nat → List Text × Nat
  | [], bytes => ([], bytes)
  | old :: rest, bytes =>
      if most < bytes then dropOldest most rest (bytes - byteLen old) else (old :: rest, bytes)

def SessionBuffer.keepInstruction (buffer : SessionBuffer) (inst : Text) : SessionBuffer :=
  if isLasting inst then
    { buffer with
      persistentState := buffer.persistentState ++ [inst]
      persistentStateBytes := buffer.persistentStateBytes + byteLen inst }
  else buffer

def SessionBuffer.fitPersistentState (buffer : SessionBuffer) (most : Nat) : SessionBuffer :=
  { buffer with
    persistentState := (dropOldest most buffer.persistentState buffer.persistentStateBytes).1
    persistentStateBytes := (dropOldest most buffer.persistentState buffer.persistentStateBytes).2 }

def SessionBuffer.salvagePersistentState (budget : NvrBudget) (buffer : SessionBuffer)
    (data : Text) : SessionBuffer :=
  ((splitInclusive ';' data).foldl SessionBuffer.keepInstruction buffer).fitPersistentState
    budget.caps.2

def SessionBuffer.popFront (buffer : SessionBuffer) (budget : NvrBudget) (front : BufferedFrame)
    (frames : List BufferedFrame) : SessionBuffer :=
  ({ buffer with
      frames := frames
      totalBytes := buffer.totalBytes - front.byteSize } : SessionBuffer)
    |>.salvagePersistentState budget front.data

/-- Takes frames off the ring, which is the list, for as long as the front one is due. -/
def SessionBuffer.evict (budget : NvrBudget) (due : SessionBuffer → BufferedFrame → Bool)
    (buffer : SessionBuffer) : List BufferedFrame → SessionBuffer
  | [] => buffer
  | front :: frames =>
      if due buffer front then evict budget due (buffer.popFront budget front frames) frames
      else buffer

def isOld (now : Nat) (_ : SessionBuffer) (front : BufferedFrame) : Bool :=
  front.timestamp + maxBufferDuration < now

def isOver (most : Nat) (buffer : SessionBuffer) (_ : BufferedFrame) : Bool :=
  most < buffer.totalBytes

def SessionBuffer.account (buffer : SessionBuffer) (budget : NvrBudget) :
    SessionBuffer × NvrBudget :=
  let now := buffer.totalBytes + buffer.persistentStateBytes
  ({ buffer with accounted := now },
    if now > buffer.accounted then { budget with used := budget.used + (now - buffer.accounted) }
    else { budget with used := budget.used - (buffer.accounted - now) })

def containsText (mark text : Text) : Bool := (splitOnText mark text).isSome

def sizeMark : Text := ".size,".toList

def lastSize (filtered : Text) (before : Option Text) : Option Text :=
  if containsText sizeMark filtered then
    (filtered.splitOn ';').foldl
      (fun last inst =>
        if trim inst ≠ [] ∧ containsText sizeMark (trim inst) then some (trim inst ++ [';'])
        else last) before
  else before

def SessionBuffer.store (buffer : SessionBuffer) (filtered : Text) (timestamp : Nat) :
    SessionBuffer :=
  { buffer with
    lastSizeInstruction := lastSize filtered buffer.lastSizeInstruction
    frames := buffer.frames ++ [⟨timestamp, filtered, byteLen filtered⟩]
    totalBytes := buffer.totalBytes + byteLen filtered }

def SessionBuffer.cut (buffer : SessionBuffer) (budget : NvrBudget) (now : Nat) : SessionBuffer :=
  let young := buffer.evict budget (isOld now) buffer.frames
  young.evict budget (isOver budget.caps.1) young.frames

/-- The clock is read twice, for the frame's timestamp and for the cutoff. -/
def SessionBuffer.push (buffer : SessionBuffer) (budget : NvrBudget) (data : Text)
    (timestamp now : Nat) : SessionBuffer × NvrBudget :=
  let filtered := filterSensitiveInstructions data
  if filtered = [] then (buffer, budget)
  else ((buffer.store filtered timestamp).cut budget now).account budget

def SessionBuffer.framesWithin (buffer : SessionBuffer) (offset now : Nat) : List Text :=
  (buffer.frames.filter fun frame => now ≤ frame.timestamp + offset).map (·.data)

/-! ### What the counters count -/

def textBytes (texts : List Text) : Nat := (texts.map byteLen).sum

def ringBytes (frames : List BufferedFrame) : Nat := (frames.map (·.byteSize)).sum

/-- The two counters are the sizes of what the buffer holds. -/
structure Tallied (buffer : SessionBuffer) : Prop where
  ring : buffer.totalBytes = ringBytes buffer.frames
  salvaged : buffer.persistentStateBytes = textBytes buffer.persistentState

theorem new_tallied : Tallied .new := ⟨rfl, rfl⟩

@[simp]
theorem textBytes_cons (text : Text) (texts : List Text) :
    textBytes (text :: texts) = byteLen text + textBytes texts := List.sum_cons

@[simp]
theorem textBytes_append (first second : List Text) :
    textBytes (first ++ second) = textBytes first + textBytes second := by
  rw [textBytes, List.map_append, List.sum_append]
  rfl

@[simp]
theorem ringBytes_cons (frame : BufferedFrame) (frames : List BufferedFrame) :
    ringBytes (frame :: frames) = frame.byteSize + ringBytes frames := List.sum_cons

theorem dropOldest_fits (most : Nat) (texts : List Text) :
    (dropOldest most texts (textBytes texts)).2 =
        textBytes (dropOldest most texts (textBytes texts)).1 ∧
      (dropOldest most texts (textBytes texts)).2 ≤ most := by
  induction texts with
  | nil => exact ⟨rfl, Nat.zero_le most⟩
  | cons old rest ih =>
      rw [dropOldest]
      split_ifs with full
      · rw [textBytes_cons, Nat.add_sub_cancel_left]
        exact ih
      · exact ⟨rfl, Nat.le_of_not_lt full⟩

/-! ### Salvaging -/

variable {budget : NvrBudget} {buffer : SessionBuffer}

structure SameRing (buffer buffer' : SessionBuffer) : Prop where
  frames : buffer'.frames = buffer.frames
  totalBytes : buffer'.totalBytes = buffer.totalBytes
  accounted : buffer'.accounted = buffer.accounted

theorem keepInstruction_tallied (tallied : Tallied buffer) (inst : Text) :
    Tallied (buffer.keepInstruction inst) := by
  rw [SessionBuffer.keepInstruction]
  split_ifs
  · refine ⟨tallied.ring, ?_⟩
    change buffer.persistentStateBytes + byteLen inst = textBytes (buffer.persistentState ++ [inst])
    rw [textBytes_append, tallied.salvaged]
    rfl
  · exact tallied

theorem keepInstruction_ring (buffer : SessionBuffer) (inst : Text) :
    SameRing buffer (buffer.keepInstruction inst) := by
  rw [SessionBuffer.keepInstruction]
  split_ifs
  · exact ⟨rfl, rfl, rfl⟩
  · exact ⟨rfl, rfl, rfl⟩

theorem kept_tallied (insts : List Text) (tallied : Tallied buffer) :
    Tallied (insts.foldl SessionBuffer.keepInstruction buffer) := by
  induction insts generalizing buffer with
  | nil => exact tallied
  | cons inst insts ih => exact ih (keepInstruction_tallied tallied inst)

theorem kept_ring (insts : List Text) (buffer : SessionBuffer) :
    SameRing buffer (insts.foldl SessionBuffer.keepInstruction buffer) := by
  induction insts generalizing buffer with
  | nil => exact ⟨rfl, rfl, rfl⟩
  | cons inst insts ih =>
      have first := keepInstruction_ring buffer inst
      have rest := ih (buffer.keepInstruction inst)
      exact ⟨rest.frames.trans first.frames, rest.totalBytes.trans first.totalBytes,
        rest.accounted.trans first.accounted⟩

theorem salvage_ring (budget : NvrBudget) (buffer : SessionBuffer) (data : Text) :
    SameRing buffer (buffer.salvagePersistentState budget data) := by
  have kept := kept_ring (splitInclusive ';' data) buffer
  exact ⟨kept.frames, kept.totalBytes, kept.accounted⟩

theorem salvage_tallied (tallied : Tallied buffer) (data : Text) :
    Tallied (buffer.salvagePersistentState budget data) := by
  have kept := kept_tallied (splitInclusive ';' data) tallied
  refine ⟨kept.ring, ?_⟩
  rw [SessionBuffer.salvagePersistentState, SessionBuffer.fitPersistentState, kept.salvaged]
  exact (dropOldest_fits ..).1

theorem salvage_fits (tallied : Tallied buffer) (data : Text) :
    (buffer.salvagePersistentState budget data).persistentStateBytes ≤ budget.caps.2 := by
  have kept := kept_tallied (splitInclusive ';' data) tallied
  rw [SessionBuffer.salvagePersistentState, SessionBuffer.fitPersistentState, kept.salvaged]
  exact (dropOldest_fits ..).2

/-! ### Evicting -/

section Evict

variable {due : SessionBuffer → BufferedFrame → Bool} {front : BufferedFrame}
  {frames : List BufferedFrame}

theorem popFront_frames (buffer : SessionBuffer) (budget : NvrBudget) (front : BufferedFrame)
    (frames : List BufferedFrame) : (buffer.popFront budget front frames).frames = frames :=
  (salvage_ring ..).frames

theorem popFront_accounted (buffer : SessionBuffer) (budget : NvrBudget) (front : BufferedFrame)
    (frames : List BufferedFrame) :
    (buffer.popFront budget front frames).accounted = buffer.accounted :=
  (salvage_ring ..).accounted

theorem front_tallied (tallied : Tallied buffer) (first : buffer.frames = front :: frames) :
    Tallied { buffer with
      frames := frames
      totalBytes := buffer.totalBytes - front.byteSize } := by
  have ring := tallied.ring
  rw [first, ringBytes_cons] at ring
  refine ⟨?_, tallied.salvaged⟩
  change buffer.totalBytes - front.byteSize = ringBytes frames
  omega

theorem popFront_tallied (tallied : Tallied buffer) (first : buffer.frames = front :: frames) :
    Tallied (buffer.popFront budget front frames) :=
  salvage_tallied (front_tallied tallied first) front.data

theorem popFront_fits (tallied : Tallied buffer) (first : buffer.frames = front :: frames) :
    (buffer.popFront budget front frames).persistentStateBytes ≤ budget.caps.2 :=
  salvage_fits (front_tallied tallied first) front.data

structure Evicted (budget : NvrBudget) (due : SessionBuffer → BufferedFrame → Bool)
    (buffer buffer' : SessionBuffer) : Prop where
  tallied : Tallied buffer'
  accounted : buffer'.accounted = buffer.accounted
  stopped : ∀ front ∈ buffer'.frames.head?, due buffer' front = false
  fits : buffer.persistentStateBytes ≤ budget.caps.2 →
    buffer'.persistentStateBytes ≤ budget.caps.2

theorem evict_evicted (budget : NvrBudget) (due : SessionBuffer → BufferedFrame → Bool)
    (tallied : Tallied buffer) (ring : buffer.frames = frames) :
    Evicted budget due buffer (buffer.evict budget due frames) := by
  induction frames generalizing buffer with
  | nil =>
      refine ⟨tallied, rfl, ?_, id⟩
      rw [SessionBuffer.evict, ring]
      exact nofun
  | cons front frames ih =>
      rw [SessionBuffer.evict]
      split_ifs with leaves
      · have popped := popFront_frames buffer budget front frames
        have later := ih (popFront_tallied tallied ring) popped
        have fits := later.fits (popFront_fits tallied ring)
        exact ⟨later.tallied, later.accounted.trans (popFront_accounted ..), later.stopped,
          fun _ => fits⟩
      · refine ⟨tallied, rfl, ?_, id⟩
        rw [ring]
        rintro _ ⟨⟩
        exact Bool.not_eq_true _ ▸ leaves

theorem evict_frames (budget : NvrBudget) (due : SessionBuffer → BufferedFrame → Bool)
    (ring : buffer.frames = frames) : (buffer.evict budget due frames).frames <:+ frames := by
  induction frames generalizing buffer with
  | nil => rw [SessionBuffer.evict, ring]
  | cons front frames ih =>
      rw [SessionBuffer.evict]
      split_ifs
      · exact (ih (popFront_frames ..)).trans (List.suffix_cons front frames)
      · rw [ring]

end Evict

/-! ### Pushing -/

theorem store_tallied (tallied : Tallied buffer) (filtered : Text) (timestamp : Nat) :
    Tallied (buffer.store filtered timestamp) := by
  refine ⟨?_, tallied.salvaged⟩
  change buffer.totalBytes + byteLen filtered = ringBytes (buffer.frames ++ [_])
  rw [ringBytes, List.map_append, List.sum_append, tallied.ring]
  rfl

structure Cut (budget : NvrBudget) (buffer buffer' : SessionBuffer) : Prop where
  tallied : Tallied buffer'
  accounted : buffer'.accounted = buffer.accounted
  ring : buffer'.totalBytes ≤ budget.caps.1
  fits : buffer.persistentStateBytes ≤ budget.caps.2 →
    buffer'.persistentStateBytes ≤ budget.caps.2

theorem Evicted.ring {most : Nat} {buffer' : SessionBuffer}
    (evicted : Evicted budget (isOver most) buffer buffer') : buffer'.totalBytes ≤ most := by
  have counted := evicted.tallied.ring
  have stopped := evicted.stopped
  cases ring : buffer'.frames with
  | nil =>
      rw [ring] at counted
      rw [counted]
      exact Nat.zero_le most
  | cons front frames =>
      rw [ring] at stopped
      have fits := stopped front rfl
      rw [isOver, decide_eq_false_iff_not] at fits
      exact Nat.le_of_not_lt fits

theorem cut_cut (tallied : Tallied buffer) (budget : NvrBudget) (now : Nat) :
    Cut budget buffer (buffer.cut budget now) := by
  have young := evict_evicted budget (isOld now) tallied rfl
  have fitted := evict_evicted budget (isOver budget.caps.1) young.tallied rfl
  exact ⟨fitted.tallied, fitted.accounted.trans young.accounted, fitted.ring,
    fun before => fitted.fits (young.fits before)⟩

structure Accounted (budget budget' : NvrBudget) (buffer buffer' : SessionBuffer) : Prop where
  tallied : Tallied buffer'
  accounted : buffer'.accounted = buffer'.totalBytes + buffer'.persistentStateBytes
  used : buffer.accounted ≤ budget.used →
    budget'.used + buffer.accounted = budget.used + buffer'.accounted
  limit : budget'.limit = budget.limit
  buffers : budget'.buffers = budget.buffers

theorem account_accounted (tallied : Tallied buffer) (budget : NvrBudget) :
    Accounted budget (buffer.account budget).2 buffer (buffer.account budget).1 := by
  refine ⟨⟨tallied.ring, tallied.salvaged⟩, rfl, ?_, ?_, ?_⟩
  · intro within
    simp only [SessionBuffer.account]
    split_ifs with grew
    · change budget.used + _ + _ = _
      omega
    · change budget.used - _ + _ = _
      omega
  · simp only [SessionBuffer.account]
    split_ifs
    · rfl
    · rfl
  · simp only [SessionBuffer.account]
    split_ifs
    · rfl
    · rfl

theorem push_eq {data : Text} {timestamp now : Nat}
    (something : filterSensitiveInstructions data ≠ []) :
    buffer.push budget data timestamp now =
      ((buffer.store (filterSensitiveInstructions data) timestamp).cut budget now).account
        budget := by
  rw [SessionBuffer.push]
  exact if_neg something

theorem push_nothing {data : Text} {timestamp now : Nat}
    (nothing : filterSensitiveInstructions data = []) :
    buffer.push budget data timestamp now = (buffer, budget) := by
  rw [SessionBuffer.push]
  exact if_pos nothing

theorem mem_push_frames {data : Text} {timestamp now : Nat} {frame : BufferedFrame}
    (member : frame ∈ (buffer.push budget data timestamp now).1.frames) :
    frame ∈ buffer.frames ∨ frame = ⟨timestamp, filterSensitiveInstructions data,
      byteLen (filterSensitiveInstructions data)⟩ := by
  by_cases nothing : filterSensitiveInstructions data = []
  · rw [push_nothing nothing] at member
    exact .inl member
  · rw [push_eq nothing] at member
    have young := (evict_frames budget _ rfl).subset member
    rcases List.mem_append.mp ((evict_frames budget _ rfl).subset young) with old | new
    · exact .inl old
    · exact .inr (List.mem_singleton.mp new)

/-! ### The caps -/

theorem caps_le_share (budget : NvrBudget) : budget.caps.1 + budget.caps.2 ≤ budget.share := by
  have part (most : Nat) :
      saturatingMul budget.share most / (maxBufferBytes + maxPersistentStateBytes) ≤
        budget.share * most / (maxBufferBytes + maxPersistentStateBytes) :=
    Nat.div_le_div_right (min_le_left ..)
  have ring := (min_le_right maxBufferBytes _).trans (part maxBufferBytes)
  have salvaged := (min_le_right maxPersistentStateBytes _).trans (part maxPersistentStateBytes)
  have both : budget.share * maxBufferBytes / (maxBufferBytes + maxPersistentStateBytes) +
      budget.share * maxPersistentStateBytes / (maxBufferBytes + maxPersistentStateBytes) ≤
      budget.share := by
    rw [maxBufferBytes, maxPersistentStateBytes]
    omega
  exact (Nat.add_le_add ring salvaged).trans both

theorem shares_le_limit (budget : NvrBudget) {count : Nat} (all : count ≤ budget.buffers) :
    count * budget.share ≤ budget.limit := by
  have most : count ≤ max budget.buffers 1 := all.trans (le_max_left ..)
  calc count * budget.share
      ≤ max budget.buffers 1 * (budget.limit / max budget.buffers 1) :=
        Nat.mul_le_mul_right _ most
    _ ≤ budget.limit := Nat.mul_div_le ..

end Strata.Backend.Nvr
