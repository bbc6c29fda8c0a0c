import Mathlib.Tactic
import Strata.Lib.Machine
import Strata.Backend.SharedViewers

/-! The drawings a session's buffer holds, and those a viewer that joins is given. Frames leave the
ring only when something is pushed, while the viewer is given the frames of the last minutes as of
the moment it joins. -/

namespace Strata.Backend.HeldDrawings

open Utf8 (Text)
open Pieces
open Nvr
open ReplayFilter (filterSensitiveInstructions)
open SharedViewers (window)

def drawings (data : Text) : List Text := (splitInclusive ';' data).filter isLasting

def held (buffer : SessionBuffer) : List Text :=
  buffer.persistentState ++ buffer.frames.flatMap fun frame => drawings frame.data

/-- The salvaged instructions and the frames of the last `window` nanoseconds. -/
def given (buffer : SessionBuffer) (now : Nat) : List Text :=
  buffer.persistentState ++ (buffer.framesWithin window now).flatMap drawings

structure Push where
  budget : NvrBudget
  data : Text
  timestamp : Nat
  now : Nat

def step (buffer : SessionBuffer) (push : Push) : SessionBuffer × List Empty :=
  ((buffer.push push.budget push.data push.timestamp push.now).1, [])

def drawn (pushes : List Push) : List Text :=
  pushes.flatMap fun push => drawings (filterSensitiveInstructions push.data)

/-! ### What the buffer holds is the end of what was drawn -/

variable {budget : NvrBudget} {buffer : SessionBuffer}

theorem kept_persistentState (insts : List Text) (buffer : SessionBuffer) :
    (insts.foldl SessionBuffer.keepInstruction buffer).persistentState =
      buffer.persistentState ++ insts.filter isLasting := by
  induction insts generalizing buffer with
  | nil => exact (List.append_nil _).symm
  | cons inst insts ih =>
      rw [List.foldl_cons, ih, SessionBuffer.keepInstruction]
      by_cases lasting : isLasting inst = true
      · rw [if_pos lasting, List.filter_cons_of_pos lasting, List.append_assoc]
        rfl
      · rw [if_neg lasting, List.filter_cons_of_neg lasting]

theorem dropOldest_suffix (most : Nat) (texts : List Text) (bytes : Nat) :
    (dropOldest most texts bytes).1 <:+ texts := by
  induction texts generalizing bytes with
  | nil => exact List.suffix_rfl
  | cons old rest ih =>
      rw [dropOldest]
      split_ifs
      · exact (ih _).trans (List.suffix_cons old rest)
      · exact List.suffix_rfl

theorem salvage_suffix (budget : NvrBudget) (buffer : SessionBuffer) (data : Text) :
    (buffer.salvagePersistentState budget data).persistentState <:+
      buffer.persistentState ++ drawings data := by
  rw [drawings, ← kept_persistentState]
  exact dropOldest_suffix ..

theorem suffix_append_right {first second : List Text} (suffix : first <:+ second)
    (more : List Text) : first ++ more <:+ second ++ more := by
  obtain ⟨front, rfl⟩ := suffix
  exact ⟨front, by rw [List.append_assoc]⟩

theorem popFront_suffix {front : BufferedFrame} {frames : List BufferedFrame}
    (ring : buffer.frames = front :: frames) :
    held (buffer.popFront budget front frames) <:+ held buffer := by
  have salvaged := salvage_suffix budget
    { buffer with frames := frames, totalBytes := buffer.totalBytes - front.byteSize } front.data
  rw [held, held, popFront_frames, ring, List.flatMap_cons, ← List.append_assoc]
  exact suffix_append_right salvaged _

theorem evict_suffix (budget : NvrBudget) (due : SessionBuffer → BufferedFrame → Bool)
    {frames : List BufferedFrame} (ring : buffer.frames = frames) :
    held (buffer.evict budget due frames) <:+ held buffer := by
  induction frames generalizing buffer with
  | nil => exact List.suffix_rfl
  | cons front frames ih =>
      rw [SessionBuffer.evict]
      split_ifs
      · exact (ih (popFront_frames ..)).trans (popFront_suffix ring)
      · exact List.suffix_rfl

theorem held_store (buffer : SessionBuffer) (filtered : Text) (timestamp : Nat) :
    held (buffer.store filtered timestamp) = held buffer ++ drawings filtered := by
  rw [held, held, SessionBuffer.store, List.flatMap_append, List.append_assoc]
  simp only [List.flatMap_cons, List.flatMap_nil, List.append_nil]

theorem push_suffix (buffer : SessionBuffer) (push : Push) :
    held (step buffer push).1 <:+
      held buffer ++ drawings (filterSensitiveInstructions push.data) := by
  by_cases nothing : filterSensitiveInstructions push.data = []
  · rw [step, push_nothing nothing, nothing]
    exact ⟨[], by rw [drawings, splitInclusive, List.filter_nil, List.append_nil]; rfl⟩
  · rw [step, push_eq nothing, ← held_store buffer _ push.timestamp]
    generalize buffer.store (filterSensitiveInstructions push.data) push.timestamp = stored
    have young := evict_suffix push.budget (isOld push.now) (rfl : stored.frames = stored.frames)
    exact (evict_suffix push.budget (isOver push.budget.caps.1) rfl).trans young

theorem run_suffix (pushes : List Push) :
    held (Machine.run step .new pushes).1 <:+ drawn pushes := by
  refine Machine.run_invariant (fun past buffer => held buffer <:+ drawn past) List.suffix_rfl
    (fun past push buffer before => ?_) pushes
  have pushed := suffix_append_right before (drawings (filterSensitiveInstructions push.data))
  refine (push_suffix buffer push).trans ?_
  rwa [drawn, List.flatMap_append, List.flatMap_singleton]

/-! ### What a viewer is given -/

theorem flatMap_filter_eq_iff {α β : Type} (keep : α → Bool) (pieces : α → List β)
    (items : List α) :
    (items.filter keep).flatMap pieces = items.flatMap pieces ↔
      ∀ item ∈ items, keep item = false → pieces item = [] := by
  induction items with
  | nil => simp
  | cons item items ih =>
      rw [List.forall_mem_cons, ← ih, List.flatMap_cons]
      cases kept : keep item with
      | true =>
          rw [List.filter_cons_of_pos kept, List.flatMap_cons, List.append_cancel_left_eq]
          exact ⟨fun same => ⟨nofun, same⟩, And.right⟩
      | false =>
          rw [List.filter_cons_of_neg (by rw [kept]; exact Bool.false_ne_true)]
          have most : ((items.filter keep).flatMap pieces).length ≤
              (items.flatMap pieces).length := (List.filter_sublist.flatMap pieces).length_le
          constructor
          · intro same
            have sizes := congrArg List.length same
            rw [List.length_append] at sizes
            have none : pieces item = [] := List.eq_nil_of_length_eq_zero (by omega)
            rw [none] at same
            exact ⟨fun _ => none, same⟩
          · rintro ⟨none, same⟩
            rw [none rfl, same]
            rfl

/-- However long after the last push a viewer joins: it is given all the drawings the buffer holds,
which are the last that were pushed, in order and each once, exactly if no frame in the ring that
is older than the window has a drawing in it. -/
theorem given_all_held_iff (pushes : List Push) (now : Nat) :
    let buffer := (Machine.run step .new pushes).1
    given buffer now = held buffer ∧ held buffer <:+ drawn pushes ↔
      ∀ frame ∈ buffer.frames, frame.timestamp + window < now → drawings frame.data = [] := by
  intro buffer
  rw [and_iff_left (run_suffix pushes), given, held, List.append_cancel_left_eq,
    SessionBuffer.framesWithin, List.flatMap_map, flatMap_filter_eq_iff]
  refine forall₂_congr fun frame _ => ?_
  rw [decide_eq_false_iff_not, Nat.not_le]

/-- One rectangle is pushed, and a viewer joins 301 seconds later. -/
theorem old_drawing_is_hidden :
    let buffer := (Machine.run step .new
      [⟨.new 1048576, SharedViewers.paint, 0, 0⟩]).1
    held buffer = [SharedViewers.paint] ∧ given buffer (301 * second) = [] := by
  decide +kernel

end Strata.Backend.HeldDrawings
