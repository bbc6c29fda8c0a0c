import Mathlib.Tactic
import Strata.Backend.RecordingIndex

/-! What a seek may rely on: at a checkpoint nothing of the display is left that the prelude does
not rebuild, and the checkpoint lies before the frame that is sought. Neither holds of every
recording; what it takes is said here exactly. -/

namespace Strata.Backend.RecordingIndex

open Utf8 (Text Bytes)
open Protocol.Guacamole
open DisplayModel (new apply replay Filled)

variable {codec : ImageCodec} {everyBytes : Nat} {bytes : Bytes} {index : Index}

/-! ### What is left behind at a checkpoint -/

/-- The builder where it panics, or at the end. An instruction may have got its checkpoint before
it was applied. -/
def Builder.progress (codec : ImageCodec) (everyBytes : Nat) :
    Builder → List (GuacInstruction × Nat) → Builder
  | builder, [] => builder
  | builder, next :: rest =>
      match builder.take codec everyBytes next with
      | some after => after.progress codec everyBytes rest
      | none => (builder.keyframe codec everyBytes next.1).getD builder

/-- The checkpoints that `build` writes, whether or not it then returns. -/
def written (codec : ImageCodec) (everyBytes : Nat) (bytes : Bytes) : List Checkpoint :=
  (Builder.start.progress codec everyBytes (parseRepeatedly bytes).1).checkpoints

theorem progress_of_takes {builder after : Builder} {more : List (GuacInstruction × Nat)}
    (taken : more.foldlM (Builder.take codec everyBytes) builder = some after) :
    builder.progress codec everyBytes more = after := by
  induction more generalizing builder with
  | nil => exact Option.some.inj taken
  | cons next more ih =>
      rw [List.foldlM_cons] at taken
      obtain ⟨turned, step, rest⟩ := Option.bind_eq_some_iff.mp taken
      rw [Builder.progress, step]
      exact ih rest

theorem Indexed.progress {parsed : List (GuacInstruction × Nat)} {builder : Builder}
    (indexed : Indexed codec everyBytes parsed builder) (more : List (GuacInstruction × Nat)) :
    ∃ before, before <+: more ∧
      Indexed codec everyBytes (parsed ++ before) (builder.progress codec everyBytes more) := by
  induction more generalizing parsed builder with
  | nil => exact ⟨[], List.prefix_rfl, by rwa [List.append_nil]⟩
  | cons next more ih =>
      rw [Builder.progress]
      cases step : builder.take codec everyBytes next with
      | some turned =>
          obtain ⟨before, early, reached⟩ := ih (indexed.take step)
          refine ⟨next :: before, List.cons_prefix_cons.mpr ⟨rfl, early⟩, ?_⟩
          rwa [List.append_cons]
      | none =>
          refine ⟨[], List.nil_prefix, ?_⟩
          rw [List.append_nil]
          cases marked : builder.keyframe codec everyBytes next.1 with
          | none => exact indexed
          | some saved => exact indexed.mark (keyframe_marked marked)

theorem written_stands {checkpoint : Checkpoint}
    (member : checkpoint ∈ written codec everyBytes bytes) :
    ∃ before, before <+: (parseRepeatedly bytes).1 ∧ Stands codec before checkpoint := by
  obtain ⟨reached, early, indexed⟩ : ∃ before, before <+: (parseRepeatedly bytes).1 ∧
      Indexed codec everyBytes ([] ++ before) _ := indexed_start.progress _
  obtain ⟨before, earlier, stands⟩ := indexed.checkpoints checkpoint member
  exact ⟨before, earlier.trans early, stands⟩

def displayAt (codec : ImageCodec) (bytes : Bytes) (offset : Nat) : Option DisplayModel :=
  replay codec new (upTo offset (parseRepeatedly bytes).1)

/-- The parts of a model that its prelude rebuilds. -/
def DisplayModel.rebuilt (model : DisplayModel) : DisplayModel :=
  { new with
    layers := model.layers
    audio := model.audio
    cursor := model.cursor
    mouse := model.mouse }

/-- No stream and no path is pending, so whatever follows draws what it would draw on the rebuilt
parts alone. -/
structure SelfContained (codec : ImageCodec) (model : DisplayModel) : Prop where
  images : model.images = ∅
  videos : model.videos = ∅
  transfers : model.transfers = ∅
  paths : model.paths = ∅
  later : ∀ more : List GuacInstruction, (replay codec model more).map DisplayModel.toCanvas =
    (replay codec model.rebuilt more).map DisplayModel.toCanvas

theorem SelfContained.layers {model : DisplayModel} (contained : SelfContained codec model)
    (next : GuacInstruction) :
    (apply codec model next).map (·.layers) = (apply codec model.rebuilt next).map (·.layers) := by
  have same := congrArg (Option.map Canvas.layers) (contained.later [next])
  simpa [replay, Option.map_map, Function.comp_def] using same

theorem selfContained_iff {model : DisplayModel} (atRest : model.AtRest) :
    SelfContained codec model ↔ model.paths = ∅ := by
  refine ⟨SelfContained.paths, fun paths => ?_⟩
  obtain ⟨images, videos, transfers⟩ := atRest
  refine ⟨images, videos, transfers, paths, DisplayModel.replay_congr ?_⟩
  obtain ⟨⟨layers, _, _, audio, cursor, mouse⟩, unknown, broken, _, _⟩ := model
  obtain rfl : _ = ∅ := images
  obtain rfl : _ = ∅ := paths
  rfl

theorem written_display {checkpoint : Checkpoint}
    (member : checkpoint ∈ written codec everyBytes bytes) :
    ∃ model skipPixels, displayAt codec bytes checkpoint.offset = some model ∧ model.AtRest ∧
      prelude codec model skipPixels = some checkpoint.prelude := by
  obtain ⟨before, early, stands⟩ := written_stands member
  rw [displayAt, stands.upTo early]
  exact stands.display

/-- Every checkpoint stands for itself exactly where every path begun before one is filled before
it: the builder looks at the open streams, not at the paths. -/
theorem checkpoints_selfContained_iff (codec : ImageCodec) (everyBytes : Nat)
    (reads : List Bytes) :
    let checkpoints := written codec everyBytes (recording reads)
    (∀ index, build codec everyBytes reads = some index → index.checkpoints = checkpoints) ∧
      (∀ checkpoint ∈ checkpoints, ∃ model skipPixels,
        displayAt codec (recording reads) checkpoint.offset = some model ∧
          prelude codec model skipPixels = some checkpoint.prelude) ∧
      ((∀ checkpoint ∈ checkpoints,
          ∀ model ∈ displayAt codec (recording reads) checkpoint.offset,
            SelfContained codec model) ↔
        ∀ checkpoint ∈ checkpoints,
          Filled (upTo checkpoint.offset (parseRepeatedly (recording reads)).1)) := by
  intro checkpoints
  refine ⟨fun index returned => ?_, fun checkpoint member => ?_, ?_⟩
  · rw [build_eq] at returned
    obtain ⟨builder, walked, rfl⟩ := Option.map_eq_some_iff.mp returned
    exact congrArg Builder.checkpoints (progress_of_takes walked).symm
  · obtain ⟨model, skipPixels, display, -, made⟩ := written_display member
    exact ⟨model, skipPixels, display, made⟩
  · refine forall₂_congr fun checkpoint member => ?_
    obtain ⟨model, skipPixels, display, atRest, -⟩ := written_display member
    rw [display]
    simp only [Option.mem_some_iff, forall_eq']
    rw [selfContained_iff atRest, DisplayModel.replay_paths display,
      DisplayModel.pathsOf_empty_iff]

/-- The rectangle before the checkpoint is pending there, and the `cfill` behind it paints the layer
only where the recording was replayed from its start. -/
theorem path_left_at_checkpoint :
    let bytes := Utf8.encode
      "4.size,1.0,1.1,1.1;4.rect,1.0,1.0,1.0,1.1,1.1;4.sync,4.1000;".toList
    let fill : GuacInstruction := ⟨"cfill".toList,
      ["14".toList, "0".toList, "255".toList, "0".toList, "0".toList, "255".toList]⟩
    (build .blank 1 [bytes]).map (fun index => index.checkpoints.map Checkpoint.offset) =
        some [60] ∧
      ∃ model, displayAt .blank (recording [bytes]) 60 = some model ∧
        (apply .blank model fill).map (·.layers) ≠
          (apply .blank model.rebuilt fill).map (·.layers) ∧
        ¬ SelfContained .blank model := by
  intro bytes fill
  have shown : ((displayAt .blank (recording [bytes]) 60).map fun model =>
      decide ((apply .blank model fill).map (·.layers) ≠
        (apply .blank model.rebuilt fill).map (·.layers))) = some true := by decide +kernel
  obtain ⟨model, display, differ⟩ := Option.map_eq_some_iff.mp shown
  have differ := of_decide_eq_true differ
  exact ⟨by decide +kernel, model, display, differ, fun contained =>
    differ (contained.layers fill)⟩

/-! ### Which frame a seek shows -/

/-- Where the first `sync` at or after the time starts. -/
def firstSync (first seekMs : Nat) : Nat → List (GuacInstruction × Nat) → Option Nat
  | _, [] => none
  | offset, (instruction, n) :: rest =>
      if ∃ ts ∈ syncTime instruction, seekMs ≤ ts - first then some offset
      else firstSync first seekMs (offset + n) rest

variable {first seekMs : Nat}

theorem firstSync_ge {offset stop : Nat} {parsed : List (GuacInstruction × Nat)}
    (found : firstSync first seekMs offset parsed = some stop) : offset ≤ stop := by
  induction parsed generalizing offset with
  | nil => cases found
  | cons next parsed ih =>
      obtain ⟨instruction, n⟩ := next
      rw [firstSync] at found
      split at found
      · exact (Option.some.inj found).le
      · have later := ih found
        omega

theorem firstSync_behind {before : List (GuacInstruction × Nat)}
    (early : ∀ ts ∈ syncTimes (before.map Prod.fst), ts - first < seekMs) (offset : Nat)
    (rest : List (GuacInstruction × Nat)) :
    firstSync first seekMs offset (before ++ rest) =
      firstSync first seekMs (offset + (before.map Prod.snd).sum) rest := by
  induction before generalizing offset with
  | nil => rfl
  | cons next before ih =>
      obtain ⟨instruction, n⟩ := next
      have passed : ¬ ∃ ts ∈ syncTime instruction, seekMs ≤ ts - first := by
        rintro ⟨ts, time, late⟩
        have soon := early ts (List.mem_filterMap.mpr ⟨instruction, List.mem_cons_self, time⟩)
        omega
      have others : ∀ ts ∈ syncTimes (before.map Prod.fst), ts - first < seekMs := by
        intro ts member
        obtain ⟨source, present, time⟩ := List.mem_filterMap.mp member
        exact early ts (List.mem_filterMap.mpr ⟨source, List.mem_cons_of_mem _ present, time⟩)
      rw [List.cons_append, firstSync, if_neg passed, ih others, List.map_cons, List.sum_cons,
        Nat.add_assoc]

theorem firstSync_among {before : List (GuacInstruction × Nat)} {ts : Nat}
    (member : ts ∈ syncTimes (before.map Prod.fst)) (late : seekMs ≤ ts - first)
    (positive : ∀ next ∈ before, 0 < next.2) (offset : Nat)
    (rest : List (GuacInstruction × Nat)) :
    ∃ stop, firstSync first seekMs offset (before ++ rest) = some stop ∧
      stop < offset + (before.map Prod.snd).sum := by
  induction before generalizing offset with
  | nil => cases member
  | cons next before ih =>
      obtain ⟨instruction, n⟩ := next
      rw [List.forall_mem_cons] at positive
      rw [List.cons_append, firstSync, List.map_cons, List.sum_cons]
      split
      · exact ⟨offset, rfl, by omega⟩
      · next passed =>
          have later : ts ∈ syncTimes (before.map Prod.fst) := by
            obtain ⟨source, present, time⟩ := List.mem_filterMap.mp member
            rcases List.mem_cons.mp present with rfl | present
            · exact absurd ⟨ts, time, late⟩ passed
            · exact List.mem_filterMap.mpr ⟨source, present, time⟩
          obtain ⟨stop, found, bound⟩ := ih later positive.2 (offset + n)
          exact ⟨stop, found, by omega⟩

theorem Index.nearest_some {checkpoint : Checkpoint}
    (nearest : index.nearest seekMs = some checkpoint) :
    checkpoint ∈ index.checkpoints ∧ checkpoint.atMs < seekMs := by
  have earlier := List.find?_some nearest
  exact ⟨List.mem_reverse.mp (List.mem_of_find?_eq_some nearest), of_decide_eq_true earlier⟩

theorem Describes.nearest_self (describes : Describes codec everyBytes bytes index)
    {checkpoint : Checkpoint} (member : checkpoint ∈ index.checkpoints) :
    index.nearest (checkpoint.atMs + 1) = some checkpoint := by
  obtain ⟨before, after, shape⟩ := List.append_of_mem member
  have spaced := describes.spaced
  rw [shape, List.pairwise_append, List.pairwise_cons] at spaced
  have late : ∀ other ∈ after.reverse, ¬ decide (other.atMs < checkpoint.atMs + 1) = true := by
    intro other later
    have time := (spaced.2.1.1 other (List.mem_reverse.mp later)).time
    simp only [decide_eq_true_eq]
    omega
  rw [Index.nearest, shape, List.reverse_append, List.reverse_cons, List.append_assoc,
    List.find?_append, List.find?_eq_none.mpr late, Option.none_or, List.singleton_append]
  exact List.find?_cons_of_pos (decide_eq_true (Nat.lt_succ_self _))

/-- The checkpoint lies before the `sync` sought, and a replay from there finds the same one. -/
def SeeksTo (bytes : Bytes) (first seekMs : Nat) (checkpoint : Checkpoint) : Prop :=
  (∀ stop ∈ firstSync first seekMs 0 (parseRepeatedly bytes).1, checkpoint.offset ≤ stop) ∧
    firstSync first seekMs checkpoint.offset
        (parseRepeatedly (bytes.drop checkpoint.offset)).1 =
      firstSync first seekMs 0 (parseRepeatedly bytes).1

/-- No `sync` before the checkpoint is later than the checkpoint. -/
def Latest (bytes : Bytes) (first : Nat) (checkpoint : Checkpoint) : Prop :=
  ∀ ts ∈ syncTimes (upTo checkpoint.offset (parseRepeatedly bytes).1),
    ts - first ≤ checkpoint.atMs

theorem Latest.seeksTo (describes : Describes codec everyBytes bytes index)
    {checkpoint : Checkpoint} (latest : Latest bytes first checkpoint)
    (nearest : index.nearest seekMs = some checkpoint) :
    SeeksTo bytes first seekMs checkpoint := by
  have ⟨member, soon⟩ := Index.nearest_some nearest
  obtain ⟨before, early, stands⟩ := describes.stands checkpoint member
  rw [Latest, stands.upTo early] at latest
  obtain ⟨after, shape⟩ := early
  have behind := firstSync_behind (fun ts time => (latest ts time).trans_lt soon) 0 after
  rw [Nat.zero_add, ← stands.offset, shape] at behind
  have rest : (parseRepeatedly (bytes.drop checkpoint.offset)).1 = after := by
    rw [stands.offset]
    exact StreamParser.drain_behind tryParse_step bytes shape.symm
  refine ⟨fun stop found => firstSync_ge (behind.symm.trans found), ?_⟩
  rw [rest, behind]

theorem SeeksTo.latest (describes : Describes codec everyBytes bytes index)
    {checkpoint : Checkpoint} (member : checkpoint ∈ index.checkpoints)
    (seeks : SeeksTo bytes first (checkpoint.atMs + 1) checkpoint) :
    Latest bytes first checkpoint := by
  obtain ⟨before, early, stands⟩ := describes.stands checkpoint member
  rw [Latest, stands.upTo early]
  intro ts time
  by_contra ahead
  have positive : ∀ next ∈ before, 0 < next.2 :=
    fun next present => sizes_positive bytes next (early.subset present)
  obtain ⟨after, shape⟩ := early
  obtain ⟨stop, found, bound⟩ := firstSync_among time
    (show checkpoint.atMs + 1 ≤ ts - first by omega) positive 0 after
  rw [shape] at found
  have reached := seeks.1 stop found
  rw [stands.offset] at reached
  omega

instance (bytes : Bytes) (first : Nat) (checkpoint : Checkpoint) :
    Decidable (Latest bytes first checkpoint) :=
  inferInstanceAs (Decidable (∀ ts ∈ syncTimes _, _ ≤ _))

end Strata.Backend.RecordingIndex
