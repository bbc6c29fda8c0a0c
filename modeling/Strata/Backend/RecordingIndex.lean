import Mathlib.Data.List.Sort
import Mathlib.Tactic
import Strata.Backend.DisplayModel
import Strata.Lib.RustVec
import Strata.Protocol.GuacamoleRoundTrip

/-! The seek index of a recording: checkpoints at instruction boundaries, each with a prelude that
rebuilds the display there. They are placed after a `sync`, or before a keyframe that repaints its
layer, where no stream is mid-way and every pixel is known or about to be painted. -/

namespace Strata.Backend.RecordingIndex

open Utf8 (Text Bytes)
open RustInt
open RustVec (chunks)
open Protocol.Guacamole
open DisplayModel (new apply replay)

def preludeBlobBytes : Nat := 48 * 1024

/-! ### A map in the order of its keys -/

def Below (first second : Int64) : Prop := first.toInt ≤ second.toInt

instance : DecidableRel Below := fun first second =>
  inferInstanceAs (Decidable (first.toInt ≤ second.toInt))

instance : Std.Total Below := ⟨fun first second => Int.le_total first.toInt second.toInt⟩

instance : IsTrans Int64 Below := ⟨fun _ _ _ => Int.le_trans⟩

theorem insertionSort_below {first second : List Int64} (perm : first.Perm second) :
    first.insertionSort Below = second.insertionSort Below := by
  refine List.Perm.eq_of_pairwise ?_ (List.pairwise_insertionSort Below first)
    (List.pairwise_insertionSort Below second) ?_
  · intro a b _ _ low high
    exact Int64.toInt_inj.mp (Int.le_antisymm low high)
  · exact ((List.perm_insertionSort Below first).trans perm).trans
      (List.perm_insertionSort Below second).symm

def ascending (keys : Finset Int64) : List Int64 :=
  Quot.liftOn keys.val (List.insertionSort Below) fun _ _ => insertionSort_below

/-- The entries as a `BTreeMap` lists them. -/
def inOrder {β : Type} (map : Finmap fun _ : Int64 => β) : List (Int64 × β) :=
  (ascending map.keys).filterMap fun id => (map.lookup id).map fun value => (id, value)

/-! ### The instructions -/

def sizeOf (id : Int64) (layer : Layer) : GuacInstruction :=
  ⟨"size".toList, [intText id.toInt, natText layer.w.toNat, natText layer.h.toNat]⟩

def blobOf (stream : Int64) (chunk : Bytes) : GuacInstruction :=
  ⟨"blob".toList, [intText stream.toInt, Base64.encodeBytes chunk]⟩

def imageOf (stream id : Int64) (png : Bytes) : List GuacInstruction :=
  ⟨"img".toList, [intText stream.toInt, intText maskCopy.toInt, intText id.toInt,
    "image/png".toList, "0".toList, "0".toList]⟩ ::
    ((chunks preludeBlobBytes png).map (blobOf stream) ++
      [⟨"end".toList, [intText stream.toInt]⟩])

def audioOf (entry : Int64 × Text) : GuacInstruction :=
  ⟨"audio".toList, [intText entry.1.toInt, entry.2]⟩

/-- The next stream no audio uses, after at most `tries` that one does. -/
def freeStreamFor (audio : Finmap fun _ : Int64 => Text) : Nat → Int64 → Int64
  | 0, stream => stream
  | tries + 1, stream =>
      if stream ∈ audio then freeStreamFor audio tries (stream + 1) else stream

def freeStream (audio : Finmap fun _ : Int64 => Text) (stream : Int64) : Int64 :=
  freeStreamFor audio audio.keys.card stream

def layersPrelude (codec : ImageCodec) (audio : Finmap fun _ : Int64 => Text)
    (skipPixels : Option Int64) : List (Int64 × Layer) → Int64 → Option (List GuacInstruction)
  | [], _ => some []
  | (id, layer) :: layers, stream =>
      if layer.w = 0 ∨ layer.h = 0 ∨ skipPixels = some id then
        (layersPrelude codec audio skipPixels layers stream).map (sizeOf id layer :: ·)
      else
        let stream := freeStream audio stream
        (codec.png layer).bind fun png =>
          (layersPrelude codec audio skipPixels layers stream).map fun rest =>
            sizeOf id layer :: (imageOf stream id png ++ rest)

/-- What `prelude` writes, instruction by instruction; none where a layer cannot be encoded, which
is an error or, where its buffer is not its size, a panic. -/
def preludeInstructions (codec : ImageCodec) (model : DisplayModel) (skipPixels : Option Int64) :
    Option (List GuacInstruction) :=
  (layersPrelude codec model.audio skipPixels (inOrder model.layers) 1).map fun layers =>
    layers ++ (inOrder model.audio).map audioOf ++
      (model.cursor.toList.map fun args => ⟨"cursor".toList, args⟩) ++
      model.mouse.toList.map fun args => ⟨"mouse".toList, args⟩

def prelude (codec : ImageCodec) (model : DisplayModel) (skipPixels : Option Int64) :
    Option Bytes :=
  (preludeInstructions codec model skipPixels).map encodeAll

/-! ### The index -/

/-- The prelude stands for the file it is written to. -/
structure Checkpoint where
  atMs : Nat
  offset : Nat
  prelude : Bytes
  deriving DecidableEq, Repr

structure Index where
  sourceLen : Nat
  firstTs : Option Nat
  checkpoints : List Checkpoint
  deriving DecidableEq, Repr

def Index.nearest (index : Index) (seekMs : Nat) : Option Checkpoint :=
  index.checkpoints.reverse.find? fun checkpoint => decide (checkpoint.atMs < seekMs)

def syncTime (instruction : GuacInstruction) : Option Nat :=
  if instruction.opcode = "sync".toList then
    instruction.args[0]?.bind (RustInt.parseUnsigned (2 ^ 64 - 1))
  else none

def Repaints (args : List Text) (layer : Layer) : Prop :=
  args[2]? = some "1".toList ∧
    match [3, 4, 5, 6].filterMap (int args) with
    | [x, y, w, h] =>
        x = 0 ∧ y = 0 ∧ (layer.w.toNat : Int) ≤ w.toInt ∧ (layer.h.toNat : Int) ≤ h.toInt
    | _ => False

instance (args : List Text) (layer : Layer) : Decidable (Repaints args layer) :=
  @instDecidableAnd _ _ (inferInstance)
    (match [3, 4, 5, 6].filterMap (int args) with
    | [_, _, _, _] => inferInstance
    | [] | [_] | [_, _] | [_, _, _] | _ :: _ :: _ :: _ :: _ :: _ => .isFalse not_false)

structure Builder where
  model : DisplayModel
  base : Nat
  firstTs : Option Nat
  atMs : Nat
  lastOffset : Nat
  lastAt : Option Nat
  checkpoints : List Checkpoint

namespace Builder

def start : Builder := ⟨new, 0, none, 0, 0, none, []⟩

/-- A checkpoint at this offset is far enough from the last one, and the model can be rebuilt. -/
def Due (everyBytes : Nat) (builder : Builder) (offset : Nat) : Prop :=
  builder.model.broken = false ∧ builder.model.AtRest ∧
    everyBytes ≤ offset - builder.lastOffset ∧ ∀ last ∈ builder.lastAt, last < builder.atMs

instance (everyBytes : Nat) (builder : Builder) (offset : Nat) :
    Decidable (builder.Due everyBytes offset) :=
  inferInstanceAs (Decidable (_ ∧ _ ∧ _ ∧ _))

def save (builder : Builder) (offset : Nat) (prelude : Bytes) : Builder :=
  { builder with
    lastOffset := offset
    lastAt := some builder.atMs
    checkpoints := builder.checkpoints ++ [⟨builder.atMs, offset, prelude⟩] }

def keyframe (codec : ImageCodec) (everyBytes : Nat) (builder : Builder)
    (instruction : GuacInstruction) : Option Builder :=
  if instruction.opcode = "h264".toList ∧ builder.firstTs.isSome ∧
      builder.Due everyBytes builder.base then
    match int instruction.args 1 with
    | some id =>
        match builder.model.layers.lookup id with
        | some layer =>
            if Repaints instruction.args layer ∧ builder.model.unknownLayers ⊆ {id} then
              (prelude codec builder.model (some id)).map (builder.save builder.base)
            else some builder
        | none => some builder
    | none => some builder
  else some builder

def timed (builder : Builder) (ts : Nat) : Builder :=
  { builder with
    firstTs := some (builder.firstTs.getD ts)
    atMs := ts - builder.firstTs.getD ts }

def sync (codec : ImageCodec) (everyBytes : Nat) (builder : Builder)
    (instruction : GuacInstruction) (offset : Nat) : Option Builder :=
  match syncTime instruction with
  | some ts =>
      if (builder.timed ts).Due everyBytes offset ∧ builder.model.unknownLayers = ∅ then
        (prelude codec builder.model none).map ((builder.timed ts).save offset)
      else some (builder.timed ts)
  | none => some builder

def draw (codec : ImageCodec) (builder : Builder) (instruction : GuacInstruction) :
    Option Builder :=
  (apply codec builder.model instruction).map fun model => { builder with model := model }

def advance (builder : Builder) (consumed : Nat) : Builder :=
  { builder with base := builder.base + consumed }

def take (codec : ImageCodec) (everyBytes : Nat) (builder : Builder)
    (parsed : GuacInstruction × Nat) : Option Builder :=
  (builder.keyframe codec everyBytes parsed.1).bind fun builder =>
    (builder.draw codec parsed.1).bind fun builder =>
      (builder.sync codec everyBytes parsed.1 (builder.base + parsed.2)).map fun builder =>
        builder.advance parsed.2

/-- One turn of the outer loop, over the bytes one read returned and those left before it. -/
def read (codec : ImageCodec) (everyBytes : Nat) (state : Builder × Bytes) (piece : Bytes) :
    Option (Builder × Bytes) :=
  let parsed := parseRepeatedly (state.2 ++ piece)
  (parsed.1.foldlM (take codec everyBytes) state.1).map fun builder => (builder, parsed.2.2)

def index (builder : Builder) (left : Bytes) : Index :=
  ⟨builder.base + left.length, builder.firstTs, builder.checkpoints⟩

end Builder

def filledReads (reads : List Bytes) : List Bytes := reads.takeWhile fun piece => !piece.isEmpty

def recording (reads : List Bytes) : Bytes := (filledReads reads).flatten

/-- None where the builder panics or a layer cannot be encoded. -/
def build (codec : ImageCodec) (everyBytes : Nat) (reads : List Bytes) : Option Index :=
  ((filledReads reads).foldlM (Builder.read codec everyBytes) (Builder.start, [])).map
    fun state => state.1.index state.2

def ImageCodec.blank : ImageCodec := ⟨fun _ => some [], fun _ => none, fun _ _ _ _ => rfl⟩

variable {codec : ImageCodec} {everyBytes : Nat}

/-! ### What one instruction does to the builder -/

inductive Marked (codec : ImageCodec) (everyBytes : Nat) (builder : Builder) : Builder → Prop
  | same : Marked codec everyBytes builder builder
  | saved {id : Int64} {bytes : Bytes} (started : builder.firstTs.isSome)
      (due : builder.Due everyBytes builder.base)
      (made : prelude codec builder.model (some id) = some bytes) :
      Marked codec everyBytes builder (builder.save builder.base bytes)

theorem keyframe_marked {builder marked : Builder} {instruction : GuacInstruction}
    (taken : builder.keyframe codec everyBytes instruction = some marked) :
    Marked codec everyBytes builder marked := by
  have same (kept : some builder = some marked) : Marked codec everyBytes builder marked := by
    cases kept
    exact .same
  unfold Builder.keyframe at taken
  split at taken
  · next due =>
      split at taken
      · split at taken
        · split at taken
          · obtain ⟨bytes, made, rfl⟩ := Option.map_eq_some_iff.mp taken
            exact .saved due.2.1 due.2.2 made
          · exact same taken
        · exact same taken
      · exact same taken
  · exact same taken

inductive Synced (codec : ImageCodec) (everyBytes : Nat) (builder : Builder)
    (instruction : GuacInstruction) (offset : Nat) : Builder → Prop
  | silent (untimed : syncTime instruction = none) :
      Synced codec everyBytes builder instruction offset builder
  | timed {ts : Nat} (time : syncTime instruction = some ts) :
      Synced codec everyBytes builder instruction offset (builder.timed ts)
  | saved {ts : Nat} {bytes : Bytes} (time : syncTime instruction = some ts)
      (due : (builder.timed ts).Due everyBytes offset)
      (made : prelude codec builder.model none = some bytes) :
      Synced codec everyBytes builder instruction offset ((builder.timed ts).save offset bytes)

theorem sync_synced {builder synced : Builder} {instruction : GuacInstruction} {offset : Nat}
    (taken : builder.sync codec everyBytes instruction offset = some synced) :
    Synced codec everyBytes builder instruction offset synced := by
  unfold Builder.sync at taken
  split at taken
  · next ts time =>
      split at taken
      · next due =>
          obtain ⟨bytes, made, rfl⟩ := Option.map_eq_some_iff.mp taken
          exact .saved time due.1 made
      · cases taken
        exact .timed time
  · next untimed =>
      cases taken
      exact .silent untimed

theorem take_cases {builder after : Builder} {parsed : GuacInstruction × Nat}
    (taken : builder.take codec everyBytes parsed = some after) :
    ∃ marked model synced, Marked codec everyBytes builder marked ∧
      apply codec marked.model parsed.1 = some model ∧
      Synced codec everyBytes { marked with model := model } parsed.1 (marked.base + parsed.2)
        synced ∧
      after = synced.advance parsed.2 := by
  obtain ⟨marked, keyframe, taken⟩ := Option.bind_eq_some_iff.mp taken
  obtain ⟨drawn, applied, taken⟩ := Option.bind_eq_some_iff.mp taken
  obtain ⟨model, ran, rfl⟩ := Option.map_eq_some_iff.mp applied
  obtain ⟨synced, sync, rfl⟩ := Option.map_eq_some_iff.mp taken
  exact ⟨marked, model, synced, keyframe_marked keyframe, ran, sync_synced sync, rfl⟩

/-! ### Checkpoints keep their distance -/

structure Spaced (everyBytes : Nat) (first second : Checkpoint) : Prop where
  bytes : first.offset + everyBytes ≤ second.offset
  time : first.atMs < second.atMs

structure Paced (everyBytes : Nat) (builder : Builder) (reached : Nat) : Prop where
  spaced : builder.checkpoints.Pairwise (Spaced everyBytes)
  last : ∀ checkpoint ∈ builder.checkpoints, checkpoint.offset ≤ builder.lastOffset ∧
    ∃ last ∈ builder.lastAt, checkpoint.atMs ≤ last
  behind : builder.lastOffset ≤ reached

theorem Paced.save {builder : Builder} {reached offset : Nat}
    (paced : Paced everyBytes builder reached) (further : reached ≤ offset)
    (due : builder.Due everyBytes offset) (bytes : Bytes) :
    Paced everyBytes (builder.save offset bytes) offset := by
  obtain ⟨-, -, far, later⟩ := due
  have behind := paced.behind
  refine ⟨List.pairwise_append.mpr ⟨paced.spaced, List.pairwise_singleton .., ?_⟩, ?_, le_rfl⟩
  · intro checkpoint member new same
    obtain rfl := List.mem_singleton.mp same
    obtain ⟨near, last, time, bound⟩ := paced.last checkpoint member
    exact ⟨by dsimp only; omega, bound.trans_lt (later last time)⟩
  · refine List.forall_mem_append.mpr ⟨?_, List.forall_mem_singleton.mpr ?_⟩
    · intro checkpoint member
      obtain ⟨near, last, time, bound⟩ := paced.last checkpoint member
      exact ⟨by dsimp only [Builder.save]; omega, builder.atMs, rfl,
        bound.trans (later last time).le⟩
    · exact ⟨le_rfl, builder.atMs, rfl, le_rfl⟩

theorem Paced.take {builder after : Builder} {parsed : GuacInstruction × Nat}
    (paced : Paced everyBytes builder builder.base)
    (taken : builder.take codec everyBytes parsed = some after) :
    Paced everyBytes after after.base := by
  obtain ⟨marked, model, synced, mark, -, sync, rfl⟩ := take_cases taken
  have kept : Paced everyBytes marked marked.base := by
    cases mark with
    | same => exact paced
    | saved _ due _ => exact paced.save le_rfl due _
  cases sync with
  | silent => exact ⟨kept.spaced, kept.last, kept.behind.trans (Nat.le_add_right ..)⟩
  | timed => exact ⟨kept.spaced, kept.last, kept.behind.trans (Nat.le_add_right ..)⟩
  | @saved ts bytes _ due _ =>
      have timed : Paced everyBytes (Builder.timed { marked with model := model } ts) marked.base :=
        ⟨kept.spaced, kept.last, kept.behind⟩
      have saved := timed.save (Nat.le_add_right ..) due bytes
      exact ⟨saved.spaced, saved.last, saved.behind⟩

/-! ### Where checkpoints stand -/

def syncTimes (instructions : List GuacInstruction) : List Nat := instructions.filterMap syncTime

def Clock (instructions : List GuacInstruction) (atMs : Nat) : Prop :=
  ∃ first last, (syncTimes instructions).head? = some first ∧
    (syncTimes instructions).getLast? = some last ∧ atMs = last - first

/-- The checkpoint is at a boundary between instructions, with the prelude of the model there. -/
structure Stands (codec : ImageCodec) (before : List (GuacInstruction × Nat))
    (checkpoint : Checkpoint) : Prop where
  offset : checkpoint.offset = (before.map Prod.snd).sum
  clock : Clock (before.map Prod.fst) checkpoint.atMs
  display : ∃ model skipPixels, replay codec new (before.map Prod.fst) = some model ∧
    model.AtRest ∧ prelude codec model skipPixels = some checkpoint.prelude

structure Indexed (codec : ImageCodec) (everyBytes : Nat) (parsed : List (GuacInstruction × Nat))
    (builder : Builder) : Prop where
  model : replay codec new (parsed.map Prod.fst) = some builder.model
  base : builder.base = (parsed.map Prod.snd).sum
  first : builder.firstTs = (syncTimes (parsed.map Prod.fst)).head?
  clock : builder.firstTs.isSome → Clock (parsed.map Prod.fst) builder.atMs
  checkpoints : ∀ checkpoint ∈ builder.checkpoints,
    ∃ before, before <+: parsed ∧ Stands codec before checkpoint
  paced : Paced everyBytes builder builder.base

theorem indexed_start : Indexed codec everyBytes [] Builder.start where
  model := rfl
  base := rfl
  first := rfl
  clock started := absurd started Bool.false_ne_true
  checkpoints _ member := absurd member List.not_mem_nil
  paced := ⟨.nil, fun _ member => absurd member List.not_mem_nil, le_rfl⟩

variable {parsed : List (GuacInstruction × Nat)} {builder after : Builder}

theorem syncTimes_concat (instructions : List GuacInstruction) (instruction : GuacInstruction) :
    syncTimes (instructions ++ [instruction]) =
      syncTimes instructions ++ (syncTime instruction).toList := by
  rw [syncTimes, List.filterMap_append, syncTimes]
  cases time : syncTime instruction <;> simp [time]

theorem clock_concat {instructions : List GuacInstruction} {instruction : GuacInstruction}
    {ts : Nat} {first : Option Nat} (time : syncTime instruction = some ts)
    (began : first = (syncTimes instructions).head?) :
    some (first.getD ts) = (syncTimes (instructions ++ [instruction])).head? ∧
      Clock (instructions ++ [instruction]) (ts - first.getD ts) := by
  have times : syncTimes (instructions ++ [instruction]) = syncTimes instructions ++ [ts] := by
    rw [syncTimes_concat, time]
    rfl
  have head : some (first.getD ts) = (syncTimes (instructions ++ [instruction])).head? := by
    rw [times, List.head?_append, began]
    cases (syncTimes instructions).head? <;> rfl
  exact ⟨head, _, ts, head.symm, by rw [times, List.getLast?_concat], rfl⟩

theorem Indexed.mark (indexed : Indexed codec everyBytes parsed builder)
    (mark : Marked codec everyBytes builder after) :
    Indexed codec everyBytes parsed after := by
  cases mark with
  | same => exact indexed
  | saved started due made =>
      have ⟨model, base, first, clock, checkpoints, paced⟩ := indexed
      refine ⟨model, base, first, clock, List.forall_mem_append.mpr ⟨checkpoints, ?_⟩,
        paced.save le_rfl due _⟩
      rw [List.forall_mem_singleton]
      exact ⟨parsed, List.prefix_rfl, base, clock started, _, _, model, due.2.1, made⟩

theorem Indexed.take (indexed : Indexed codec everyBytes parsed builder)
    {next : GuacInstruction × Nat} (taken : builder.take codec everyBytes next = some after) :
    Indexed codec everyBytes (parsed ++ [next]) after := by
  have paced := indexed.paced.take taken
  obtain ⟨marked, display, synced, mark, applied, sync, rfl⟩ := take_cases taken
  have ⟨model, base, first, clock, checkpoints, _⟩ := indexed.mark mark
  have grown : (parsed ++ [next]).map Prod.fst = parsed.map Prod.fst ++ [next.1] :=
    List.map_append
  have drawn : replay codec new ((parsed ++ [next]).map Prod.fst) = some display := by
    rw [grown, DisplayModel.replay_concat, model]
    exact applied
  have reached : marked.base + next.2 = ((parsed ++ [next]).map Prod.snd).sum := by
    rw [List.map_append, List.sum_append, base]
    rfl
  have old : ∀ checkpoint ∈ marked.checkpoints,
      ∃ before, before <+: parsed ++ [next] ∧ Stands codec before checkpoint := by
    intro checkpoint member
    obtain ⟨before, early, stands⟩ := checkpoints checkpoint member
    exact ⟨before, early.trans (List.prefix_append ..), stands⟩
  cases sync with
  | silent untimed =>
      have same : syncTimes ((parsed ++ [next]).map Prod.fst) =
          syncTimes (parsed.map Prod.fst) := by
        rw [grown, syncTimes_concat, untimed]
        exact List.append_nil _
      refine ⟨drawn, reached, first.trans (by rw [same]), fun started => ?_, old, paced⟩
      rw [Clock, same]
      exact clock started
  | timed time =>
      have ⟨head, ticked⟩ := clock_concat time first
      rw [← grown] at head ticked
      exact ⟨drawn, reached, head, fun _ => ticked, old, paced⟩
  | saved time due made =>
      have ⟨head, ticked⟩ := clock_concat time first
      rw [← grown] at head ticked
      refine ⟨drawn, reached, head, fun _ => ticked,
        List.forall_mem_append.mpr ⟨old, List.forall_mem_singleton.mpr ?_⟩, paced⟩
      exact ⟨parsed ++ [next], List.prefix_rfl, reached, ticked, _, none, drawn, due.2.1, made⟩

theorem Indexed.takes (indexed : Indexed codec everyBytes parsed builder)
    {more : List (GuacInstruction × Nat)}
    (taken : more.foldlM (Builder.take codec everyBytes) builder = some after) :
    Indexed codec everyBytes (parsed ++ more) after := by
  induction more generalizing parsed builder with
  | nil =>
      cases taken
      rwa [List.append_nil]
  | cons next more ih =>
      rw [List.foldlM_cons] at taken
      obtain ⟨turned, step, rest⟩ := Option.bind_eq_some_iff.mp taken
      rw [List.append_cons]
      exact ih (indexed.take step) rest

/-! ### The bytes -/

theorem parse_append (bytes more : Bytes) :
    (parseRepeatedly (bytes ++ more)).1 = (parseRepeatedly bytes).1 ++
      (parseRepeatedly ((parseRepeatedly bytes).2.2 ++ more)).1 ∧
    (parseRepeatedly (bytes ++ more)).2 =
      (parseRepeatedly ((parseRepeatedly bytes).2.2 ++ more)).2 :=
  StreamParser.drain_append (tryParse_step.refine _) bytes more

/-- The builder behind the instructions that the bytes hold, whatever follows them. -/
def walk (codec : ImageCodec) (everyBytes : Nat) (bytes : Bytes) : Option Builder :=
  (parseRepeatedly bytes).1.foldlM (Builder.take codec everyBytes) Builder.start

theorem walk_append (bytes more : Bytes) :
    walk codec everyBytes (bytes ++ more) = (walk codec everyBytes bytes).bind
      ((parseRepeatedly ((parseRepeatedly bytes).2.2 ++ more)).1.foldlM
        (Builder.take codec everyBytes)) := by
  rw [walk, (parse_append bytes more).1, List.foldlM_append]
  rfl

/-- However the bytes are cut, the reads take the instructions the whole of them holds. -/
theorem reads_eq {bytes : Bytes} (reads : List Bytes)
    (walked : walk codec everyBytes bytes = some builder) :
    reads.foldlM (Builder.read codec everyBytes) (builder, (parseRepeatedly bytes).2.2) =
      (walk codec everyBytes (bytes ++ reads.flatten)).map fun after =>
        (after, (parseRepeatedly (bytes ++ reads.flatten)).2.2) := by
  induction reads generalizing bytes builder with
  | nil =>
      rw [List.flatten_nil, List.append_nil, walked]
      rfl
  | cons piece reads ih =>
      have read : Builder.read codec everyBytes (builder, (parseRepeatedly bytes).2.2) piece =
          (walk codec everyBytes (bytes ++ piece)).map fun after =>
            (after, (parseRepeatedly (bytes ++ piece)).2.2) := by
        rw [walk_append, walked, (parse_append bytes piece).2]
        rfl
      rw [List.flatten_cons, ← List.append_assoc, List.foldlM_cons, read]
      cases step : walk codec everyBytes (bytes ++ piece) with
      | none =>
          rw [walk_append, step]
          rfl
      | some next => exact ih step

theorem build_eq (codec : ImageCodec) (everyBytes : Nat) (reads : List Bytes) :
    build codec everyBytes reads = (walk codec everyBytes (recording reads)).map fun builder =>
      builder.index (parseRepeatedly (recording reads)).2.2 := by
  have start : walk codec everyBytes [] = some Builder.start := rfl
  have read := reads_eq (filledReads reads) start
  rw [build, recording, ← List.nil_append (filledReads reads).flatten]
  refine (congrArg (Option.map fun state => state.1.index state.2) read).trans ?_
  rw [Option.map_map]
  rfl

theorem walk_indexed {bytes : Bytes} (walked : walk codec everyBytes bytes = some builder) :
    Indexed codec everyBytes (parseRepeatedly bytes).1 builder := by
  have indexed := indexed_start.takes walked
  rwa [List.nil_append] at indexed

structure Describes (codec : ImageCodec) (everyBytes : Nat) (bytes : Bytes) (index : Index) :
    Prop where
  length : index.sourceLen = bytes.length
  first : index.firstTs = (syncTimes ((parseRepeatedly bytes).1.map Prod.fst)).head?
  stands : ∀ checkpoint ∈ index.checkpoints,
    ∃ before, before <+: (parseRepeatedly bytes).1 ∧ Stands codec before checkpoint
  spaced : index.checkpoints.Pairwise (Spaced everyBytes)

theorem build_describes {reads : List Bytes} {index : Index}
    (returned : build codec everyBytes reads = some index) :
    Describes codec everyBytes (recording reads) index := by
  rw [build_eq] at returned
  obtain ⟨builder, walked, rfl⟩ := Option.map_eq_some_iff.mp returned
  have indexed := walk_indexed walked
  refine ⟨?_, indexed.first, indexed.checkpoints, indexed.paced.spaced⟩
  have sizes := StreamParser.drain_sizes_sum tryParse_step (recording reads)
  rw [Builder.index, indexed.base]
  exact sizes

/-! ### Offsets -/

def upTo : Nat → List (GuacInstruction × Nat) → List GuacInstruction
  | _, [] => []
  | offset, (instruction, n) :: rest =>
      if n ≤ offset then instruction :: upTo (offset - n) rest else []

theorem upTo_boundary {before parsed : List (GuacInstruction × Nat)} (early : before <+: parsed)
    (positive : ∀ next ∈ parsed, 0 < next.2) :
    upTo (before.map Prod.snd).sum parsed = before.map Prod.fst := by
  obtain ⟨after, rfl⟩ := early
  induction before with
  | nil =>
      cases after with
      | nil => rfl
      | cons next after =>
          have size := positive next List.mem_cons_self
          exact if_neg (by rw [List.map_nil, List.sum_nil]; omega)
  | cons next before ih =>
      rw [List.cons_append, List.forall_mem_cons] at positive
      rw [List.map_cons, List.sum_cons, List.cons_append, upTo, if_pos (Nat.le_add_right ..),
        Nat.add_sub_cancel_left, ih positive.2, List.map_cons]

theorem sizes_positive (bytes : Bytes) : ∀ next ∈ (parseRepeatedly bytes).1, 0 < next.2 :=
  StreamParser.drain_sizes_positive tryParse_step bytes

theorem Stands.upTo {bytes : Bytes} {before : List (GuacInstruction × Nat)}
    {checkpoint : Checkpoint} (stands : Stands codec before checkpoint)
    (early : before <+: (parseRepeatedly bytes).1) :
    RecordingIndex.upTo checkpoint.offset (parseRepeatedly bytes).1 = before.map Prod.fst := by
  rw [stands.offset, upTo_boundary early (sizes_positive bytes)]

end Strata.Backend.RecordingIndex
