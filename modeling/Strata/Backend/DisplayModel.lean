import Mathlib.Data.Finmap
import Mathlib.Tactic
import Strata.Lib.Base64
import Strata.Lib.RustInt
import Strata.Lib.RustVec
import Strata.Protocol.Guacamole

/-! What a replay of a recording has drawn so far, as the client would draw it: layers of pixels,
pending paths, open streams, cursor and pointer. An instruction that fails half-way keeps what it
had done and marks the model broken. Sizes come from the recording unchecked, so a buffer may be
asked for that no `Vec` can hold: where the code panics, the answer here is none. -/

namespace Strata.Backend.RecordingIndex

open Utf8 (Text Bytes)
open RustInt (parseI64 isizeMax)
open Protocol.Guacamole (GuacInstruction)

def maskCopy : Int64 := 12
def maskOver : Int64 := 14

/-! ### Pixels and layers -/

structure Pixel where
  r : UInt8
  g : UInt8
  b : UInt8
  a : UInt8
  deriving DecidableEq, Repr

namespace Pixel

def transparent : Pixel := ⟨0, 0, 0, 0⟩

def outAlpha (dst src : Pixel) : Nat := src.a.toNat * 255 + dst.a.toNat * (255 - src.a.toNat)

def blend (dst src : Pixel) (channel : Pixel → UInt8) : UInt8 :=
  UInt8.ofNat (((channel src).toNat * src.a.toNat * 255 +
    (channel dst).toNat * dst.a.toNat * (255 - src.a.toNat)) / outAlpha dst src)

/-- `over`: source-over for straight alpha. -/
def sourceOver (dst src : Pixel) : Pixel :=
  if src.a = 255 then src
  else if src.a = 0 then dst
  else
    ⟨blend dst src r, blend dst src g, blend dst src b, UInt8.ofNat (outAlpha dst src / 255)⟩

end Pixel

open Pixel (sourceOver)

/-! Lengths and indices of a buffer are counted in pixels. Those in bytes are four times as large
and wrap at 64 bits. -/

def wrapped (pixels : Nat) : Nat := pixels % 2 ^ 62

def pixelAt (px : List Pixel) (index : Nat) : Option Pixel := px[wrapped index]?

def changePixel (px : List Pixel) (index : Nat) (change : Pixel → Pixel) : Option (List Pixel) :=
  if wrapped index < px.length then some (px.modify (wrapped index) change) else none

/-- `vec![0u8; w * h * 4]` -/
def blankPixels (w h : UInt32) : Option (List Pixel) :=
  if wrapped (w.toNat * h.toNat) * 4 ≤ isizeMax then
    some (List.replicate (wrapped (w.toNat * h.toNat)) .transparent)
  else none

/-- `rgba.repeat(w * h)`, whose length does not wrap. -/
def repeatPixel (rgba : Pixel) (w h : UInt32) : Option (List Pixel) :=
  if w.toNat * h.toNat * 4 ≤ isizeMax then some (List.replicate (w.toNat * h.toNat) rgba) else none

@[ext] structure Layer where
  w : UInt32
  h : UInt32
  px : List Pixel
  deriving DecidableEq

namespace Layer

def default : Layer := ⟨0, 0, []⟩

def clear (layer : Layer) : Layer :=
  { layer with px := List.replicate layer.px.length .transparent }

def copyRow (layer : Layer) (w : UInt32) (width : Nat) (px : List Pixel) (y : Nat) :
    Option (List Pixel) :=
  (RustVec.slice layer.px (wrapped (y * layer.w.toNat)) width).bind fun row =>
    if wrapped (y * w.toNat) + width ≤ px.length then
      some (px.take (wrapped (y * w.toNat)) ++ row ++ px.drop (wrapped (y * w.toNat) + width))
    else none

def resize (layer : Layer) (w h : UInt32) : Option Layer :=
  if (w, h) = (layer.w, layer.h) then some layer
  else
    (blankPixels w h).bind fun px =>
      ((List.range (min h.toNat layer.h.toNat)).foldlM
        (layer.copyRow w (min w.toNat layer.w.toNat)) px).map fun px => ⟨w, h, px⟩

/-- A sum of `i64`s that wraps is negative, and clipped like the sum itself. -/
def drawRow (layer : Layer) (src : List Pixel) (sw : UInt32) (x y : Int64) (px : List Pixel)
    (row : Nat) : Option (List Pixel) :=
  let dy := y.toInt + row
  if dy < 0 ∨ layer.h.toNat ≤ dy then some px
  else
    (List.range sw.toNat).foldlM (fun px (col : Nat) =>
      let dx := x.toInt + col
      if dx < 0 ∨ layer.w.toNat ≤ dx then some px
      else
        (pixelAt src (row * sw.toNat + col)).bind fun source =>
          changePixel px (dy.toNat * layer.w.toNat + dx.toNat) fun pixel =>
            sourceOver pixel source) px

/-- Composite the picture at `(x, y)`, clipped to the layer. -/
def draw (layer : Layer) (src : List Pixel) (sw sh : UInt32) (x y : Int64) : Option Layer :=
  ((List.range sh.toNat).foldlM (layer.drawRow src sw x y) layer.px).map fun px =>
    { layer with px := px }

def readRow (layer : Layer) (x y : Int64) (w : UInt32) (out : List Pixel) (row : Nat) :
    Option (List Pixel) :=
  let sy := y.toInt + row
  if sy < 0 ∨ layer.h.toNat ≤ sy then some out
  else
    (List.range w.toNat).foldlM (fun out (col : Nat) =>
      let sx := x.toInt + col
      if sx < 0 ∨ layer.w.toNat ≤ sx then some out
      else
        (pixelAt layer.px (sy.toNat * layer.w.toNat + sx.toNat)).bind fun pixel =>
          changePixel out (row * w.toNat + col) fun _ => pixel) out

/-- The region at `(x, y)`; outside the layer reads as transparent. -/
def region (layer : Layer) (x y : Int64) (w h : UInt32) : Option (List Pixel) :=
  (blankPixels w h).bind fun out => (List.range h.toNat).foldlM (layer.readRow x y w) out

/-- The buffer is the layer's own size, and one that a `Vec` can have. -/
structure Whole (layer : Layer) : Prop where
  filled : layer.px.length = layer.w.toNat * layer.h.toNat
  held : layer.px.length * 4 ≤ isizeMax

end Layer

structure Picture extends Layer where
  whole : toLayer.Whole

/-- The PNG encoder of `Layer::png`, which refuses no picture that has a pixel, and the decoder of
`image::load_from_memory`. -/
structure ImageCodec where
  png : Layer → Option Bytes
  load : Bytes → Option Picture
  encodes : ∀ layer, layer.Whole → layer.w ≠ 0 → layer.h ≠ 0 → (png layer).isSome

/-! ### Instructions -/

structure ImageStream where
  mask : Int64
  layer : Int64
  x : Int64
  y : Int64
  data : Bytes
  deriving DecidableEq

structure Rect where
  x : Int64
  y : Int64
  w : Int64
  h : Int64
  deriving DecidableEq

/-- An instruction whose arguments could be read. The data of a `blob` is looked at only where its
stream is an image. -/
inductive Command where
  | size (id w h : Int64)
  | img (stream : Int64) (image : ImageStream)
  | h264 (stream id : Int64)
  | blob (stream : Int64) (data : Option Bytes)
  | endStream (stream : Int64)
  | copy (src sx sy : Int64) (w h : UInt32) (mask dst dx dy : Int64)
  | rect (id : Int64) (rect : Rect)
  | cfill (mask id : Int64) (rgba : Pixel)
  | cursor (args : List Text)
  | mouse (args : List Text)
  | audio (stream : Int64) (mimetype : Text)
  | transfer (stream : Int64)
  | nothing

def int (args : List Text) (i : Nat) : Option Int64 := (args[i]?.bind parseI64).map Int64.ofInt

def tryU32 (n : Int64) : Option UInt32 :=
  if 0 ≤ n.toInt ∧ n.toInt < 2 ^ 32 then some (UInt32.ofNat n.toInt.toNat) else none

def tryU8 (n : Int64) : Option UInt8 :=
  if 0 ≤ n.toInt ∧ n.toInt < 2 ^ 8 then some (UInt8.ofNat n.toInt.toNat) else none

def idleOpcodes : List Text :=
  ["sync".toList, "key".toList, "nop".toList, "name".toList, "ack".toList, "msg".toList,
    "error".toList, "disconnect".toList, "filesystem".toList, "undefine".toList, "args".toList,
    "ready".toList, "log".toList, "required".toList]

def Command.read (instruction : GuacInstruction) : Option Command :=
  let args := instruction.args
  if instruction.opcode = "size".toList then do
    return .size (← int args 0) (← int args 1) (← int args 2)
  else if instruction.opcode = "img".toList then do
    let stream ← int args 0
    return .img stream ⟨← int args 1, ← int args 2, ← int args 4, ← int args 5, []⟩
  else if instruction.opcode = "h264".toList then do
    return .h264 (← int args 0) (← int args 1)
  else if instruction.opcode = "blob".toList then do
    return .blob (← int args 0) (args[1]?.bind Base64.decodeText)
  else if instruction.opcode = "end".toList then do
    return .endStream (← int args 0)
  else if instruction.opcode = "copy".toList then do
    let w ← tryU32 (← int args 3)
    let h ← tryU32 (← int args 4)
    return .copy (← int args 0) (← int args 1) (← int args 2) w h (← int args 5) (← int args 6)
      (← int args 7) (← int args 8)
  else if instruction.opcode = "rect".toList then do
    let id ← int args 0
    return .rect id ⟨← int args 1, ← int args 2, ← int args 3, ← int args 4⟩
  else if instruction.opcode = "cfill".toList then do
    let mask ← int args 0
    let id ← int args 1
    return .cfill mask id ⟨← tryU8 (← int args 2), ← tryU8 (← int args 3),
      ← tryU8 (← int args 4), ← tryU8 (← int args 5)⟩
  else if instruction.opcode = "cursor".toList then some (.cursor args)
  else if instruction.opcode = "mouse".toList then some (.mouse args)
  else if instruction.opcode = "audio".toList then do
    return .audio (← int args 0) (← args[1]?)
  else if instruction.opcode = "clipboard".toList ∨ instruction.opcode = "file".toList ∨
      instruction.opcode = "pipe".toList then do
    return .transfer (← int args 0)
  else if instruction.opcode = "body".toList then do
    return .transfer (← int args 1)
  else if instruction.opcode ∈ idleOpcodes then some .nothing
  else none

/-! ### The model -/

structure Canvas where
  layers : Finmap fun _ : Int64 => Layer
  paths : Finmap fun _ : Int64 => List Rect
  images : Finmap fun _ : Int64 => ImageStream
  audio : Finmap fun _ : Int64 => Text
  cursor : Option (List Text)
  mouse : Option (List Text)
  deriving DecidableEq

/-- The pixels of `unknownLayers` come from video, or were copied from such; `transfers` are
clipboard, file and pipe streams. -/
structure DisplayModel extends Canvas where
  unknownLayers : Finset Int64
  broken : Bool
  videos : Finset Int64
  transfers : Finset Int64
  deriving DecidableEq

namespace DisplayModel

def new : DisplayModel := ⟨⟨∅, ∅, ∅, ∅, none, none⟩, ∅, false, ∅, ∅⟩

def layer (model : DisplayModel) (id : Int64) : Layer := (model.layers.lookup id).getD .default

/-- `entry(id).or_default()` -/
def touch (model : DisplayModel) (id : Int64) : DisplayModel :=
  { model with layers := model.layers.insert id (model.layer id) }

def update (model : DisplayModel) (id : Int64) (change : Layer → Option Layer) :
    Option DisplayModel :=
  (change (model.layer id)).map fun layer =>
    { model with layers := model.layers.insert id layer }

def composite (model : DisplayModel) (id mask : Int64) (px : List Pixel) (w h : UInt32)
    (x y : Int64) : Option (DisplayModel × Bool) :=
  if mask = maskCopy then
    (model.update id fun layer => layer.clear.draw px w h x y).map (·, true)
  else if mask = maskOver then
    (model.update id fun layer => layer.draw px w h x y).map (·, true)
  else some (model.touch id, false)

def covers (image : ImageStream) (picture layer : Layer) : Prop :=
  (layer.w.toNat : Int) ≤ picture.w.toNat + image.x.toInt ∧
    (layer.h.toNat : Int) ≤ picture.h.toNat + image.y.toInt

instance (image : ImageStream) (picture layer : Layer) : Decidable (covers image picture layer) :=
  inferInstanceAs (Decidable (_ ∧ _))

def drawImage (codec : ImageCodec) (model : DisplayModel) (image : ImageStream) :
    Option (DisplayModel × Bool) :=
  match codec.load image.data with
  | none => some (model, false)
  | some picture =>
      let model :=
        if image.mask = maskCopy ∧ image.x.toInt ≤ 0 ∧ image.y.toInt ≤ 0 then
          let touched := model.touch image.layer
          if covers image picture.toLayer (model.layer image.layer) then
            { touched with unknownLayers := touched.unknownLayers.erase image.layer }
          else touched
        else model
      model.composite image.layer image.mask picture.px picture.w picture.h image.x image.y

def fillRects (id : Int64) (rgba : Pixel) :
    List Rect → DisplayModel → Option (DisplayModel × Bool)
  | [], model => some (model, true)
  | rect :: rects, model =>
      match tryU32 rect.w, tryU32 rect.h with
      | some w, some h =>
          (repeatPixel rgba w h).bind fun fill =>
            (model.update id fun layer => layer.draw fill w h rect.x rect.y).bind fun model =>
              fillRects id rgba rects model
      | _, _ => some (model, false)

def release (model : DisplayModel) (stream : Int64) : DisplayModel :=
  { model with
    videos := model.videos.erase stream
    transfers := model.transfers.erase stream
    audio := model.audio.erase stream }

/-- The effect of `apply_known`, and whether it went through. -/
def run (codec : ImageCodec) (model : DisplayModel) : Command → Option (DisplayModel × Bool)
  | .size id w h =>
      -- the layer is there before its size is looked at
      match tryU32 w, tryU32 h with
      | some w, some h => (model.update id fun layer => layer.resize w h).map (·, true)
      | _, _ => some (model.touch id, false)
  | .img stream image => some ({ model with images := model.images.insert stream image }, true)
  | .h264 stream id =>
      some ({ model with
          videos := insert stream model.videos
          unknownLayers := insert id model.unknownLayers }, true)
  | .blob stream data =>
      match model.images.lookup stream, data with
      | none, _ => some (model, true)
      | some _, none => some (model, false)
      | some image, some data =>
          some ({ model with
              images := model.images.insert stream { image with data := image.data ++ data } },
            true)
  | .endStream stream =>
      match model.images.lookup stream with
      | none => some (model.release stream, true)
      | some image =>
          (drawImage codec { model with images := model.images.erase stream } image).map
            fun drawn => if drawn.2 then (drawn.1.release stream, true) else drawn
  | .copy src sx sy w h mask dst dx dy =>
      ((model.layer src).region sx sy w h).bind fun pixels =>
        let read := model.touch src
        let read :=
          if src ∈ read.unknownLayers then
            { read with unknownLayers := insert dst read.unknownLayers }
          else read
        read.composite dst mask pixels w h dx dy
  | .rect id rect =>
      some ({ model with
          paths := model.paths.insert id ((model.paths.lookup id).getD [] ++ [rect]) }, true)
  | .cfill mask id rgba =>
      -- the path is gone whether or not it can be filled
      let rects := (model.paths.lookup id).getD []
      let model := { model with paths := model.paths.erase id }
      if mask = maskCopy then
        fillRects id rgba rects
          { model with layers := model.layers.insert id (model.layer id).clear }
      else if mask ≠ maskOver then some (model, false)
      else fillRects id rgba rects model
  | .cursor args => some ({ model with cursor := some args }, true)
  | .mouse args => some ({ model with mouse := some args }, true)
  | .audio stream mimetype =>
      some ({ model with audio := model.audio.insert stream mimetype }, true)
  | .transfer stream => some ({ model with transfers := insert stream model.transfers }, true)
  | .nothing => some (model, true)

def apply (codec : ImageCodec) (model : DisplayModel) (instruction : GuacInstruction) :
    Option DisplayModel :=
  match Command.read instruction with
  | none => some { model with broken := true }
  | some command =>
      (model.run codec command).map fun applied =>
        if applied.2 then applied.1 else { applied.1 with broken := true }

/-- The model behind some instructions. -/
def replay (codec : ImageCodec) (model : DisplayModel) (instructions : List GuacInstruction) :
    Option DisplayModel :=
  instructions.foldlM (apply codec) model

def AtRest (model : DisplayModel) : Prop :=
  model.images = ∅ ∧ model.videos = ∅ ∧ model.transfers = ∅

instance (model : DisplayModel) : Decidable model.AtRest :=
  inferInstanceAs (Decidable (_ ∧ _ ∧ _))

variable {codec : ImageCodec}

/-! ### Models with the same canvas -/

def SameCanvas (first second : Option (DisplayModel × Bool)) : Prop :=
  first.map (fun out => (out.1.toCanvas, out.2)) = second.map fun out => (out.1.toCanvas, out.2)

section Canvas

variable {first second : DisplayModel}

theorem update_congr (same : first.toCanvas = second.toCanvas) (id : Int64)
    (change : Layer → Option Layer) :
    (first.update id change).map toCanvas = (second.update id change).map toCanvas := by
  have layer : first.layer id = second.layer id := by simp only [layer, same]
  rw [update, update, layer, Option.map_map, Option.map_map]
  congr 1
  funext drawn
  simp only [Function.comp, same]

theorem SameCanvas.of_map {first second : Option DisplayModel} (through : Bool)
    (same : first.map toCanvas = second.map toCanvas) :
    SameCanvas (first.map (·, through)) (second.map (·, through)) := by
  cases first <;> cases second
  · rfl
  · cases same
  · cases same
  · exact congrArg (fun canvas => some (canvas, through)) (Option.some.inj same)

theorem SameCanvas.cases {first second : Option (DisplayModel × Bool)}
    (same : SameCanvas first second) :
    (first = none ∧ second = none) ∨ ∃ one other : DisplayModel, ∃ through,
      first = some (one, through) ∧ second = some (other, through) ∧
        one.toCanvas = other.toCanvas := by
  cases first with
  | none =>
      cases second with
      | none => exact .inl ⟨rfl, rfl⟩
      | some => cases same
  | some one =>
      cases second with
      | none => cases same
      | some other =>
          obtain ⟨canvas, through⟩ := Prod.mk.inj (Option.some.inj same)
          exact .inr ⟨one.1, other.1, one.2, rfl, by rw [through], canvas⟩

theorem SameCanvas.bind {first second : Option DisplayModel}
    {next : DisplayModel → Option (DisplayModel × Bool)}
    (same : first.map toCanvas = second.map toCanvas)
    (each : ∀ one other : DisplayModel, one.toCanvas = other.toCanvas →
      SameCanvas (next one) (next other)) :
    SameCanvas (first.bind next) (second.bind next) := by
  cases first <;> cases second
  · rfl
  · cases same
  · cases same
  · exact each _ _ (Option.some.inj same)

theorem SameCanvas.of_each {α : Type} {value : Option α}
    {first second : α → Option (DisplayModel × Bool)}
    (each : ∀ read, SameCanvas (first read) (second read)) :
    SameCanvas (value.bind first) (value.bind second) := by
  cases value with
  | none => rfl
  | some read => exact each read

theorem touch_congr (same : first.toCanvas = second.toCanvas) (id : Int64) :
    (first.touch id).toCanvas = (second.touch id).toCanvas := by
  simp only [touch, layer, same]

theorem composite_congr (same : first.toCanvas = second.toCanvas) (id mask : Int64)
    (px : List Pixel) (w h : UInt32) (x y : Int64) :
    SameCanvas (first.composite id mask px w h x y) (second.composite id mask px w h x y) := by
  unfold composite
  split
  · exact .of_map true (update_congr same id _)
  · split
    · exact .of_map true (update_congr same id _)
    · exact congrArg (fun canvas => some (canvas, false)) (touch_congr same id)

theorem drawImage_congr (same : first.toCanvas = second.toCanvas) (image : ImageStream) :
    SameCanvas (drawImage codec first image) (drawImage codec second image) := by
  have touched := touch_congr same image.layer
  have layer : first.layer image.layer = second.layer image.layer := by
    simp only [layer, same]
  unfold drawImage
  rw [layer]
  split
  · exact congrArg (fun canvas => some (canvas, false)) same
  · refine composite_congr ?_ ..
    split
    · split <;> exact touched
    · exact same

theorem fillRects_congr (same : first.toCanvas = second.toCanvas) (id : Int64) (rgba : Pixel)
    (rects : List Rect) :
    SameCanvas (fillRects id rgba rects first) (fillRects id rgba rects second) := by
  induction rects generalizing first second with
  | nil => exact congrArg (fun canvas => some (canvas, true)) same
  | cons rect rects ih =>
      unfold fillRects
      split
      · exact .of_each fun fill => .bind (update_congr same id _) fun _ _ drawn => ih drawn
      · exact congrArg (fun canvas => some (canvas, false)) same

theorem run_congr (same : first.toCanvas = second.toCanvas) (command : Command) :
    SameCanvas (run codec first command) (run codec second command) := by
  have whole := same
  obtain ⟨canvas, unknown, broken, videos, transfers⟩ := first
  obtain ⟨other, otherUnknown, otherBroken, otherVideos, otherTransfers⟩ := second
  obtain rfl : canvas = other := same
  cases command with
  | size id w h =>
      simp only [run]
      split
      · exact .of_map true (update_congr whole id _)
      · rfl
  | blob stream data =>
      simp only [run]
      split
      · rfl
      · rfl
      · rfl
  | endStream stream =>
      simp only [run]
      split
      · rfl
      · next image _ =>
          have drawn : SameCanvas
              (drawImage codec ⟨{ canvas with images := canvas.images.erase stream }, unknown,
                broken, videos, transfers⟩ image)
              (drawImage codec ⟨{ canvas with images := canvas.images.erase stream },
                otherUnknown, otherBroken, otherVideos, otherTransfers⟩ image) :=
            drawImage_congr (by rfl) image
          rcases drawn.cases with ⟨left, right⟩ | ⟨one, other, through, left, right, same⟩
          · rw [left, right]
            rfl
          · rw [left, right]
            cases through
            · exact congrArg (fun canvas => some (canvas, false)) same
            · have released : (one.release stream).toCanvas = (other.release stream).toCanvas := by
                simp only [release, same]
              exact congrArg (fun canvas => some (canvas, true)) released
  | copy src sx sy w h mask dst dx dy =>
      simp only [run]
      refine .of_each fun pixels => composite_congr ?_ ..
      split <;> split <;> exact touch_congr whole src
  | cfill mask id rgba =>
      simp only [run]
      split
      · exact fillRects_congr (by rfl) id rgba _
      · split
        · rfl
        · exact fillRects_congr (by rfl) id rgba _
  | img | rect | audio | cursor | mouse | h264 | transfer | nothing => rfl

theorem apply_congr (same : first.toCanvas = second.toCanvas)
    (instruction : GuacInstruction) :
    (apply codec first instruction).map toCanvas =
      (apply codec second instruction).map toCanvas := by
  unfold apply
  split
  · exact congrArg some same
  · next command _ =>
      have same : SameCanvas (run codec first command) (run codec second command) :=
        run_congr same command
      rcases same.cases with ⟨left, right⟩ | ⟨one, other, through, left, right, canvas⟩
      · rw [left, right]
      · rw [left, right]
        cases through <;> exact congrArg some canvas

theorem replay_congr (same : first.toCanvas = second.toCanvas)
    (instructions : List GuacInstruction) :
    (replay codec first instructions).map toCanvas =
      (replay codec second instructions).map toCanvas := by
  induction instructions generalizing first second with
  | nil => exact congrArg some same
  | cons instruction instructions ih =>
      have drawn : (apply codec first instruction).map toCanvas =
          (apply codec second instruction).map toCanvas := apply_congr same instruction
      rw [replay, replay, List.foldlM_cons, List.foldlM_cons]
      cases left : apply codec first instruction with
      | none =>
          rw [left, Option.map_none, eq_comm, Option.map_eq_none_iff] at drawn
          rw [drawn]
      | some one =>
          rw [left, Option.map_some, eq_comm, Option.map_eq_some_iff] at drawn
          obtain ⟨other, right, canvas⟩ := drawn
          rw [right]
          exact ih canvas.symm

end Canvas

/-! ### Pending paths -/

theorem update_paths {model after : DisplayModel} {id : Int64} {change : Layer → Option Layer}
    (made : model.update id change = some after) : after.paths = model.paths := by
  obtain ⟨layer, -, rfl⟩ := Option.map_eq_some_iff.mp made
  rfl

theorem composite_paths {model : DisplayModel} {id mask : Int64} {px : List Pixel} {w h : UInt32}
    {x y : Int64} {out : DisplayModel × Bool}
    (made : model.composite id mask px w h x y = some out) : out.1.paths = model.paths := by
  unfold composite at made
  split at made
  · obtain ⟨after, drawn, rfl⟩ := Option.map_eq_some_iff.mp made
    exact update_paths drawn
  · split at made
    · obtain ⟨after, drawn, rfl⟩ := Option.map_eq_some_iff.mp made
      exact update_paths drawn
    · cases made
      rfl

theorem drawImage_paths {model : DisplayModel} {image : ImageStream} {out : DisplayModel × Bool}
    (made : drawImage codec model image = some out) : out.1.paths = model.paths := by
  unfold drawImage at made
  split at made
  · cases made
    rfl
  · rw [composite_paths made]
    split
    · split <;> rfl
    · rfl

theorem fillRects_paths {id : Int64} {rgba : Pixel} {rects : List Rect} {model : DisplayModel}
    {out : DisplayModel × Bool} (made : fillRects id rgba rects model = some out) :
    out.1.paths = model.paths := by
  induction rects generalizing model with
  | nil =>
      cases made
      rfl
  | cons rect rects ih =>
      unfold fillRects at made
      split at made
      · obtain ⟨fill, -, made⟩ := Option.bind_eq_some_iff.mp made
        obtain ⟨drawn, updated, rest⟩ := Option.bind_eq_some_iff.mp made
        exact (ih rest).trans (update_paths updated)
      · cases made
        rfl

def pathsAfter (paths : Finmap fun _ : Int64 => List Rect) :
    Command → Finmap fun _ : Int64 => List Rect
  | .rect id rect => paths.insert id ((paths.lookup id).getD [] ++ [rect])
  | .cfill _ id _ => paths.erase id
  | _ => paths

theorem run_paths {model : DisplayModel} {command : Command} {out : DisplayModel × Bool}
    (made : run codec model command = some out) :
    out.1.paths = pathsAfter model.paths command := by
  cases command with
  | size id w h =>
      simp only [run] at made
      split at made
      · obtain ⟨after, updated, rfl⟩ := Option.map_eq_some_iff.mp made
        exact update_paths updated
      · cases made
        rfl
  | blob stream data =>
      simp only [run] at made
      split at made <;> cases made <;> rfl
  | endStream stream =>
      simp only [run] at made
      split at made
      · cases made
        rfl
      · obtain ⟨drawn, image, rfl⟩ := Option.map_eq_some_iff.mp made
        have kept := drawImage_paths image
        split <;> exact kept
  | copy src sx sy w h mask dst dx dy =>
      obtain ⟨pixels, -, made⟩ := Option.bind_eq_some_iff.mp made
      refine (composite_paths made).trans ?_
      split <;> rfl
  | cfill mask id rgba =>
      simp only [run] at made
      split at made
      · exact fillRects_paths made
      · split at made
        · cases made
          rfl
        · exact fillRects_paths made
  | img | rect | audio | cursor | mouse | h264 | transfer | nothing =>
      cases made
      rfl

def pathStep (paths : Finmap fun _ : Int64 => List Rect) (instruction : GuacInstruction) :
    Finmap fun _ : Int64 => List Rect :=
  ((Command.read instruction).map (pathsAfter paths)).getD paths

/-- The paths that instructions leave pending, whatever they draw. -/
def pathsOf (instructions : List GuacInstruction) : Finmap fun _ : Int64 => List Rect :=
  instructions.foldl pathStep ∅

theorem pathsOf_concat (instructions : List GuacInstruction) (instruction : GuacInstruction) :
    pathsOf (instructions ++ [instruction]) = pathStep (pathsOf instructions) instruction := by
  rw [pathsOf, List.foldl_append, List.foldl_cons, List.foldl_nil, pathsOf]

theorem apply_paths {model after : DisplayModel} {instruction : GuacInstruction}
    (made : apply codec model instruction = some after) :
    after.paths = pathStep model.paths instruction := by
  unfold apply at made
  split at made
  · next unread =>
      cases made
      rw [pathStep, unread]
      rfl
  · next command read =>
      obtain ⟨out, ran, rfl⟩ := Option.map_eq_some_iff.mp made
      rw [pathStep, read, Option.map_some, Option.getD_some, ← run_paths ran]
      split <;> rfl

theorem replay_concat (model : DisplayModel) (instructions : List GuacInstruction)
    (instruction : GuacInstruction) :
    replay codec model (instructions ++ [instruction]) =
      (replay codec model instructions).bind (apply codec · instruction) := by
  rw [replay, List.foldlM_append, replay]
  cases instructions.foldlM (apply codec) model with
  | none => rfl
  | some drawn => exact Option.bind_fun_some (apply codec drawn instruction)

theorem replay_paths {instructions : List GuacInstruction} {model : DisplayModel}
    (made : replay codec new instructions = some model) : model.paths = pathsOf instructions := by
  induction instructions using List.reverseRecOn generalizing model with
  | nil =>
      cases made
      rfl
  | append_singleton instructions last ih =>
      rw [replay_concat] at made
      obtain ⟨before, replayed, applied⟩ := Option.bind_eq_some_iff.mp made
      rw [apply_paths applied, ih replayed, pathsOf_concat]

/-- The instruction adds to the pending path of the layer. -/
def Opens (instruction : GuacInstruction) (id : Int64) : Prop :=
  ∃ rect, Command.read instruction = some (.rect id rect)

def Closes (instruction : GuacInstruction) (id : Int64) : Prop :=
  ∃ mask rgba, Command.read instruction = some (.cfill mask id rgba)

theorem mem_pathsOf_concat {instructions : List GuacInstruction} {instruction : GuacInstruction}
    {id : Int64} :
    id ∈ pathsOf (instructions ++ [instruction]) ↔
      Opens instruction id ∨ id ∈ pathsOf instructions ∧ ¬ Closes instruction id := by
  rw [pathsOf_concat, pathStep, Opens, Closes]
  cases Command.read instruction with
  | none => simp
  | some command =>
      cases command with
      | rect other rect => simp [pathsAfter, Finmap.mem_insert, eq_comm]
      | cfill mask other rgba => simp [pathsAfter, Finmap.mem_erase, eq_comm, and_comm]
      | _ => simp [pathsAfter]

/-- Every path begun is filled later. -/
def Filled (instructions : List GuacInstruction) : Prop :=
  ∀ early rect late id, instructions = early ++ rect :: late → Opens rect id →
    ∃ fill ∈ late, Closes fill id

theorem mem_pathsOf {instructions : List GuacInstruction} {id : Int64} :
    id ∈ pathsOf instructions ↔
      ∃ early rect late, instructions = early ++ rect :: late ∧ Opens rect id ∧
        ∀ fill ∈ late, ¬ Closes fill id := by
  induction instructions using List.reverseRecOn with
  | nil =>
      refine ⟨fun member => absurd member Finmap.notMem_empty, ?_⟩
      rintro ⟨early, rect, late, shape, -⟩
      cases early <;> cases shape
  | append_singleton instructions last ih =>
      rw [mem_pathsOf_concat, ih]
      constructor
      · rintro (opened | ⟨⟨early, rect, late, rfl, opened, unfilled⟩, kept⟩)
        · exact ⟨instructions, last, [], rfl, opened, by simp⟩
        · refine ⟨early, rect, late ++ [last], by simp, opened, ?_⟩
          rw [List.forall_mem_append, List.forall_mem_singleton]
          exact ⟨unfilled, kept⟩
      · rintro ⟨early, rect, late, shape, opened, unfilled⟩
        induction late using List.reverseRecOn with
        | nil =>
            obtain ⟨-, same⟩ := List.append_inj' shape rfl
            obtain rfl := List.singleton_inj.mp same
            exact .inl opened
        | append_singleton late fill _ =>
            rw [← List.cons_append, ← List.append_assoc] at shape
            obtain ⟨rfl, same⟩ := List.append_inj' shape rfl
            obtain rfl := List.singleton_inj.mp same
            rw [List.forall_mem_append, List.forall_mem_singleton] at unfilled
            exact .inr ⟨⟨early, rect, late, rfl, opened, unfilled.1⟩, unfilled.2⟩

theorem pathsOf_empty_iff {instructions : List GuacInstruction} :
    pathsOf instructions = ∅ ↔ Filled instructions := by
  constructor
  · intro empty early rect late id shape opened
    by_contra unfilled
    push Not at unfilled
    have pending : id ∈ pathsOf instructions :=
      mem_pathsOf.mpr ⟨early, rect, late, shape, opened, unfilled⟩
    rw [empty] at pending
    exact Finmap.notMem_empty pending
  · intro filled
    apply Finmap.ext_lookup
    intro id
    rw [Finmap.lookup_empty, Finmap.lookup_eq_none, mem_pathsOf]
    rintro ⟨early, rect, late, shape, opened, unfilled⟩
    obtain ⟨fill, member, closed⟩ := filled early rect late id shape opened
    exact unfilled fill member closed

end DisplayModel

end Strata.Backend.RecordingIndex
