import Mathlib.Tactic
import Strata.Backend.DisplayModel

/-! The layers a replay draws on. A pixel that shows nothing has no colour left in it,
whatever is drawn, so a layer drawn on an empty one of its size comes out as it was. That takes
layers whose buffers are as large as they are, which a resize beyond what a `Vec` can hold does not
leave. -/

namespace Strata.Backend.RecordingIndex

open RustInt (isizeMax)
open RustVec (foldlM_returns foldlM_keeps foldlM_range slice slice_of_le)

namespace Pixel

def Normal (pixel : Pixel) : Prop := pixel.a = 0 → pixel = transparent

theorem transparent_normal : transparent.Normal := fun _ => rfl

theorem outAlpha_bounds (dst : Pixel) {src : Pixel} (shown : src.a ≠ 0) :
    255 ≤ outAlpha dst src ∧ outAlpha dst src < 256 * 255 := by
  have positive : src.a.toNat ≠ 0 := fun zero => shown (UInt8.toNat_inj.mp zero)
  have small := src.a.toNat_lt
  have below : dst.a.toNat * (255 - src.a.toNat) ≤ 255 * (255 - src.a.toNat) :=
    Nat.mul_le_mul_right _ (Nat.le_of_lt_succ dst.a.toNat_lt)
  unfold outAlpha
  omega

theorem blend_le (dst : Pixel) {src : Pixel} (shown : src.a ≠ 0) (channel : Pixel → UInt8) :
    ((channel src).toNat * src.a.toNat * 255 +
      (channel dst).toNat * dst.a.toNat * (255 - src.a.toNat)) / outAlpha dst src ≤ 255 := by
  have positive : 0 < outAlpha dst src :=
    Nat.lt_of_lt_of_le (by decide) (outAlpha_bounds dst shown).1
  have above (c : UInt8) : c.toNat ≤ 255 := Nat.le_of_lt_succ c.toNat_lt
  rw [Nat.div_le_iff_le_mul positive]
  calc (channel src).toNat * src.a.toNat * 255 +
        (channel dst).toNat * dst.a.toNat * (255 - src.a.toNat)
      ≤ 255 * src.a.toNat * 255 + 255 * dst.a.toNat * (255 - src.a.toNat) := by
        gcongr <;> exact above _
    _ = 255 * outAlpha dst src := by
        rw [outAlpha]
        ring
    _ ≤ 255 * outAlpha dst src + outAlpha dst src - 1 := by omega

theorem sourceOver_normal {dst : Pixel} (normal : dst.Normal) (src : Pixel) :
    (sourceOver dst src).Normal := by
  unfold sourceOver
  split
  · next full =>
      intro clear
      rw [full] at clear
      cases clear
  · split
    · exact normal
    · next shown =>
        have ⟨low, high⟩ := outAlpha_bounds dst shown
        intro clear
        have alpha := congrArg UInt8.toNat clear
        rw [UInt8.toNat_ofNat', UInt8.toNat_zero] at alpha
        omega

theorem sourceOver_transparent {src : Pixel} (normal : src.Normal) :
    sourceOver transparent src = src := by
  unfold sourceOver
  split
  · rfl
  · split
    · next clear => exact (normal clear).symm
    · next shown =>
        have alpha : outAlpha transparent src = src.a.toNat * 255 := by
          rw [outAlpha, transparent, UInt8.toNat_zero, Nat.zero_mul, Nat.add_zero]
        have positive : 0 < src.a.toNat * 255 := by
          have ⟨low, _⟩ := outAlpha_bounds transparent shown
          omega
        have kept (channel : Pixel → UInt8) : blend transparent src channel = channel src := by
          rw [blend, alpha, transparent, UInt8.toNat_zero, Nat.mul_zero, Nat.zero_mul,
            Nat.add_zero, Nat.mul_assoc, Nat.mul_div_cancel _ positive, UInt8.ofNat_toNat]
        rw [kept, kept, kept, alpha, Nat.mul_div_cancel _ (by decide), UInt8.ofNat_toNat]

end Pixel

open Pixel (sourceOver)

/-! ### Buffers -/

/-- A picture of this size has no more bytes than a `Vec` can hold. -/
def Fits (w h : UInt32) : Prop := w.toNat * h.toNat * 4 ≤ isizeMax

instance (w h : UInt32) : Decidable (Fits w h) := inferInstanceAs (Decidable (_ ≤ _))

theorem wrapped_of_held {pixels : Nat} (held : pixels * 4 ≤ isizeMax) :
    wrapped pixels = pixels := by
  rw [isizeMax] at held
  exact Nat.mod_eq_of_lt (by omega)

theorem wrapped_of_lt {index pixels : Nat} (inside : index < pixels)
    (held : pixels * 4 ≤ isizeMax) : wrapped index = index :=
  wrapped_of_held (by omega)

theorem cell_lt {row col w h : Nat} (down : row < h) (across : col < w) : row * w + col < w * h :=
  calc row * w + col < row * w + w := Nat.add_lt_add_left across _
    _ = (row + 1) * w := (Nat.succ_mul row w).symm
    _ ≤ w * h := by
      rw [Nat.mul_comm w]
      exact Nat.mul_le_mul_right w down

theorem blankPixels_of_fits {w h : UInt32} (fits : Fits w h) :
    blankPixels w h = some (List.replicate (w.toNat * h.toNat) .transparent) := by
  rw [blankPixels, wrapped_of_held fits]
  exact if_pos fits

theorem pixelAt_of_lt {px : List Pixel} {index : Nat} (inside : index < px.length)
    (held : px.length * 4 ≤ isizeMax) : pixelAt px index = px[index]? := by
  rw [pixelAt, wrapped_of_lt inside held]

theorem changePixel_of_lt {px : List Pixel} {index : Nat} (inside : index < px.length)
    (held : px.length * 4 ≤ isizeMax) (change : Pixel → Pixel) :
    changePixel px index change = some (px.modify index change) := by
  rw [changePixel, wrapped_of_lt inside held, if_pos inside]

def AllNormal (px : List Pixel) : Prop := ∀ pixel ∈ px, pixel.Normal

theorem replicate_normal (count : Nat) : AllNormal (List.replicate count .transparent) := by
  intro pixel member
  rw [List.eq_of_mem_replicate member]
  exact Pixel.transparent_normal

theorem changePixel_normal {px changed : List Pixel} {index : Nat} {change : Pixel → Pixel}
    (kept : ∀ pixel, pixel.Normal → (change pixel).Normal)
    (made : changePixel px index change = some changed) (normal : AllNormal px) :
    AllNormal changed := by
  obtain ⟨-, same⟩ := Option.ite_none_right_eq_some.mp made
  obtain rfl := Option.some.inj same
  intro pixel member
  obtain ⟨i, found⟩ := List.mem_iff_getElem?.mp member
  rw [List.getElem?_modify] at found
  obtain ⟨before, present, rfl⟩ := Option.map_eq_some_iff.mp found
  have already := normal before (List.mem_of_getElem? present)
  split
  · exact kept before already
  · exact already

namespace Layer

def Normal (layer : Layer) : Prop := AllNormal layer.px

theorem default_whole : default.Whole := ⟨rfl, Nat.zero_le _⟩

theorem clear_whole {layer : Layer} (whole : layer.Whole) : layer.clear.Whole := by
  have same : layer.clear.px.length = layer.px.length := List.length_replicate
  exact ⟨same.trans whole.filled, same ▸ whole.held⟩

theorem clear_normal (layer : Layer) : layer.clear.Normal := replicate_normal _

/-! ### Drawing -/

theorem draw_returns {layer : Layer} (whole : layer.Whole) {src : List Pixel} {sw sh : UInt32}
    (filled : src.length = sw.toNat * sh.toNat) (held : src.length * 4 ≤ isizeMax)
    (x y : Int64) :
    ∃ drawn, layer.draw src sw sh x y = some drawn ∧ drawn.Whole := by
  have rows : ∃ px, (List.range sh.toNat).foldlM (layer.drawRow src sw x y) layer.px = some px ∧
      px.length = layer.px.length := by
    refine foldlM_returns (fun px : List Pixel => px.length = layer.px.length) rfl
      fun px row down same => ?_
    unfold drawRow
    dsimp only
    split
    · exact ⟨px, rfl, same⟩
    · next inside =>
        refine foldlM_returns (fun px : List Pixel => px.length = layer.px.length) same
          fun px col across same => ?_
        split
        · exact ⟨px, rfl, same⟩
        · next within =>
            have from' : row * sw.toNat + col < src.length := by
              rw [filled]
              exact cell_lt (List.mem_range.mp down) (List.mem_range.mp across)
            have to' : (y.toInt + row).toNat * layer.w.toNat + (x.toInt + col).toNat <
                px.length := by
              rw [same, whole.filled]
              exact cell_lt (by omega) (by omega)
            rw [pixelAt_of_lt from' held, List.getElem?_eq_getElem from', Option.bind_some,
              changePixel_of_lt to' (same ▸ whole.held)]
            exact ⟨_, rfl, (List.length_modify ..).trans same⟩
  obtain ⟨px, drawn, same⟩ := rows
  rw [draw, drawn]
  exact ⟨_, rfl, same.trans whole.filled, by rw [same]; exact whole.held⟩

theorem draw_normal {layer drawn : Layer} {src : List Pixel} {sw sh : UInt32} {x y : Int64}
    (made : layer.draw src sw sh x y = some drawn) (normal : layer.Normal) : drawn.Normal := by
  obtain ⟨px, folded, rfl⟩ := Option.map_eq_some_iff.mp made
  refine foldlM_keeps AllNormal normal (fun px row next drawn normal => ?_) folded
  unfold drawRow at drawn
  dsimp only at drawn
  split at drawn
  · cases drawn
    exact normal
  · refine foldlM_keeps AllNormal normal (fun px col next drawn normal => ?_) drawn
    split at drawn
    · cases drawn
      exact normal
    · obtain ⟨source, -, drawn⟩ := Option.bind_eq_some_iff.mp drawn
      exact changePixel_normal (fun _ before => Pixel.sourceOver_normal before source) drawn normal

/-! ### Resizing -/

theorem row_end_le {y width w h : Nat} (down : y < h) (across : width ≤ w) :
    y * w + width ≤ w * h := by
  have last := Nat.mul_le_mul_right w down
  rw [Nat.succ_mul, Nat.mul_comm h] at last
  omega

theorem resize_returns {layer : Layer} (whole : layer.Whole) {w h : UInt32} (fits : Fits w h) :
    ∃ resized, layer.resize w h = some resized ∧ resized.Whole := by
  unfold resize
  split
  · exact ⟨layer, rfl, whole⟩
  · rw [blankPixels_of_fits fits, Option.bind_some]
    have rows : ∃ px, (List.range (min h.toNat layer.h.toNat)).foldlM
        (layer.copyRow w (min w.toNat layer.w.toNat))
        (List.replicate (w.toNat * h.toNat) .transparent) = some px ∧
          px.length = w.toNat * h.toNat := by
      refine foldlM_returns (fun px : List Pixel => px.length = w.toNat * h.toNat)
        List.length_replicate fun px y down same => ?_
      have below : y < min h.toNat layer.h.toNat := List.mem_range.mp down
      have read : y * layer.w.toNat + min w.toNat layer.w.toNat ≤ layer.px.length := by
        rw [whole.filled]
        exact row_end_le (by omega) (Nat.min_le_right ..)
      have written : y * w.toNat + min w.toNat layer.w.toNat ≤ px.length := by
        rw [same]
        exact row_end_le (by omega) (Nat.min_le_left ..)
      have from' : wrapped (y * layer.w.toNat) = y * layer.w.toNat :=
        wrapped_of_held (by have := whole.held; omega)
      have to' : wrapped (y * w.toNat) = y * w.toNat :=
        wrapped_of_held (by have : w.toNat * h.toNat * 4 ≤ isizeMax := fits; omega)
      rw [copyRow, from', slice_of_le read, Option.bind_some, to', if_pos written]
      refine ⟨_, rfl, ?_⟩
      simp only [List.length_append, List.length_take, List.length_drop]
      omega
    obtain ⟨px, copied, same⟩ := rows
    rw [copied]
    exact ⟨_, rfl, same, by rw [same]; exact fits⟩

theorem resize_normal {layer resized : Layer} {w h : UInt32}
    (made : layer.resize w h = some resized) (normal : layer.Normal) : resized.Normal := by
  unfold resize at made
  split at made
  · cases made
    exact normal
  · obtain ⟨start, blank, made⟩ := Option.bind_eq_some_iff.mp made
    obtain ⟨px, folded, rfl⟩ := Option.map_eq_some_iff.mp made
    obtain ⟨-, start⟩ := Option.ite_none_right_eq_some.mp blank
    obtain rfl := Option.some.inj start
    refine foldlM_keeps AllNormal (replicate_normal _) (fun px y next copied normal' => ?_) folded
    obtain ⟨row, read, copied⟩ := Option.bind_eq_some_iff.mp copied
    obtain ⟨-, copied⟩ := Option.ite_none_right_eq_some.mp copied
    obtain rfl := Option.some.inj copied
    obtain ⟨-, read⟩ := Option.ite_none_right_eq_some.mp read
    obtain rfl := Option.some.inj read
    intro pixel member
    rcases List.mem_append.mp member with front | back
    · rcases List.mem_append.mp front with old | new
      · exact normal' pixel (List.mem_of_mem_take old)
      · exact normal pixel (List.mem_of_mem_drop (List.mem_of_mem_take new))
    · exact normal' pixel (List.mem_of_mem_drop back)

/-! ### Drawing a layer again -/

/-- The layer's picture drawn on its cleared copy, as a prelude restores it. -/
def redrawn (layer : Layer) : Option Layer := layer.clear.draw layer.px layer.w layer.h 0 0

def Shows (px target : List Pixel) (count : Nat) : Prop :=
  px = target.take count ++ List.replicate (target.length - count) .transparent

theorem Shows.length {px target : List Pixel} {count : Nat} (shows : Shows px target count)
    (inside : count ≤ target.length) : px.length = target.length := by
  rw [shows, List.length_append, List.length_take, List.length_replicate]
  omega

theorem Shows.modify {px target : List Pixel} {count : Nat} (shows : Shows px target count)
    (inside : count < target.length) (normal : AllNormal target) :
    Shows (px.modify count fun pixel => sourceOver pixel (target.get ⟨count, inside⟩)) target
      (count + 1) := by
  have left : target.length - count = target.length - (count + 1) + 1 := by omega
  have front : (target.take count).length = count := List.length_take_of_le inside.le
  have modified (rest : List Pixel) (change : Pixel → Pixel) :
      (target.take count ++ .transparent :: rest).modify count change =
        target.take count ++ change .transparent :: rest := by
    rw [List.modify_eq_take_cons_drop (by simp only [List.length_append, List.length_cons]; omega)]
    simp [front, List.drop_append]
  rw [Shows, shows, left, List.replicate_succ, modified,
    Pixel.sourceOver_transparent (normal _ (List.get_mem target _)),
    List.take_succ_eq_append_getElem inside, List.append_assoc, List.singleton_append]
  rfl

theorem Shows.drawRow {layer : Layer} {px : List Pixel} {row : Nat} (whole : layer.Whole)
    (normal : layer.Normal) (inside : row < layer.h.toNat)
    (shows : Shows px layer.px (row * layer.w.toNat)) :
    ∃ drawn, layer.clear.drawRow layer.px layer.w 0 0 px row = some drawn ∧
      Shows drawn layer.px ((row + 1) * layer.w.toNat) := by
  have lines : (row + 1) * layer.w.toNat ≤ layer.px.length := by
    rw [whole.filled, Nat.mul_comm layer.w.toNat]
    exact Nat.mul_le_mul_right _ inside
  rw [Nat.succ_mul] at lines ⊢
  have within : ¬ ((row : Int) < 0 ∨ layer.h.toNat ≤ (row : Int)) := by omega
  unfold Layer.drawRow
  simp only [clear, Int64.toInt_zero, Int.zero_add, Int.toNat_natCast, if_neg within]
  refine foldlM_range (fun col px => Shows px layer.px (row * layer.w.toNat + col)) shows
    fun px col across short => ?_
  have there : row * layer.w.toNat + col < layer.px.length := by omega
  have same := short.length there.le
  refine ⟨_, ?_, short.modify there normal⟩
  rw [if_neg (by omega), pixelAt_of_lt there whole.held, List.getElem?_eq_getElem there,
    Option.bind_some, changePixel_of_lt (same ▸ there) (same ▸ whole.held)]
  rfl

theorem redrawn_eq {layer : Layer} (whole : layer.Whole) (normal : layer.Normal) :
    layer.redrawn = some layer := by
  have blank : Shows layer.clear.px layer.px (0 * layer.w.toNat) := by simp [Shows, clear]
  obtain ⟨px, folded, shows⟩ := foldlM_range
    (fun row px => Shows px layer.px (row * layer.w.toNat)) blank
    fun px row inside short => short.drawRow whole normal inside
  rw [Shows, Nat.mul_comm, ← whole.filled, List.take_length, Nat.sub_self] at shows
  obtain rfl : px = layer.px := shows.trans (List.append_nil _)
  rw [redrawn, draw]
  exact congrArg (Option.map fun px => { layer.clear with px := px }) folded

end Layer

/-! ### Any sequence of operations -/

inductive LayerOp where
  | draw (picture : Picture) (x y : Int64)
  | resize (w h : UInt32)
  | clear

def LayerOp.apply (layer : Layer) : LayerOp → Option Layer
  | .draw picture x y => layer.draw picture.px picture.w picture.h x y
  | .resize w h => layer.resize w h
  | .clear => some layer.clear

def LayerOp.Fits : LayerOp → Prop
  | .resize w h => RecordingIndex.Fits w h
  | .draw .. | .clear => True

theorem LayerOp.apply_returns {layer : Layer} (whole : layer.Whole) (normal : layer.Normal)
    {op : LayerOp} (fits : op.Fits) :
    ∃ after, op.apply layer = some after ∧ after.Whole ∧ after.Normal := by
  cases op with
  | draw picture x y =>
      obtain ⟨after, drawn, still⟩ := Layer.draw_returns whole picture.whole.filled
        picture.whole.held x y
      exact ⟨after, drawn, still, Layer.draw_normal drawn normal⟩
  | resize w h =>
      obtain ⟨after, resized, still⟩ := Layer.resize_returns whole fits
      exact ⟨after, resized, still, Layer.resize_normal resized normal⟩
  | clear => exact ⟨_, rfl, Layer.clear_whole whole, layer.clear_normal⟩

theorem operations_return (ops : List LayerOp) (fit : ∀ op ∈ ops, op.Fits) :
    ∃ layer, ops.foldlM LayerOp.apply Layer.default = some layer ∧ layer.Whole ∧ layer.Normal :=
  foldlM_returns (fun layer : Layer => layer.Whole ∧ layer.Normal)
    ⟨Layer.default_whole, fun _ member => absurd member List.not_mem_nil⟩
    fun _ op member kept => LayerOp.apply_returns kept.1 kept.2 (fit op member)

/-- What `over` computes with where it divides: a divisor that is not zero, a dividend within
`u32`, and quotients that fit a byte. -/
structure Blends (dst src : Pixel) : Prop where
  divisor : 0 < Pixel.outAlpha dst src
  dividend : ∀ channel : Pixel → UInt8, (channel src).toNat * src.a.toNat * 255 +
    (channel dst).toNat * dst.a.toNat * (255 - src.a.toNat) ≤ RustInt.u32Max
  colour : ∀ channel : Pixel → UInt8, (Pixel.blend dst src channel).toNat =
    ((channel src).toNat * src.a.toNat * 255 +
      (channel dst).toNat * dst.a.toNat * (255 - src.a.toNat)) / Pixel.outAlpha dst src
  alpha : (UInt8.ofNat (Pixel.outAlpha dst src / 255)).toNat = Pixel.outAlpha dst src / 255

theorem blends (dst : Pixel) {src : Pixel} (shown : src.a ≠ 0) : Blends dst src := by
  obtain ⟨low, high⟩ := Pixel.outAlpha_bounds dst shown
  constructor
  · omega
  · intro channel
    have above (c : UInt8) : c.toNat ≤ 255 := Nat.le_of_lt_succ c.toNat_lt
    calc (channel src).toNat * src.a.toNat * 255 +
          (channel dst).toNat * dst.a.toNat * (255 - src.a.toNat)
        ≤ 255 * 255 * 255 + 255 * 255 * 255 := by
          gcongr
          · exact above _
          · exact above _
          · exact above _
          · exact above _
          · omega
      _ ≤ RustInt.u32Max := by decide
  · intro channel
    rw [Pixel.blend, UInt8.toNat_ofNat']
    exact Nat.mod_eq_of_lt (Nat.lt_succ_of_le (Pixel.blend_le dst shown channel))
  · rw [UInt8.toNat_ofNat']
    omega

/-- Whatever is drawn, resized and cleared within what a `Vec` can hold, no pixel hides a colour,
every blend stays in range, and the layer drawn on its cleared copy comes out bit for bit. -/
theorem layer_restored (ops : List LayerOp) (fit : ∀ op ∈ ops, op.Fits) :
    ∃ layer, ops.foldlM LayerOp.apply Layer.default = some layer ∧
      (∀ pixel ∈ layer.px, pixel.a = 0 → pixel.r = 0 ∧ pixel.g = 0 ∧ pixel.b = 0) ∧
      (∀ dst src : Pixel, src.a ≠ 0 → Blends dst src) ∧ layer.redrawn = some layer := by
  obtain ⟨layer, reached, whole, normal⟩ := operations_return ops fit
  refine ⟨layer, reached, ?_, fun dst src => blends dst, Layer.redrawn_eq whole normal⟩
  intro pixel member clear
  rw [normal pixel member clear]
  exact ⟨rfl, rfl, rfl⟩

def dot : Picture := ⟨⟨1, 1, [⟨255, 0, 0, 255⟩]⟩, ⟨rfl, by decide⟩⟩

theorem drawn_dot_restored :
    ∃ layer, [.resize 2 1, .draw dot 1 0].foldlM LayerOp.apply Layer.default = some layer ∧
      layer.px = [.transparent, ⟨255, 0, 0, 255⟩] ∧ layer.redrawn = some layer := by
  obtain ⟨layer, reached, -, -, redrawn⟩ := layer_restored [.resize 2 1, .draw dot 1 0]
    (List.forall_mem_cons.mpr ⟨(by decide : Fits 2 1), List.forall_mem_singleton.mpr trivial⟩)
  have drawn : [LayerOp.resize 2 1, .draw dot 1 0].foldlM LayerOp.apply Layer.default =
      some ⟨2, 1, [.transparent, ⟨255, 0, 0, 255⟩]⟩ := by decide
  obtain rfl := Option.some.inj (reached.symm.trans drawn)
  exact ⟨_, drawn, rfl, redrawn⟩

/-- A length that `vec!` refuses, and one that wraps to nothing, so that the next dot panics. -/
theorem huge_resize_panics :
    LayerOp.apply Layer.default (.resize 4294967295 4294967295) = none ∧
      LayerOp.apply Layer.default (.resize 2147483648 2147483648) =
        some ⟨2147483648, 2147483648, []⟩ ∧
      LayerOp.apply ⟨2147483648, 2147483648, []⟩ (.draw dot 0 0) = none := by
  decide

end Strata.Backend.RecordingIndex
