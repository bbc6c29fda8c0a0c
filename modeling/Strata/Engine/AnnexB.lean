import Mathlib.Tactic
import Strata.Lib.Framing
import Strata.Lib.Loop

/-! H.264 frames of the graphics pipeline (`rdp/gfx.rs`): length-prefixed units are rewritten
behind start codes, unless the frame seems to hold start codes already. -/

namespace Strata.Engine.AnnexB

open Utf8 (Bytes)
open Framing (putBigEndian getBigEndian field fields)

def startCode : Bytes := [0x00, 0x00, 0x00, 0x01]

def nalIdr : UInt8 := 5
def nalSps : UInt8 := 7

def isKeyframeNal (header : UInt8) : Bool :=
  header &&& 0x1f == nalIdr || header &&& 0x1f == nalSps

def startsWithStartCode (data : Bytes) : Bool :=
  startCode.isPrefixOf data || [0x00, 0x00, 0x01].isPrefixOf data

def annexBHasKeyframe : Bytes → Bool
  | one :: two :: three :: rest =>
      if one = 0 ∧ two = 0 ∧ three = 1 then
        rest.head?.any isKeyframeNal || annexBHasKeyframe rest
      else annexBHasKeyframe (two :: three :: rest)
  | _ => false

structure Unpacking where
  data : Bytes
  out : Bytes
  keyframe : Bool

def unpackTurn (s : Unpacking) : Unpacking ⊕ Bytes × Bool :=
  if 4 ≤ s.data.length then
    let len := getBigEndian (s.data.take 4)
    let rest := s.data.drop 4
    if len = 0 ∨ rest.length < len then .inr (s.out, s.keyframe)
    else
      .inl ⟨rest.drop len, s.out ++ startCode ++ rest.take len,
        s.keyframe || rest.head?.any isKeyframeNal⟩
  else .inr (s.out, s.keyframe)

def unpack (s : Unpacking) : Bytes × Bool := Loop.run (fun s => s.data.length) unpackTurn s

/-- The output, and whether the frame can be decoded from cold. -/
def avcToAnnexB (data out : Bytes) : Bytes × Bool :=
  if startsWithStartCode data then (out ++ data, annexBHasKeyframe data)
  else unpack ⟨data, out, false⟩

/-! ### Units -/

def annexB (units : List Bytes) : Bytes := units.flatMap (startCode ++ ·)

/-- An IDR slice or a sequence parameter set. -/
def isKeyframe (unit : Bytes) : Bool := unit.head?.any isKeyframeNal

theorem unpackTurn_lowers : Loop.Decreasing (fun s => s.data.length) unpackTurn := by
  intro s next turned
  simp only [unpackTurn] at turned
  split_ifs at turned with more
  cases turned
  simp only [List.length_drop]
  omega

theorem unpack_next {s next : Unpacking} (turned : unpackTurn s = .inl next) :
    unpack s = unpack next := by
  rw [unpack, Loop.run_eq unpackTurn_lowers, turned]
  rfl

theorem unpackTurn_field {unit : Bytes} (filled : unit ≠ []) (small : unit.length < 2 ^ 32)
    (rest out : Bytes) (keyframe : Bool) :
    unpackTurn ⟨field unit ++ rest, out, keyframe⟩ =
      .inl ⟨rest, out ++ startCode ++ unit, keyframe || isKeyframe unit⟩ := by
  have length : (putBigEndian 4 unit.length).length = 4 := Framing.putBigEndian_length ..
  have number : getBigEndian (putBigEndian 4 unit.length) = unit.length :=
    Framing.getBigEndian_putBigEndian small
  have positive : 0 < unit.length := List.length_pos_of_ne_nil filled
  have four : (field unit ++ rest).take 4 = putBigEndian 4 unit.length := by
    rw [field, List.append_assoc, List.take_left' length]
  have behind : (field unit ++ rest).drop 4 = unit ++ rest := by
    rw [field, List.append_assoc, List.drop_left' length]
  have header : (unit ++ rest).head? = unit.head? := List.head?_append_of_ne_nil _ filled
  have room : 4 ≤ (field unit ++ rest).length := by
    rw [field, List.length_append, List.length_append, length]
    omega
  rw [unpackTurn]
  simp only [room, if_true, four, behind, number, header]
  rw [if_neg (by rw [List.length_append]; omega), List.drop_left, List.take_left]
  rfl

theorem unpack_fields {units : List Bytes} (filled : ∀ unit ∈ units, unit ≠ [])
    (small : ∀ unit ∈ units, unit.length < 2 ^ 32) (out : Bytes) (keyframe : Bool) :
    unpack ⟨fields units, out, keyframe⟩ =
      (out ++ annexB units, keyframe || units.any isKeyframe) := by
  induction units generalizing out keyframe with
  | nil =>
      rw [annexB, List.flatMap_nil, List.append_nil, List.any_nil, Bool.or_false]
      rfl
  | cons unit units ih =>
      have turned := unpackTurn_field (filled unit List.mem_cons_self)
        (small unit List.mem_cons_self) (fields units) out keyframe
      have later := ih (fun other member => filled other (List.mem_cons_of_mem _ member))
        (fun other member => small other (List.mem_cons_of_mem _ member))
        (out ++ startCode ++ unit) (keyframe || isKeyframe unit)
      rw [fields, List.flatMap_cons, ← fields, unpack_next turned, later]
      simp only [annexB, List.flatMap_cons, List.any_cons, List.append_assoc, Bool.or_assoc]

/-! ### What the first bytes look like -/

/-- Lengths whose four bytes start like a start code. -/
def LooksMarked (length : Nat) : Prop := length = 1 ∨ (256 ≤ length ∧ length < 512)

instance (length : Nat) : Decidable (LooksMarked length) := instDecidableOr

theorem putBigEndian_four (value : Nat) :
    putBigEndian 4 value =
      [UInt8.ofNat (value / 256 / 256 / 256), UInt8.ofNat (value / 256 / 256),
        UInt8.ofNat (value / 256), UInt8.ofNat value] := rfl

theorem ofNat_eq_iff (value : Nat) (byte : UInt8) :
    byte = UInt8.ofNat value ↔ value % 256 = byte.toNat := by
  rw [← UInt8.toNat_inj, UInt8.toNat_ofNat', eq_comm]

theorem startsWithStartCode_field {unit : Bytes} (small : unit.length < 2 ^ 32) (rest : Bytes) :
    startsWithStartCode (field unit ++ rest) = true ↔ LooksMarked unit.length := by
  rw [startsWithStartCode, field, putBigEndian_four, startCode, LooksMarked]
  simp only [List.cons_append, List.nil_append, List.isPrefixOf, Bool.or_eq_true, Bool.and_eq_true,
    beq_iff_eq, ofNat_eq_iff, Bool.and_true, UInt8.toNat_zero, UInt8.toNat_one]
  omega

theorem fields_eq_annexB_iff {units : List Bytes} (small : ∀ unit ∈ units, unit.length < 2 ^ 32) :
    fields units = annexB units ↔ ∀ unit ∈ units, unit.length = 1 := by
  induction units with
  | nil => simp [fields, annexB]
  | cons unit units ih =>
      have code : startCode = putBigEndian 4 1 := rfl
      have later := ih fun other member => small other (List.mem_cons_of_mem _ member)
      rw [List.forall_mem_cons, ← later, fields, annexB, List.flatMap_cons, List.flatMap_cons,
        field, ← fields, ← annexB, List.append_assoc, List.append_assoc]
      constructor
      · intro same
        have parts := List.append_inj same (by rw [code]; simp)
        have lengths : unit.length = 1 :=
          Framing.putBigEndian_injective (small unit List.mem_cons_self) (by decide)
            (parts.1.trans code)
        exact ⟨lengths, (List.append_cancel_left parts.2)⟩
      · rintro ⟨one, same⟩
        rw [one, same, code]

theorem annexBHasKeyframe_cons (byte : UInt8) (units : List Bytes) :
    annexBHasKeyframe (byte :: annexB units) = annexBHasKeyframe (annexB units) := by
  cases units with
  | nil => rfl
  | cons unit units =>
      have shape : annexB (unit :: units) = 0 :: 0 :: 0 :: 1 :: (unit ++ annexB units) := rfl
      have other : ¬ (byte = 0 ∧ (0 : UInt8) = 0 ∧ (0 : UInt8) = 1) := by
        rintro ⟨-, -, impossible⟩
        cases impossible
      rw [shape, annexBHasKeyframe, if_neg other]

theorem annexBHasKeyframe_annexB {units : List Bytes} (single : ∀ unit ∈ units, unit.length = 1) :
    annexBHasKeyframe (annexB units) = units.any isKeyframe := by
  induction units with
  | nil => rfl
  | cons unit units ih =>
      obtain ⟨header, rfl⟩ := List.length_eq_one_iff.mp (single unit List.mem_cons_self)
      have later := ih fun other member => single other (List.mem_cons_of_mem _ member)
      have shape : annexB ([header] :: units) = 0 :: 0 :: 0 :: 1 :: header :: annexB units := rfl
      have zeros : ¬ ((0 : UInt8) = 0 ∧ (0 : UInt8) = 0 ∧ (0 : UInt8) = 1) := by decide
      have mark : (0 : UInt8) = 0 ∧ (0 : UInt8) = 0 ∧ (1 : UInt8) = 1 := by decide
      rw [shape, annexBHasKeyframe, if_neg zeros, annexBHasKeyframe, if_pos mark,
        annexBHasKeyframe_cons, later]
      rfl

/-- Length-prefixed units come out behind start codes, with the keyframes told apart, exactly if
the first length does not look like a start code or every length is one. -/
theorem avcToAnnexB_fields_iff (unit : Bytes) (units : List Bytes)
    (filled : ∀ each ∈ unit :: units, each ≠ [])
    (small : ∀ each ∈ unit :: units, each.length < 2 ^ 32) (out : Bytes) :
    avcToAnnexB (fields (unit :: units)) out =
        (out ++ annexB (unit :: units), (unit :: units).any isKeyframe) ↔
      ¬ LooksMarked unit.length ∨ ∀ each ∈ unit :: units, each.length = 1 := by
  have marked : startsWithStartCode (fields (unit :: units)) = true ↔ LooksMarked unit.length :=
    startsWithStartCode_field (small unit List.mem_cons_self) (fields units)
  rw [avcToAnnexB]
  by_cases looks : LooksMarked unit.length
  · rw [if_pos (marked.mpr looks), or_iff_right (not_not.mpr looks), ← fields_eq_annexB_iff small]
    constructor
    · intro same
      exact List.append_cancel_left (congrArg Prod.fst same)
    · intro same
      rw [same, annexBHasKeyframe_annexB ((fields_eq_annexB_iff small).mp same)]
  · rw [if_neg (mt marked.mp looks), unpack_fields filled small]
    exact iff_of_true rfl (.inl looks)

theorem avcToAnnexB_parameter_set :
    avcToAnnexB (fields [[0x67, 0x42], [0x65, 0x88, 0x84]]) [] =
      ([0, 0, 0, 1, 0x67, 0x42, 0, 0, 0, 1, 0x65, 0x88, 0x84], true) :=
  (avcToAnnexB_fields_iff [0x67, 0x42] [[0x65, 0x88, 0x84]] (by simp) (by simp) []).mpr
    (.inl (by decide))

/-- An IDR slice of 300 bytes: its length reads 00 00 01 2C. -/
theorem avcToAnnexB_marked_length :
    ¬ avcToAnnexB (fields [0x65 :: List.replicate 299 0x88]) [] =
        ([] ++ annexB [0x65 :: List.replicate 299 0x88],
          [0x65 :: List.replicate 299 0x88].any isKeyframe) ∧
      (avcToAnnexB (fields [0x65 :: List.replicate 299 0x88]) []).2 = false := by
  decide +kernel

end Strata.Engine.AnnexB
