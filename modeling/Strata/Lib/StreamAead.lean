import Mathlib.Tactic
import Strata.Lib.Blocks
import Strata.Lib.Framing

/-! Authenticated encryption with the STREAM construction: a message sealed chunk by chunk, the
nonce of each chunk with its position and a flag for the last one.

`Correct` is a cipher that opens what it sealed. `Ideal` is one that, under a given key, opens
only what was sealed under that key, and as it was sealed. -/

namespace Strata.StreamAead

open Utf8 (Bytes)
open Framing (putBigEndian)

def tagLen : Nat := 16

/-- Both functions take the key, the nonce and the associated data. -/
structure Aead where
  encrypt : Bytes → Bytes → Bytes → Bytes → Bytes
  decrypt : Bytes → Bytes → Bytes → Bytes → Option Bytes

structure Aead.Correct (aead : Aead) : Prop where
  decrypt_encrypt : ∀ key nonce aad plain,
    aead.decrypt key nonce aad (aead.encrypt key nonce aad plain) = some plain
  encrypt_length : ∀ key nonce aad plain,
    (aead.encrypt key nonce aad plain).length = plain.length + tagLen

/-- `StreamBE32`: the nonce of a chunk. -/
def nonce (start : Bytes) (position : Nat) (last : Bool) : Bytes :=
  start ++ (putBigEndian 4 position ++ [if last then 1 else 0])

def counterMax : Nat := 2 ^ 32 - 1

theorem nonce_injective {start : Bytes} {position other : Nat} {last final : Bool}
    (small : position ≤ counterMax) (little : other ≤ counterMax)
    (same : nonce start position last = nonce start other final) :
    position = other ∧ last = final := by
  have counters := List.append_inj (List.append_cancel_left same) (by simp)
  constructor
  · apply Framing.putBigEndian_injective _ _ counters.1
    · exact Nat.lt_of_le_of_lt small (by decide)
    · exact Nat.lt_of_le_of_lt little (by decide)
  · cases last <;> cases final <;> simp at counters ⊢

/-- A position of the stream: `EncryptorBE32` and `DecryptorBE32`. -/
structure Stream where
  key : Bytes
  start : Bytes
  position : Nat

def Stream.next (stream : Stream) : Stream := { stream with position := stream.position + 1 }

variable (aead : Aead) (aad : Bytes)

def encryptNext (stream : Stream) (plain : Bytes) : Option (Bytes × Stream) :=
  if stream.position = counterMax then none
  else
    some (aead.encrypt stream.key (nonce stream.start stream.position false) aad plain, stream.next)

def encryptLast (stream : Stream) (plain : Bytes) : Bytes :=
  aead.encrypt stream.key (nonce stream.start stream.position true) aad plain

def decryptNext (stream : Stream) (frame : Bytes) : Option (Bytes × Stream) :=
  if stream.position = counterMax then none
  else
    (aead.decrypt stream.key (nonce stream.start stream.position false) aad frame).map
      fun plain => (plain, stream.next)

def decryptLast (stream : Stream) (frame : Bytes) : Option Bytes :=
  aead.decrypt stream.key (nonce stream.start stream.position true) aad frame

/-! ### Whole messages -/

def frames (stream : Stream) : List Bytes → List Bytes
  | [] => []
  | [last] => [encryptLast aead aad stream last]
  | plain :: rest =>
      aead.encrypt stream.key (nonce stream.start stream.position false) aad plain ::
        frames stream.next rest

/-- The chunks that open one after the other, and whether the message ends well. -/
def opened (stream : Stream) : List Bytes → List Bytes × Bool
  | [] => ([], false)
  | [last] =>
      match decryptLast aead aad stream last with
      | some plain => ([plain], true)
      | none => ([], false)
  | frame :: rest =>
      match decryptNext aead aad stream frame with
      | some (plain, stream) => (plain :: (opened stream rest).1, (opened stream rest).2)
      | none => ([], false)

variable {aead aad}

theorem frames_cons {stream : Stream} (plain : Bytes) {rest : List Bytes} (more : rest ≠ []) :
    frames aead aad stream (plain :: rest) =
      aead.encrypt stream.key (nonce stream.start stream.position false) aad plain ::
        frames aead aad stream.next rest := by
  rw [frames]
  exact fun nil => absurd nil more

theorem frames_ne_nil {stream : Stream} {plains : List Bytes} (some : plains ≠ []) :
    frames aead aad stream plains ≠ [] := by
  cases plains with
  | nil => exact absurd rfl some
  | cons plain rest =>
      cases rest <;> exact List.cons_ne_nil _ _

theorem opened_cons {stream : Stream} (frame : Bytes) {rest : List Bytes} (more : rest ≠ []) :
    opened aead aad stream (frame :: rest) =
      match decryptNext aead aad stream frame with
      | some (plain, stream) =>
          (plain :: (opened aead aad stream rest).1, (opened aead aad stream rest).2)
      | none => ([], false) := by
  rw [opened]
  exact fun nil => absurd nil more

theorem frames_head (stream : Stream) (plain : Bytes) (rest : List Bytes) :
    ∃ last tail, frames aead aad stream (plain :: rest) =
      aead.encrypt stream.key (nonce stream.start stream.position last) aad plain :: tail := by
  cases rest with
  | nil => exact ⟨true, [], rfl⟩
  | cons second rest => exact ⟨false, _, frames_cons plain (List.cons_ne_nil second rest)⟩

theorem frames_blocked {stream : Stream} {size : Nat} {plains : List Bytes}
    (longer : ∀ nonce plain,
      (aead.encrypt stream.key nonce aad plain).length = plain.length + tagLen)
    (blocked : Blocks.Blocked size plains) :
    Blocks.Blocked (size + tagLen) (frames aead aad stream plains) := by
  induction plains generalizing stream with
  | nil => cases blocked
  | cons plain rest ih =>
      cases rest with
      | nil =>
          rw [frames, Blocks.Blocked, encryptLast, longer]
          exact Nat.add_le_add_right blocked tagLen
      | cons second rest =>
          have ⟨full, _, tail⟩ := blocked
          have later : Blocks.Blocked (size + tagLen)
              (frames aead aad stream.next (second :: rest)) := ih longer tail
          obtain ⟨last, more, split⟩ : ∃ last more,
              frames aead aad stream.next (second :: rest) = aead.encrypt stream.key
                (nonce stream.start stream.next.position last) aad second :: more :=
            frames_head stream.next second rest
          rw [frames_cons plain (List.cons_ne_nil second rest)]
          rw [split] at later ⊢
          refine ⟨by rw [longer, full], ?_, later⟩
          rw [← List.length_pos_iff, longer]
          exact Nat.lt_add_left _ (by decide : 0 < tagLen)

theorem opened_foreign {stream : Stream}
    (foreign : ∀ nonce frame, aead.decrypt stream.key nonce aad frame = none)
    (list : List Bytes) : opened aead aad stream list = ([], false) := by
  cases list with
  | nil => rfl
  | cons frame rest =>
      cases rest with
      | nil => rw [opened, decryptLast, foreign]
      | cons second rest =>
          rw [opened_cons frame (List.cons_ne_nil second rest), decryptNext, foreign,
            Option.map_none, ite_self]

/-! ### Uses of the cipher -/

structure Sealing where
  nonce : Bytes
  aad : Bytes
  plain : Bytes

def sealings (aad start : Bytes) : Nat → List Bytes → List Sealing
  | _, [] => []
  | position, [last] => [⟨nonce start position true, aad, last⟩]
  | position, plain :: rest =>
      ⟨nonce start position false, aad, plain⟩ :: sealings aad start (position + 1) rest

theorem sealings_cons {start : Bytes} {position : Nat} (plain : Bytes) {rest : List Bytes}
    (more : rest ≠ []) :
    sealings aad start position (plain :: rest) =
      ⟨nonce start position false, aad, plain⟩ :: sealings aad start (position + 1) rest := by
  rw [sealings]
  exact fun nil => absurd nil more

theorem opened_frames {stream : Stream} {plains : List Bytes} (some : plains ≠ [])
    (counted : stream.position + plains.length ≤ counterMax + 1)
    (opens : ∀ use ∈ sealings aad stream.start stream.position plains,
      aead.decrypt stream.key use.nonce use.aad
        (aead.encrypt stream.key use.nonce use.aad use.plain) = Option.some use.plain) :
    opened aead aad stream (frames aead aad stream plains) = (plains, true) := by
  induction plains generalizing stream with
  | nil => exact absurd rfl some
  | cons plain rest ih =>
      cases rest with
      | nil =>
          have back : decryptLast aead aad stream (encryptLast aead aad stream plain) =
              Option.some plain := opens _ (List.mem_singleton_self _)
          simp only [frames, opened, back]
      | cons second rest =>
          have more := List.cons_ne_nil second rest
          rw [sealings_cons plain more, List.forall_mem_cons] at opens
          rw [List.length_cons] at counted
          have inside : stream.position ≠ counterMax := by
            rw [List.length_cons] at counted
            omega
          have later : opened aead aad stream.next (frames aead aad stream.next (second :: rest)) =
              (second :: rest, true) := by
            apply ih more _ opens.2
            dsimp only [Stream.next]
            omega
          rw [frames_cons plain more, opened_cons _ (frames_ne_nil more), decryptNext,
            if_neg inside, opens.1, Option.map_some]
          simp only [later]

/-! ### An ideal cipher -/

/-- A frame opens only under the nonce and the associated data it was sealed with. -/
structure Aead.Ideal (aead : Aead) (key : Bytes) (uses : List Sealing) : Prop where
  decrypt_iff : ∀ nonce aad frame plain, aead.decrypt key nonce aad frame = some plain ↔
    (⟨nonce, aad, plain⟩ : Sealing) ∈ uses ∧ frame = aead.encrypt key nonce aad plain
  encrypt_length : ∀ nonce aad plain,
    (aead.encrypt key nonce aad plain).length = plain.length + tagLen

theorem aad_of_mem_sealings {start : Bytes} {position : Nat} {plains : List Bytes} {use : Sealing}
    (member : use ∈ sealings aad start position plains) : use.aad = aad := by
  induction plains generalizing position with
  | nil => cases member
  | cons plain rest ih =>
      cases rest with
      | nil =>
          rw [sealings, List.mem_singleton] at member
          rw [member]
      | cons second rest =>
          rw [sealings, List.mem_cons] at member
          · rcases member with rfl | later
            · rfl
            · exact ih later
          · exact nofun

theorem mem_sealings {start : Bytes} {position index : Nat} {plains : List Bytes} {last : Bool}
    {plain : Bytes} (counted : position + plains.length ≤ counterMax + 1)
    (small : index ≤ counterMax)
    (member : (⟨nonce start index last, aad, plain⟩ : Sealing) ∈
      sealings aad start position plains) :
    ∃ before after, plains = before ++ plain :: after ∧ index = position + before.length ∧
      (last = true ↔ after = []) := by
  induction plains generalizing position with
  | nil => cases member
  | cons first rest ih =>
      rw [List.length_cons] at counted
      cases rest with
      | nil =>
          rw [sealings, List.mem_singleton, Sealing.mk.injEq] at member
          obtain ⟨nonces, -, rfl⟩ := member
          obtain ⟨rfl, rfl⟩ := nonce_injective small (by omega) nonces
          exact ⟨[], [], rfl, rfl, by simp⟩
      | cons second rest =>
          rw [sealings, List.mem_cons, Sealing.mk.injEq] at member
          · rcases member with ⟨nonces, -, rfl⟩ | later
            · obtain ⟨rfl, rfl⟩ := nonce_injective small (by omega) nonces
              exact ⟨[], second :: rest, rfl, rfl, by simp⟩
            · obtain ⟨before, after, split, place, final⟩ := ih (by omega) later
              refine ⟨first :: before, after, by rw [split, List.cons_append], ?_, final⟩
              rw [List.length_cons]
              omega
          · exact nofun

section Ideal

variable {key start : Bytes} {all before plains : List Bytes}
  (ideal : aead.Ideal key (sealings aad start 0 all)) (counted : all.length ≤ counterMax + 1)

include ideal counted

theorem decrypt_ideal (split : all = before ++ plains) (some : plains ≠ []) {last : Bool}
    {frame plain : Bytes}
    (read : aead.decrypt key (nonce start before.length last) aad frame = Option.some plain) :
    ∃ after, plains = plain :: after ∧ (last = true ↔ after = []) ∧
      frame = aead.encrypt key (nonce start before.length last) aad plain := by
  have total : before.length + plains.length = all.length := by rw [split, List.length_append]
  have left := List.length_pos_iff.mpr some
  have small : before.length ≤ counterMax := by omega
  have ⟨member, same⟩ := (ideal.decrypt_iff ..).mp read
  obtain ⟨front, after, parts, place, final⟩ := mem_sealings (by omega) small member
  rw [split] at parts
  have sides := List.append_inj parts (by omega)
  exact ⟨after, sides.2, final, same⟩

theorem opened_ideal (split : all = before ++ plains) (some : plains ≠ []) (list : List Bytes) :
    (opened aead aad ⟨key, start, before.length⟩ list).1 <+: plains ∧
      ((opened aead aad ⟨key, start, before.length⟩ list).2 = true →
        list = frames aead aad ⟨key, start, before.length⟩ plains) := by
  induction list generalizing before plains with
  | nil => exact ⟨List.nil_prefix, nofun⟩
  | cons frame rest ih =>
      cases rest with
      | nil =>
          rw [opened, decryptLast]
          cases read : aead.decrypt key (nonce start before.length true) aad frame with
          | none => exact ⟨List.nil_prefix, nofun⟩
          | some plain =>
              obtain ⟨after, rfl, final, rfl⟩ := decrypt_ideal ideal counted split some read
              obtain rfl := final.mp rfl
              exact ⟨List.prefix_rfl, fun _ => rfl⟩
      | cons second rest =>
          rw [opened_cons frame (List.cons_ne_nil second rest), decryptNext]
          dsimp only
          split_ifs
          · exact ⟨List.nil_prefix, nofun⟩
          · cases read : aead.decrypt key (nonce start before.length false) aad frame with
            | none => exact ⟨List.nil_prefix, nofun⟩
            | some plain =>
                obtain ⟨after, rfl, final, rfl⟩ := decrypt_ideal ideal counted split some read
                have more : after ≠ [] := fun nil => Bool.false_ne_true (final.mpr nil)
                have moved : all = (before ++ [plain]) ++ after := by
                  rw [split, List.append_assoc, List.singleton_append]
                have later := ih moved more
                rw [List.length_append, List.length_singleton] at later
                constructor
                · exact (List.prefix_cons_inj plain).mpr later.1
                · intro complete
                  rw [frames_cons plain more, later.2 complete]
                  rfl

end Ideal

end Strata.StreamAead
