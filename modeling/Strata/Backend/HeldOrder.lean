import Mathlib.Tactic
import Strata.Backend.HeldDrawings

/-! The buffer over frames of whole instructions: what it holds, read as instructions, is the end
of what was pushed, however often frames have left the ring and the salvaged log. -/

namespace Strata.Backend.HeldDrawings

open Utf8 (Text)
open RustInt (usizeMax digitsValue)
open RustStr
open Pieces
open Nvr
open Protocol.Guacamole
open ReplayFilter (filterSensitiveInstructions harmless pieces keepPiece untilDelimiter)

structure Plain (instruction : GuacInstruction) : Prop where
  opcode : ';' ∉ instruction.opcode
  args : ∀ arg ∈ instruction.args, ';' ∉ arg
  sized : instruction.opcode.length ≤ usizeMax

instance (instruction : GuacInstruction) : Decidable (Plain instruction) :=
  decidable_of_iff
    (';' ∉ instruction.opcode ∧ (∀ arg ∈ instruction.args, ';' ∉ arg) ∧
      instruction.opcode.length ≤ usizeMax)
    ⟨fun ⟨opcode, args, sized⟩ => ⟨opcode, args, sized⟩,
      fun plain => ⟨plain.opcode, plain.args, plain.sized⟩⟩

def ephemeralNames : List Text := ["sync", "nop", "key", "mouse"].map String.toList

def lasting (instruction : GuacInstruction) : Bool := !ephemeralNames.contains instruction.opcode

/-! ### An instruction is one piece -/

variable {instruction : GuacInstruction}

theorem Plain.closed (plain : Plain instruction) : Closed ';' instruction.text := by
  refine ⟨_, rfl, ?_⟩
  rw [List.mem_append, not_or]
  refine ⟨semicolon_notMem_elementText plain.opcode, fun member => ?_⟩
  obtain ⟨arg, given, inside⟩ := List.mem_flatMap.mp member
  rcases List.mem_cons.mp inside with mark | inside
  · exact absurd mark (by decide)
  · exact semicolon_notMem_elementText (plain.args arg given) inside

theorem Plain.pieces (plain : Plain instruction) : pieces instruction = [instruction.text] := by
  have cut := splitInclusive_closed plain.closed []
  rwa [List.append_nil, ← ReplayFilter.pieces_eq] at cut

theorem filter_plain {instructions : List GuacInstruction}
    (plain : ∀ instruction ∈ instructions, Plain instruction) :
    filterSensitiveInstructions (wireText instructions) =
      wireText (instructions.filter harmless) := by
  refine (ReplayFilter.filter_exact_iff instructions fun i member => (plain i member).sized).mpr ?_
  intro instruction member
  rw [ReplayFilter.JudgedAlike, (plain instruction member).pieces]
  intro piece later
  cases later

/-! ### Ephemeral instructions -/

theorem ephemeralOpcodes_eq : ephemeralOpcodes = ephemeralNames.map elementText := by decide

theorem lengthText_injective {first second : Nat} (one : first ≤ usizeMax)
    (two : second ≤ usizeMax) (same : lengthText first = lengthText second) : first = second := by
  rw [← lengthText_value first one, same, lengthText_value second two]

theorem mem_ephemeralOpcodes (sized : instruction.opcode.length ≤ usizeMax) :
    lengthText instruction.opcode.length ++
        '.' :: untilDelimiter (instruction.opcode ++ (argsText instruction.args ++ [';'])) ∈
      ephemeralOpcodes ↔ instruction.opcode ∈ ephemeralNames := by
  have names : ∀ name ∈ ephemeralNames, name.length ≤ usizeMax ∧
      name.all (fun c => c != ',' && c != ';') = true := by decide
  have noDot (length : Nat) : '.' ∉ lengthText length := fun member =>
    absurd (lengthText_digits length '.' member) (by decide)
  have delimited := ReplayFilter.argsText_delimited instruction.args
  rw [ephemeralOpcodes_eq, List.mem_map]
  constructor
  · rintro ⟨name, member, same⟩
    have parts := congrArg (splitOnce '.') same
    rw [elementText, splitOnce_append '.' _ _ (noDot _),
      splitOnce_append '.' _ _ (noDot _)] at parts
    obtain ⟨length, read⟩ := Prod.mk.inj (Option.some.inj parts)
    obtain ⟨short, clear⟩ := names name member
    rw [(ReplayFilter.untilDelimiter_eq_iff delimited clear
      (lengthText_injective short sized length)).mp read.symm]
    exact member
  · intro member
    refine ⟨instruction.opcode, member, ?_⟩
    rw [(ReplayFilter.untilDelimiter_eq_iff delimited (names _ member).2 rfl).mpr rfl, elementText]

theorem isLasting_text (plain : Plain instruction) :
    isLasting instruction.text = lasting instruction := by
  have whole : instruction.text = lengthText instruction.opcode.length ++
      '.' :: (instruction.opcode ++ (argsText instruction.args ++ [';'])) := by
    simp [GuacInstruction.text, elementText]
  have trimmed : trim instruction.text = instruction.text := by
    rw [whole, ← List.append_assoc, ← List.cons_append, ← List.append_assoc]
    exact ReplayFilter.trim_first ..
  have digits : ∀ c ∈ lengthText instruction.opcode.length, (c != ',' && c != ';') = true := by
    intro c member
    rw [Bool.and_eq_true, bne_iff_ne, bne_iff_ne]
    constructor
    all_goals
      rintro rfl
      exact absurd (lengthText_digits _ _ member) (by decide)
  have start : instruction.text.takeWhile (fun c => c != ',' && c != ';') =
      lengthText instruction.opcode.length ++
        '.' :: untilDelimiter (instruction.opcode ++ (argsText instruction.args ++ [';'])) := by
    rw [whole, List.takeWhile_append_of_pos digits, List.takeWhile_cons_of_pos (by decide)]
    rfl
  have filled : instruction.text ≠ [] := by simp [whole]
  rw [isLasting, trimmed, start, lasting]
  simp [filled, mem_ephemeralOpcodes plain.sized]

theorem drawings_plain {instructions : List GuacInstruction}
    (plain : ∀ instruction ∈ instructions, Plain instruction) :
    drawings (wireText instructions) =
      (instructions.filter lasting).map GuacInstruction.text := by
  have cut : instructions.flatMap pieces = instructions.map GuacInstruction.text := by
    rw [List.map_eq_flatMap]
    exact List.flatMap_congr fun i member => (plain i member).pieces
  rw [drawings, ReplayFilter.split_wireText, cut, List.filter_map]
  exact congrArg _ (List.filter_congr fun i member => isLasting_text (plain i member))

/-! ### Runs -/

structure WireFrame where
  budget : NvrBudget
  instructions : List GuacInstruction
  timestamp : Nat
  now : Nat

def WireFrame.push (frame : WireFrame) : Push :=
  ⟨frame.budget, wireText frame.instructions, frame.timestamp, frame.now⟩

def shown (instructions : List GuacInstruction) : List GuacInstruction :=
  instructions.filter fun instruction => harmless instruction && lasting instruction

theorem drawings_filtered {instructions : List GuacInstruction}
    (plain : ∀ instruction ∈ instructions, Plain instruction) :
    drawings (filterSensitiveInstructions (wireText instructions)) =
      (shown instructions).map GuacInstruction.text := by
  rw [filter_plain plain, drawings_plain fun i member => plain i (List.mem_filter.mp member).1,
    List.filter_filter, shown]
  simp only [Bool.and_comm]

theorem drawn_plain {frames : List WireFrame}
    (plain : ∀ frame ∈ frames, ∀ instruction ∈ frame.instructions, Plain instruction) :
    drawn (frames.map WireFrame.push) =
      (shown (frames.flatMap (·.instructions))).map GuacInstruction.text := by
  rw [drawn, List.flatMap_map, shown, List.filter_flatMap, List.map_flatMap]
  exact List.flatMap_congr fun frame member => drawings_filtered (plain frame member)

theorem run_frames (pushes : List Push) :
    ∀ frame ∈ (Machine.run step .new pushes).1.frames,
      ∃ push ∈ pushes, frame.data = filterSensitiveInstructions push.data := by
  have empty : ∀ frame ∈ SessionBuffer.new.frames,
      ∃ push ∈ ([] : List Push), frame.data = filterSensitiveInstructions push.data := nofun
  refine Machine.run_invariant (fun past (buffer : SessionBuffer) => ∀ frame ∈ buffer.frames,
    ∃ push ∈ past, frame.data = filterSensitiveInstructions push.data) empty ?_ pushes
  intro past push buffer before frame member
  rcases mem_push_frames member with old | rfl
  · obtain ⟨earlier, pushed, same⟩ := before frame old
    exact ⟨earlier, List.mem_append_left _ pushed, same⟩
  · exact ⟨push, List.mem_append_right _ List.mem_cons_self, rfl⟩

theorem run_ring {frames : List WireFrame}
    (plain : ∀ frame ∈ frames, ∀ instruction ∈ frame.instructions, Plain instruction) :
    ∃ ring : List (List GuacInstruction),
      (Machine.run step .new (frames.map WireFrame.push)).1.frames.map (·.data) =
          ring.map wireText ∧
        ∀ instructions ∈ ring, ∀ instruction ∈ instructions, Plain instruction := by
  have each : ∀ data ∈ (Machine.run step .new (frames.map WireFrame.push)).1.frames.map (·.data),
      ∃ instructions, (∀ instruction ∈ instructions, Plain instruction) ∧
        wireText instructions = data := by
    intro data member
    obtain ⟨held, inside, rfl⟩ := List.mem_map.mp member
    obtain ⟨push, pushed, same⟩ := run_frames _ held inside
    obtain ⟨frame, given, rfl⟩ := List.mem_map.mp pushed
    rw [same]
    exact ⟨frame.instructions.filter harmless,
      fun i kept => plain frame given i (List.mem_filter.mp kept).1,
      (filter_plain (plain frame given)).symm⟩
  generalize (Machine.run step .new (frames.map WireFrame.push)).1.frames.map (·.data) = texts
    at each
  induction texts with
  | nil => exact ⟨[], rfl, nofun⟩
  | cons text texts ih =>
      obtain ⟨instructions, fine, rfl⟩ := each text List.mem_cons_self
      obtain ⟨ring, same, rest⟩ := ih fun data member => each data (List.mem_cons_of_mem _ member)
      refine ⟨instructions :: ring, by rw [same]; rfl, ?_⟩
      exact List.forall_mem_cons.mpr ⟨fine, rest⟩

/-- The salvaged log and behind it the lasting instructions of the ring are the last of those
pushed that are lasting and no credentials; the next push adds at the end and takes away at the
front only. -/
theorem held_in_push_order (frames : List WireFrame)
    (plain : ∀ frame ∈ frames, ∀ instruction ∈ frame.instructions, Plain instruction) :
    let buffer := (Machine.run step .new (frames.map WireFrame.push)).1
    (∃ ring : List (List GuacInstruction), buffer.frames.map (·.data) = ring.map wireText ∧
      buffer.persistentState ++ (ring.flatten.filter lasting).map GuacInstruction.text <:+
        (shown (frames.flatMap (·.instructions))).map GuacInstruction.text) ∧
      ∀ next : WireFrame, (∀ instruction ∈ next.instructions, Plain instruction) →
        held (step buffer next.push).1 <:+
          held buffer ++ (shown next.instructions).map GuacInstruction.text := by
  intro buffer
  refine ⟨?_, fun next fine => ?_⟩
  · obtain ⟨ring, same, fine⟩ := run_ring plain
    have drawnRing : buffer.frames.flatMap (fun frame => drawings frame.data) =
        (ring.flatten.filter lasting).map GuacInstruction.text := by
      calc buffer.frames.flatMap (fun frame => drawings frame.data)
          = (buffer.frames.map (·.data)).flatMap drawings := by rw [List.flatMap_map]
        _ = ring.flatMap fun instructions => drawings (wireText instructions) := by
            rw [same, List.flatMap_map]
        _ = ring.flatMap fun instructions =>
              (instructions.filter lasting).map GuacInstruction.text :=
            List.flatMap_congr fun instructions member => drawings_plain (fine _ member)
        _ = (ring.flatten.filter lasting).map GuacInstruction.text := by
            rw [List.filter_flatten, List.map_flatten, List.map_map, List.flatMap_def]
            rfl
    refine ⟨ring, same, ?_⟩
    rw [← drawnRing, ← drawn_plain plain]
    exact run_suffix _
  · rw [← drawings_filtered fine]
    exact push_suffix buffer next.push

def twoFrames : List WireFrame :=
  [⟨.new 1048576, [⟨"rect".toList, ["0".toList, "1".toList]⟩, ⟨"sync".toList, ["5".toList]⟩], 0, 0⟩,
    ⟨.new 1048576, [⟨"connect".toList, ["pw".toList]⟩, ⟨"line".toList, ["0".toList]⟩],
      301 * second, 301 * second⟩]

theorem two_frames_in_push_order :
    let buffer := (Machine.run step .new (twoFrames.map WireFrame.push)).1
    buffer.persistentState = ["4.rect,1.0,1.1;".toList] ∧
      ∃ ring : List (List GuacInstruction), buffer.frames.map (·.data) = ring.map wireText ∧
        buffer.persistentState ++ (ring.flatten.filter lasting).map GuacInstruction.text <:+
          ["4.rect,1.0,1.1;".toList, "4.line,1.0;".toList] := by
  have plain : ∀ frame ∈ twoFrames, ∀ instruction ∈ frame.instructions, Plain instruction := by
    decide
  refine ⟨by decide +kernel, ?_⟩
  have all : (shown (twoFrames.flatMap (·.instructions))).map GuacInstruction.text =
      ["4.rect,1.0,1.1;".toList, "4.line,1.0;".toList] := by decide
  rw [← all]
  exact (held_in_push_order twoFrames plain).1

end Strata.Backend.HeldDrawings
