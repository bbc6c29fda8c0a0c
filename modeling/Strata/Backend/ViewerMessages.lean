import Mathlib.Tactic
import Strata.Backend.DisplaySize

/-! The text messages a viewer of a shared session is sent. Frames are cut behind every semicolon,
filtered and put together again on several ways, and a few messages are written by hand; the
viewer's parser keeps its place if each message is a sequence of whole instructions. -/

namespace Strata.Backend.ViewerMessages

open Utf8 (Text)
open RustStr
open Pieces
open Nvr
open Protocol.Guacamole
open ReplayFilter (filterSensitiveInstructions keepPiece pieces harmless)
open HeldDrawings (held drawings)
open DisplaySize (sizeText)
open SharedViewers (isSync strip lastSync messagesOf snapshot rebuild syncInstruction window)

def Whole (text : Text) : Prop := ∃ instructions, text = wireText instructions

def Single (piece : Text) : Prop := ∃ instruction : GuacInstruction, piece = instruction.text

/-! ### The session and what it sends -/

structure Session where
  buffer : SessionBuffer
  budget : NvrBudget
  sent : List Text

inductive Event where
  | push (frame : List GuacInstruction) (timestamp now : Nat)
  | others (budget : NvrBudget)
  | join (now : Nat)
  | live (place : Nat)
  | lagged (now : Nat) (millis : Fin (2 ^ 128))
  /-- The keep-alive, with a sync if no frame came for a while. -/
  | tick (idle : Option (Fin (2 ^ 128)))
  /-- The host's session has ended or the share is no longer active. -/
  | notice

def nopInstruction : Text := "3.nop;".toList

def endNotice : Text := "0.10.disconnect;".toList

def start (budget : NvrBudget) : Session := ⟨.new, budget, []⟩

def step (s : Session) : Event → Session × List Text
  | .push frame timestamp now =>
      let pushed := s.buffer.push s.budget (wireText frame) timestamp now
      (⟨pushed.1, pushed.2, s.sent ++ [wireText frame]⟩, [])
  | .others budget => ({ s with budget := budget }, [])
  | .join now => (s, snapshot s.buffer now)
  | .live place => (s, s.sent[place]?.toList)
  | .lagged now millis => (s, rebuild s.buffer now millis)
  | .tick idle =>
      (s, nopInstruction :: (idle.map fun millis => syncInstruction millis.val).toList)
  | .notice => (s, [endNotice])

/-! ### Instructions that go their way in one -/

/-- All pieces of the instruction go the same way through each of the filters, and what is taken
from it for a size is all of it. -/
structure Uniform (instruction : GuacInstruction) : Prop where
  judged : ∀ piece ∈ pieces instruction, keepPiece piece = harmless instruction
  lasting : (∀ piece ∈ pieces instruction, isLasting piece = true) ∨
    ∀ piece ∈ pieces instruction, isLasting piece = false
  synced : (pieces instruction).length = 1 ∨
    ∀ piece ∈ pieces instruction, isSync (trim piece) = false
  sized : ∀ piece ∈ pieces instruction, ∀ size ∈ sizeText piece, size = instruction.text

/-- All the buffer holds fits the cap of the salvaged instructions, or all of it is in whole
instructions. -/
def Roomy (budget : NvrBudget) (buffer : SessionBuffer) : Prop :=
  textBytes (held buffer) ≤ budget.caps.2 ∨ ∀ piece ∈ held buffer, Single piece

/-- No notice is sent, frames are of uniform instructions, and there is room for them. -/
def Careful (s : Session) : Event → Prop
  | .push frame timestamp _ => (∀ instruction ∈ frame, Uniform instruction) ∧
      Roomy s.budget (s.buffer.store (filterSensitiveInstructions (wireText frame)) timestamp)
  | .notice => False
  | _ => True

structure Sound (buffer : SessionBuffer) : Prop where
  tallied : Tallied buffer
  frames : ∀ frame ∈ buffer.frames, ∃ instructions, frame.data = wireText instructions ∧
    ∀ instruction ∈ instructions, Uniform instruction
  salvaged : ∃ instructions : List GuacInstruction,
    buffer.persistentState = instructions.flatMap pieces
  size : ∀ size ∈ buffer.lastSizeInstruction, Whole size

theorem whole_text (instruction : GuacInstruction) : Whole instruction.text :=
  ⟨[instruction], by rw [wireText_eq, List.flatMap_singleton]⟩

theorem whole_pieces (instructions : List GuacInstruction) :
    Whole (instructions.flatMap pieces).flatten := 
  ⟨instructions, (ReplayFilter.wireText_pieces ..).symm⟩

/-! ### Filters -/

theorem filter_pieces {keep : Text → Bool} {instructions : List GuacInstruction}
    (alike : ∀ instruction ∈ instructions,
      (∀ piece ∈ pieces instruction, keep piece = true) ∨
        ∀ piece ∈ pieces instruction, keep piece = false) :
    (instructions.flatMap pieces).filter keep =
      (instructions.filter fun instruction => (pieces instruction).all keep).flatMap pieces := by
  rw [filter_flatMap_iff]
  intro instruction member piece inside
  rcases alike instruction member with all | none
  · rw [all piece inside, List.all_eq_true.mpr all]
  · rw [none piece inside, eq_comm, List.all_eq_false]
    exact ⟨piece, inside, by rw [none piece inside]; exact Bool.false_ne_true⟩

theorem filtered_eq {frame : List GuacInstruction}
    (uniform : ∀ instruction ∈ frame, Uniform instruction) :
    filterSensitiveInstructions (wireText frame) = wireText (frame.filter harmless) := by
  rw [ReplayFilter.filter_eq, ReplayFilter.split_wireText, ReplayFilter.wireText_pieces,
    (filter_flatMap_iff pieces keepPiece harmless frame).mpr
      fun instruction member => (uniform instruction member).judged]

theorem drawings_eq {instructions : List GuacInstruction}
    (uniform : ∀ instruction ∈ instructions, Uniform instruction) :
    drawings (wireText instructions) =
      (instructions.filter fun instruction => (pieces instruction).all isLasting).flatMap
        pieces := by
  rw [drawings, ReplayFilter.split_wireText]
  exact filter_pieces fun instruction member => (uniform instruction member).lasting

theorem singles_pieces {texts : List Text} (closed : ∀ piece ∈ texts, Closed ';' piece)
    (single : ∀ piece ∈ texts, Single piece) :
    ∃ instructions : List GuacInstruction, texts = instructions.flatMap pieces := by
  induction texts with
  | nil => exact ⟨[], rfl⟩
  | cons piece texts ih =>
      obtain ⟨⟨instruction, text⟩, others⟩ := List.forall_mem_cons.mp single
      obtain ⟨own, rest⟩ := List.forall_mem_cons.mp closed
      obtain ⟨instructions, split⟩ := ih rest others
      have one : pieces instruction = [piece] := by
        have cut := splitInclusive_closed own []
        rw [List.append_nil] at cut
        rw [ReplayFilter.pieces_eq, ← text, cut]
        rfl
      exact ⟨instruction :: instructions, by rw [List.flatMap_cons, one, split]; rfl⟩

/-! ### Eviction -/

variable {budget : NvrBudget} {buffer : SessionBuffer}

theorem dropOldest_of_fits {most bytes : Nat} (fits : bytes ≤ most) (texts : List Text) :
    dropOldest most texts bytes = (texts, bytes) := by
  cases texts with
  | nil => rfl
  | cons old rest => rw [dropOldest, if_neg (Nat.not_lt.mpr fits)]

theorem salvage_whole (tallied : Tallied buffer) {before instructions : List GuacInstruction}
    (salvaged : buffer.persistentState = before.flatMap pieces)
    (uniform : ∀ instruction ∈ instructions, Uniform instruction)
    (room : textBytes (buffer.persistentState ++ drawings (wireText instructions)) ≤
        budget.caps.2 ∨
      ∀ piece ∈ buffer.persistentState ++ drawings (wireText instructions), Single piece) :
    ∃ after : List GuacInstruction,
      (buffer.salvagePersistentState budget (wireText instructions)).persistentState =
        after.flatMap pieces := by
  have kept := HeldDrawings.kept_persistentState (splitInclusive ';' (wireText instructions)) buffer
  have counted := (kept_tallied (splitInclusive ';' (wireText instructions)) tallied).salvaged
  rw [← drawings] at kept
  have all : buffer.persistentState ++ drawings (wireText instructions) =
      (before ++ instructions.filter fun instruction =>
        (pieces instruction).all isLasting).flatMap pieces := by
    rw [salvaged, drawings_eq uniform, List.flatMap_append]
  rcases room with fits | single
  · refine ⟨_, Eq.trans ?_ all⟩
    rw [SessionBuffer.salvagePersistentState, SessionBuffer.fitPersistentState, counted, kept,
      dropOldest_of_fits fits]
  · have suffix := HeldDrawings.salvage_suffix budget buffer (wireText instructions)
    refine singles_pieces (fun piece member => ?_) fun piece member =>
      single piece (suffix.subset member)
    have inside := suffix.subset member
    rw [all] at inside
    exact ReplayFilter.flatMap_pieces_closed _ piece inside

theorem textBytes_suffix {first second : List Text} (suffix : first <:+ second) :
    textBytes first ≤ textBytes second := by
  obtain ⟨front, rfl⟩ := suffix
  rw [textBytes_append]
  exact Nat.le_add_left ..

theorem Roomy.suffix {buffer' : SessionBuffer} (roomy : Roomy budget buffer)
    (suffix : held buffer' <:+ held buffer) : Roomy budget buffer' :=
  roomy.imp (textBytes_suffix suffix).trans fun single piece member =>
    single piece (suffix.subset member)

theorem popFront_sound (sound : Sound buffer) (roomy : Roomy budget buffer)
    {front : BufferedFrame} {frames : List BufferedFrame} (ring : buffer.frames = front :: frames) :
    Sound (buffer.popFront budget front frames) := by
  have inside := sound.frames
  rw [ring] at inside
  obtain ⟨⟨instructions, data, uniform⟩, rest⟩ := List.forall_mem_cons.mp inside
  obtain ⟨before, salvaged⟩ := sound.salvaged
  refine ⟨popFront_tallied sound.tallied ring, ?_, ?_, ?_⟩
  · rw [popFront_frames]
    exact rest
  · rw [SessionBuffer.popFront, data]
    refine salvage_whole (front_tallied sound.tallied ring) salvaged uniform ?_
    have first : held buffer = (buffer.persistentState ++ drawings (wireText instructions)) ++
        frames.flatMap fun frame => drawings frame.data := by
      rw [held, ring, List.flatMap_cons, data, List.append_assoc]
    refine roomy.imp (fun fits => ?_) fun single piece member => ?_
    · rw [first, textBytes_append] at fits
      exact (Nat.le_add_right ..).trans fits
    · refine single piece ?_
      rw [first]
      exact List.mem_append_left _ member
  · intro size kept
    rw [SessionBuffer.popFront, SessionBuffer.salvagePersistentState,
      SessionBuffer.fitPersistentState] at kept
    rw [DisplaySize.kept_lastSize] at kept
    exact sound.size size kept

theorem evict_sound (due : SessionBuffer → BufferedFrame → Bool) (sound : Sound buffer)
    (roomy : Roomy budget buffer) {frames : List BufferedFrame} (ring : buffer.frames = frames) :
    Sound (buffer.evict budget due frames) := by
  induction frames generalizing buffer with
  | nil => exact sound
  | cons front frames ih =>
      rw [SessionBuffer.evict]
      split_ifs
      · exact ih (popFront_sound sound roomy ring)
          (roomy.suffix (HeldDrawings.popFront_suffix ring)) (popFront_frames ..)
      · exact sound

theorem cut_sound (sound : Sound buffer) (roomy : Roomy budget buffer) (now : Nat) :
    Sound (buffer.cut budget now) := by
  have young := evict_sound (isOld now) sound roomy rfl
  have room := roomy.suffix (HeldDrawings.evict_suffix budget (isOld now) rfl)
  exact evict_sound (isOver budget.caps.1) young room rfl

/-! ### Pushing -/

theorem new_sound : Sound .new where
  tallied := new_tallied
  frames _ member := absurd member List.not_mem_nil
  salvaged := ⟨[], rfl⟩
  size _ kept := absurd kept (Option.not_mem_none _)

theorem lastSize_whole {instructions : List GuacInstruction}
    (uniform : ∀ instruction ∈ instructions, Uniform instruction) {before : Option Text}
    (whole : ∀ size ∈ before, Whole size) :
    ∀ size ∈ lastSize (wireText instructions) before, Whole size := by
  intro size kept
  rw [ReplayFilter.wireText_pieces,
    DisplaySize.lastSize_flatten _ (ReplayFilter.flatMap_pieces_closed _)] at kept
  rcases Option.or_eq_some_iff.mp kept with new | ⟨-, old⟩
  · obtain ⟨piece, inside, taken⟩ := List.mem_filterMap.mp (List.mem_of_mem_getLast? new)
    obtain ⟨instruction, member, own⟩ := List.mem_flatMap.mp inside
    rw [(uniform instruction member).sized piece own size taken]
    exact whole_text instruction
  · exact whole size old

theorem store_sound (sound : Sound buffer) {instructions : List GuacInstruction}
    (uniform : ∀ instruction ∈ instructions, Uniform instruction) (timestamp : Nat) :
    Sound (buffer.store (wireText instructions) timestamp) where
  tallied := store_tallied sound.tallied _ _
  frames frame member := by
    rcases List.mem_append.mp member with old | new
    · exact sound.frames frame old
    · rw [List.mem_singleton.mp new]
      exact ⟨instructions, rfl, uniform⟩
  salvaged := sound.salvaged
  size := lastSize_whole uniform sound.size

theorem push_sound (sound : Sound buffer) {frame : List GuacInstruction}
    (uniform : ∀ instruction ∈ frame, Uniform instruction) {timestamp : Nat}
    (roomy : Roomy budget
      (buffer.store (filterSensitiveInstructions (wireText frame)) timestamp)) (now : Nat) :
    Sound (buffer.push budget (wireText frame) timestamp now).1 := by
  by_cases nothing : filterSensitiveInstructions (wireText frame) = []
  · rw [push_nothing nothing]
    exact sound
  · have harmlessOnes : ∀ instruction ∈ frame.filter harmless, Uniform instruction :=
      fun instruction member => uniform instruction (List.mem_of_mem_filter member)
    rw [push_eq nothing]
    rw [filtered_eq uniform] at roomy ⊢
    have cut := cut_sound (store_sound sound harmlessOnes timestamp) roomy now
    exact ⟨⟨cut.tallied.ring, cut.tallied.salvaged⟩, cut.frames, cut.salvaged, cut.size⟩

/-! ### Messages -/

theorem mem_messagesOf {texts : List Text} {message : Text} (member : message ∈ messagesOf texts) :
    message ∈ texts := List.mem_of_mem_filter member

theorem sound_window (sound : Sound buffer) {now : Nat} {data : Text}
    (member : data ∈ buffer.framesWithin window now) :
    ∃ instructions, data = wireText instructions ∧
      ∀ instruction ∈ instructions, Uniform instruction := by
  obtain ⟨frame, inside, rfl⟩ := List.mem_map.mp member
  exact sound.frames frame (List.mem_of_mem_filter inside)

theorem trim_closed {piece : Text} (closed : Closed ';' piece) : trim piece ≠ [] := by
  obtain ⟨body, rfl, -⟩ := closed
  obtain ⟨rest, trimmed⟩ := trimStart_concat (by decide : isWhitespace ';' = false) body
  rw [trim, trimmed, trimEnd_concat (by decide)]
  exact List.append_ne_nil_of_right_ne_nil _ (List.cons_ne_nil _ _)

theorem strip_whole {instructions : List GuacInstruction}
    (uniform : ∀ instruction ∈ instructions, Uniform instruction) :
    Whole (strip (wireText instructions)) := by
  rw [strip, ReplayFilter.split_wireText, filter_pieces]
  · exact whole_pieces _
  · intro instruction member
    have judge : ∀ piece ∈ pieces instruction,
        (decide (trim piece ≠ []) && !isSync (trim piece)) = !isSync (trim piece) := by
      intro piece inside
      rw [decide_eq_true (trim_closed (ReplayFilter.pieces_closed _ piece inside)), Bool.true_and]
    rcases (uniform instruction member).synced with one | none
    · obtain ⟨piece, only⟩ := List.length_eq_one_iff.mp one
      rw [only] at judge ⊢
      simp only [List.forall_mem_singleton] at judge ⊢
      exact (Bool.eq_false_or_eq_true _)
    · refine .inl fun piece inside => ?_
      rw [judge piece inside, none piece inside]
      rfl

theorem lastSync_whole (sound : Sound buffer) {now : Nat} {message : Text}
    (last : message ∈ lastSync (buffer.framesWithin window now)) : Whole message := by
  have member := List.mem_of_mem_getLast? last
  obtain ⟨inside, judged⟩ := List.mem_filter.mp member
  obtain ⟨data, within, piece⟩ := List.mem_flatMap.mp inside
  obtain ⟨instructions, rfl, uniform⟩ := sound_window sound within
  rw [ReplayFilter.split_wireText] at piece
  obtain ⟨instruction, present, own⟩ := List.mem_flatMap.mp piece
  rw [Bool.and_eq_true] at judged
  rcases (uniform instruction present).synced with one | none
  · obtain ⟨only, single⟩ := List.length_eq_one_iff.mp one
    have text := ReplayFilter.pieces_flatten instruction
    rw [single, List.mem_singleton] at own
    rw [single, List.flatten_singleton, ← own] at text
    rw [text]
    exact whole_text instruction
  · rw [none message own] at judged
    cases judged.2

theorem salvaged_whole (sound : Sound buffer) : Whole buffer.persistentState.flatten := by
  obtain ⟨instructions, salvaged⟩ := sound.salvaged
  rw [salvaged]
  exact whole_pieces instructions

theorem stripped_whole (sound : Sound buffer) {now : Nat} {message : Text}
    (member : message ∈ messagesOf ((buffer.framesWithin window now).map strip)) :
    Whole message := by
  obtain ⟨data, within, rfl⟩ := List.mem_map.mp (mem_messagesOf member)
  obtain ⟨instructions, rfl, uniform⟩ := sound_window sound within
  exact strip_whole uniform

theorem snapshot_whole (sound : Sound buffer) (now : Nat) :
    ∀ message ∈ snapshot buffer now, Whole message := by
  intro message member
  rw [snapshot, List.mem_append, List.mem_append, List.mem_append] at member
  rcases member with ((size | salvaged) | stripped) | synced
  · exact sound.size message (Option.mem_toList.mp size)
  · rw [List.mem_singleton.mp (mem_messagesOf salvaged)]
    exact salvaged_whole sound
  · exact stripped_whole sound stripped
  · exact lastSync_whole sound (Option.mem_toList.mp synced)

theorem text_of_one (opcode arg : Text) :
    GuacInstruction.text ⟨opcode, [arg]⟩ =
      elementText opcode ++ [','] ++ lengthText arg.length ++ ['.'] ++ arg ++ [';'] := by
  simp only [GuacInstruction.text, argsText, elementText, List.flatMap_cons, List.flatMap_nil,
    List.append_nil, List.append_assoc, List.cons_append, List.nil_append]

theorem natText_length (millis : Fin (2 ^ 128)) : (RustInt.natText millis.val).length < 40 := by
  have small : millis.val < 10 ^ 39 := by
    have less := millis.isLt
    omega
  exact Nat.lt_succ_of_le (RustInt.natText_length_le (Nat.zero_lt_succ 38) small)

theorem sync_text (digits : Text) (few : digits.length < 40) :
    "4.sync,".toList ++ RustInt.natText digits.length ++ ['.'] ++ digits ++ [';'] =
      GuacInstruction.text ⟨"sync".toList, [digits]⟩ := by
  have same : ∀ length < 40, RustInt.natText length = lengthText length := by decide +kernel
  have opcode : elementText "sync".toList ++ [','] = "4.sync,".toList := by decide
  rw [text_of_one, same _ few]
  exact congrArg (fun front => front ++ lengthText digits.length ++ ['.'] ++ digits ++ [';'])
    opcode.symm

theorem sync_whole (millis : Fin (2 ^ 128)) : Whole (syncInstruction millis.val) :=
  ⟨[⟨"sync".toList, [RustInt.natText millis.val]⟩], by
    rw [wireText_eq, List.flatMap_singleton]
    exact sync_text _ (natText_length millis)⟩

theorem nop_whole : Whole nopInstruction := by
  have text : nopInstruction = GuacInstruction.text ⟨"nop".toList, []⟩ := by decide
  rw [text]
  exact whole_text _

theorem rebuild_whole (sound : Sound buffer) (now : Nat) (millis : Fin (2 ^ 128)) :
    ∀ message ∈ rebuild buffer now millis, Whole message := by
  intro message member
  rw [rebuild, List.mem_append, List.mem_append] at member
  rcases member with (salvaged | stripped) | synced
  · rw [List.mem_singleton.mp (mem_messagesOf salvaged)]
    exact salvaged_whole sound
  · exact stripped_whole sound stripped
  · rw [List.mem_singleton.mp synced]
    exact sync_whole millis

/-! ### Runs -/

structure Invariant (s : Session) : Prop where
  buffer : Sound s.buffer
  sent : ∀ frame ∈ s.sent, Whole frame

theorem step_invariant {s : Session} (holds : Invariant s) {event : Event}
    (careful : Careful s event) : Invariant (step s event).1 := by
  cases event with
  | push frame timestamp now =>
      refine ⟨push_sound holds.buffer careful.1 careful.2 now, fun text member => ?_⟩
      rcases List.mem_append.mp member with old | new
      · exact holds.sent text old
      · exact ⟨frame, List.mem_singleton.mp new⟩
  | others budget => exact ⟨holds.buffer, holds.sent⟩
  | join | live | lagged | tick | notice => exact holds

theorem step_whole {s : Session} (holds : Invariant s) {event : Event} (careful : Careful s event) :
    ∀ message ∈ (step s event).2, Whole message := by
  cases event with
  | push | others => exact fun _ member => absurd member List.not_mem_nil
  | join now => exact snapshot_whole holds.buffer now
  | live place =>
      intro message member
      exact holds.sent message (List.mem_of_getElem? (Option.mem_toList.mp member))
  | lagged now millis => exact rebuild_whole holds.buffer now millis
  | tick idle =>
      intro message member
      rcases List.mem_cons.mp member with rfl | synced
      · exact nop_whole
      · obtain ⟨millis, -, rfl⟩ := Option.map_eq_some_iff.mp (Option.mem_toList.mp synced)
        exact sync_whole millis
  | notice => exact careful.elim

/-- In every run of a session whose steps are careful, every message sent to a viewer is a sequence
of whole instructions. -/
theorem messages_whole (budget : NvrBudget) (events : List Event)
    (careful : Machine.Meets step Careful (start budget) events) :
    ∀ message ∈ (Machine.run step (start budget) events).2, Whole message := by
  have initial : Invariant (start budget) :=
    ⟨new_sound, fun _ member => absurd member List.not_mem_nil⟩
  have both := Machine.run_history_of
    (fun _ messages s => Invariant s ∧ ∀ message ∈ messages, Whole message)
    ⟨initial, fun _ member => absurd member List.not_mem_nil⟩
    (fun _ messages event s before good => ?_) events careful
  · exact both.2
  · refine ⟨step_invariant before.1 good, fun message member => ?_⟩
    rcases List.mem_append.mp member with old | new
    · exact before.2 message old
    · exact step_whole before.1 good message new

/-- A sound is opened, and an hour later a rectangle drawn, which sends the first frame to the
salvaged instructions; then a viewer joins. -/
def soundEvents : List Event :=
  [.push [⟨"audio".toList, ["1".toList, "audio/L16;rate=44100,channels=2".toList]⟩] 0 0,
    .push [⟨"rect".toList, ["0".toList, "0".toList, "0".toList, "8".toList, "8".toList]⟩,
      ⟨"sync".toList, ["7".toList]⟩] (3600 * second) (3600 * second),
    .join (3600 * second), .live 0, .tick none]

theorem sound_messages_whole :
    (Machine.run step (start (.new 1048576)) soundEvents).2 =
        ["5.audio,1.1,31.audio/L16;rate=44100,channels=2;".toList,
          "4.rect,1.0,1.0,1.0,1.8,1.8;".toList, "4.sync,1.7;".toList,
          "5.audio,1.1,31.audio/L16;rate=44100,channels=2;".toList, "3.nop;".toList] ∧
      ∀ message ∈ (Machine.run step (start (.new 1048576)) soundEvents).2, Whole message := by
  have uniform : ∀ instruction : GuacInstruction,
      instruction = ⟨"audio".toList, ["1".toList, "audio/L16;rate=44100,channels=2".toList]⟩ ∨
        instruction =
          ⟨"rect".toList, ["0".toList, "0".toList, "0".toList, "8".toList, "8".toList]⟩ ∨
        instruction = ⟨"sync".toList, ["7".toList]⟩ → Uniform instruction := by
    rintro instruction (rfl | rfl | rfl)
    · exact ⟨by decide +kernel, by decide +kernel, by decide +kernel, by decide +kernel⟩
    · exact ⟨by decide +kernel, by decide +kernel, by decide +kernel, by decide +kernel⟩
    · exact ⟨by decide +kernel, by decide +kernel, by decide +kernel, by decide +kernel⟩
  refine ⟨by decide +kernel, messages_whole _ _ ⟨⟨?_, .inl (by decide +kernel)⟩,
    ⟨?_, .inl (by decide +kernel)⟩, trivial, trivial, trivial, trivial⟩⟩
  · exact fun instruction member => uniform instruction (.inl (List.mem_singleton.mp member))
  · intro instruction member
    refine uniform instruction (.inr ?_)
    simpa only [List.mem_cons, List.not_mem_nil, or_false] using member

theorem not_whole_endNotice : ¬ Whole endNotice := by
  rintro ⟨instructions, text⟩
  rw [wireText_eq] at text
  cases instructions with
  | nil => exact absurd text (by decide)
  | cons instruction instructions =>
      rw [List.flatMap_cons, GuacInstruction.text, elementText] at text
      simp only [List.append_assoc, List.cons_append] at text
      have noDot : '.' ∉ lengthText instruction.opcode.length := fun member =>
        absurd (lengthText_digits _ '.' member) (by decide)
      have split : endNotice = ['0'] ++ '.' :: "10.disconnect;".toList := by decide
      have first := congrArg (splitOnce '.') text
      rw [splitOnce_append '.' _ _ noDot, split, splitOnce_append '.' _ _ (by decide),
        Option.some.injEq, Prod.mk.injEq] at first
      obtain ⟨length, rest⟩ := first
      have short := congrArg List.length rest
      rw [List.length_append] at short
      have few : instruction.opcode.length ≤ 14 := by
        have fourteen : "10.disconnect;".toList.length = 14 := by decide
        omega
      have none : instruction.opcode = [] := by
        have value := lengthText_value instruction.opcode.length (few.trans (by decide))
        rw [← length] at value
        exact List.eq_nil_of_length_eq_zero value.symm
      rw [none, List.nil_append] at rest
      have head := congrArg List.head? rest
      have one : "10.disconnect;".toList.head? = some '1' := by decide
      rw [one] at head
      cases args : instruction.args with
      | nil =>
          rw [args] at head
          have same : some '1' = some ';' := head
          exact absurd same (by decide)
      | cons arg args' =>
          rw [args] at head
          have same : some '1' = some ',' := head
          exact absurd same (by decide)

/-- The notice at the end of the session is not an instruction. -/
theorem end_notice_is_not_whole :
    ∃ message ∈ (Machine.run step (start (.new 1048576)) [.notice]).2, ¬ Whole message :=
  ⟨endNotice, List.mem_singleton.mpr rfl, not_whole_endNotice⟩

end Strata.Backend.ViewerMessages
