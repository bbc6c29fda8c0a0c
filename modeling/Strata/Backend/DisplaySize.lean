import Mathlib.Tactic
import Strata.Protocol.Instruction
import Strata.Backend.HeldDrawings

/-! The size instruction that the buffer keeps for viewers that join. It is looked for as a piece
of text with `.size,` in it, while other layers are sized too and arguments may hold any text. -/

namespace Strata.Backend.DisplaySize

open Utf8 (Text)
open RustStr
open Pieces
open Nvr
open Protocol.Instruction
open Protocol.Guacamole
open ReplayFilter (filterSensitiveInstructions keepPiece pieces)
open HeldDrawings (Push)

structure Frame where
  budget : NvrBudget
  instructions : List ServerInstruction
  timestamp : Nat
  now : Nat

def Frame.push (frame : Frame) : Push :=
  ⟨frame.budget, wireText (frame.instructions.map ServerInstruction.toWire), frame.timestamp,
    frame.now⟩

def isDisplaySize : ServerInstruction → Bool
  | .size layer _ _ => layer = 0
  | _ => false

/-- The most recent display size. -/
def displaySize (instructions : List ServerInstruction) : Option Text :=
  (instructions.filter isDisplaySize).getLast?.map fun size => size.toWire.text

def behind (instructions : List ServerInstruction) : List ServerInstruction :=
  (instructions.reverse.takeWhile fun instruction => !isDisplaySize instruction).reverse

/-- What a piece is kept as, if it is taken for a size instruction. -/
def sizeText (piece : Text) : Option Text :=
  if containsText sizeMark (trim piece.dropLast) then some (trim piece.dropLast ++ [';']) else none

def sizeTexts (instruction : ServerInstruction) : List Text :=
  ((pieces instruction.toWire).filter keepPiece).filterMap sizeText

/-! ### Looking for a text -/

theorem containsText_iff (mark text : Text) : containsText mark text = true ↔ mark <:+: text := by
  rw [containsText]
  induction text with
  | nil =>
      rw [splitOnText, List.infix_nil]
      split_ifs with empty
      · exact ⟨fun _ => empty, fun _ => rfl⟩
      · exact ⟨nofun, fun same => absurd same empty⟩
  | cons c rest ih =>
      rw [splitOnText, List.infix_cons_iff, ← ih]
      split_ifs with here
      · exact ⟨fun _ => .inl (List.isPrefixOf_iff_prefix.mp here), fun _ => rfl⟩
      · rw [Option.isSome_map, or_iff_right]
        exact fun front => here (List.isPrefixOf_iff_prefix.mpr front)

theorem trim_within (text : Text) : trim text <:+: text := by
  have start : trimStart text <:+ text := List.dropWhile_suffix _
  have stop : trim text <+: trimStart text := by
    have suffix := List.dropWhile_suffix isWhitespace (l := (trimStart text).reverse)
    rw [← List.reverse_prefix, List.reverse_reverse] at suffix
    exact suffix
  exact stop.isInfix.trans start.isInfix

/-! ### What the buffer keeps -/

theorem splitOn_flatten (texts : List Text) (closed : ∀ piece ∈ texts, Closed ';' piece) :
    texts.flatten.splitOn ';' = texts.map List.dropLast ++ [[]] := by
  induction texts with
  | nil => rfl
  | cons piece texts ih =>
      obtain ⟨body, rfl, free⟩ := closed piece List.mem_cons_self
      have rest := ih fun piece member => closed piece (List.mem_cons_of_mem _ member)
      rw [List.splitOn] at rest ⊢
      rw [List.flatten_cons, List.append_assoc, List.singleton_append,
        List.splitOnP_append_cons_of_forall_mem, rest]
      · simp
      · intro c member
        rw [beq_eq_false_iff_ne]
        rintro rfl
        exact free member
      · rfl

theorem foldl_sizeText (texts : List Text) (before : Option Text) :
    (texts.map List.dropLast).foldl
        (fun last inst =>
          if trim inst ≠ [] ∧ containsText sizeMark (trim inst) then some (trim inst ++ [';'])
          else last) before =
      (texts.filterMap sizeText).getLast?.or before := by
  induction texts using List.reverseRecOn with
  | nil => rfl
  | append_singleton texts piece ih =>
      rw [List.map_append, List.foldl_append, ih, List.filterMap_append]
      simp only [List.map_cons, List.map_nil, List.foldl_cons, List.foldl_nil,
        List.filterMap_cons, List.filterMap_nil, sizeText]
      by_cases marked : containsText sizeMark (trim piece.dropLast) = true
      · have some : trim piece.dropLast ≠ [] := by
          intro none
          rw [none] at marked
          cases marked
        simp [marked, some]
      · simp [marked]

theorem lastSize_flatten (texts : List Text) (closed : ∀ piece ∈ texts, Closed ';' piece)
    (before : Option Text) :
    lastSize texts.flatten before = (texts.filterMap sizeText).getLast?.or before := by
  rw [lastSize]
  split_ifs with marked
  · rw [splitOn_flatten texts closed, List.foldl_append, foldl_sizeText]
    rfl
  · have none : texts.filterMap sizeText = [] := by
      rw [List.filterMap_eq_nil_iff]
      intro piece member
      rw [sizeText, if_neg]
      intro inner
      refine marked ((containsText_iff ..).mpr (((containsText_iff ..).mp inner).trans ?_))
      have whole : piece <:+: texts.flatten := List.infix_of_mem_flatten member
      exact ((trim_within _).trans (List.dropLast_prefix piece).isInfix).trans whole
    rw [none]
    rfl

theorem kept_lastSize (insts : List Text) (buffer : SessionBuffer) :
    (insts.foldl SessionBuffer.keepInstruction buffer).lastSizeInstruction =
      buffer.lastSizeInstruction := by
  induction insts generalizing buffer with
  | nil => rfl
  | cons inst insts ih =>
      rw [List.foldl_cons, ih, SessionBuffer.keepInstruction]
      split_ifs
      · rfl
      · rfl

theorem evict_lastSize (budget : NvrBudget) (due : SessionBuffer → BufferedFrame → Bool)
    (frames : List BufferedFrame) (buffer : SessionBuffer) :
    (buffer.evict budget due frames).lastSizeInstruction = buffer.lastSizeInstruction := by
  induction frames generalizing buffer with
  | nil => rfl
  | cons front frames ih =>
      rw [SessionBuffer.evict]
      split_ifs
      · rw [ih]
        exact kept_lastSize ..
      · rfl

theorem step_lastSize (buffer : SessionBuffer) (push : Push) :
    (HeldDrawings.step buffer push).1.lastSizeInstruction =
      lastSize (filterSensitiveInstructions push.data) buffer.lastSizeInstruction := by
  by_cases nothing : filterSensitiveInstructions push.data = []
  · rw [HeldDrawings.step, push_nothing nothing, nothing]
    rfl
  · rw [HeldDrawings.step, push_eq nothing]
    dsimp only [SessionBuffer.account, SessionBuffer.cut]
    rw [evict_lastSize, evict_lastSize]
    rfl

theorem step_frame (buffer : SessionBuffer) (frame : Frame) :
    (HeldDrawings.step buffer frame.push).1.lastSizeInstruction =
      (frame.instructions.flatMap sizeTexts).getLast?.or buffer.lastSizeInstruction := by
  have texts : (((frame.instructions.map ServerInstruction.toWire).flatMap pieces).filter
      keepPiece).filterMap sizeText = frame.instructions.flatMap sizeTexts := by
    rw [List.flatMap_map, List.filter_flatMap, List.filterMap_flatMap]
    rfl
  rw [step_lastSize, Frame.push, ReplayFilter.filter_eq, ReplayFilter.split_wireText,
    lastSize_flatten, texts]
  intro piece member
  exact ReplayFilter.flatMap_pieces_closed _ piece (List.mem_filter.mp member).1

theorem run_lastSize (frames : List Frame) :
    (Machine.run HeldDrawings.step .new (frames.map Frame.push)).1.lastSizeInstruction =
      ((frames.flatMap Frame.instructions).flatMap sizeTexts).getLast? := by
  induction frames using List.reverseRecOn with
  | nil => rfl
  | append_singleton frames frame ih =>
      rw [List.map_append, List.map_singleton, Machine.run_concat, List.flatMap_append,
        List.flatMap_append, List.getLast?_append, List.flatMap_singleton, step_frame, ih]

/-! ### The display's own size -/

theorem elementText_concat (value : Nat) :
    ∃ front last, elementText (RustInt.natText value) = front ++ [last] ∧
      isWhitespace last = false := by
  have some := RustInt.natText_ne_nil value
  refine ⟨lengthText (RustInt.natText value).length ++ '.' :: (RustInt.natText value).dropLast,
    (RustInt.natText value).getLast some, ?_, ?_⟩
  · rw [elementText, List.append_assoc, List.cons_append, List.dropLast_append_getLast]
  · exact isWhitespace_digit (RustInt.natText_isDigit value _ (List.getLast_mem some))

def sizeArgs (width height : Nat) : Text :=
  "1.0,".toList ++ elementText (RustInt.natText width) ++
    ',' :: elementText (RustInt.natText height)

theorem text_of_three (opcode first second third : Text) :
    GuacInstruction.text ⟨opcode, [first, second, third]⟩ =
      elementText opcode ++ ((',' :: elementText first) ++
        ',' :: (elementText second ++ ',' :: elementText third)) ++ [';'] := by
  simp only [GuacInstruction.text, argsText, List.flatMap_cons, List.flatMap_nil, List.append_nil,
    List.cons_append]

theorem display_text (width height : Nat) :
    (ServerInstruction.size 0 width height).toWire.text =
      '4' :: (sizeMark ++ sizeArgs width height) ++ [';'] := by
  have opcode : elementText "size".toList = "4.size".toList := by decide
  have zero : RustInt.intText 0 = ['0'] := by decide +kernel
  have layer : ',' :: elementText (RustInt.intText 0) = ",1.0".toList := by
    rw [zero]
    decide
  have joined (rest : Text) : "4.size".toList ++ (",1.0".toList ++ ',' :: rest) =
      '4' :: (sizeMark ++ ("1.0,".toList ++ rest)) := by
    have closed : "4.size".toList ++ (",1.0".toList ++ [',']) =
        '4' :: (sizeMark ++ "1.0,".toList) := by decide
    have both := congrArg (· ++ rest) closed
    simpa only [List.append_assoc, List.cons_append, List.nil_append] using both
  calc (ServerInstruction.size 0 width height).toWire.text
      = elementText "size".toList ++ ((',' :: elementText (RustInt.intText 0)) ++
          ',' :: (elementText (RustInt.natText width) ++
            ',' :: elementText (RustInt.natText height))) ++ [';'] := text_of_three ..
    _ = _ := by rw [opcode, layer, joined, sizeArgs, List.append_assoc]

theorem display_free (width height : Nat) : ';' ∉ '4' :: (sizeMark ++ sizeArgs width height) := by
  have front : ';' ∉ sizeMark ++ "1.0,".toList := by decide
  have decimal (value : Nat) : ';' ∉ elementText (RustInt.natText value) :=
    semicolon_notMem_elementText fun member =>
      absurd (RustInt.natText_isDigit value ';' member) (by decide)
  have wide := decimal width
  have high := decimal height
  rw [sizeArgs, ← List.append_assoc, ← List.append_assoc, List.mem_cons, List.mem_append,
    List.mem_append, List.mem_cons]
  rintro (same | (inFront | inWide) | same | inHigh)
  · cases same
  · exact front inFront
  · exact wide inWide
  · cases same
  · exact high inHigh

theorem display_trim (width height : Nat) :
    trim ('4' :: (sizeMark ++ sizeArgs width height)) =
      '4' :: (sizeMark ++ sizeArgs width height) := by
  obtain ⟨front, last, split, visible⟩ := elementText_concat height
  rw [trim, trimStart_cons (by decide), sizeArgs, split]
  have shape : '4' :: (sizeMark ++ ("1.0,".toList ++ elementText (RustInt.natText width) ++
      ',' :: (front ++ [last]))) = '4' :: (sizeMark ++ ("1.0,".toList ++
        elementText (RustInt.natText width) ++ ',' :: front)) ++ [last] := by
    simp only [List.append_assoc, List.cons_append]
  rw [shape, trimEnd_concat visible]

theorem sizeTexts_display {instruction : ServerInstruction}
    (display : isDisplaySize instruction = true) :
    sizeTexts instruction = [instruction.toWire.text] := by
  cases instruction with
  | size layer width height =>
      obtain rfl := of_decide_eq_true display
      have closed : Closed ';' (ServerInstruction.size 0 width height).toWire.text :=
        ⟨_, display_text width height, display_free width height⟩
      have whole := splitInclusive_closed closed []
      rw [List.append_nil, ← ReplayFilter.pieces_eq] at whole
      have kept : keepPiece (ServerInstruction.size 0 width height).toWire.text = true := by
        obtain ⟨first, later, cut, judged⟩ := ReplayFilter.first_sensitive
          (ServerInstruction.size 0 width height).toWire
          (show "size".toList.length ≤ RustInt.usizeMax by decide)
        rw [whole, List.cons.injEq] at cut
        rw [ReplayFilter.keepPiece_closed closed, cut.1, judged]
        exact (by decide : (!!!ReplayFilter.sensitiveOpcodes.contains "size".toList) = true)
      have marked : containsText sizeMark ('4' :: (sizeMark ++ sizeArgs width height)) = true :=
        (containsText_iff ..).mpr ⟨['4'], sizeArgs width height, rfl⟩
      rw [sizeTexts, whole, List.filter_cons_of_pos kept, display_text]
      simp only [splitInclusive, List.filter_nil, List.filterMap_cons, List.filterMap_nil, sizeText,
        List.dropLast_concat, display_trim, marked, if_true]
  | _ => cases display

theorem behind_split (instructions : List ServerInstruction) :
    ∃ front, instructions = front ++ behind instructions ∧
      (front.flatMap sizeTexts).getLast? = displaySize instructions := by
  induction instructions using List.reverseRecOn with
  | nil => exact ⟨[], rfl, rfl⟩
  | append_singleton instructions instruction ih =>
      obtain ⟨front, split, own⟩ := ih
      rw [behind, displaySize, List.reverse_concat, List.filter_append]
      by_cases display : isDisplaySize instruction = true
      · rw [List.takeWhile_cons_of_neg (by simp [display]), List.filter_cons_of_pos display]
        refine ⟨instructions ++ [instruction], (List.append_nil _).symm, ?_⟩
        rw [List.flatMap_append, List.flatMap_singleton, sizeTexts_display display]
        simp
      · rw [List.takeWhile_cons_of_pos (by simp [display]), List.filter_cons_of_neg display]
        refine ⟨front, ?_, ?_⟩
        · rw [List.reverse_cons, ← List.append_assoc]
          exact congrArg (· ++ [instruction]) split
        · rw [own, displaySize]
          simp

/-- Whatever frames of whole instructions are pushed, the buffer's size is the most recent size of
the display exactly if, behind that instruction, the last piece of text that has `.size,` in it, if
there is one, spells the same size again. -/
theorem lastSize_is_displaySize_iff (frames : List Frame) :
    let instructions := frames.flatMap Frame.instructions
    (Machine.run HeldDrawings.step .new (frames.map Frame.push)).1.lastSizeInstruction =
        displaySize instructions ↔
      ∀ text ∈ ((behind instructions).flatMap sizeTexts).getLast?,
        displaySize instructions = some text := by
  intro instructions
  obtain ⟨front, split, own⟩ := behind_split instructions
  rw [run_lastSize]
  change (instructions.flatMap sizeTexts).getLast? = _ ↔ _
  nth_rewrite 1 [split]
  rw [List.flatMap_append, List.getLast?_append, own]
  cases ((behind instructions).flatMap sizeTexts).getLast? with
  | none => simp
  | some text => simp [eq_comm]

/-- The display is sized, and then the cursor is hidden. -/
theorem hidden_cursor_sizes_display :
    let frames : List Frame :=
      [⟨.new 1048576, [.size 0 1920 1080], 0, 0⟩,
        ⟨.new 1048576, [.size (-1) 1 1, .cursor 0 0 (-1) 0 0 1 1], 1, 1⟩]
    (Machine.run HeldDrawings.step .new (frames.map Frame.push)).1.lastSizeInstruction =
        some "4.size,2.-1,1.1,1.1;".toList ∧
      displaySize (frames.flatMap Frame.instructions) =
        some "4.size,1.0,4.1920,4.1080;".toList := by
  decide +kernel

end Strata.Backend.DisplaySize
