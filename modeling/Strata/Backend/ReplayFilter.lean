import Mathlib.Tactic
import Strata.Lib.Pieces
import Strata.Lib.RustStr
import Strata.Protocol.GuacamoleText

/-! The credential filter in front of the replay buffer. It cuts its text behind
every semicolon, while an argument may hold semicolons of its own: the pieces of
such an argument are judged as if each were an instruction. -/

namespace Strata.Backend.ReplayFilter

open Utf8 (Text Bytes)
open RustStr
open RustInt
open Pieces
open Protocol.Guacamole

def sensitiveOpcodes : List Text := ["connect".toList, "args".toList]

def parseOpcode (inst : Text) : Option Text :=
  match splitOnce '.' inst with
  | none => none
  | some (lenStr, rest) =>
      match parseUsize lenStr with
      | none => none
      | some declaredLen =>
          let opcode := rest.takeWhile (fun c => c != ',' && c != ';')
          if (Utf8.encode opcode).length ≠ declaredLen then none else some opcode

def isSensitive (trimmed : Text) : Bool :=
  match parseOpcode trimmed with
  | some opcode => sensitiveOpcodes.contains opcode
  | none => false

def filterSensitiveInstructions (data : Text) : Text :=
  (splitInclusive ';' data).foldl
    (fun filtered inst =>
      let trimmed := trim inst
      if trimmed = [] then filtered
      else if isSensitive trimmed then filtered
      else filtered ++ inst) []

def harmless (instruction : GuacInstruction) : Bool :=
  !sensitiveOpcodes.contains instruction.opcode

def pieces (instruction : GuacInstruction) : List Text :=
  splitInclusive ';' (wireText [instruction])

/-- Behind the first piece, which holds the opcode, every piece of the instruction
is judged as the instruction is. -/
def JudgedAlike (instruction : GuacInstruction) : Prop :=
  ∀ piece ∈ (pieces instruction).tail, isSensitive (trim piece) = !harmless instruction

instance (instruction : GuacInstruction) : Decidable (JudgedAlike instruction) :=
  inferInstanceAs (Decidable (∀ piece ∈ _, _ = _))

/-- Two sequences that differ at most in the arguments of `connect` and `args`. -/
def SameButCredentials : List GuacInstruction → List GuacInstruction → Prop :=
  List.Forall₂ fun first second =>
    first.opcode = second.opcode ∧ (harmless first = true → first = second)

def keepPiece (inst : Text) : Bool := trim inst ≠ [] && !isSensitive (trim inst)

theorem filter_eq (data : Text) :
    filterSensitiveInstructions data = ((splitInclusive ';' data).filter keepPiece).flatten := by
  have loop : ∀ (list : List Text) (filtered : Text),
      list.foldl (fun filtered inst =>
        let trimmed := trim inst
        if trimmed = [] then filtered
        else if isSensitive trimmed then filtered
        else filtered ++ inst) filtered = filtered ++ (list.filter keepPiece).flatten := by
    intro list
    induction list with
    | nil => simp
    | cons inst list ih =>
        intro filtered
        rw [List.foldl_cons, ih]
        by_cases empty : trim inst = []
        · simp [empty, keepPiece]
        · by_cases sensitive : isSensitive (trim inst) = true
          · simp [empty, sensitive, keepPiece]
          · simp [empty, sensitive, keepPiece]
  rw [filterSensitiveInstructions, loop, List.nil_append]

theorem pieces_eq (instruction : GuacInstruction) :
    pieces instruction = splitInclusive ';' instruction.text := by
  rw [pieces, wireText_eq, List.flatMap_singleton]

theorem pieces_closed (instruction : GuacInstruction) :
    ∀ piece ∈ pieces instruction, Closed ';' piece := by
  rw [pieces_eq]
  exact (splitInclusive_ended ';' _).1

theorem pieces_flatten (instruction : GuacInstruction) :
    (pieces instruction).flatten = instruction.text := by
  rw [pieces_eq]
  exact (splitInclusive_ended ';' _).2

theorem flatMap_pieces_closed (instructions : List GuacInstruction) :
    ∀ piece ∈ instructions.flatMap pieces, Closed ';' piece := by
  intro piece member
  obtain ⟨instruction, -, inside⟩ := List.mem_flatMap.mp member
  exact pieces_closed instruction piece inside

theorem wireText_pieces (instructions : List GuacInstruction) :
    wireText instructions = (instructions.flatMap pieces).flatten := by
  rw [wireText_eq]
  induction instructions with
  | nil => rfl
  | cons instruction instructions ih =>
      rw [List.flatMap_cons, List.flatMap_cons, List.flatten_append, pieces_flatten, ih]

theorem split_wireText (instructions : List GuacInstruction) :
    splitInclusive ';' (wireText instructions) = instructions.flatMap pieces := by
  have cut := splitInclusive_flatten _ (flatMap_pieces_closed instructions) []
  rw [wireText_pieces]
  simpa [splitInclusive] using cut

theorem keepPiece_closed {piece : Text} (closed : Closed ';' piece) :
    keepPiece piece = !isSensitive (trim piece) := by
  obtain ⟨body, rfl, -⟩ := closed
  obtain ⟨rest, trimmed⟩ := trimStart_concat (c := ';') (by decide) body
  have present : trim (body ++ [';']) ≠ [] := by
    rw [trim, trimmed, trimEnd_concat (by decide)]
    simp
  simp [keepPiece, present]

theorem first_piece (instruction : GuacInstruction) :
    ∃ body rest, instruction.opcode ++ (argsText instruction.args ++ [';']) = body ++ ';' :: rest ∧
      ';' ∉ body ∧
      pieces instruction =
        (lengthText instruction.opcode.length ++ '.' :: body ++ [';']) ::
          splitInclusive ';' rest := by
  have present : ';' ∈ instruction.opcode ++ (argsText instruction.args ++ [';']) := by simp
  obtain ⟨body, rest, split, free⟩ := List.eq_append_cons_of_mem present
  refine ⟨body, rest, split, free, ?_⟩
  have whole : instruction.text =
      (lengthText instruction.opcode.length ++ '.' :: body ++ [';']) ++ rest := by
    calc instruction.text
        = lengthText instruction.opcode.length ++
            '.' :: (instruction.opcode ++ (argsText instruction.args ++ [';'])) := by
          simp [GuacInstruction.text, elementText]
      _ = _ := by rw [split]; simp
  have noSemicolon : ';' ∉ lengthText instruction.opcode.length := fun member =>
    absurd (lengthText_digits _ ';' member) (by decide)
  have closed : Closed ';' (lengthText instruction.opcode.length ++ '.' :: body ++ [';']) := by
    refine ⟨_, rfl, ?_⟩
    simp only [List.mem_append, List.mem_cons, not_or]
    exact ⟨noSemicolon, by decide, free⟩
  rw [pieces_eq, whole, splitInclusive_closed closed]

def untilDelimiter (rest : Text) : Text := rest.takeWhile (fun c => c != ',' && c != ';')

theorem untilDelimiter_append (body rest : Text) :
    untilDelimiter (body ++ ';' :: rest) = untilDelimiter body := by
  rw [untilDelimiter, List.takeWhile_append]
  split
  · next whole =>
      have all := (List.takeWhile_prefix _).eq_of_length whole
      rw [untilDelimiter, all]
      simp
  · rfl

theorem parseOpcode_first (instruction : GuacInstruction) (body : Text)
    (sized : instruction.opcode.length ≤ usizeMax) :
    parseOpcode (lengthText instruction.opcode.length ++ '.' :: body ++ [';']) =
      if (Utf8.encode (untilDelimiter body)).length ≠ instruction.opcode.length then none
      else some (untilDelimiter body) := by
  have noDot : '.' ∉ lengthText instruction.opcode.length := fun member =>
    absurd (lengthText_digits _ '.' member) (by decide)
  rw [List.append_assoc, List.cons_append, parseOpcode, splitOnce_append '.' _ _ noDot]
  simp only [parse_lengthText sized]
  rw [← untilDelimiter, untilDelimiter_append]

theorem trim_first (length : Nat) (body : Text) :
    trim (lengthText length ++ '.' :: body ++ [';']) =
      lengthText length ++ '.' :: body ++ [';'] := by
  cases digits : lengthText length with
  | nil => exact absurd digits (lengthText_nonempty length)
  | cons d rest =>
      have visible := isWhitespace_digit (lengthText_digits length d (by rw [digits]; simp))
      rw [trim, List.cons_append, List.cons_append, trimStart_cons visible, ← List.cons_append,
        trimEnd_concat (by decide)]

theorem untilDelimiter_eq_iff {opcode tail name : Text}
    (delimited : ∃ more, tail = ',' :: more ∨ tail = ';' :: more)
    (clear : name.all (fun c => c != ',' && c != ';') = true)
    (length : name.length = opcode.length) :
    untilDelimiter (opcode ++ tail) = name ↔ opcode = name := by
  constructor
  · rintro rfl
    have front : untilDelimiter (opcode ++ tail) <+: opcode ++ tail := List.takeWhile_prefix _
    rw [List.prefix_iff_eq_take.mp front, length, List.take_left]
  · rintro rfl
    rw [untilDelimiter, List.takeWhile_append_of_pos (List.all_eq_true.mp clear)]
    obtain ⟨more, rfl | rfl⟩ := delimited <;> simp

theorem untilDelimiter_sensitive (opcode tail : Text)
    (delimited : ∃ more, tail = ',' :: more ∨ tail = ';' :: more) :
    ((Utf8.encode (untilDelimiter (opcode ++ tail))).length = opcode.length ∧
        untilDelimiter (opcode ++ tail) ∈ sensitiveOpcodes) ↔
      opcode ∈ sensitiveOpcodes := by
  have plain : ∀ name ∈ sensitiveOpcodes, (Utf8.encode name).length = name.length ∧
      name.all (fun c => c != ',' && c != ';') = true := by decide
  constructor
  · rintro ⟨length, member⟩
    obtain ⟨ascii, clear⟩ := plain _ member
    have same := (untilDelimiter_eq_iff delimited clear (ascii.symm.trans length)).mp rfl
    exact same ▸ member
  · intro member
    obtain ⟨ascii, clear⟩ := plain opcode member
    rw [(untilDelimiter_eq_iff delimited clear rfl).mpr rfl]
    exact ⟨ascii, member⟩

theorem argsText_delimited (args : List Text) :
    ∃ more, argsText args ++ [';'] = ',' :: more ∨ argsText args ++ [';'] = ';' :: more := by
  cases args with
  | nil => exact ⟨[], Or.inr rfl⟩
  | cons arg args => exact ⟨_, Or.inl rfl⟩

theorem first_sensitive (instruction : GuacInstruction)
    (sized : instruction.opcode.length ≤ usizeMax) :
    ∃ first later, pieces instruction = first :: later ∧
      isSensitive (trim first) = !harmless instruction := by
  obtain ⟨body, rest, split, -, cut⟩ := first_piece instruction
  refine ⟨_, _, cut, ?_⟩
  have judged := untilDelimiter_sensitive instruction.opcode _
    (argsText_delimited instruction.args)
  rw [split, untilDelimiter_append] at judged
  rw [trim_first, isSensitive, parseOpcode_first instruction body sized, harmless, Bool.not_not]
  by_cases length : (Utf8.encode (untilDelimiter body)).length = instruction.opcode.length
  · rw [if_neg (not_not.mpr length)]
    simp only [List.contains_eq_mem, decide_eq_decide]
    rw [← judged]
    exact ⟨fun member => ⟨length, member⟩, And.right⟩
  · rw [if_pos length]
    have other : instruction.opcode ∉ sensitiveOpcodes := fun member => length (judged.mpr member).1
    simp [other]

theorem judgedAlike_iff (instruction : GuacInstruction)
    (sized : instruction.opcode.length ≤ usizeMax) :
    JudgedAlike instruction ↔
      ∀ piece ∈ pieces instruction, keepPiece piece = harmless instruction := by
  obtain ⟨first, later, cut, judged⟩ := first_sensitive instruction sized
  have closed := pieces_closed instruction
  rw [JudgedAlike]
  rw [cut] at closed ⊢
  simp only [List.tail_cons, List.mem_cons, forall_eq_or_imp]
  rw [keepPiece_closed (closed first (by simp)), judged, Bool.not_not]
  constructor
  · intro alike
    refine ⟨rfl, fun piece member => ?_⟩
    rw [keepPiece_closed (closed piece (by simp [member])), alike piece member, Bool.not_not]
  · rintro ⟨-, alike⟩ piece member
    rw [← alike piece member, keepPiece_closed (closed piece (by simp [member])), Bool.not_not]

theorem filter_exact_iff (instructions : List GuacInstruction)
    (sized : ∀ instruction ∈ instructions, instruction.opcode.length ≤ usizeMax) :
    filterSensitiveInstructions (wireText instructions) =
        wireText (instructions.filter harmless) ↔
      ∀ instruction ∈ instructions, JudgedAlike instruction := by
  have keptClosed : ∀ piece ∈ (instructions.flatMap pieces).filter keepPiece, Closed ';' piece :=
    fun piece member => flatMap_pieces_closed instructions piece (List.mem_filter.mp member).1
  rw [filter_eq, split_wireText, wireText_pieces]
  constructor
  · intro same
    have lists := flatten_injective keptClosed (flatMap_pieces_closed _) same
    have judged := (filter_flatMap_iff pieces keepPiece harmless instructions).mp lists
    exact fun instruction member =>
      (judgedAlike_iff instruction (sized instruction member)).mpr (judged instruction member)
  · intro alike
    rw [(filter_flatMap_iff pieces keepPiece harmless instructions).mpr
      fun instruction member =>
        (judgedAlike_iff instruction (sized instruction member)).mp (alike instruction member)]

theorem sameButCredentials_kept {first second : List GuacInstruction}
    (same : SameButCredentials first second) : first.filter harmless = second.filter harmless := by
  induction same with
  | nil => rfl
  | @cons one other first second head tail ih =>
      by_cases kept : harmless one = true
      · obtain rfl := head.2 kept
        rw [List.filter_cons_of_pos kept, List.filter_cons_of_pos kept, ih]
      · have dropped : ¬ harmless other = true := by
          rw [harmless, ← head.1]
          exact kept
        rw [List.filter_cons_of_neg kept, List.filter_cons_of_neg dropped, ih]

theorem sameButCredentials_sized {first second : List GuacInstruction}
    (same : SameButCredentials first second)
    (sized : ∀ instruction ∈ first, instruction.opcode.length ≤ usizeMax) :
    ∀ instruction ∈ second, instruction.opcode.length ≤ usizeMax := by
  induction same with
  | nil => exact sized
  | cons head tail ih =>
      simp only [List.mem_cons, forall_eq_or_imp] at sized ⊢
      exact ⟨head.1 ▸ sized.1, ih sized.2⟩

/-- The filter keeps exactly the harmless instructions of a stream, and two
streams apart only in credentials leave the same text, when every piece of an
instruction behind its first semicolon is judged as the instruction; the first
half holds in no other case. -/
theorem sensitive_filter_exact (instructions : List GuacInstruction)
    (sized : ∀ instruction ∈ instructions, instruction.opcode.length ≤ usizeMax) :
    (filterSensitiveInstructions (wireText instructions) =
        wireText (instructions.filter harmless) ↔
      ∀ instruction ∈ instructions, JudgedAlike instruction) ∧
    ∀ others : List GuacInstruction,
      (∀ instruction ∈ instructions ++ others, JudgedAlike instruction) →
      SameButCredentials instructions others →
      filterSensitiveInstructions (wireText instructions) =
        filterSensitiveInstructions (wireText others) := by
  refine ⟨filter_exact_iff instructions sized, fun others alike same => ?_⟩
  have otherSized := sameButCredentials_sized same sized
  rw [(filter_exact_iff instructions sized).mpr fun i member => alike i (by simp [member]),
    (filter_exact_iff others otherSized).mpr fun i member => alike i (by simp [member]),
    sameButCredentials_kept same]

theorem sensitive_filter_exact_handshake :
    filterSensitiveInstructions
        (wireText [⟨"connect".toList, ["hunter2".toList]⟩, ⟨"sync".toList, ["1;2".toList]⟩]) =
      wireText [⟨"sync".toList, ["1;2".toList]⟩] ∧
    filterSensitiveInstructions
        (wireText [⟨"connect".toList, ["hunter2".toList]⟩, ⟨"sync".toList, ["1;2".toList]⟩]) =
      filterSensitiveInstructions
        (wireText [⟨"connect".toList, ["secret".toList]⟩, ⟨"sync".toList, ["1;2".toList]⟩]) := by
  have exact := sensitive_filter_exact
    [⟨"connect".toList, ["hunter2".toList]⟩, ⟨"sync".toList, ["1;2".toList]⟩] (by decide)
  refine ⟨exact.1.mpr (by decide), exact.2 _ (by decide) ?_⟩
  exact .cons ⟨rfl, by decide⟩ (.cons ⟨rfl, fun _ => rfl⟩ .nil)

/-- A password with a semicolon: what stands behind the semicolon is kept, and
tells two passwords apart. A `name` argument with a piece that spells `args` loses
that piece. -/
theorem sensitive_filter_leaks :
    filterSensitiveInstructions (wireText [⟨"connect".toList, ["pass;word".toList]⟩]) =
      "word;".toList ∧
    wireText ([⟨"connect".toList, ["pass;word".toList]⟩].filter harmless) = [] ∧
    filterSensitiveInstructions (wireText [⟨"connect".toList, ["pass;port".toList]⟩]) =
      "port;".toList ∧
    filterSensitiveInstructions (wireText [⟨"name".toList, ["a;4.args".toList]⟩]) =
      "4.name,8.a;".toList := by
  decide

end Strata.Backend.ReplayFilter
