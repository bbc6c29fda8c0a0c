import Mathlib.Tactic
import Strata.Backend.GuestFilter
import Strata.Backend.ReplayFilter

/-! Which well-formed frames pass the guest filter. It goes on behind the next semicolon, wherever
that stands, so an argument that holds semicolons is read as if an instruction began behind each. -/

namespace Strata.Backend.GuestFilter

open Utf8 (Text)
open RustStr
open RustInt
open Pieces (Closed splitInclusive)
open Protocol.Guacamole
open ReplayFilter (pieces)

/-- The piece begins, after blanks, with a length and that many characters of an allowed opcode. -/
def allowedPiece (piece : Text) : Bool :=
  match splitOnce '.' (trimStart piece) with
  | none => false
  | some (length, pool) =>
      match parseUsize length with
      | none => false
      | some len => guestInputOpcodeAllowlist.contains (pool.take len)

theorem splitOnce_eq_none {mark : Char} {text : Text} (absent : mark ∉ text) :
    splitOnce mark text = none := by
  cases split : splitOnce mark text with
  | none => rfl
  | some parts =>
      have found := (splitOnce_eq_some split).1
      exact absurd (found ▸ List.mem_append_right _ List.mem_cons_self) absent

theorem trimStart_closed (body rest : Text) :
    ∃ text, trimStart (body ++ [';']) = text ++ [';'] ∧
      trimStart (body ++ ';' :: rest) = text ++ ';' :: rest ∧ (';' ∉ body → ';' ∉ text) := by
  obtain ⟨text, trimmed⟩ := trimStart_concat (c := ';') (by decide) body
  refine ⟨text, trimmed, ?_, ?_⟩
  · rw [trimStart] at trimmed ⊢
    rw [List.append_cons, List.dropWhile_append, trimmed]
    simp
  · intro free member
    obtain ⟨blank, whole, -⟩ := trimStart_split (body ++ [';'])
    rw [trimmed, ← List.append_assoc] at whole
    rw [(List.append_inj' whole rfl).1] at free
    exact free (List.mem_append_right _ member)

theorem take_allowed_iff {front : Text} (len : Nat) (rest : Text) :
    (front ++ ';' :: rest).take len ∈ guestInputOpcodeAllowlist ↔
      len ≤ front.length ∧ front.take len ∈ guestInputOpcodeAllowlist := by
  constructor
  · intro allowed
    have short : len ≤ front.length := by
      by_contra long
      have spelled := allowlist_not_semicolon _ allowed
      rw [List.take_append, List.take_of_length_le (by omega),
        (Nat.sub_eq_iff_eq_add (by omega)).mpr (show len = len - front.length - 1 + 1 + _ by omega),
        List.take_succ_cons] at spelled
      exact spelled (List.mem_append_right _ List.mem_cons_self)
    rw [List.take_append_of_le_length short] at allowed
    exact ⟨short, allowed⟩
  · rintro ⟨short, allowed⟩
    rw [List.take_append_of_le_length short]
    exact allowed

section Dotted

variable {rem length pool : Text} (dotted : splitOnce '.' (trimStart rem) = some (length, pool))
include dotted

theorem visible_of_dotted : rem ≠ [] ∧ trimStart rem ≠ [] := by
  have visible : trimStart rem ≠ [] := by
    intro blank
    rw [blank] at dotted
    cases dotted
  exact ⟨fun empty => visible (by rw [empty]; rfl), visible⟩

theorem guestTurn_refused {len : Nat} (parsed : parseUsize length = some len)
    (other : pool.take len ∉ guestInputOpcodeAllowlist) :
    guestTurn rem = .inr (some (pool.take len)) := by
  have ⟨filled, visible⟩ := visible_of_dotted dotted
  rw [guestTurn, if_neg filled, if_neg visible, dotted]
  simp only [parsed, if_neg (opcodeEnd_le _ pool), take_opcodeEnd, if_pos other]

theorem guestTurn_passed {len : Nat} {skipped next : Text} (parsed : parseUsize length = some len)
    (own : pool.take len ∈ guestInputOpcodeAllowlist)
    (ended : splitOnce ';' (pool.drop (opcodeEnd len pool)) = some (skipped, next)) :
    guestTurn rem = .inl next := by
  have ⟨filled, visible⟩ := visible_of_dotted dotted
  rw [guestTurn, if_neg filled, if_neg visible, dotted]
  simp only [parsed, if_neg (opcodeEnd_le _ pool), take_opcodeEnd, if_neg (not_not.mpr own), ended]

end Dotted

theorem guestTurn_malformed {rem : Text} (filled : trimStart rem ≠ [])
    (bad : ∀ length pool, splitOnce '.' (trimStart rem) = some (length, pool) →
      parseUsize length = none) : guestTurn rem = .inr (some "<malformed>".toList) := by
  have some : rem ≠ [] := fun empty => filled (by rw [empty]; rfl)
  rw [guestTurn, if_neg some, if_neg filled]
  cases dotted : splitOnce '.' (trimStart rem) with
  | none => rfl
  | some parts =>
      obtain ⟨length, pool⟩ := parts
      simp only [bad length pool dotted]

theorem guestTurn_piece {body : Text} (free : ';' ∉ body) (rest : Text) :
    allowedPiece (body ++ [';']) = true ∧ guestTurn (body ++ ';' :: rest) = .inl rest ∨
      allowedPiece (body ++ [';']) = false ∧
        ∃ refused, guestTurn (body ++ ';' :: rest) = .inr (some refused) := by
  obtain ⟨text, short, long, inside⟩ := trimStart_closed body rest
  have free := inside free
  by_cases dot : '.' ∈ text
  · obtain ⟨length, pool, rfl, noDot⟩ := List.eq_append_cons_of_mem dot
    rw [List.mem_append, List.mem_cons, not_or, not_or] at free
    have dotted (back : Text) : splitOnce '.' (length ++ '.' :: pool ++ ';' :: back) =
        some (length, pool ++ ';' :: back) := by
      rw [List.append_assoc, List.cons_append, splitOnce_append '.' _ _ noDot]
    have turned := (congrArg (splitOnce '.') long).trans (dotted rest)
    have piece : allowedPiece (body ++ [';']) = ((parseUsize length).map fun len =>
        guestInputOpcodeAllowlist.contains ((pool ++ [';']).take len)).getD false := by
      rw [allowedPiece, short, dotted]
      dsimp only
      cases parseUsize length <;> rfl
    cases parsed : parseUsize length with
    | none =>
        rw [parsed] at piece
        refine .inr ⟨piece, _, guestTurn_malformed (visible_of_dotted turned).2 ?_⟩
        intro other _ again
        obtain ⟨rfl, -⟩ := Prod.mk.inj (Option.some.inj (turned.symm.trans again))
        exact parsed
    | some len =>
        rw [parsed, Option.map_some, Option.getD_some] at piece
        by_cases allowed : len ≤ pool.length ∧ pool.take len ∈ guestInputOpcodeAllowlist
        · have left : opcodeEnd len (pool ++ ';' :: rest) = len :=
            if_pos (by rw [List.length_append, List.length_cons]; omega)
          have ended : splitOnce ';' ((pool ++ ';' :: rest).drop len) =
              some (pool.drop len, rest) := by
            rw [List.drop_append_of_le_length allowed.1]
            exact splitOnce_append ';' _ _ fun member => free.2.2 (List.mem_of_mem_drop member)
          rw [List.contains_iff_mem.mpr ((take_allowed_iff len []).mpr allowed)] at piece
          refine .inl ⟨piece, guestTurn_passed turned parsed ?_ (by rw [left, ended])⟩
          exact (take_allowed_iff len rest).mpr allowed
        · refine .inr ⟨?_, _,
            guestTurn_refused turned parsed (mt (take_allowed_iff len rest).mp allowed)⟩
          rw [piece, ← Bool.not_eq_true, List.contains_iff_mem]
          exact mt (take_allowed_iff len []).mp allowed
  · refine .inr ⟨?_, _, guestTurn_malformed (by rw [long]; simp) ?_⟩
    · rw [allowedPiece, short, splitOnce_eq_none (by simpa using dot)]
    · intro length pool dotted
      obtain ⟨whole, noDot⟩ := splitOnce_eq_some dotted
      -- What stands before the next dot holds the semicolon of this piece.
      have crossed : ';' ∈ length := by
        rw [long] at whole
        rcases List.append_eq_append_iff.mp whole with ⟨more, rfl, later⟩ | ⟨more, rfl, later⟩
        · cases more with
          | nil => cases later
          | cons c more =>
              obtain ⟨rfl, -⟩ := List.cons.inj later
              simp
        · cases more with
          | nil => cases later
          | cons c more =>
              obtain ⟨rfl, -⟩ := List.cons.inj later
              exact absurd (List.mem_append_right _ List.mem_cons_self) dot
      cases parsed : parseUsize length with
      | none => rfl
      | some len => exact absurd crossed (usize_not_semicolon parsed)

theorem pieces_pass_iff {pieces : List Text} (closed : ∀ piece ∈ pieces, Closed ';' piece) :
    firstDisallowedGuestOpcode pieces.flatten = none ↔
      ∀ piece ∈ pieces, allowedPiece piece = true := by
  induction pieces with
  | nil => simp [firstDisallowedGuestOpcode, Loop.run_eq guestTurn_decreasing, guestTurn]
  | cons piece pieces ih =>
      obtain ⟨body, rfl, free⟩ := closed piece List.mem_cons_self
      have later := ih fun piece member => closed piece (List.mem_cons_of_mem _ member)
      rw [List.forall_mem_cons, List.flatten_cons, List.append_assoc, List.singleton_append,
        firstDisallowedGuestOpcode, Loop.run_eq guestTurn_decreasing]
      rcases guestTurn_piece free pieces.flatten with ⟨allowed, turned⟩ | ⟨stops, refused, turned⟩
      · rw [turned, allowed, ← later]
        exact (and_iff_right rfl).symm
      · rw [turned, stops]
        simp

theorem first_piece_allowed {instruction : GuacInstruction}
    (allowed : instruction.opcode ∈ guestInputOpcodeAllowlist) :
    ∃ first, allowedPiece first = true ∧
      pieces instruction = first :: (pieces instruction).tail := by
  obtain ⟨body, rest, split, -, cut⟩ := ReplayFilter.first_piece instruction
  refine ⟨_, ?_, by rw [cut]; rfl⟩
  obtain ⟨more, rfl⟩ : ∃ more, body = instruction.opcode ++ more := by
    rcases List.append_eq_append_iff.mp split with ⟨more, same, -⟩ | ⟨more, same, later⟩
    · exact ⟨more, same⟩
    · cases more with
      | nil => exact ⟨[], by rw [same]; simp⟩
      | cons c more =>
          obtain ⟨rfl, -⟩ := List.cons.inj later
          exact absurd (same ▸ List.mem_append_right _ List.mem_cons_self)
            (allowlist_not_semicolon _ allowed)
  have digits := lengthText_digits instruction.opcode.length
  have noDot : '.' ∉ lengthText instruction.opcode.length := fun member =>
    absurd (digits '.' member) (by decide)
  have small : instruction.opcode.length ≤ usizeMax := by
    have short : ∀ opcode ∈ guestInputOpcodeAllowlist, opcode.length ≤ usizeMax := by decide
    exact short _ allowed
  have trimmed (tail : Text) : trimStart (lengthText instruction.opcode.length ++ tail) =
      lengthText instruction.opcode.length ++ tail := by
    cases spelled : lengthText instruction.opcode.length with
    | nil => exact absurd spelled (lengthText_nonempty _)
    | cons d rest =>
        rw [spelled] at digits
        exact trimStart_cons (isWhitespace_digit (digits d List.mem_cons_self)) _
  rw [allowedPiece, List.append_assoc, List.cons_append, trimmed, splitOnce_append '.' _ _ noDot]
  simp only [parse_lengthText small]
  rw [List.append_assoc, List.take_left]
  exact List.contains_iff_mem.mpr allowed

/-- A frame of allowed instructions passes exactly if, behind each semicolon inside an instruction,
the text begins with an allowed opcode again. -/
theorem guest_frame_passes_iff (instructions : List GuacInstruction)
    (allowed : ∀ instruction ∈ instructions, instruction.opcode ∈ guestInputOpcodeAllowlist) :
    firstDisallowedGuestOpcode (wireText instructions) = none ↔
      ∀ instruction ∈ instructions, ∀ piece ∈ (pieces instruction).tail,
        allowedPiece piece = true := by
  rw [ReplayFilter.wireText_pieces,
    pieces_pass_iff (ReplayFilter.flatMap_pieces_closed instructions)]
  constructor
  · intro all instruction member piece inside
    exact all piece (List.mem_flatMap.mpr ⟨instruction, member, List.mem_of_mem_tail inside⟩)
  · intro tails piece inside
    obtain ⟨instruction, member, inside⟩ := List.mem_flatMap.mp inside
    obtain ⟨first, passes, shape⟩ := first_piece_allowed (allowed instruction member)
    rw [shape] at inside
    rcases List.mem_cons.mp inside with rfl | later
    · exact passes
    · exact tails instruction member piece later

/-- Two clipboards; the second one's mime type holds what reads as another instruction. -/
theorem guest_frame_passes_plain :
    firstDisallowedGuestOpcode (wireText
      [⟨"clipboard".toList, ["0".toList, "text/plain".toList]⟩,
        ⟨"clipboard".toList, ["1".toList, "a;3.nop".toList]⟩]) = none :=
  (guest_frame_passes_iff _ (by decide)).mpr (by decide)

/-- A mime type with a charset: behind its semicolon no length stands. -/
theorem guest_frame_charset_refused :
    (∀ instruction ∈ [(⟨"clipboard".toList,
        ["0".toList, "text/plain;charset=utf-8".toList]⟩ : GuacInstruction)],
      instruction.opcode ∈ guestInputOpcodeAllowlist) ∧
    firstDisallowedGuestOpcode (wireText [⟨"clipboard".toList,
      ["0".toList, "text/plain;charset=utf-8".toList]⟩]) = some "<malformed>".toList := by
  decide

end Strata.Backend.GuestFilter
