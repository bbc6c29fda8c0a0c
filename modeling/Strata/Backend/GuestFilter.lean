import Mathlib.Tactic
import Strata.Lib.RustStr
import Strata.Protocol.GuacamoleText
import Strata.Transport.Decoder

/-! The gate in front of a shared-control guest. `first_disallowed_guest_opcode`
skips from semicolon to semicolon while the decoder behind it honours length
prefixes; the filter nevertheless stops at every boundary the decoder uses. -/

namespace Strata.Backend.GuestFilter

open Utf8 (Text Bytes)
open RustStr
open RustInt
open Protocol.Guacamole
open Protocol.Instruction
open Transport.Decoder

def guestInputOpcodeAllowlist : List Text :=
  ["mouse".toList, "key".toList, "pointer".toList, "size".toList, "clipboard".toList,
    "blob".toList, "end".toList, "ack".toList, "pipe".toList, "nop".toList, "argv".toList,
    "".toList]

/-- Where the opcode ends in the text behind its length prefix: after `len`
characters, or at the end of a shorter text. -/
def opcodeEnd (len : Nat) (pool : Text) : Nat := if len < pool.length then len else pool.length

def guestTurn (rem : Text) : Text ⊕ Option Text :=
  if rem = [] then .inr none
  else if trimStart rem = [] then .inr none
  else
    match splitOnce '.' (trimStart rem) with
    | none => .inr (some "<malformed>".toList)
    | some (length, pool) =>
        match parseUsize length with
        | none => .inr (some "<malformed>".toList)
        | some len =>
            let offset := opcodeEnd len pool
            if offset > pool.length then .inr (some "<truncated>".toList)
            else if pool.take offset ∉ guestInputOpcodeAllowlist then
              .inr (some (pool.take offset))
            else
              match splitOnce ';' (pool.drop offset) with
              | some (_, next) => .inl next
              | none => .inr (some "<no terminator>".toList)

def firstDisallowedGuestOpcode (frame : Text) : Option Text :=
  Loop.run List.length guestTurn frame

/-- The instructions `forward_guest_instructions` decodes from one frame, up to
its first malformed point. -/
def forwardGuestInstructions (frame : Text) : List ClientInstruction :=
  ((GuacDecoder.new defaultDecodeLimit).extend (Utf8.encode frame)).drain.1

theorem whitespace_not_semicolon {blank : Text} (blanks : ∀ c ∈ blank, isWhitespace c = true) :
    ';' ∉ blank := fun member => absurd (blanks ';' member) (by decide)

theorem allowlist_not_semicolon : ∀ opcode ∈ guestInputOpcodeAllowlist, ';' ∉ opcode := by
  decide

theorem usize_not_semicolon {text : Text} {value : Nat} (parsed : parseUsize text = some value) :
    ';' ∉ text := by
  intro member
  rcases parseUnsigned_chars parsed ';' member with plus | digit
  · exact absurd plus (by decide)
  · exact absurd digit (by decide)

theorem opcodeEnd_le (len : Nat) (pool : Text) : ¬ opcodeEnd len pool > pool.length := by
  unfold opcodeEnd
  split <;> omega

theorem take_opcodeEnd (len : Nat) (pool : Text) :
    pool.take (opcodeEnd len pool) = pool.take len := by
  unfold opcodeEnd
  split
  · rfl
  · next long => rw [List.take_length, List.take_of_length_le (by omega)]

theorem guestTurn_next {rem next : Text} (turned : guestTurn rem = .inl next) :
    ∃ skipped, rem = skipped ++ ';' :: next ∧ ';' ∉ skipped := by
  obtain ⟨blank, trimmed, blanks⟩ := trimStart_split rem
  unfold guestTurn at turned
  by_cases empty : rem = []
  · rw [if_pos empty] at turned
    cases turned
  rw [if_neg empty] at turned
  by_cases blankOnly : trimStart rem = []
  · rw [if_pos blankOnly] at turned
    cases turned
  rw [if_neg blankOnly] at turned
  cases dotted : splitOnce '.' (trimStart rem) with
  | none => rw [dotted] at turned; cases turned
  | some parts =>
      obtain ⟨length, pool⟩ := parts
      simp only [dotted] at turned
      cases parsed : parseUsize length with
      | none => rw [parsed] at turned; cases turned
      | some len =>
          simp only [parsed] at turned
          rw [if_neg (opcodeEnd_le len pool)] at turned
          generalize opcodeEnd len pool = offset at turned
          by_cases refused : pool.take offset ∉ guestInputOpcodeAllowlist
          · rw [if_pos refused] at turned
            cases turned
          rw [if_neg refused] at turned
          cases ended : splitOnce ';' (pool.drop offset) with
          | none => rw [ended] at turned; cases turned
          | some parts =>
              obtain ⟨mid, rest⟩ := parts
              rw [ended] at turned
              obtain rfl := Sum.inl.inj turned
              obtain ⟨dropped, free⟩ := splitOnce_eq_some ended
              obtain ⟨body, -⟩ := splitOnce_eq_some dotted
              refine ⟨blank ++ (length ++ '.' :: (pool.take offset ++ mid)), ?_, ?_⟩
              · calc rem = blank ++ (length ++ '.' :: (pool.take offset ++ pool.drop offset)) := by
                      rw [List.take_append_drop, ← body, ← trimmed]
                  _ = _ := by rw [dropped]; simp
              · have spelled := allowlist_not_semicolon _ (not_not.mp refused)
                simp only [List.mem_append, List.mem_cons, not_or]
                exact ⟨whitespace_not_semicolon blanks, usize_not_semicolon parsed, by decide,
                  spelled, free⟩

theorem guestTurn_done {rem : Text} (turned : guestTurn rem = .inr none) : ';' ∉ rem := by
  obtain ⟨blank, trimmed, blanks⟩ := trimStart_split rem
  by_cases blankOnly : trimStart rem = []
  · rw [trimmed, blankOnly, List.append_nil]
    exact whitespace_not_semicolon blanks
  · have some : rem ≠ [] := fun empty => blankOnly (by rw [empty]; rfl)
    unfold guestTurn at turned
    rw [if_neg some, if_neg blankOnly] at turned
    split at turned
    · cases turned
    · split at turned
      · cases turned
      · simp only [if_neg (opcodeEnd_le _ _)] at turned
        split at turned
        · cases turned
        · split at turned <;> cases turned

theorem guestTurn_decreasing : Loop.Decreasing List.length guestTurn := by
  intro rem next turned
  obtain ⟨skipped, split, -⟩ := guestTurn_next turned
  rw [split, List.length_append, List.length_cons]
  omega

theorem filter_visits (frame front back : Text)
    (clean : firstDisallowedGuestOpcode frame = none) (split : frame = front ++ ';' :: back) :
    firstDisallowedGuestOpcode back = none := by
  refine (Loop.run_induction guestTurn_decreasing
    (fun rem result => result = none → firstDisallowedGuestOpcode rem = none ∧
      ∀ front back, rem = front ++ ';' :: back → firstDisallowedGuestOpcode back = none)
    ?_ ?_ frame clean).2 front back split
  · rintro rem result turned rfl
    refine ⟨?_, ?_⟩
    · rw [firstDisallowedGuestOpcode, Loop.run_eq guestTurn_decreasing, turned]
    · rintro front back rfl
      exact absurd (List.mem_append_right front List.mem_cons_self) (guestTurn_done turned)
  · intro rem next result turned carried clean
    obtain ⟨nextClean, later⟩ := carried clean
    refine ⟨?_, ?_⟩
    · rw [firstDisallowedGuestOpcode, Loop.run_eq guestTurn_decreasing, turned]
      exact nextClean
    · intro front back split
      obtain ⟨skipped, shape, free⟩ := guestTurn_next turned
      rw [shape] at split
      rcases split_mark_cases free split with ⟨-, rfl⟩ | ⟨more, rest⟩
      · exact nextClean
      · exact later more back rest

theorem filter_opcode (digits pool : Text) (some : digits ≠ [])
    (short : digits.length ≤ maxLengthDigits) (all : ∀ c ∈ digits, c.isDigit = true)
    (clean : firstDisallowedGuestOpcode (digits ++ '.' :: pool) = none) :
    pool.take (digitsValue digits) ∈ guestInputOpcodeAllowlist := by
  have noDot : '.' ∉ digits := fun member => absurd (all '.' member) (by decide)
  have fits : digitsValue digits ≤ usizeMax := by
    have small := digitsValue_lt digits all
    have power : 10 ^ digits.length ≤ 10 ^ maxLengthDigits := Nat.pow_le_pow_right (by omega) short
    have room : 10 ^ maxLengthDigits ≤ usizeMax := by decide
    omega
  have parsed : parseUsize digits = Option.some (digitsValue digits) :=
    parseUnsigned_digits usizeMax digits some all fits
  have trimmed : trimStart (digits ++ '.' :: pool) = digits ++ '.' :: pool := by
    cases digits with
    | nil => exact absurd rfl some
    | cons d digits =>
        have visible : isWhitespace d = false := isWhitespace_digit (all d (by simp))
        simp [trimStart, visible]
  have present : digits ++ '.' :: pool ≠ [] := by simp
  by_contra refused
  have turned : guestTurn (digits ++ '.' :: pool) =
      .inr (Option.some (pool.take (digitsValue digits))) := by
    rw [guestTurn, trimmed, if_neg present, if_neg present,
      splitOnce_append '.' digits pool noDot]
    simp only [parsed, if_neg (opcodeEnd_le _ _), take_opcodeEnd]
    rw [if_pos refused]
  rw [firstDisallowedGuestOpcode, Loop.run_eq guestTurn_decreasing, turned] at clean
  cases clean

theorem drainFor_allowed (fuel : Nat) (frame : Text) (decoder : GuacDecoder)
    (buffer : decoder.buf = Utf8.encode frame)
    (clean : firstDisallowedGuestOpcode frame = none) :
    ∀ instruction ∈ (decoder.drainFor fuel).1,
      instruction.opcode ∈ guestInputOpcodeAllowlist := by
  induction fuel generalizing frame decoder with
  | zero => simp [GuacDecoder.drainFor]
  | succ fuel ih =>
      rw [GuacDecoder.drainFor]
      split
      · simp
      · simp
      · next decoded rest answered =>
          obtain ⟨raw, consumed, parsed, typed, rfl⟩ := next_eq_some answered
          rw [buffer] at parsed
          obtain ⟨⟨digits, pool, spelled, some, short, all, name⟩, front, back, split, left⟩ :=
            tryParse_text parsed
          have tail := ih back { decoder with buf := decoder.buf.drop consumed }
            (by rw [← left, buffer]) (filter_visits frame front back clean split)
          simp only [List.mem_cons, forall_eq_or_imp]
          refine ⟨?_, tail⟩
          rw [spelled] at clean
          rw [fromWire_opcode typed, name]
          exact filter_opcode digits pool some short all clean

/-- Whatever a frame's arguments hold, a frame the filter lets through decodes
to allowlisted instructions only. -/
theorem guest_frame_allowlisted (frame : Text)
    (clean : firstDisallowedGuestOpcode frame = none) :
    ∀ instruction ∈ forwardGuestInstructions frame,
      instruction.opcode ∈ guestInputOpcodeAllowlist :=
  drainFor_allowed _ frame _ (by simp [GuacDecoder.new, GuacDecoder.extend]) clean

/-- The payload of the blob holds a semicolon, so the filter also reads inside it. -/
theorem guest_frame_allowlisted_payload :
    forwardGuestInstructions "4.blob,1.3,6.;3.nop;3.key,2.97,1.1;".toList =
      [.blob 3 ";3.nop".toList, .key 97 true] ∧
    ∀ instruction ∈ forwardGuestInstructions "4.blob,1.3,6.;3.nop;3.key,2.97,1.1;".toList,
      instruction.opcode ∈ guestInputOpcodeAllowlist :=
  ⟨by decide, guest_frame_allowlisted _ (by decide)⟩

end Strata.Backend.GuestFilter
