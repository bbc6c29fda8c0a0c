import Mathlib.Tactic
import Strata.Protocol.Guacamole

/-! More input never changes what the parser has already decided. Every outcome
but "incomplete" is settled by the bytes it was read from, at each of the points
of the element loop where the two failures are raised. -/

namespace Strata.Protocol.Guacamole

open Utf8 (Text Bytes)
open StreamParser

theorem window_append (accept : UInt8 → Bool) (high : Nat) (input extension : Bytes)
    (short : ((input.take high).takeWhile accept).length < input.length) :
    ((input ++ extension).take high).takeWhile accept = (input.take high).takeWhile accept := by
  induction input generalizing high with
  | nil => simp at short
  | cons b input ih =>
      cases high with
      | zero => simp
      | succ high =>
          rw [List.cons_append, List.take_succ_cons, List.take_succ_cons] at *
          by_cases digit : accept b = true
          · rw [List.takeWhile_cons_of_pos digit] at *
            rw [List.takeWhile_cons_of_pos digit]
            simp only [List.length_cons] at short
            rw [ih high (by omega)]
          · rw [List.takeWhile_cons_of_neg digit, List.takeWhile_cons_of_neg digit]

theorem takeWhileRange_append {low high : Nat} {accept : UInt8 → Bool} {input taken rest : Bytes}
    {next : UInt8} (read : takeWhileRange low high accept input = .ok (taken, next :: rest))
    (extension : Bytes) :
    takeWhileRange low high accept (input ++ extension) =
      .ok (taken, next :: (rest ++ extension)) := by
  unfold takeWhileRange at *
  dsimp only at *
  split at read
  · cases read
  · next enough =>
      obtain ⟨same, left⟩ := Prod.mk.inj (Except.ok.inj read)
      have short : ((input.take high).takeWhile accept).length < input.length := by
        have h := congrArg List.length left
        simp only [List.length_drop, List.length_cons] at h
        omega
      rw [window_append accept high input extension short, if_neg enough, same]
      rw [same] at left short
      rw [List.drop_append_of_le_length (by omega), left]
      rfl

theorem utf8PrefixLenFrom_append {input : Bytes} {chars idx : Nat} (outcome : Except Unit Nat)
    (settled : utf8PrefixLenFrom input chars idx = outcome.map some) (extension : Bytes) :
    utf8PrefixLenFrom (input ++ extension) chars idx = outcome.map some := by
  induction chars generalizing idx with
  | zero => exact settled
  | succ chars ih =>
      rw [utf8PrefixLenFrom] at settled ⊢
      cases lead : input[idx]? with
      | none =>
          rw [lead] at settled
          cases outcome <;> cases settled
      | some b =>
          have inside : idx < input.length := by
            obtain ⟨h, -⟩ := List.getElem?_eq_some_iff.mp lead
            exact h
          rw [List.getElem?_append_left inside, lead]
          rw [lead] at settled
          cases width : utf8Width b with
          | none =>
              simp only [width] at settled ⊢
              exact settled
          | some w =>
              simp only [width] at settled ⊢
              by_cases past : idx + w > input.length
              · rw [if_pos past] at settled
                cases outcome <;> cases settled
              · have fits : ¬ idx + w > (input ++ extension).length := by
                  rw [List.length_append]
                  omega
                have same : ((input ++ extension).drop (idx + 1)).take (w - 1) =
                    (input.drop (idx + 1)).take (w - 1) := by
                  rw [List.drop_append_of_le_length (by omega),
                    List.take_append_of_le_length (by rw [List.length_drop]; omega)]
                rw [if_neg past] at settled
                rw [if_neg fits, same]
                by_cases broken :
                    ((input.drop (idx + 1)).take (w - 1)).any (· &&& 0xC0 != 0x80) = true
                · rw [if_pos broken] at settled ⊢
                  exact settled
                · rw [if_neg broken] at settled ⊢
                  exact ih settled

theorem takeBytes_append {count : Nat} {input raw rest : Bytes}
    (read : takeBytes count input = .ok (raw, rest)) (extension : Bytes) :
    takeBytes count (input ++ extension) = .ok (raw, rest ++ extension) := by
  unfold takeBytes at *
  split at read
  · cases read
  · next enough =>
      obtain ⟨rfl, rfl⟩ := Prod.mk.inj (Except.ok.inj read)
      have fits : ¬ (input ++ extension).length < count := by
        rw [List.length_append]
        omega
      rw [if_neg fits, List.take_append_of_le_length (by omega),
        List.drop_append_of_le_length (by omega)]

theorem parseValue_stable (charLen : Nat) : Stable (parseValue charLen) := by
  intro input extension
  unfold parseValue
  by_cases long : charLen > maxElementChars
  · simp only [if_pos long, Extends]
  · simp only [if_neg long]
    cases walked : utf8PrefixLen input charLen with
    | error invalid =>
        have more := utf8PrefixLenFrom_append (.error invalid) walked extension
        simp only [utf8PrefixLen, more]
        rfl
    | ok length =>
        cases length with
        | none => trivial
        | some byteLen =>
            have more := utf8PrefixLenFrom_append (.ok byteLen) walked extension
            have moreEq : utf8PrefixLen (input ++ extension) charLen = .ok (some byteLen) := more
            simp only [moreEq]
            cases read : takeBytes byteLen input with
            | error err => trivial
            | ok pair =>
                obtain ⟨raw, rest⟩ := pair
                simp only [takeBytes_append read extension]
                cases Utf8.decode raw with
                | none => rfl
                | some value => rfl

theorem parseElement_stable : Stable parseElement := by
  intro input extension
  cases input with
  | nil => trivial
  | cons b input =>
      simp only [parseElement, List.cons_append]
      by_cases digit : isAsciiDigit b = true
      · simp only [if_pos digit]
        cases read : takeWhileRange 1 maxLengthDigits isAsciiDigit (b :: input) with
        | error err =>
            -- a leading digit is always taken
            exfalso
            simp [takeWhileRange, maxLengthDigits, List.takeWhile_cons_of_pos digit] at read
        | ok pair =>
            obtain ⟨digits, left⟩ := pair
            cases left with
            | nil => trivial
            | cons mark rest =>
                have more := takeWhileRange_append read extension
                rw [List.cons_append] at more
                simp only [more]
                by_cases point : mark = dot
                · simp only [if_pos point]
                  exact parseValue_stable _ rest extension
                · simp only [if_neg point]
                  rfl
      · simp only [if_neg digit]
        rfl

theorem parseTurn_decreasing (opcode : Text) : Loop.Decreasing argsLeft (parseTurn opcode) := by
  rintro ⟨args, input⟩ ⟨next, left⟩ turned
  cases input with
  | nil => cases turned
  | cons b rest =>
      simp only [parseTurn] at turned
      split at turned
      · cases turned
      · split at turned
        · split at turned
          · cases turned
          · next room =>
              split at turned
              · cases turned
              · obtain ⟨rfl, -⟩ := Prod.mk.inj (Sum.inl.inj turned)
                simp only [argsLeft, List.length_append, List.length_singleton]
                omega
        · cases turned

theorem parseArgs_eq (opcode : Text) (args : List Text) (input : Bytes) :
    parseArgs opcode args input =
      match parseTurn opcode (args, input) with
      | .inl next => parseArgs opcode next.1 next.2
      | .inr result => result := by
  rw [parseArgs, Loop.run_eq (parseTurn_decreasing opcode)]
  cases parseTurn opcode (args, input) <;> rfl

theorem parseTurn_append (opcode : Text) (args : List Text) (input extension : Bytes) :
    match parseTurn opcode (args, input) with
    | .inl next => parseTurn opcode (args, input ++ extension) =
        .inl (next.1, next.2 ++ extension)
    | .inr result => ∃ later, parseTurn opcode (args, input ++ extension) = .inr later ∧
        Extends result later extension ∨ result = .error .backtrack := by
  cases input with
  | nil => exact ⟨.error .backtrack, Or.inr rfl⟩
  | cons b rest =>
      simp only [parseTurn, List.cons_append]
      by_cases closing : b = semicolon
      · simp only [if_pos closing]
        exact ⟨_, Or.inl ⟨rfl, rfl⟩⟩
      · simp only [if_neg closing]
        by_cases separator : b = comma
        · simp only [if_pos separator]
          by_cases full : args.length + 1 ≥ maxInstructionElements
          · simp only [if_pos full]
            exact ⟨_, Or.inl ⟨rfl, rfl⟩⟩
          · simp only [if_neg full]
            have stable := parseElement_stable rest extension
            cases read : parseElement rest with
            | error err =>
                rw [read] at stable
                cases err with
                | backtrack => exact ⟨.error .backtrack, Or.inr rfl⟩
                | cut =>
                    simp only [Extends] at stable
                    simp only [stable]
                    exact ⟨_, Or.inl ⟨rfl, rfl⟩⟩
            | ok pair =>
                rw [read] at stable
                simp only [Extends] at stable
                simp only [stable]
        · simp only [if_neg separator]
          exact ⟨_, Or.inl ⟨rfl, rfl⟩⟩

theorem parseArgs_stable (opcode : Text) (args : List Text) :
    Stable (parseArgs opcode args) := by
  intro input extension
  -- the loop state of the longer input is the same arguments over more bytes
  refine Loop.run_induction (parseTurn_decreasing opcode)
    (fun state result => Extends result (parseArgs opcode state.1 (state.2 ++ extension)) extension)
    ?_ ?_ (args, input)
  · rintro ⟨args, input⟩ result turned
    have step := parseTurn_append opcode args input extension
    rw [turned] at step
    obtain ⟨later, ⟨turnedLater, kept⟩ | rfl⟩ := step
    · simp only [parseArgs_eq opcode args (input ++ extension), turnedLater]
      exact kept
    · trivial
  · rintro ⟨args, input⟩ next result turned carried
    have step := parseTurn_append opcode args input extension
    rw [turned] at step
    simp only [parseArgs_eq opcode args (input ++ extension), step]
    exact carried

theorem parseInstruction_stable : Stable parseInstruction := by
  intro input extension
  have element := parseElement_stable input extension
  unfold parseInstruction
  cases read : parseElement input with
  | error err =>
      rw [read] at element
      cases err with
      | backtrack => trivial
      | cut =>
          simp only [Extends] at element
          simp only [element]
          rfl
  | ok pair =>
      rw [read] at element
      simp only [Extends] at element
      simp only [element]
      exact parseArgs_stable pair.1 [] pair.2 extension

theorem tryParse_accepted_append {buf : Bytes} {instruction : GuacInstruction} {n : Nat}
    (parsed : tryParseInstruction buf = .ok (some (instruction, n))) (extension : Bytes) :
    tryParseInstruction (buf ++ extension) = .ok (some (instruction, n)) := by
  have stable := parseInstruction_stable buf extension
  unfold tryParseInstruction at *
  cases read : parseInstruction buf with
  | error err => cases err <;> simp [read] at parsed
  | ok pair =>
      rw [read] at stable
      simp only [Extends] at stable
      simp only [read, Except.ok.injEq, Option.some.injEq, Prod.mk.injEq] at parsed
      simp only [stable, List.length_append, Except.ok.injEq, Option.some.injEq, Prod.mk.injEq]
      exact ⟨parsed.1, by omega⟩

theorem tryParse_refused_append {buf : Bytes} {err : WireError}
    (refused : tryParseInstruction buf = .error err) (extension : Bytes) :
    tryParseInstruction (buf ++ extension) = .error err := by
  have stable := parseInstruction_stable buf extension
  unfold tryParseInstruction at *
  cases read : parseInstruction buf with
  | ok pair => simp [read] at refused
  | error mode =>
      rw [read] at stable
      cases mode with
      | backtrack => simp [read] at refused
      | cut =>
          simp only [Extends] at stable
          simp only [read] at refused
          simp only [stable]
          exact refused

theorem tryParse_length_le {buf : Bytes} {instruction : GuacInstruction} {n : Nat}
    (parsed : tryParseInstruction buf = .ok (some (instruction, n))) : n ≤ buf.length := by
  unfold tryParseInstruction at parsed
  cases read : parseInstruction buf with
  | error mode => cases mode <;> simp [read] at parsed
  | ok pair =>
      simp only [read, Except.ok.injEq, Option.some.injEq, Prod.mk.injEq] at parsed
      omega

theorem parseValue_shorter {charLen : Nat} {input rest : Bytes} {value : Text}
    (read : parseValue charLen input = .ok (value, rest)) : rest.length ≤ input.length := by
  unfold parseValue at read
  split at read
  · cases read
  · split at read
    · cases read
    · cases read
    · split at read
      · cases read
      · next raw left taken =>
          split at read
          · cases read
          · obtain ⟨-, rfl⟩ := Prod.mk.inj (Except.ok.inj read)
            unfold takeBytes at taken
            split at taken
            · cases taken
            · obtain ⟨-, rfl⟩ := Prod.mk.inj (Except.ok.inj taken)
              rw [List.length_drop]
              omega

theorem parseElement_shorter {input rest : Bytes} {value : Text}
    (read : parseElement input = .ok (value, rest)) : rest.length < input.length := by
  cases input with
  | nil => cases read
  | cons b input =>
      simp only [parseElement] at read
      split at read
      · split at read
        · cases read
        · cases read
        · next digits mark left taken =>
            split at read
            · have shorter := parseValue_shorter read
              unfold takeWhileRange at taken
              dsimp only at taken
              split at taken
              · cases taken
              · have dropped := congrArg List.length (Prod.mk.inj (Except.ok.inj taken)).2
                simp only [List.length_drop, List.length_cons] at dropped ⊢
                omega
            · cases read
      · cases read

theorem parseArgs_shorter (opcode : Text) (args : List Text) (input : Bytes) :
    ∀ instruction rest, parseArgs opcode args input = .ok (instruction, rest) →
      rest.length < input.length := by
  refine Loop.run_induction (parseTurn_decreasing opcode)
    (fun state result => ∀ instruction rest, result = .ok (instruction, rest) →
      rest.length < state.2.length) ?_ ?_ (args, input)
  · rintro ⟨args, input⟩ result turned instruction rest accepted
    subst accepted
    cases input with
    | nil => cases turned
    | cons b input =>
        simp only [parseTurn] at turned
        split at turned
        · obtain ⟨-, rfl⟩ := Prod.mk.inj (Except.ok.inj (Sum.inr.inj turned))
          exact Nat.lt_succ_self _
        · split at turned
          · split at turned
            · cases turned
            · split at turned <;> cases turned
          · cases turned
  · rintro ⟨args, input⟩ next result turned carried instruction rest accepted
    have tail := carried instruction rest accepted
    cases input with
    | nil => cases turned
    | cons b input =>
        simp only [parseTurn] at turned
        split at turned
        · cases turned
        · split at turned
          · split at turned
            · cases turned
            · split at turned
              · cases turned
              · next arg left read =>
                  have shorter := parseElement_shorter read
                  rw [← Sum.inl.inj turned] at tail
                  simp only [List.length_cons] at tail ⊢
                  omega
          · cases turned

theorem tryParse_progress {buf : Bytes} {instruction : GuacInstruction} {n : Nat}
    (parsed : tryParseInstruction buf = .ok (some (instruction, n))) : 0 < n := by
  unfold tryParseInstruction parseInstruction at parsed
  cases first : parseElement buf with
  | error mode => cases mode <;> simp [first] at parsed
  | ok pair =>
      simp only [first] at parsed
      cases tail : parseArgs pair.1 [] pair.2 with
      | error mode => cases mode <;> simp [tail] at parsed
      | ok left =>
          have element := parseElement_shorter first
          have args := parseArgs_shorter pair.1 [] pair.2 left.1 left.2 tail
          simp only [tail, Except.ok.injEq, Option.some.injEq, Prod.mk.injEq] at parsed
          omega

theorem tryParse_step : StableStep tryParseInstruction where
  accepted := fun parsed more => tryParse_accepted_append parsed more
  refused := fun refused more => tryParse_refused_append refused more
  progress := fun parsed => ⟨tryParse_progress parsed, tryParse_length_le parsed⟩

theorem tryParse_take_incomplete {buf : Bytes} {instruction : GuacInstruction} {n k : Nat}
    (parsed : tryParseInstruction buf = .ok (some (instruction, n))) (proper : k < n) :
    tryParseInstruction (buf.take k) = .ok none := by
  cases early : tryParseInstruction (buf.take k) with
  | error err =>
      have later := tryParse_refused_append early (buf.drop k)
      rw [List.take_append_drop, parsed] at later
      cases later
  | ok outcome =>
      cases outcome with
      | none => rfl
      | some pair =>
          -- an instruction read early would be the one read from the whole buffer
          have later := tryParse_accepted_append early (buf.drop k)
          have length := tryParse_length_le early
          rw [List.take_append_drop, parsed, Except.ok.injEq, Option.some.injEq] at later
          have same : n = pair.2 := (Prod.mk.inj later).2
          rw [List.length_take] at length
          omega

/-- The parser is stable under more input: what it accepts or refuses it keeps
accepting or refusing, and every cut of an accepted instruction asks for more. -/
theorem try_parse_stable :
    (∀ buf extension instruction n, tryParseInstruction buf = .ok (some (instruction, n)) →
      tryParseInstruction (buf ++ extension) = .ok (some (instruction, n))) ∧
    (∀ buf extension err, tryParseInstruction buf = .error err →
      tryParseInstruction (buf ++ extension) = .error err) ∧
    (∀ buf instruction n, tryParseInstruction buf = .ok (some (instruction, n)) →
      ∀ k < n, tryParseInstruction (buf.take k) = .ok none) := by
  refine ⟨?_, ?_, ?_⟩
  · intro buf extension instruction n parsed
    exact tryParse_accepted_append parsed extension
  · intro buf extension err refused
    exact tryParse_refused_append refused extension
  · intro buf instruction n parsed k proper
    exact tryParse_take_incomplete parsed proper

theorem try_parse_stable_clipboard :
    tryParseInstruction (Utf8.encode "4.clip,2.é;;3".toList) =
        .ok (some (⟨"clip".toList, ["é;".toList]⟩, 13)) ∧
      tryParseInstruction (Utf8.encode "4.clip,2.é;;3.nop;".toList) =
        .ok (some (⟨"clip".toList, ["é;".toList]⟩, 13)) ∧
      tryParseInstruction ((Utf8.encode "4.clip,2.é;;3".toList).take 10) = .ok none ∧
      tryParseInstruction (Utf8.encode "4,clip".toList) = .error .malformed := by
  have parsed : tryParseInstruction (Utf8.encode "4.clip,2.é;;3".toList) =
      .ok (some (⟨"clip".toList, ["é;".toList]⟩, 13)) := by decide
  have split : Utf8.encode "4.clip,2.é;;3.nop;".toList =
      Utf8.encode "4.clip,2.é;;3".toList ++ Utf8.encode ".nop;".toList := by decide
  have refused : tryParseInstruction (Utf8.encode "4,".toList) = .error .malformed := by decide
  have further : Utf8.encode "4,clip".toList =
      Utf8.encode "4,".toList ++ Utf8.encode "clip".toList := by decide
  refine ⟨parsed, ?_, try_parse_stable.2.2 _ _ _ parsed 10 (by decide), ?_⟩
  · rw [split]
    exact try_parse_stable.1 _ _ _ _ parsed
  · rw [further]
    exact try_parse_stable.2.1 _ _ _ refused

end Strata.Protocol.Guacamole
