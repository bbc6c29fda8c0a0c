import Mathlib.Tactic
import Strata.Lib.Machine
import Strata.Lib.Utf8

/-! Keysyms as the bytes of a terminal, and the modifiers held meanwhile (`keymap.rs`). -/

namespace Strata.Engine.Rdp

def charFromU32 (code : Nat) : Option Char :=
  if code.isValidChar then some (Char.ofNat code) else none

def keysymToChar (keysym : Nat) : Option Char :=
  if 0x20 ≤ keysym ∧ keysym ≤ 0xff then charFromU32 keysym
  else if 0x01000000 ≤ keysym ∧ keysym ≤ 0x0110ffff then charFromU32 (keysym - 0x01000000)
  else none

def isControl (c : Char) : Bool := c.toNat < 0x20 || (0x7f ≤ c.toNat && c.toNat ≤ 0x9f)

end Strata.Engine.Rdp

namespace Strata.Engine.Pty

open Utf8 (Text Bytes)
open Rdp (keysymToChar)

structure Modifiers where
  ctrl : Bool
  alt : Bool
  shift : Bool
  deriving DecidableEq, Repr

def Modifiers.track (mods : Modifiers) (keysym : Nat) (pressed : Bool) : Modifiers × Bool :=
  if keysym = 0xffe1 ∨ keysym = 0xffe2 then ({ mods with shift := pressed }, true)
  else if keysym = 0xffe3 ∨ keysym = 0xffe4 then ({ mods with ctrl := pressed }, true)
  else if 0xffe7 ≤ keysym ∧ keysym ≤ 0xffea then ({ mods with alt := pressed }, true)
  else (mods, false)

inductive Backspace where
  | delete
  | backspace
  deriving DecidableEq, Repr

def Backspace.byte : Backspace → UInt8
  | .delete => 0x7f
  | .backspace => 0x08

def namedKeys : List (Nat × String) :=
  [(0xff08, "\x7f"), (0xff09, "\t"), (0xff0d, "\r"), (0xff1b, "\x1b"), (0xff50, "\x1b[H"),
    (0xff51, "\x1b[D"), (0xff52, "\x1b[A"), (0xff53, "\x1b[C"), (0xff54, "\x1b[B"),
    (0xff55, "\x1b[5~"), (0xff56, "\x1b[6~"), (0xff57, "\x1b[F"), (0xff63, "\x1b[2~"),
    (0xffff, "\x1b[3~"), (0xffbe, "\x1bOP"), (0xffbf, "\x1bOQ"), (0xffc0, "\x1bOR"),
    (0xffc1, "\x1bOS"), (0xffc2, "\x1b[15~"), (0xffc3, "\x1b[17~"), (0xffc4, "\x1b[18~"),
    (0xffc5, "\x1b[19~"), (0xffc6, "\x1b[20~"), (0xffc7, "\x1b[21~"), (0xffc8, "\x1b[23~"),
    (0xffc9, "\x1b[24~"), (0xff8d, "\r")]

def namedKey (keysym : Nat) : Option Bytes :=
  (namedKeys.find? fun row => row.1 = keysym).map fun row => Utf8.encode row.2.toList

def keypadChars : List (Nat × Char) :=
  [(0xffaa, '*'), (0xffab, '+'), (0xffac, ','), (0xffad, '-'), (0xffae, '.'), (0xffaf, '/'),
    (0xffbd, '=')]

/-- The character a numeric keypad key types with Num Lock on. -/
def keypadChar (keysym : Nat) : Option Char :=
  if 0xffb0 ≤ keysym ∧ keysym ≤ 0xffb9 then some (Nat.digitChar (keysym - 0xffb0))
  else (keypadChars.find? fun row => row.1 = keysym).map fun row => row.2

def controlCode (ch : Char) : Option UInt8 :=
  if 'a' ≤ ch ∧ ch ≤ 'z' then some (UInt8.ofNat (ch.toNat - 'a'.toNat + 1))
  else if 'A' ≤ ch ∧ ch ≤ 'Z' then some (UInt8.ofNat (ch.toNat - 'A'.toNat + 1))
  else if ch = '@' ∨ ch = ' ' then some 0x00
  else if ch = '[' then some 0x1b
  else if ch = '\\' then some 0x1c
  else if ch = ']' then some 0x1d
  else if ch = '^' then some 0x1e
  else if ch = '_' ∨ ch = '?' then some 0x1f
  else none

/-- Ctrl with anything else passes the first byte of the character. -/
def controlChar (ch : Char) : Option UInt8 :=
  (controlCode ch).or (String.utf8EncodeChar ch).head?

def typedChar (keysym : Nat) : Option Char := (keysymToChar keysym).or (keypadChar keysym)

def printable (keysym : Nat) (mods : Modifiers) : Option Bytes :=
  (typedChar keysym).bind fun ch =>
    if mods.ctrl then (controlChar ch).map ([·]) else some (String.utf8EncodeChar ch)

def backspaceKeysym : Nat := 0xff08

/-- Alt goes out as an ESC in front. -/
def keysymToBytesWith (keysym : Nat) (mods : Modifiers) (choice : Backspace) : Option Bytes :=
  let out :=
    if keysym = backspaceKeysym then some [choice.byte]
    else (namedKey keysym).or (printable keysym mods)
  out.map fun out => if mods.alt then 0x1b :: out else out

/-! ### Valid UTF-8 -/

theorem named_apart : ∀ row ∈ namedKeys, typedChar row.1 = none := by
  decide

theorem namedKey_of_typedChar {keysym : Nat} {ch : Char} (typed : typedChar keysym = some ch) :
    keysym ≠ backspaceKeysym ∧ namedKey keysym = none := by
  have apart : ∀ row ∈ namedKeys, row.1 ≠ keysym := by
    rintro row member rfl
    rw [named_apart row member] at typed
    cases typed
  constructor
  · exact fun same => apart (0xff08, "\x7f") List.mem_cons_self same.symm
  · rw [namedKey, List.find?_eq_none.mpr (by simpa using apart), Option.map_none]

def altMark (mods : Modifiers) : Bytes := if mods.alt then [0x1b] else []

theorem keysymToBytesWith_of_typedChar {keysym : Nat} {ch : Char}
    (typed : typedChar keysym = some ch) (mods : Modifiers) (choice : Backspace) :
    keysymToBytesWith keysym mods choice =
      (if mods.ctrl then (controlChar ch).map ([·]) else some (String.utf8EncodeChar ch)).map
        (altMark mods ++ ·) := by
  have unnamed := namedKey_of_typedChar typed
  rw [keysymToBytesWith, if_neg unnamed.1, unnamed.2, Option.none_or, printable, typed,
    Option.bind_some, altMark]
  cases mods.alt <;> rfl

theorem controlCode_ascii : ∀ n < 128, ∀ code ∈ controlCode (Char.ofNat n), code.toNat < 128 := by
  decide +kernel

theorem controlCode_of_large {ch : Char} (large : 128 ≤ ch.toNat) : controlCode ch = none := by
  have apart : ∀ small : Char, small.toNat < 128 → ch ≠ small := by
    rintro small below rfl
    omega
  have beyond : ∀ small : Char, small.toNat < 128 → ¬ ch ≤ small := by
    intro small below le
    have : ch.toNat ≤ small.toNat := le
    omega
  simp [controlCode, beyond 'z' (by decide), beyond 'Z' (by decide), apart '@' (by decide),
    apart ' ' (by decide), apart '[' (by decide), apart '\\' (by decide), apart ']' (by decide),
    apart '^' (by decide), apart '_' (by decide), apart '?' (by decide)]

theorem utf8EncodeChar_eq_singleton {ch : Char} {byte : UInt8} :
    String.utf8EncodeChar ch = [byte] → ch.toNat < 128 := by
  intro same
  have size := String.length_utf8EncodeChar ch
  rw [same, List.length_singleton] at size
  have bound : ch.val ≤ 127 := Char.utf8Size_eq_one_iff.mp size.symm
  exact Nat.lt_succ_of_le (UInt32.le_iff_toNat_le.mp bound)

theorem encode_altMark (mods : Modifiers) (text : Text) :
    ∃ whole, altMark mods ++ Utf8.encode text = Utf8.encode whole := by
  rw [altMark]
  split
  · exact ⟨'\x1b' :: text, rfl⟩
  · exact ⟨text, rfl⟩

theorem controlChar_ascii {ch : Char} (small : ch.toNat < 128) :
    ∃ byte c, controlChar ch = some byte ∧ [byte] = Utf8.encode [c] ∧
      (controlCode ch = none → [byte] = String.utf8EncodeChar ch) := by
  have alone : String.utf8EncodeChar ch = [UInt8.ofNat ch.toNat] := by
    rw [← Utf8.encodeChar_ascii ch.toNat small, Char.ofNat_toNat]
  rw [controlChar]
  cases coded : controlCode ch with
  | none =>
      refine ⟨UInt8.ofNat ch.toNat, ch, ?_, ?_, fun _ => alone.symm⟩
      · rw [alone]
        rfl
      · rw [Utf8.encode_cons, alone]
        rfl
  | some code =>
      have low : code.toNat < 128 := by
        apply controlCode_ascii ch.toNat small
        rw [Char.ofNat_toNat, coded]
        rfl
      refine ⟨code, Char.ofNat code.toNat, rfl, ?_, nofun⟩
      rw [Utf8.encode_cons, Utf8.encodeChar_ascii code.toNat low, UInt8.ofNat_toNat]
      rfl

theorem valid_of_named {keysym : Nat} (untyped : typedChar keysym = none) {mods : Modifiers}
    {choice : Backspace} {out : Bytes}
    (sent : keysymToBytesWith keysym mods choice = some out) : ∃ text, out = Utf8.encode text := by
  rw [keysymToBytesWith, printable, untyped, Option.bind_none, Option.or_none,
    Option.map_eq_some_iff] at sent
  obtain ⟨bytes, made, rfl⟩ := sent
  obtain ⟨text, rfl⟩ : ∃ text, bytes = Utf8.encode text := by
    split at made
    · cases made
      cases choice with
      | delete => exact ⟨['\x7f'], rfl⟩
      | backspace => exact ⟨['\x08'], rfl⟩
    · rw [namedKey, Option.map_eq_some_iff] at made
      obtain ⟨row, -, rfl⟩ := made
      exact ⟨row.2.toList, rfl⟩
  split
  · exact ⟨'\x1b' :: text, rfl⟩
  · exact ⟨text, rfl⟩

theorem valid_of_typedChar {keysym : Nat} {ch : Char} (typed : typedChar keysym = some ch)
    {mods : Modifiers} (ascii : mods.ctrl = true → ch.toNat < 128) {choice : Backspace}
    {out : Bytes} (sent : keysymToBytesWith keysym mods choice = some out) :
    ∃ text, out = Utf8.encode text := by
  rw [keysymToBytesWith_of_typedChar typed, Option.map_eq_some_iff] at sent
  obtain ⟨bytes, made, rfl⟩ := sent
  split at made
  · rename_i ctrl
    obtain ⟨byte, c, read, valid, -⟩ := controlChar_ascii (ascii ctrl)
    rw [read] at made
    cases made
    change ∃ text, altMark mods ++ [byte] = _
    rw [valid]
    exact encode_altMark mods [c]
  · cases made
    rw [← List.append_nil (String.utf8EncodeChar ch)]
    exact encode_altMark mods [ch]

/-- The bytes are valid UTF-8, and with Ctrl the whole of a character without a control code,
exactly if no character beyond ASCII is typed with Ctrl. -/
theorem keysymToBytesWith_utf8_iff (keysym : Nat) (mods : Modifiers) (choice : Backspace) :
    ((∀ out, keysymToBytesWith keysym mods choice = some out → ∃ text, out = Utf8.encode text) ∧
        ∀ ch, typedChar keysym = some ch → mods.ctrl = true → controlCode ch = none →
          keysymToBytesWith keysym mods choice =
            some (altMark mods ++ String.utf8EncodeChar ch)) ↔
      ∀ ch, typedChar keysym = some ch → mods.ctrl = true → ch.toNat < 128 := by
  constructor
  · rintro ⟨-, whole⟩ ch typed ctrl
    by_contra large
    have uncoded := controlCode_of_large (Nat.le_of_not_lt large)
    have bytes := whole ch typed ctrl uncoded
    rw [keysymToBytesWith_of_typedChar typed, if_pos ctrl, controlChar, uncoded,
      Option.none_or] at bytes
    cases first : (String.utf8EncodeChar ch).head? with
    | none =>
        rw [first] at bytes
        cases bytes
    | some byte =>
        rw [first, Option.map_some, Option.map_some, Option.some.injEq] at bytes
        exact large (utf8EncodeChar_eq_singleton (List.append_cancel_left bytes).symm)
  · intro ascii
    constructor
    · intro out sent
      cases typed : typedChar keysym with
      | none => exact valid_of_named typed sent
      | some ch => exact valid_of_typedChar typed (ascii ch typed) sent
    · intro ch typed ctrl uncoded
      obtain ⟨byte, c, sent, -, whole⟩ := controlChar_ascii (ascii ch typed ctrl)
      rw [keysymToBytesWith_of_typedChar typed, if_pos ctrl, sent, ← whole uncoded]
      rfl

/-- Ctrl with an e acute sends the first of its two bytes. -/
theorem ctrl_cuts_character :
    keysymToBytesWith 0xe9 ⟨true, false, false⟩ .delete = some [0xc3] ∧
      Utf8.decode [0xc3] = none ∧ controlCode 'é' = none ∧
      keysymToBytesWith 0xe9 ⟨true, false, false⟩ .delete ≠ some (String.utf8EncodeChar 'é') := by
  decide +kernel

/-! ### Modifiers -/

inductive Modifier where
  | ctrl
  | alt
  | shift
  deriving DecidableEq, Repr

def Modifiers.has (mods : Modifiers) : Modifier → Bool
  | .ctrl => mods.ctrl
  | .alt => mods.alt
  | .shift => mods.shift

def modifierOf (keysym : Nat) : Option Modifier :=
  if keysym ∈ [0xffe1, 0xffe2] then some .shift
  else if keysym ∈ [0xffe3, 0xffe4] then some .ctrl
  else if keysym ∈ [0xffe7, 0xffe8, 0xffe9, 0xffea] then some .alt
  else none

theorem has_track (mods : Modifiers) (keysym : Nat) (pressed : Bool) (modifier : Modifier) :
    (mods.track keysym pressed).1.has modifier =
      if modifierOf keysym = some modifier then pressed else mods.has modifier := by
  have four : keysym ∈ [0xffe7, 0xffe8, 0xffe9, 0xffea] ↔ 0xffe7 ≤ keysym ∧ keysym ≤ 0xffea := by
    simp only [List.mem_cons, List.not_mem_nil, or_false]
    omega
  simp only [Modifiers.track, modifierOf, four, List.mem_cons, List.not_mem_nil, or_false]
  by_cases shift : keysym = 0xffe1 ∨ keysym = 0xffe2
  · simp only [if_pos shift]
    cases modifier <;> rfl
  by_cases ctrl : keysym = 0xffe3 ∨ keysym = 0xffe4
  · simp only [if_neg shift, if_pos ctrl]
    cases modifier <;> rfl
  by_cases alt : 0xffe7 ≤ keysym ∧ keysym ≤ 0xffea
  · simp only [if_neg shift, if_neg ctrl, if_pos alt]
    cases modifier <;> rfl
  · simp only [if_neg shift, if_neg ctrl, if_neg alt]
    rfl

structure KeyInput where
  keysym : Nat
  pressed : Bool
  deriving DecidableEq, Repr

/-- An engine's modifiers, beside the keys that are held. -/
structure Keyboard where
  modifiers : Modifiers
  held : Finset Nat
  deriving DecidableEq

def Keyboard.start : Keyboard := ⟨⟨false, false, false⟩, ∅⟩

def Keyboard.step (keyboard : Keyboard) (input : KeyInput) : Keyboard × List Empty :=
  ({ modifiers := (keyboard.modifiers.track input.keysym input.pressed).1
     held := if input.pressed then insert input.keysym keyboard.held
       else keyboard.held.erase input.keysym }, [])

def Keyboard.Matches (keyboard : Keyboard) : Prop :=
  ∀ modifier, keyboard.modifiers.has modifier = true ↔
    ∃ key ∈ keyboard.held, modifierOf key = some modifier

/-- A modifier key is released as the last one held of its modifier. -/
def Keyboard.ReleasesLast (keyboard : Keyboard) (input : KeyInput) : Prop :=
  input.pressed = false → ∀ key ∈ keyboard.held, key ≠ input.keysym →
    modifierOf key = modifierOf input.keysym → modifierOf key = none

theorem step_matches_iff {keyboard : Keyboard} (agrees : keyboard.Matches) (input : KeyInput) :
    (keyboard.step input).1.Matches ↔ keyboard.ReleasesLast input := by
  obtain ⟨keysym, pressed⟩ := input
  cases pressed with
  | true =>
      refine iff_of_true (fun modifier => ?_) nofun
      simp only [Keyboard.step, has_track, if_true, Finset.exists_mem_insert]
      by_cases mine : modifierOf keysym = some modifier
      · rw [if_pos mine]
        exact iff_of_true rfl (.inl mine)
      · rw [if_neg mine, or_iff_right mine]
        exact agrees modifier
  | false =>
      constructor
      · intro after _ key member apart same
        by_contra mapped
        obtain ⟨modifier, mine⟩ := Option.ne_none_iff_exists'.mp mapped
        have set := (after modifier).mpr ⟨key, Finset.mem_erase.mpr ⟨apart, member⟩, mine⟩
        simp only [Keyboard.step, has_track] at set
        rw [if_pos (same ▸ mine)] at set
        cases set
      · intro last modifier
        simp only [Keyboard.step, has_track, Bool.false_eq_true, if_false]
        by_cases mine : modifierOf keysym = some modifier
        · rw [if_pos mine]
          refine iff_of_false Bool.false_ne_true ?_
          rintro ⟨key, member, also⟩
          have held := Finset.mem_erase.mp member
          have unmapped := last rfl key held.2 held.1 (also.trans mine.symm)
          rw [unmapped] at also
          cases also
        · rw [if_neg mine, agrees modifier]
          constructor
          · rintro ⟨key, member, also⟩
            refine ⟨key, Finset.mem_erase.mpr ⟨?_, member⟩, also⟩
            rintro rfl
            exact mine also
          · rintro ⟨key, member, also⟩
            exact ⟨key, Finset.mem_of_mem_erase member, also⟩

/-- The modifiers match the keys that are held, throughout a sequence of key events, exactly if
every modifier key is released as the last one of its modifier. -/
theorem modifiers_match_iff (inputs : List KeyInput) :
    (∀ past, past <+: inputs → (Machine.run Keyboard.step .start past).1.Matches) ↔
      Machine.Meets Keyboard.step Keyboard.ReleasesLast .start inputs := by
  have starts : Keyboard.start.Matches := by
    intro modifier
    cases modifier <;> simp [Keyboard.start, Modifiers.has]
  exact Machine.kept_iff_meets Keyboard.Matches starts starts
    (fun _ input agrees last => (step_matches_iff agrees input).mpr last)
    (fun _ input agrees => step_matches_iff agrees input) inputs

/-- Both Shift keys go down and the left one comes up. -/
theorem shift_lost :
    (Machine.run Keyboard.step .start [⟨0xffe1, true⟩, ⟨0xffe2, true⟩, ⟨0xffe1, false⟩]).1 =
        ⟨⟨false, false, false⟩, {0xffe2}⟩ ∧
      ¬ (Machine.run Keyboard.step .start
        [⟨0xffe1, true⟩, ⟨0xffe2, true⟩, ⟨0xffe1, false⟩]).1.Matches := by
  have reached : (Machine.run Keyboard.step .start
      [⟨0xffe1, true⟩, ⟨0xffe2, true⟩, ⟨0xffe1, false⟩]).1 =
        ⟨⟨false, false, false⟩, {0xffe2}⟩ := by decide
  refine ⟨reached, fun agrees => ?_⟩
  rw [reached] at agrees
  exact absurd ((agrees .shift).mpr ⟨0xffe2, Finset.mem_singleton_self _, rfl⟩) (by decide)

end Strata.Engine.Pty
