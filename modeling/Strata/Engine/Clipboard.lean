import Mathlib.Tactic
import Strata.Lib.RustStr

/-! Clipboard text between the browser and an RDP target (`rdp/clipboard.rs`): UTF-16 with
carriage returns on the wire, UTF-8 with bare newlines at the client. -/

namespace Strata.Engine.Rdp

open Utf8 (Text Bytes)
open RustStr (replace)

abbrev ClipboardFormatId := UInt32

def cfUnicodeText : ClipboardFormatId := 13

/-- The texts of the RDP library's format data responses. -/
structure ResponseText where
  newUnicodeString : Text → Bytes
  newString : Text → Bytes

def IsSurrogate (unit : UInt16) : Prop := 0xd800 ≤ unit.toNat ∧ unit.toNat < 0xe000

instance (unit : UInt16) : Decidable (IsSurrogate unit) := instDecidableAnd

def encodeUtf16 (c : Char) : List UInt16 :=
  if c.toNat < 0x10000 then [UInt16.ofNat c.toNat]
  else
    [UInt16.ofNat (0xd800 + (c.toNat - 0x10000) / 0x400),
      UInt16.ofNat (0xdc00 + (c.toNat - 0x10000) % 0x400)]

/-- `String::from_utf16` -/
def decodeUtf16 : List UInt16 → Option Text
  | [] => some []
  | unit :: rest =>
      if ¬ IsSurrogate unit then (decodeUtf16 rest).map (Char.ofNat unit.toNat :: ·)
      else
        match rest with
        | [] => none
        | low :: rest =>
            if unit.toNat < 0xdc00 ∧ 0xdc00 ≤ low.toNat ∧ low.toNat < 0xe000 then
              (decodeUtf16 rest).map
                (Char.ofNat (0x10000 + (unit.toNat - 0xd800) * 0x400 + (low.toNat - 0xdc00)) :: ·)
            else none

def unitsLe : Bytes → List UInt16
  | low :: high :: rest => UInt16.ofNat (low.toNat + high.toNat * 256) :: unitsLe rest
  | _ => []

def crlf : Text := ['\r', '\n']

def decodeClipboard (format : ClipboardFormatId) (data : Bytes) : Option Bytes :=
  let text :=
    if format = cfUnicodeText then decodeUtf16 ((unitsLe data).takeWhile (· ≠ 0))
    else Utf8.decode (data.takeWhile (· ≠ 0))
  text.map fun text => Utf8.encode (replace crlf ['\n'] text)

def lineEndings (text : Text) : Text :=
  replace ['\r', '\r', '\n'] crlf (replace ['\n'] crlf text)

def encodeClipboard (response : ResponseText) (format : ClipboardFormatId) (text : Text) : Bytes :=
  if format = cfUnicodeText then response.newUnicodeString (lineEndings text)
  else response.newString (lineEndings text)

/-! ### UTF-16 -/

def unitLe (unit : UInt16) : Bytes := [UInt8.ofNat unit.toNat, UInt8.ofNat (unit.toNat / 256)]

def utf16Le (text : Text) : Bytes := (text.flatMap encodeUtf16).flatMap unitLe

theorem unitsLe_flatMap (units : List UInt16) : unitsLe (units.flatMap unitLe) = units := by
  induction units with
  | nil => rfl
  | cons unit units ih =>
      have small := unit.toNat_lt
      have value : unit.toNat % 256 + unit.toNat / 256 % 256 * 256 = unit.toNat := by omega
      rw [List.flatMap_cons, unitLe, List.cons_append, List.cons_append, List.nil_append, unitsLe,
        ih, UInt8.toNat_ofNat', UInt8.toNat_ofNat', value, UInt16.ofNat_toNat]

theorem decodeUtf16_append (c : Char) (rest : List UInt16) :
    decodeUtf16 (encodeUtf16 c ++ rest) = (decodeUtf16 rest).map (c :: ·) := by
  have valid := c.valid
  simp only [UInt32.isValidChar, Nat.isValidChar] at valid
  change c.toNat < _ ∨ _ < c.toNat ∧ c.toNat < _ at valid
  rw [encodeUtf16]
  split
  · rename_i small
    have unit : (UInt16.ofNat c.toNat).toNat = c.toNat := by
      rw [UInt16.toNat_ofNat']
      omega
    have plain : ¬ IsSurrogate (UInt16.ofNat c.toNat) := by
      rw [IsSurrogate, unit]
      omega
    rw [List.cons_append, List.nil_append, decodeUtf16.eq_def]
    dsimp only
    rw [if_pos plain, unit, Char.ofNat_toNat]
  · rename_i large
    have high : (UInt16.ofNat (0xd800 + (c.toNat - 0x10000) / 0x400)).toNat =
        0xd800 + (c.toNat - 0x10000) / 0x400 := by
      rw [UInt16.toNat_ofNat']
      omega
    have low : (UInt16.ofNat (0xdc00 + (c.toNat - 0x10000) % 0x400)).toNat =
        0xdc00 + (c.toNat - 0x10000) % 0x400 := by
      rw [UInt16.toNat_ofNat']
      omega
    have surrogate : IsSurrogate (UInt16.ofNat (0xd800 + (c.toNat - 0x10000) / 0x400)) := by
      rw [IsSurrogate, high]
      omega
    have value : 0x10000 + (c.toNat - 0x10000) / 0x400 * 0x400 + (c.toNat - 0x10000) % 0x400 =
        c.toNat := by omega
    rw [List.cons_append, List.cons_append, List.nil_append, decodeUtf16.eq_def]
    dsimp only
    rw [if_neg (not_not.mpr surrogate), high, low, if_pos (by omega), Nat.add_sub_cancel_left,
      Nat.add_sub_cancel_left, value, Char.ofNat_toNat]

theorem decodeUtf16_encode (text : Text) : decodeUtf16 (text.flatMap encodeUtf16) = some text := by
  induction text with
  | nil => rfl
  | cons c text ih => rw [List.flatMap_cons, decodeUtf16_append, ih, Option.map_some]

/-! ### Line endings -/

/-- The line endings in one pass: a newline gets the carriage return it lacks. -/
def endings : Text → Text
  | [] => []
  | '\r' :: '\n' :: rest => '\r' :: '\n' :: endings rest
  | '\n' :: rest => '\r' :: '\n' :: endings rest
  | c :: rest => c :: endings rest

def spread (text : Text) : Text := replace ['\n'] crlf text

theorem spread_newline (rest : Text) : spread ('\n' :: rest) = '\r' :: '\n' :: spread rest :=
  RustStr.replace_of_match '\n' [] crlf rest

theorem spread_other {c : Char} (other : c ≠ '\n') (rest : Text) :
    spread (c :: rest) = c :: spread rest := by
  apply RustStr.replace_of_other
  intro starts
  exact other (List.cons_prefix_cons.mp starts).1.symm

theorem spread_not_newline (text : Text) : ¬ ['\n'] <+: spread text := by
  intro starts
  cases text with
  | nil => cases List.prefix_nil.mp starts
  | cons c text =>
      by_cases newline : c = '\n'
      · rw [newline, spread_newline] at starts
        exact absurd (List.cons_prefix_cons.mp starts).1 (by decide)
      · rw [spread_other newline] at starts
        exact newline (List.cons_prefix_cons.mp starts).1.symm

theorem eq_newline_of_spread {text : Text} (starts : crlf <+: spread text) :
    ∃ rest, text = '\n' :: rest := by
  cases text with
  | nil => cases List.prefix_nil.mp starts
  | cons c text =>
      by_cases newline : c = '\n'
      · exact ⟨text, by rw [newline]⟩
      · rw [spread_other newline] at starts
        exact absurd (List.cons_prefix_cons.mp starts).2 (spread_not_newline text)

theorem lineEndings_eq (text : Text) : lineEndings text = endings text := by
  rw [lineEndings, ← spread]
  fun_induction endings text with
  | case1 => rfl
  | case2 rest ih =>
      rw [spread_other (by decide), spread_newline, ← ih]
      exact RustStr.replace_of_match '\r' ['\r', '\n'] crlf (spread rest)
  | case3 rest ih =>
      rw [spread_newline, RustStr.replace_of_other, RustStr.replace_of_other, ih]
      · intro starts
        exact absurd (List.cons_prefix_cons.mp starts).1 (by decide)
      · intro starts
        have second := (List.cons_prefix_cons.mp starts).2
        exact absurd (List.cons_prefix_cons.mp second).1 (by decide)
  | case4 c rest other plain ih =>
      rw [spread_other plain, RustStr.replace_of_other, ih]
      intro starts
      have parts := List.cons_prefix_cons.mp starts
      obtain ⟨more, shape⟩ := eq_newline_of_spread parts.2
      exact other more parts.1.symm shape

theorem endings_not_newline (text : Text) : ¬ ['\n'] <+: endings text := by
  fun_cases endings text with
  | case1 =>
      intro starts
      cases List.prefix_nil.mp starts
  | case2 rest | case3 rest =>
      intro starts
      exact absurd (List.cons_prefix_cons.mp starts).1 (by decide)
  | case4 c rest other plain =>
      intro starts
      exact plain (List.cons_prefix_cons.mp starts).1.symm

theorem replace_endings (text : Text) :
    replace crlf ['\n'] (endings text) = replace crlf ['\n'] text := by
  fun_induction endings text with
  | case1 => rfl
  | case2 rest ih =>
      have before := RustStr.replace_of_match '\r' ['\n'] ['\n'] (endings rest)
      have after := RustStr.replace_of_match '\r' ['\n'] ['\n'] rest
      exact before.trans ((congrArg (['\n'] ++ ·) ih).trans after.symm)
  | case3 rest ih =>
      have before := RustStr.replace_of_match '\r' ['\n'] ['\n'] (endings rest)
      refine before.trans ?_
      rw [RustStr.replace_of_other]
      · exact congrArg ('\n' :: ·) ih
      · intro starts
        exact absurd (List.cons_prefix_cons.mp starts).1 (by decide)
  | case4 c rest other plain ih =>
      rw [RustStr.replace_of_other, RustStr.replace_of_other, ih]
      · intro starts
        have parts := List.cons_prefix_cons.mp starts
        obtain ⟨more, shape⟩ := parts.2
        exact other more parts.1.symm shape.symm
      · intro starts
        exact endings_not_newline rest (List.cons_prefix_cons.mp starts).2

theorem endings_endings (text : Text) : endings (endings text) = endings text := by
  fun_induction endings text with
  | case1 => rfl
  | case2 rest ih => rw [endings, ih]
  | case3 rest ih => rw [endings, ih]
  | case4 c rest other plain ih =>
      rw [endings, ih]
      · rintro more rfl shape
        exact endings_not_newline rest ⟨more, shape.symm⟩
      · exact plain

theorem endings_newline {text front back : Text} (found : endings text = front ++ '\n' :: back) :
    ∃ start, front = start ++ ['\r'] := by
  fun_induction endings text generalizing front with
  | case1 => cases List.append_eq_nil_iff.mp found.symm |>.2
  | case2 rest ih | case3 rest ih =>
      match front, found with
      | [], found => cases found
      | [_], found =>
          obtain ⟨rfl, -⟩ := List.cons.inj found
          exact ⟨[], rfl⟩
      | one :: two :: front, found =>
          obtain ⟨start, rfl⟩ := ih (List.cons.inj (List.cons.inj found).2).2
          exact ⟨one :: two :: start, rfl⟩
  | case4 c rest other plain ih =>
      cases front with
      | nil => exact absurd (List.cons.inj found).1 plain
      | cons first front =>
          obtain ⟨start, rfl⟩ := ih (List.cons.inj found).2
          exact ⟨first :: start, rfl⟩

theorem endings_noNul {text : Text} (noNul : '\x00' ∉ text) : '\x00' ∉ endings text := by
  fun_induction endings text with
  | case1 => exact noNul
  | case2 rest ih => simpa using ih (by simpa using noNul)
  | case3 rest ih => simpa using ih (by simpa using noNul)
  | case4 c rest other plain ih =>
      rw [List.mem_cons, not_or] at noNul ⊢
      exact ⟨noNul.1, ih noNul.2⟩

theorem encodeUtf16_ne_zero {c : Char} (other : c ≠ '\x00') : ∀ unit ∈ encodeUtf16 c, unit ≠ 0 := by
  have positive : c.toNat ≠ 0 := by
    intro zero
    rw [← Char.ofNat_toNat c, zero] at other
    exact other rfl
  have valid := c.valid
  simp only [UInt32.isValidChar, Nat.isValidChar] at valid
  change c.toNat < _ ∨ _ < c.toNat ∧ c.toNat < _ at valid
  intro unit member
  rw [Ne, ← UInt16.toNat_inj, UInt16.toNat_zero]
  rw [encodeUtf16] at member
  split at member
  · rw [List.mem_singleton.mp member, UInt16.toNat_ofNat']
    omega
  · simp only [List.mem_cons, List.not_mem_nil, or_false] at member
    rcases member with rfl | rfl
    · rw [UInt16.toNat_ofNat']
      omega
    · rw [UInt16.toNat_ofNat']
      omega

/-- Text comes back with bare newlines, every newline on the wire has its carriage return, and
the rewriting of line endings is done once and for all. -/
theorem clipboard_round_trip (response : ResponseText)
    (unicode : ∀ text, response.newUnicodeString text = utf16Le text ++ unitLe 0) (text : Text)
    (noNul : '\x00' ∉ text) :
    decodeClipboard cfUnicodeText (encodeClipboard response cfUnicodeText text) =
        some (Utf8.encode (replace crlf ['\n'] text)) ∧
      (∀ front back, lineEndings text = front ++ '\n' :: back →
        ∃ start, front = start ++ ['\r']) ∧
      lineEndings (lineEndings text) = lineEndings text := by
  have units : unitsLe (encodeClipboard response cfUnicodeText text) =
      (endings text).flatMap encodeUtf16 ++ [0] := by
    have bytes : encodeClipboard response cfUnicodeText text =
        ((endings text).flatMap encodeUtf16 ++ [0]).flatMap unitLe := by
      rw [encodeClipboard, if_pos rfl, unicode, lineEndings_eq, utf16Le, List.flatMap_append]
      rfl
    rw [bytes, unitsLe_flatMap]
  have filled : ∀ unit ∈ (endings text).flatMap encodeUtf16, decide (unit ≠ 0) = true := by
    intro unit member
    obtain ⟨c, inside, here⟩ := List.mem_flatMap.mp member
    apply decide_eq_true
    apply encodeUtf16_ne_zero _ unit here
    rintro rfl
    exact endings_noNul noNul inside
  refine ⟨?_, ?_, ?_⟩
  · rw [decodeClipboard, if_pos rfl, units, List.takeWhile_append_of_pos filled]
    simp only [ne_eq, not_true_eq_false, decide_false, Bool.false_eq_true, not_false_eq_true,
      List.takeWhile_cons_of_neg, List.append_nil, decodeUtf16_encode, Option.map_some,
      replace_endings]
  · intro front back found
    rw [lineEndings_eq] at found
    exact endings_newline found
  · rw [lineEndings_eq, lineEndings_eq, endings_endings]

theorem clipboard_round_trip_mixed :
    decodeClipboard cfUnicodeText
        (encodeClipboard ⟨fun text => utf16Le text ++ unitLe 0, Utf8.encode⟩ cfUnicodeText
          "a\r\r\n𝄞\n\r".toList) =
      some (Utf8.encode "a\r\n𝄞\n\r".toList) :=
  (clipboard_round_trip ⟨fun text => utf16Le text ++ unitLe 0, Utf8.encode⟩ (fun _ => rfl)
    "a\r\r\n𝄞\n\r".toList (by decide)).1

end Strata.Engine.Rdp
