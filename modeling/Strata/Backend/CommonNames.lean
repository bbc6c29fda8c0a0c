import Mathlib.Tactic
import Strata.Lib.Hex
import Strata.Lib.RustStr

/-! The account name shown for a distinguished name: the value of its first `CN`, with the
escapes of RFC 4514 undone. A pair of hex digits is read as one character, whatever byte of a
character it is. -/

namespace Strata.Backend.CommonNames

open Utf8 (Text Bytes)
open RustStr (isWhitespace trim trimEnd trimStart)

/-- The value up to its comma. An escape at the very end stops the reading. -/
def readValue : Text → Text
  | [] => []
  | c :: rest =>
      if c = ',' then []
      else if c = '\\' then
        match rest with
        | [] => []
        | h1 :: rest =>
            match Hex.value? h1, rest with
            | some high, h2 :: rest =>
                match Hex.value? h2 with
                | some low => Char.ofNat (high * 16 + low) :: readValue rest
                | none => h1 :: readValue (h2 :: rest)
            | _, rest => h1 :: readValue rest
      else c :: readValue rest

def cnFromDn (dn : Text) : Option Text :=
  let key := dn.takeWhile (· != '=')
  if key.map Char.toLower = ['c', 'n'] then
    let trimmed := trim (readValue ((dn.dropWhile (· != '=')).drop 1))
    if trimmed = [] then none else some trimmed
  else none

/-! ### Escapings of RFC 4514 -/

def special : Text := ['"', '+', ',', ';', '<', '>', '\\', ' ', '#', '=']

def mustEscape : Text := ['"', '+', ',', ';', '<', '>', '\\', '\x00']

/-- One character of a value as it is written: as it is, behind a backslash, or as the hex
pairs of its UTF-8 bytes. -/
inductive Written where
  | plain (c : Char)
  | escaped (c : Char)
  | hex (c : Char) (pairs : List (Char × Char))

def pairByte (pair : Char × Char) : Option UInt8 :=
  (Hex.value? pair.1).bind fun high => (Hex.value? pair.2).map fun low =>
    UInt8.ofNat (high * 16 + low)

namespace Written

def char : Written → Char
  | plain c => c
  | escaped c => c
  | hex c _ => c

def text : Written → Text
  | plain c => [c]
  | escaped c => ['\\', c]
  | hex _ pairs => pairs.flatMap fun pair => ['\\', pair.1, pair.2]

/-- More is allowed than by the RFC, which also escapes a `#` or a space at the start. -/
def Valid : Written → Prop
  | plain c => c ∉ mustEscape
  | escaped c => c ∈ special
  | hex c pairs => pairs.map pairByte = (String.utf8EncodeChar c).map some

/-- No byte above 127 is written as a hex pair. -/
def Single : Written → Prop
  | hex c _ => c.toNat < 128
  | _ => True

def latin1 (byte : UInt8) : Char := Char.ofNat byte.toNat

def read : Written → Text
  | plain c => [c]
  | escaped c => [c]
  | hex c _ => (String.utf8EncodeChar c).map latin1

end Written

def valueOf (pieces : List Written) : Text := pieces.map Written.char

def escapedText (pieces : List Written) : Text := pieces.flatMap Written.text

/-! ### Reading an escaped value -/

theorem hexValue_lt {c : Char} {value : Nat} (read : Hex.value? c = some value) : value < 16 := by
  rw [Hex.value?, Option.ite_none_right_eq_some] at read
  rw [← Option.some.inj read.2]
  exact of_decide_eq_true read.1

theorem readValue_other {c : Char} (comma : c ≠ ',') (escape : c ≠ '\\') (rest : Text) :
    readValue (c :: rest) = c :: readValue rest := by
  rw [readValue.eq_def]
  simp only [if_neg comma, if_neg escape]

theorem readValue_escaped {c : Char} (other : Hex.value? c = none) (rest : Text) :
    readValue ('\\' :: c :: rest) = c :: readValue rest := by
  rw [readValue.eq_def]
  simp [other]

theorem readValue_pair {pair : Char × Char} {byte : UInt8} (read : pairByte pair = some byte)
    (rest : Text) :
    readValue ('\\' :: pair.1 :: pair.2 :: rest) = Written.latin1 byte :: readValue rest := by
  obtain ⟨high, first, more⟩ := Option.bind_eq_some_iff.mp read
  obtain ⟨low, second, rfl⟩ := Option.map_eq_some_iff.mp more
  have small : high * 16 + low < 256 := by
    have := hexValue_lt first
    have := hexValue_lt second
    omega
  rw [readValue.eq_def]
  simp [first, second, Written.latin1, Nat.mod_eq_of_lt small]

theorem readValue_pairs (pairs : List (Char × Char)) (rest : Text) :
    ∀ bytes : Bytes, pairs.map pairByte = bytes.map some →
      readValue ((pairs.flatMap fun pair => ['\\', pair.1, pair.2]) ++ rest) =
        bytes.map Written.latin1 ++ readValue rest := by
  induction pairs with
  | nil =>
      intro bytes read
      rw [List.map_eq_nil_iff.mp read.symm]
      rfl
  | cons pair pairs ih =>
      intro bytes read
      cases bytes with
      | nil => cases read
      | cons byte bytes =>
          obtain ⟨first, more⟩ := List.cons.inj read
          exact (readValue_pair first _).trans (congrArg _ (ih bytes more))

theorem readValue_written {piece : Written} (valid : piece.Valid) (rest : Text) :
    readValue (piece.text ++ rest) = piece.read ++ readValue rest := by
  cases piece with
  | plain c =>
      apply readValue_other
      · intro comma
        exact valid (by rw [comma]; decide)
      · intro escape
        exact valid (by rw [escape]; decide)
  | escaped c =>
      have table : special.all (fun c => (Hex.value? c).isNone) = true := by decide
      have other := List.all_eq_true.mp table c valid
      exact readValue_escaped (Option.isNone_iff_eq_none.mp other) rest
  | hex c pairs => exact readValue_pairs pairs rest _ valid

def Ends (tail : Text) : Prop := tail = [] ∨ tail.head? = some ','

theorem readValue_ends {tail : Text} (ends : Ends tail) : readValue tail = [] := by
  cases tail with
  | nil => rfl
  | cons c tail =>
      rcases ends with empty | comma
      · cases empty
      · rw [Option.some.inj comma, readValue.eq_def]
        rfl

theorem readValue_escapedText {pieces : List Written} (valid : ∀ piece ∈ pieces, piece.Valid)
    {tail : Text} (ends : Ends tail) :
    readValue (escapedText pieces ++ tail) = pieces.flatMap Written.read := by
  induction pieces with
  | nil => exact readValue_ends ends
  | cons piece pieces ih =>
      rw [List.forall_mem_cons] at valid
      rw [escapedText, List.flatMap_cons, List.append_assoc, readValue_written valid.1,
        List.flatMap_cons, ← escapedText, ih valid.2]

theorem cnFromDn_escaped {pieces : List Written} (valid : ∀ piece ∈ pieces, piece.Valid)
    {tail : Text} (ends : Ends tail) :
    cnFromDn ("CN=".toList ++ (escapedText pieces ++ tail)) =
      if trim (pieces.flatMap Written.read) = [] then none
      else some (trim (pieces.flatMap Written.read)) := by
  rw [← readValue_escapedText valid ends]
  rfl

/-! ### When the value comes back -/

theorem Written.read_of_single {piece : Written} (single : piece.Single) :
    piece.read = [piece.char] := by
  cases piece with
  | plain c => rfl
  | escaped c => rfl
  | hex c pairs =>
      have one := Utf8.encodeChar_ascii c.toNat single
      rw [Char.ofNat_toNat] at one
      have small : c.toNat < 256 := Nat.lt_trans single (by decide)
      rw [Written.read, one, List.map_singleton, latin1, UInt8.toNat_ofNat', Nat.mod_eq_of_lt small,
        Char.ofNat_toNat]
      rfl

theorem latin1_toNat (byte : UInt8) : (Written.latin1 byte).toNat = byte.toNat := by
  have table : ∀ n < 256, (Char.ofNat n).toNat = n := by decide +kernel
  exact table _ byte.toNat_lt

theorem latin1_lead {byte : UInt8} (low : 0xC2 ≤ byte.toNat) :
    isWhitespace (Written.latin1 byte) = false := by
  have high := byte.toNat_lt
  simp only [isWhitespace, latin1_toNat, Bool.or_eq_false_iff, Bool.and_eq_false_iff,
    decide_eq_false_iff_not, beq_eq_false_iff_ne]
  omega

theorem latin1_own_lead {c : Char} {lead : UInt8} {more : Bytes} (long : ¬ c.toNat < 128)
    (bytes : String.utf8EncodeChar c = lead :: more) (own : Written.latin1 lead = c) :
    ∃ d ∈ more.map Written.latin1, isWhitespace d = false := by
  have table : ∀ n < 256, 128 ≤ n →
      ((String.utf8EncodeChar (Char.ofNat n)).map Written.latin1).head? = some (Char.ofNat n) →
      ((String.utf8EncodeChar (Char.ofNat n)).map Written.latin1).tail.any
        (fun d => !isWhitespace d) = true := by decide +kernel
  have small : c.toNat < 256 := by
    rw [← own, latin1_toNat]
    exact lead.toNat_lt
  have found := table c.toNat small (by omega)
  rw [Char.ofNat_toNat, bytes, List.map_cons, List.head?_cons, List.tail_cons, own] at found
  obtain ⟨d, member, visible⟩ := List.any_eq_true.mp (found rfl)
  exact ⟨d, member, by simpa using visible⟩

theorem Written.read_of_not_single {piece : Written} (many : ¬ piece.Single) :
    ∃ lead more, piece.read = lead :: more ∧ more ≠ [] ∧ isWhitespace lead = false ∧
      (lead = piece.char → ∃ d ∈ more, isWhitespace d = false) := by
  cases piece with
  | plain c => exact absurd trivial many
  | escaped c => exact absurd trivial many
  | hex c pairs =>
      have shape (lead : UInt8) (more : Bytes) (bytes : String.utf8EncodeChar c = lead :: more)
          (filled : more ≠ []) (low : 0xC2 ≤ lead.toNat) :
          ∃ lead more, (Written.hex c pairs).read = lead :: more ∧ more ≠ [] ∧
            isWhitespace lead = false ∧ (lead = c → ∃ d ∈ more, isWhitespace d = false) := by
        refine ⟨latin1 lead, more.map latin1, ?_, ?_, latin1_lead low, latin1_own_lead many bytes⟩
        · rw [read, bytes, List.map_cons]
        · exact fun empty => filled (List.map_eq_nil_iff.mp empty)
      rcases Utf8.encodeChar_cases c with ⟨a, bytes, low, same⟩ | ⟨a, b, bytes, low, -⟩ |
        ⟨a, b, d, bytes, low, -⟩ | ⟨a, b, d, e, bytes, low, -⟩
      · exact absurd (show c.toNat < 128 by omega) many
      all_goals exact shape _ _ bytes (by simp) (by omega)

theorem Written.read_length (piece : Written) :
    1 ≤ piece.read.length ∧ (piece.read.length = 1 → piece.Single) := by
  by_cases single : piece.Single
  · rw [read_of_single single]
    exact ⟨le_rfl, fun _ => single⟩
  · obtain ⟨lead, more, shape, filled, -⟩ := read_of_not_single single
    have long := List.length_pos_iff.mpr filled
    rw [shape, List.length_cons]
    exact ⟨by omega, fun one => by omega⟩

theorem single_of_length (pieces : List Written) :
    pieces.length ≤ (pieces.flatMap Written.read).length ∧
      ((pieces.flatMap Written.read).length = pieces.length → ∀ piece ∈ pieces, piece.Single) := by
  induction pieces with
  | nil => exact ⟨le_rfl, fun _ piece member => by cases member⟩
  | cons piece pieces ih =>
      have first := piece.read_length
      rw [List.flatMap_cons, List.length_append, List.length_cons, List.forall_mem_cons]
      refine ⟨by omega, fun same => ⟨first.2 (by omega), ih.2 (by omega)⟩⟩

theorem flatMap_read_of_single {pieces : List Written}
    (single : ∀ piece ∈ pieces, piece.Single) :
    pieces.flatMap Written.read = valueOf pieces := by
  induction pieces with
  | nil => rfl
  | cons piece pieces ih =>
      rw [List.forall_mem_cons] at single
      rw [List.flatMap_cons, Written.read_of_single single.1, ih single.2]
      rfl

theorem trimStart_read {first : Written} (visible : isWhitespace first.char = false)
    (rest : Text) : trimStart (first.read ++ rest) = first.read ++ rest := by
  by_cases single : first.Single
  · rw [Written.read_of_single single]
    exact RustStr.trimStart_cons visible rest
  · obtain ⟨lead, more, shape, -, white, -⟩ := Written.read_of_not_single single
    rw [shape]
    exact RustStr.trimStart_cons white (more ++ rest)

/-- What is trimmed behind cannot make up for what the last character was read as. -/
theorem length_of_trimEnd {front : List Written} {last : Written}
    (visible : isWhitespace last.char = false)
    (same : trimEnd (front.flatMap Written.read ++ last.read) = valueOf (front ++ [last])) :
    (front.flatMap Written.read ++ last.read).length = (front ++ [last]).length := by
  by_cases single : last.Single
  · rw [Written.read_of_single single, RustStr.trimEnd_concat visible] at same
    rw [Written.read_of_single single, same, valueOf, List.length_map]
  · obtain ⟨lead, more, shape, filled, visible', own⟩ := Written.read_of_not_single single
    obtain ⟨blank, split, white⟩ :=
      RustStr.trimEnd_split (front.flatMap Written.read ++ last.read)
    have least := (single_of_length front).1
    have inside (member : lead ∈ blank) : False := by
      rw [white lead member] at visible'
      cases visible'
    rw [same, shape, valueOf, List.map_append, List.map_singleton] at split
    rcases List.append_eq_append_iff.mp split with ⟨kept, value, rest⟩ | ⟨read, -, tail⟩
    · cases kept with
      | nil =>
          rw [List.nil_append] at rest
          exact (inside (by rw [← rest]; simp)).elim
      | cons c kept =>
          -- The value holds all that was read before the last character, so it ends in `lead`.
          have lengths := congrArg List.length value
          simp only [List.length_append, List.length_map, List.length_cons,
            List.length_nil] at lengths
          have nothing : kept = [] := List.length_eq_zero_iff.mp (by omega)
          rw [nothing] at value rest
          obtain ⟨rfl, rfl⟩ := List.cons.inj rest
          have last := (List.append_inj' value rfl).2
          obtain ⟨d, member, visible''⟩ := own (List.cons.inj last).1.symm
          rw [white d member] at visible''
          cases visible''
    · exact (inside (by rw [tail]; simp)).elim

structure Unblanked (text : Text) : Prop where
  filled : text ≠ []
  first : text.head?.all (fun c => !isWhitespace c) = true
  last : text.getLast?.all (fun c => !isWhitespace c) = true

theorem Unblanked.head {text : Text} (unblanked : Unblanked text) {c : Char}
    (first : text.head? = some c) : isWhitespace c = false := by
  simpa [first] using unblanked.first

theorem Unblanked.getLast {text : Text} (unblanked : Unblanked text) {c : Char}
    (last : text.getLast? = some c) : isWhitespace c = false := by
  simpa [last] using unblanked.last

theorem Unblanked.trim {text : Text} (unblanked : Unblanked text) : trim text = text := by
  obtain ⟨c, rest, shape⟩ := List.exists_cons_of_ne_nil unblanked.filled
  have start : trimStart text = text := by
    rw [shape]
    exact RustStr.trimStart_cons (unblanked.head (by rw [shape]; rfl)) rest
  obtain ⟨front, d, shape⟩ := List.eq_nil_or_concat' text |>.resolve_left unblanked.filled
  rw [RustStr.trim, start, shape]
  exact RustStr.trimEnd_concat (unblanked.getLast (by rw [shape]; simp)) front

/-- A value without blanks around it comes back exactly where no character above 127 is
written as hex pairs. -/
theorem cnFromDn_eq_iff (pieces : List Written) (tail : Text)
    (valid : ∀ piece ∈ pieces, piece.Valid) (ends : Ends tail)
    (unblanked : Unblanked (valueOf pieces)) :
    cnFromDn ("CN=".toList ++ (escapedText pieces ++ tail)) = some (valueOf pieces) ↔
      ∀ piece ∈ pieces, piece.Single := by
  rw [cnFromDn_escaped valid ends]
  constructor
  · intro read
    rw [Option.ite_none_left_eq_some] at read
    have same := Option.some.inj read.2
    have filled : pieces ≠ [] := fun empty => unblanked.filled (by rw [empty]; rfl)
    obtain ⟨first, rest, shape⟩ := List.exists_cons_of_ne_nil filled
    have start : trimStart (pieces.flatMap Written.read) = pieces.flatMap Written.read := by
      rw [shape, List.flatMap_cons]
      exact trimStart_read (unblanked.head (by rw [shape]; rfl)) _
    obtain ⟨front, last, shape⟩ := List.eq_nil_or_concat' pieces |>.resolve_left filled
    have visible : isWhitespace last.char = false :=
      unblanked.getLast (by rw [shape, valueOf, List.map_append]; simp)
    have split : pieces.flatMap Written.read = front.flatMap Written.read ++ last.read := by
      rw [shape, List.flatMap_append, List.flatMap_singleton]
    rw [RustStr.trim, start, split, shape] at same
    have lengths := length_of_trimEnd visible same
    rw [← split, ← shape] at lengths
    exact (single_of_length pieces).2 lengths
  · intro single
    rw [flatMap_read_of_single single, unblanked.trim, if_neg unblanked.filled]

def commaPieces : List Written :=
  [.plain 'B', .plain 'o', .escaped ',', .plain ' ', .hex 'M' [('4', 'D')]]

theorem cnFromDn_of_comma :
    escapedText commaPieces = "Bo\\, \\4D".toList ∧
    cnFromDn ("CN=".toList ++ (escapedText commaPieces ++ ",OU=Users".toList)) =
      some (valueOf commaPieces) := by
  have valid : ∀ piece ∈ commaPieces, piece.Valid := by
    simp only [commaPieces, List.forall_mem_cons, Written.Valid]
    exact ⟨by decide, by decide, by decide, by decide, by decide, by simp⟩
  have single : ∀ piece ∈ commaPieces, piece.Single := by
    simp [commaPieces, Written.Single]
  have unblanked : Unblanked (valueOf commaPieces) := ⟨by decide, by decide, by decide⟩
  exact ⟨by decide, (cnFromDn_eq_iff commaPieces _ valid (Or.inr rfl) unblanked).mpr single⟩

/-- The two bytes of an accented letter come back as two characters. -/
theorem cnFromDn_mojibake :
    [('C', '3'), ('A', '9')].map pairByte = (String.utf8EncodeChar 'é').map some ∧
    cnFromDn ("CN=".toList ++ escapedText [.hex 'é' [('C', '3'), ('A', '9')]]) =
      some "Ã©".toList := by
  decide

end Strata.Backend.CommonNames
