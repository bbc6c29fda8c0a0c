import Mathlib.Tactic
import Strata.Lib.Base64
import Strata.Lib.Loop
import Strata.Lib.RustInt
import Strata.Lib.RustVec
import Strata.Lib.Tables
import Strata.Protocol.GuacamoleText

/-! The scanners that read a finished recording for its video: one collects the image
frames of its streams, one looks for the display's size. Both add lengths they read
to offsets in `usize`, which wraps in a release build; a slice whose bounds cross is
a panic, here `none`. -/

namespace Strata.Backend.RecordingFrames

open Utf8 (Text Bytes)
open Protocol.Guacamole (comma dot isAsciiDigit semicolon)
open RustInt (isizeMax parseU32 parseUsize)
open RustVec (position range)
open Tables (Table)

/-- `+` of `usize` in a release build. -/
def wrappingAdd (a b : Nat) : Nat := (a + b) % 2 ^ 64

def ascii (text : String) : Bytes := Utf8.encode text.toList

def pngSignature : Bytes := [0x89, 0x50, 0x4E, 0x47, 0x0D, 0x0A, 0x1A, 0x0A]
def pngTrailer : Bytes := [0x49, 0x45, 0x4E, 0x44, 0xAE, 0x42, 0x60, 0x82]
def jpegSignature : Bytes := [0xFF, 0xD8, 0xFF]

def isValidImage (buf : Bytes) : Bool :=
  pngSignature.isPrefixOf buf || jpegSignature.isPrefixOf buf ||
    (decide (12 ≤ buf.length) && buf.take 4 == ascii "RIFF" &&
      (buf.drop 8).take 4 == ascii "WEBP")

/-- `image` stands for the image crate: a decoded picture written out again as PNG. -/
def frameToPng (image : Bytes → Option Bytes) (decoded : Bytes) : Option Bytes :=
  if pngSignature.isPrefixOf decoded && pngTrailer.isSuffixOf decoded then some decoded
  else image decoded

def isAsciiWhitespace (b : UInt8) : Bool := b == 0x20 || b == 9 || b == 10 || b == 12 || b == 13

def decodeBase64 (bytes : Bytes) : Option Bytes :=
  Base64.decodeText (bytes.map fun b => Char.ofNat b.toNat)

def frameOf (image : Bytes → Option Bytes) (decoded : Bytes) : Option Bytes :=
  if isValidImage decoded then frameToPng image decoded else none

def savedFrame (image : Bytes → Option Bytes) (buffer : Bytes) : Option Bytes :=
  (decodeBase64 (buffer.filter fun b => !isAsciiWhitespace b)).bind (frameOf image)

/-- The streams collected so far and the frames written, the `n`-th as `frame_n.png`. -/
structure Store where
  streams : Table Bytes Bytes
  frames : List Bytes

structure Scan where
  pos : Nat
  current : List Bytes
  store : Store

def Scan.start : Scan := ⟨0, [], ⟨∅, []⟩⟩

def runInstruction (image : Bytes → Option Bytes) (s : Store) (elements : List Bytes) : Store :=
  match elements with
  | cmd :: stream :: more =>
      if cmd = ascii "png" ∨ cmd = ascii "jpeg" ∨ cmd = ascii "webp" then
        { s with streams := s.streams.insert stream [] }
      else if cmd = ascii "blob" then
        match more with
        | [] => s
        | chunk :: _ =>
            { s with streams :=
                s.streams.insert stream ((s.streams.lookup stream).getD [] ++ chunk) }
      else if cmd = ascii "end" then
        match s.streams.lookup stream with
        | none => s
        | some buffer =>
            ⟨s.streams.erase stream, s.frames ++ (savedFrame image buffer).toList⟩
      else s
  | _ => s

def digitsAt (data : Bytes) (pos : Nat) : Bytes := (data.drop pos).takeWhile isAsciiDigit

def parseLength (digits : Bytes) : Option Nat := (Utf8.decode digits).bind parseUsize

def takeElement (image : Bytes → Option Bytes) (data : Bytes) (s : Scan) (value : Bytes)
    (stop : Nat) : Scan :=
  match data[stop]? with
  | none => { s with pos := stop, current := s.current ++ [value] }
  | some delimiter =>
      if delimiter = semicolon then
        ⟨stop + 1, [], runInstruction image s.store (s.current ++ [value])⟩
      else { s with pos := stop + 1, current := s.current ++ [value] }

def turn (image : Bytes → Option Bytes) (data : Bytes) (s : Scan) : Scan ⊕ Option Scan :=
  if data.length ≤ s.pos then .inr (some s)
  else
    let digits := digitsAt data s.pos
    let numEnd := s.pos + digits.length
    if digits = [] ∨ data[numEnd]? ≠ some dot then
      .inl { s with
        pos := s.pos + ((data.drop s.pos).takeWhile (· != semicolon)).length + 1
        current := [] }
    else
      match parseLength digits with
      | none => .inl { s with pos := numEnd + 1 }
      | some elemLen =>
          let elemEnd := wrappingAdd (numEnd + 1) elemLen
          if elemEnd > data.length then .inr (some s)
          else
            match range data (numEnd + 1) elemEnd with
            | none => .inr none
            | some value => .inl (takeElement image data s value elemEnd)

def remaining (data : Bytes) (s : Scan) : Nat := data.length - s.pos

def scan (image : Bytes → Option Bytes) (data : Bytes) : Option Scan :=
  Loop.run (remaining data) (turn image data) Scan.start

/-- The frames written, those of streams that were never ended last. The map they are
kept in is walked in its own order. -/
def extractAndSaveGuacFrames (image : Bytes → Option Bytes) (data : Bytes) :
    Option (List Bytes) :=
  (scan image data).map fun s =>
    s.store.frames ++ s.store.streams.entries.filterMap fun entry => savedFrame image entry.2

def lengthToken (data : Bytes) (pos : Nat) : Option (Nat × Nat) :=
  let digits := digitsAt data pos
  if data[pos + digits.length]? = some dot then
    (parseLength digits).map fun length => (pos + digits.length + 1, length)
  else none

def numberToken (hay : Bytes) (pos : Nat) : Option (Option (Nat × Nat)) :=
  match lengthToken hay pos with
  | none => some none
  | some (start, length) =>
      let stop := wrappingAdd start length
      if stop > hay.length then some none
      else (range hay start stop).map fun bytes =>
        ((Utf8.decode bytes).bind parseU32).map fun value => (value, stop)

def parseSizeInstructionBody (hay : Bytes) (start : Nat) : Option (Option (Nat × Nat)) :=
  match lengthToken hay start with
  | none => some none
  | some (p, layerLen) =>
      let layerEnd := wrappingAdd p layerLen
      if hay[layerEnd]? ≠ some comma then some none
      else
        (range hay p layerEnd).bind fun layer =>
          if layer ≠ ascii "0" then some none
          else
            (numberToken hay (layerEnd + 1)).bind fun
              | none => some none
              | some (width, p) =>
                  if hay[p]? ≠ some comma then some none
                  else
                    (numberToken hay (p + 1)).map fun
                      | none => none
                      | some (height, _) =>
                          if (320 ≤ width ∧ width ≤ 7680) ∧ 240 ≤ height ∧ height ≤ 4320 then
                            some (width, height)
                          else none

def needle : Bytes := ascii "4.size,"

def sizeTurn (hay : Bytes) (searchFrom : Nat) : Nat ⊕ Option (Option (Nat × Nat)) :=
  match position needle (hay.drop searchFrom) with
  | none => .inr (some none)
  | some rel =>
      let start := searchFrom + rel + needle.length
      match parseSizeInstructionBody hay start with
      | some none => .inl start
      | result => .inr result

def scanWindow (data : Bytes) : Bytes := data.take (min data.length 65536)

def readRecordingDimensions (data : Bytes) : Option (Option (Nat × Nat)) :=
  Loop.run (fun searchFrom => (scanWindow data).length - searchFrom)
    (sizeTurn (scanWindow data)) 0

/-! ### Where the additions wrap -/

/-- The element announced at `pos` ends at or beyond `2 ^ 64`. -/
def Wraps (data : Bytes) (pos : Nat) : Prop :=
  ∃ start length, lengthToken data pos = some (start, length) ∧ 2 ^ 64 ≤ start + length

/-- The positions at which the scan looks for an element. -/
def Reaches (image : Bytes → Option Bytes) (data : Bytes) : Scan → Scan → Prop :=
  Loop.Reaches (turn image data)

theorem parseLength_lt {digits : Bytes} {length : Nat} (parsed : parseLength digits = some length) :
    length < 2 ^ 64 := by
  obtain ⟨text, -, read⟩ := Option.bind_eq_some_iff.mp parsed
  have bound := (Option.filter_eq_some_iff.mp read).2
  have most : RustInt.usizeMax < 2 ^ 64 := by decide
  exact lt_of_le_of_lt (of_decide_eq_true bound) most

theorem parseLength_nil : parseLength [] = none := rfl

theorem lengthToken_eq_some {data : Bytes} {pos start length : Nat}
    (token : lengthToken data pos = some (start, length)) :
    data[pos + (digitsAt data pos).length]? = some dot ∧
      parseLength (digitsAt data pos) = some length ∧
      start = pos + (digitsAt data pos).length + 1 := by
  rw [lengthToken, Option.ite_none_right_eq_some, Option.map_eq_some_iff] at token
  obtain ⟨pointed, found, parsed, same⟩ := token
  obtain ⟨rfl, rfl⟩ := Prod.mk.inj same
  exact ⟨pointed, parsed, rfl⟩

theorem lengthToken_bounds {data : Bytes} {pos start length : Nat}
    (token : lengthToken data pos = some (start, length)) :
    pos < start ∧ start ≤ data.length ∧ length < 2 ^ 64 := by
  obtain ⟨pointed, parsed, rfl⟩ := lengthToken_eq_some token
  have inside := (List.getElem?_eq_some_iff.mp pointed).1
  exact ⟨by omega, inside, parseLength_lt parsed⟩

section Slices

variable {hay : Bytes} {pos start length : Nat}
  (token : lengthToken hay pos = some (start, length))

include token

theorem wraps_iff : Wraps hay pos ↔ 2 ^ 64 ≤ start + length := by
  constructor
  · rintro ⟨start', length', same, wraps⟩
    rw [token] at same
    cases same
    exact wraps
  · exact fun wraps => ⟨start, length, token, wraps⟩

theorem range_wraps (small : hay.length ≤ isizeMax) (wraps : 2 ^ 64 ≤ start + length) :
    wrappingAdd start length ≤ hay.length ∧
      range hay start (wrappingAdd start length) = none := by
  obtain ⟨-, inside, short⟩ := lengthToken_bounds token
  have room : isizeMax < 2 ^ 64 := by decide
  have landing : wrappingAdd start length = start + length - 2 ^ 64 := by
    rw [wrappingAdd]
    omega
  exact ⟨by omega, RustVec.range_of_lt hay (by omega)⟩

end Slices

theorem turn_of_token (image : Bytes → Option Bytes) {data : Bytes} {s : Scan}
    {start length : Nat} (token : lengthToken data s.pos = some (start, length)) :
    turn image data s =
      if wrappingAdd start length > data.length then .inr (some s)
      else (range data start (wrappingAdd start length)).elim (.inr none) fun value =>
        .inl (takeElement image data s value (wrappingAdd start length)) := by
  obtain ⟨before, inside, -⟩ := lengthToken_bounds token
  obtain ⟨pointed, parsed, rfl⟩ := lengthToken_eq_some token
  have filled : digitsAt data s.pos ≠ [] := by
    intro empty
    rw [empty, parseLength_nil] at parsed
    cases parsed
  rw [turn, if_neg (by omega)]
  simp only [filled, pointed, parsed, ne_eq, not_true_eq_false, or_self, ↓reduceIte]
  split
  · rfl
  · cases range data _ _ <;> rfl

theorem turn_of_no_token (image : Bytes → Option Bytes) {data : Bytes} {s : Scan}
    (token : lengthToken data s.pos = none) :
    turn image data s = .inr (some s) ∨
      s.pos < data.length ∧ ∃ next, turn image data s = .inl next ∧ s.pos < next.pos := by
  by_cases done : data.length ≤ s.pos
  · exact Or.inl (if_pos done)
  · right
    refine ⟨by omega, ?_⟩
    rw [turn, if_neg done]
    simp only
    by_cases skipped : digitsAt data s.pos = [] ∨
        data[s.pos + (digitsAt data s.pos).length]? ≠ some dot
    · rw [if_pos skipped]
      exact ⟨_, rfl, by simp only; omega⟩
    · obtain ⟨-, pointed⟩ := not_or.mp skipped
      rw [if_neg skipped]
      rw [lengthToken, if_pos (not_not.mp pointed), Option.map_eq_none_iff] at token
      rw [token]
      exact ⟨_, rfl, by simp only; omega⟩

section Arithmetic

variable (image : Bytes → Option Bytes) {data : Bytes} {s : Scan} {start length : Nat}
  (token : lengthToken data s.pos = some (start, length))

include token

theorem turn_wraps (wraps : 2 ^ 64 ≤ start + length) (small : data.length ≤ isizeMax) :
    turn image data s = .inr none := by
  obtain ⟨inside, crossed⟩ := range_wraps token small wraps
  rw [turn_of_token image token, if_neg (by omega), crossed]
  rfl

theorem turn_overruns (long : data.length < start + length) (fits : start + length < 2 ^ 64) :
    turn image data s = .inr (some s) := by
  rw [turn_of_token image token, wrappingAdd, Nat.mod_eq_of_lt fits, if_pos long]

theorem turn_element (inside : start + length ≤ data.length) (small : data.length ≤ isizeMax) :
    turn image data s =
      .inl (takeElement image data s ((data.drop start).take length) (start + length)) := by
  have room : isizeMax < 2 ^ 64 := by decide
  have fits : start + length < 2 ^ 64 := by omega
  rw [turn_of_token image token, wrappingAdd, Nat.mod_eq_of_lt fits, if_neg (by omega),
    RustVec.range_of_le (by omega) inside, Nat.add_sub_cancel_left]
  rfl

end Arithmetic

theorem takeElement_pos (image : Bytes → Option Bytes) (data : Bytes) (s : Scan) (value : Bytes)
    (stop : Nat) : stop ≤ (takeElement image data s value stop).pos := by
  rw [takeElement]
  split
  · exact le_rfl
  · split <;> exact Nat.le_succ stop

theorem turn_cases (image : Bytes → Option Bytes) {data : Bytes} (s : Scan)
    (small : data.length ≤ isizeMax) :
    (turn image data s = .inr none ∧ Wraps data s.pos) ∨
    (turn image data s = .inr (some s) ∧ ¬ Wraps data s.pos) ∨
    ∃ next, turn image data s = .inl next ∧ ¬ Wraps data s.pos ∧
      s.pos < data.length ∧ s.pos < next.pos := by
  cases token : lengthToken data s.pos with
  | none =>
      have straight : ¬ Wraps data s.pos := by
        intro wraps
        obtain ⟨start, length, found, -⟩ := wraps
        rw [token] at found
        cases found
      rcases turn_of_no_token image token with stops | ⟨inside, next, goes, later⟩
      · exact Or.inr (Or.inl ⟨stops, straight⟩)
      · exact Or.inr (Or.inr ⟨next, goes, straight, inside, later⟩)
  | some found =>
      obtain ⟨start, length⟩ := found
      have bounds := lengthToken_bounds token
      rw [wraps_iff token]
      rcases Nat.lt_or_ge (start + length) (2 ^ 64) with fits | wraps
      · rcases Nat.lt_or_ge data.length (start + length) with long | inside
        · exact Or.inr (Or.inl ⟨turn_overruns image token long fits, by omega⟩)
        · refine Or.inr (Or.inr ⟨_, turn_element image token inside small, by omega, by omega, ?_⟩)
          have behind := takeElement_pos image data s ((data.drop start).take length)
            (start + length)
          omega
      · exact Or.inl ⟨turn_wraps image token wraps small, wraps⟩

theorem turn_decreasing (image : Bytes → Option Bytes) {data : Bytes}
    (small : data.length ≤ isizeMax) : Loop.Decreasing (remaining data) (turn image data) := by
  intro s next goes
  rcases turn_cases image s small with ⟨panics, -⟩ | ⟨stops, -⟩ | ⟨next', goes', -, inside, later⟩
  · rw [panics] at goes
    cases goes
  · rw [stops] at goes
    cases goes
  · rw [goes'] at goes
    cases goes
    simp only [remaining]
    omega

theorem turn_panics_iff (image : Bytes → Option Bytes) {data : Bytes} (s : Scan)
    (small : data.length ≤ isizeMax) : turn image data s = .inr none ↔ Wraps data s.pos := by
  rcases turn_cases image s small with
    ⟨panics, wraps⟩ | ⟨stops, straight⟩ | ⟨next, goes, straight, -⟩
  · exact ⟨fun _ => wraps, fun _ => panics⟩
  · rw [stops]
    exact ⟨nofun, fun wraps => absurd wraps straight⟩
  · rw [goes]
    exact ⟨nofun, fun wraps => absurd wraps straight⟩

theorem extract_eq_none_iff (image : Bytes → Option Bytes) {data : Bytes}
    (small : data.length ≤ isizeMax) :
    extractAndSaveGuacFrames image data = none ↔
      ∃ reached, Reaches image data Scan.start reached ∧ Wraps data reached.pos := by
  rw [extractAndSaveGuacFrames, Option.map_eq_none_iff, scan,
    Loop.run_eq_iff (turn_decreasing image small)]
  exact exists_congr fun reached => and_congr_right fun _ => turn_panics_iff image reached small

/-! ### The display's size -/

/-- Where the body of a `size` is sliced up to an end that has wrapped: that of its layer, if it
lands on a comma, that of its width, behind layer 0, or that of its height, behind a width. -/
def BodyWraps (hay : Bytes) (start : Nat) : Prop :=
  ∃ p length, lengthToken hay start = some (p, length) ∧
    hay[wrappingAdd p length]? = some comma ∧
    (2 ^ 64 ≤ p + length ∨
      (hay.drop p).take length = ascii "0" ∧
        (Wraps hay (p + length + 1) ∨
          ∃ width stop, numberToken hay (p + length + 1) = some (some (width, stop)) ∧
            hay[stop]? = some comma ∧ Wraps hay (stop + 1)))

theorem range_straight {hay : Bytes} {start length : Nat} (fits : start + length < 2 ^ 64)
    (inside : wrappingAdd start length ≤ hay.length) :
    wrappingAdd start length = start + length ∧
      range hay start (wrappingAdd start length) = some ((hay.drop start).take length) := by
  have same : wrappingAdd start length = start + length := Nat.mod_eq_of_lt fits
  rw [same] at inside ⊢
  exact ⟨rfl, by rw [RustVec.range_of_le (by omega) inside, Nat.add_sub_cancel_left]⟩

theorem numberToken_eq_none_iff {hay : Bytes} (small : hay.length ≤ isizeMax) (pos : Nat) :
    numberToken hay pos = none ↔ Wraps hay pos := by
  rw [numberToken]
  cases token : lengthToken hay pos with
  | none => exact ⟨nofun, fun ⟨start, length, found, _⟩ => by rw [token] at found; cases found⟩
  | some found =>
      obtain ⟨start, length⟩ := found
      simp only
      rw [wraps_iff token]
      by_cases wraps : 2 ^ 64 ≤ start + length
      · obtain ⟨inside, crossed⟩ := range_wraps token small wraps
        rw [if_neg (by omega), crossed]
        exact ⟨fun _ => wraps, fun _ => rfl⟩
      · refine ⟨fun panics => ?_, fun wraps' => absurd wraps' wraps⟩
        split at panics
        · cases panics
        · rw [(range_straight (by omega) (by omega)).2] at panics
          cases panics

theorem parseSizeInstructionBody_eq_none_iff {hay : Bytes} (small : hay.length ≤ isizeMax)
    (start : Nat) : parseSizeInstructionBody hay start = none ↔ BodyWraps hay start := by
  rw [parseSizeInstructionBody, BodyWraps]
  cases token : lengthToken hay start with
  | none => exact ⟨nofun, fun ⟨_, _, found, _⟩ => by cases found⟩
  | some found =>
      obtain ⟨p, length⟩ := found
      simp only [Option.some.injEq, Prod.mk.injEq, existsAndEq, and_true, true_and]
      by_cases landed : hay[wrappingAdd p length]? = some comma
      case neg =>
        rw [if_pos landed]
        exact ⟨nofun, fun found => absurd found.1 landed⟩
      rw [if_neg (not_not.mpr landed), and_iff_right landed]
      have inside := (List.getElem?_eq_some_iff.mp landed).1.le
      by_cases wraps : 2 ^ 64 ≤ p + length
      · rw [(range_wraps token small wraps).2]
        exact ⟨fun _ => .inl wraps, fun _ => rfl⟩
      obtain ⟨same, sliced⟩ := range_straight (Nat.lt_of_not_le wraps) inside
      rw [sliced, Option.bind_some, same, or_iff_right wraps]
      by_cases layer : (hay.drop p).take length = ascii "0"
      case neg =>
        rw [if_pos layer]
        exact ⟨nofun, fun found => absurd found.1 layer⟩
      rw [if_neg (not_not.mpr layer), and_iff_right layer]
      cases read : numberToken hay (p + length + 1) with
      | none => exact ⟨fun _ => .inl ((numberToken_eq_none_iff small _).mp read), fun _ => rfl⟩
      | some number =>
          have straight : ¬Wraps hay (p + length + 1) := by
            rw [← numberToken_eq_none_iff small, read]
            nofun
          rw [or_iff_right straight]
          cases number with
          | none => exact ⟨nofun, fun ⟨_, _, found, _⟩ => by cases found⟩
          | some number =>
              obtain ⟨width, stop⟩ := number
              simp only [Option.bind_some, Option.some.injEq, Prod.mk.injEq, existsAndEq, and_true,
                true_and]
              by_cases follows : hay[stop]? = some comma
              case neg =>
                rw [if_pos follows]
                exact ⟨nofun, fun found => absurd found.1 follows⟩
              rw [if_neg (not_not.mpr follows), and_iff_right follows, Option.map_eq_none_iff]
              exact numberToken_eq_none_iff small (stop + 1)

def SaneSize (dims : Nat × Nat) : Prop :=
  (320 ≤ dims.1 ∧ dims.1 ≤ 7680) ∧ 240 ≤ dims.2 ∧ dims.2 ≤ 4320

theorem parseSizeInstructionBody_sane {hay : Bytes} {start : Nat} {dims : Nat × Nat}
    (parsed : parseSizeInstructionBody hay start = some (some dims)) : SaneSize dims := by
  rw [parseSizeInstructionBody] at parsed
  cases token : lengthToken hay start with
  | none => simp [token] at parsed
  | some found =>
      simp only [token] at parsed
      split at parsed
      · cases parsed
      · obtain ⟨layer, -, parsed⟩ := Option.bind_eq_some_iff.mp parsed
        split at parsed
        · cases parsed
        · obtain ⟨width, -, parsed⟩ := Option.bind_eq_some_iff.mp parsed
          cases width with
          | none => cases parsed
          | some width =>
              simp only at parsed
              split at parsed
              · cases parsed
              · obtain ⟨height, -, parsed⟩ := Option.map_eq_some_iff.mp parsed
                cases height with
                | none => cases parsed
                | some height =>
                    simp only at parsed
                    split at parsed
                    · next sane =>
                        cases parsed
                        exact sane
                    · cases parsed

theorem sizeTurn_inl {hay : Bytes} {searchFrom next : Nat}
    (goes : sizeTurn hay searchFrom = .inl next) : searchFrom < next ∧ next ≤ hay.length := by
  rw [sizeTurn] at goes
  split at goes
  · cases goes
  · next rel found =>
      have inside := RustVec.position_length found
      have width : needle.length = 7 := by decide
      rw [List.length_drop] at inside
      simp only at goes
      split at goes
      · cases goes
        omega
      · cases goes

theorem sizeTurn_decreasing (hay : Bytes) :
    Loop.Decreasing (fun searchFrom => hay.length - searchFrom) (sizeTurn hay) := by
  intro searchFrom next goes
  have further := sizeTurn_inl goes
  simp only
  omega

theorem sizeTurn_inr {hay : Bytes} {searchFrom : Nat} {result : Option (Option (Nat × Nat))}
    (stops : sizeTurn hay searchFrom = .inr result) :
    result = some none ∨ ∃ start, result = parseSizeInstructionBody hay start := by
  rw [sizeTurn] at stops
  split at stops
  · cases stops
    exact Or.inl rfl
  · simp only at stops
    split at stops
    · cases stops
    · cases stops
      exact Or.inr ⟨_, rfl⟩

/-- The bodies at which the search for the size looks: those behind a `4.size,` up to the first
that reads as a size. -/
def Searched (hay : Bytes) (start : Nat) : Prop :=
  ∃ searchFrom rel, Loop.Reaches (sizeTurn hay) 0 searchFrom ∧
    position needle (hay.drop searchFrom) = some rel ∧ start = searchFrom + rel + needle.length

theorem sizeTurn_panics_iff {hay : Bytes} (small : hay.length ≤ isizeMax) (searchFrom : Nat) :
    sizeTurn hay searchFrom = .inr none ↔ ∃ rel, position needle (hay.drop searchFrom) = some rel ∧
      BodyWraps hay (searchFrom + rel + needle.length) := by
  rw [sizeTurn]
  cases position needle (hay.drop searchFrom) with
  | none => exact ⟨nofun, nofun⟩
  | some rel =>
      simp only [Option.some.injEq, existsAndEq, true_and]
      rw [← parseSizeInstructionBody_eq_none_iff small]
      cases parseSizeInstructionBody hay (searchFrom + rel + needle.length) with
      | none => exact ⟨fun _ => rfl, fun _ => rfl⟩
      | some parsed => cases parsed <;> exact ⟨nofun, nofun⟩

theorem readRecordingDimensions_eq_none_iff (data : Bytes) :
    readRecordingDimensions data = none ↔
      ∃ start, Searched (scanWindow data) start ∧ BodyWraps (scanWindow data) start := by
  have small : (scanWindow data).length ≤ isizeMax := by
    have bound : (65536 : Nat) ≤ isizeMax := by decide
    rw [scanWindow, List.length_take]
    omega
  rw [readRecordingDimensions, Loop.run_eq_iff (sizeTurn_decreasing (scanWindow data))]
  simp only [sizeTurn_panics_iff small]
  constructor
  · rintro ⟨searchFrom, reach, rel, found, wraps⟩
    exact ⟨_, ⟨searchFrom, rel, reach, found, rfl⟩, wraps⟩
  · rintro ⟨_, ⟨searchFrom, rel, reach, found, rfl⟩, wraps⟩
    exact ⟨searchFrom, reach, rel, found, wraps⟩

theorem readRecordingDimensions_sane {data : Bytes} {dims : Nat × Nat}
    (read : readRecordingDimensions data = some (some dims)) : SaneSize dims := by
  obtain ⟨searchFrom, -, stops⟩ :=
    (Loop.run_eq_iff (sizeTurn_decreasing (scanWindow data)) 0 _).mp read
  rcases sizeTurn_inr stops with none | ⟨start, parsed⟩
  · cases none
  · exact parseSizeInstructionBody_sane parsed.symm

/-- Each scanner panics exactly where it comes to a length whose end wraps and slices up to it. -/
theorem scanners_panic_only_on_wrapping (image : Bytes → Option Bytes) (data : Bytes)
    (small : data.length ≤ isizeMax) :
    (extractAndSaveGuacFrames image data = none ↔
      ∃ reached, Reaches image data Scan.start reached ∧ Wraps data reached.pos) ∧
    (readRecordingDimensions data = none ↔
      ∃ start, Searched (scanWindow data) start ∧ BodyWraps (scanWindow data) start) ∧
    ∀ dims, readRecordingDimensions data = some (some dims) → SaneSize dims :=
  ⟨extract_eq_none_iff image small, readRecordingDimensions_eq_none_iff data,
    fun _ => readRecordingDimensions_sane⟩

theorem scanners_of_size_instruction :
    (ascii "4.size,1.0,4.1920,4.1080;").length ≤ isizeMax ∧
    readRecordingDimensions (ascii "4.size,1.0,4.1920,4.1080;") = some (some (1920, 1080)) ∧
    SaneSize (1920, 1080) := by
  have small : (ascii "4.size,1.0,4.1920,4.1080;").length ≤ isizeMax := by decide
  have read : readRecordingDimensions (ascii "4.size,1.0,4.1920,4.1080;") =
      some (some (1920, 1080)) := by decide +kernel
  exact ⟨small, read, (scanners_panic_only_on_wrapping some _ small).2.2 _ read⟩

/-- A length of `2 ^ 64 - 1` lets the end of its element wrap to just before its start. -/
theorem scanners_panic :
    extractAndSaveGuacFrames some (ascii "18446744073709551615.") = none ∧
    readRecordingDimensions (ascii "4.size,1.0,18446744073709551615.") = none := by
  decide +kernel

end Strata.Backend.RecordingFrames
