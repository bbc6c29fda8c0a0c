import Mathlib.Tactic
import Mathlib.Data.Nat.Digits.Defs
import Strata.Lib.RustInt
import Strata.Lib.Utf8

/-! Internet addresses as Rust's standard library reads and prints them (`core::net`), and
that every address reads back from its own text. -/

namespace Strata.Net

open Utf8 (Text)
open RustInt (digitValue isDigitOf)

inductive IpAddr where
  | v4 (bits : BitVec 32)
  | v6 (bits : BitVec 128)
  deriving DecidableEq, Repr

def bigDigits (base : Nat) : Nat → Nat → List Nat
  | 0, _ => []
  | width + 1, value => bigDigits base width (value / base) ++ [value % base]

def ofBigDigits (base : Nat) (digits : List Nat) : Nat :=
  digits.foldl (fun value digit => value * base + digit) 0

/-! ### Reading -/

def digitsValue (radix : Nat) (digits : Text) : Nat := ofBigDigits radix (digits.map digitValue)

def readNumber (radix maxDigits : Nat) (allowZeroPrefix : Bool) (max : Nat) (text : Text) :
    Option (Nat × Text) :=
  let digits := text.takeWhile (isDigitOf radix)
  if digits = [] ∨ digits.length > maxDigits ∨
      (allowZeroPrefix = false ∧ digits.head? = some '0' ∧ digits.length > 1) ∨
      digitsValue radix digits > max then
    none
  else
    some (digitsValue radix digits, text.dropWhile (isDigitOf radix))

def readSeparator {α : Type} (mark : Char) (first : Bool) (inner : Text → Option (α × Text))
    (text : Text) : Option (α × Text) :=
  match first, text with
  | true, _ => inner text
  | false, [] => none
  | false, c :: rest => if c = mark then inner rest else none

def readOctets : Nat → Bool → Text → Option (List Nat × Text)
  | 0, _, text => some ([], text)
  | left + 1, first, text =>
      (readSeparator '.' first (readNumber 10 3 false 255) text).bind fun found =>
        (readOctets left false found.2).map fun more => (found.1 :: more.1, more.2)

def readIpv4 (text : Text) : Option (Nat × Text) :=
  (readOctets 4 true text).map fun found => (ofBigDigits 256 found.1, found.2)

/-- The groups read, and whether the last two were an embedded IPv4 address. -/
def readGroups : Nat → Bool → Text → List Nat × Bool × Text
  | 0, _, text => ([], false, text)
  | left + 1, first, text =>
      match if 0 < left then readSeparator ':' first readIpv4 text else none with
      | some (embedded, rest) => (bigDigits 65536 2 embedded, true, rest)
      | none =>
          match readSeparator ':' first (readNumber 16 4 true 65535) text with
          | some (group, rest) =>
              let more := readGroups left false rest
              (group :: more.1, more.2)
          | none => ([], false, text)

def readIpv6 (text : Text) : Option (Nat × Text) :=
  let head := readGroups 8 true text
  if head.1.length = 8 then
    some (ofBigDigits 65536 head.1, head.2.2)
  else if head.2.1 then
    none
  else
    match head.2.2 with
    | ':' :: ':' :: rest =>
        let tail := readGroups (8 - (head.1.length + 1)) true rest
        let zeros := List.replicate (8 - head.1.length - tail.1.length) 0
        some (ofBigDigits 65536 (head.1 ++ zeros ++ tail.1), tail.2.2)
    | _ => none

/-- `IpAddr::from_str`: an IPv4 address that is followed by more is an error, not a reason to
look for an IPv6 address. -/
def parseIpAddr (text : Text) : Option IpAddr :=
  match readIpv4 text with
  | some (bits, rest) => if rest = [] then some (.v4 (BitVec.ofNat 32 bits)) else none
  | none =>
      match readIpv6 text with
      | some (bits, rest) => if rest = [] then some (.v6 (BitVec.ofNat 128 bits)) else none
      | none => none

/-! ### Printing -/

def joined (mark : Char) : List Text → Text
  | [] => []
  | head :: tail => head ++ tail.flatMap (mark :: ·)

def ipv4Text (bits : Nat) : Text := joined '.' ((bigDigits 256 4 bits).map (Nat.toDigits 10))

structure Span where
  start : Nat
  len : Nat
  deriving DecidableEq, Repr

/-- The longest run of zeros, the first of several; `current` is the run that ends here. -/
def longestZeros : List Nat → Nat → Span → Span → Span
  | [], _, _, longest => longest
  | segment :: rest, index, current, longest =>
      if segment = 0 then
        let current : Span :=
          ⟨if current.len = 0 then index else current.start, current.len + 1⟩
        longestZeros rest (index + 1) current
          (if current.len > longest.len then current else longest)
      else
        longestZeros rest (index + 1) ⟨0, 0⟩ longest

def groupsText (segments : List Nat) : Text := joined ':' (segments.map (Nat.toDigits 16))

def ipv6Text (bits : Nat) : Text :=
  let segments := bigDigits 65536 8 bits
  if segments.take 6 = [0, 0, 0, 0, 0, 0xffff] then
    "::ffff:".toList ++ ipv4Text (bits % 2 ^ 32)
  else
    let zeros := longestZeros segments 0 ⟨0, 0⟩ ⟨0, 0⟩
    if zeros.len > 1 then
      groupsText (segments.take zeros.start) ++ ':' :: ':' ::
        groupsText (segments.drop (zeros.start + zeros.len))
    else
      groupsText segments

def IpAddr.text : IpAddr → Text
  | .v4 bits => ipv4Text bits.toNat
  | .v6 bits => ipv6Text bits.toNat

example : parseIpAddr "10.0.0.256".toList = none := by decide
example : parseIpAddr "fe80::1".toList = some (.v6 (BitVec.ofNat 128 (0xfe80 * 2 ^ 112 + 1))) := by
  decide
example : (IpAddr.v6 (BitVec.ofNat 128 (0x20010db8 * 2 ^ 96 + 1))).text = "2001:db8::1".toList := by
  decide

/-! ### Digits -/

theorem ofBigDigits_append (base : Nat) (digits : List Nat) (digit : Nat) :
    ofBigDigits base (digits ++ [digit]) = ofBigDigits base digits * base + digit := by
  simp [ofBigDigits]

theorem ofBigDigits_bigDigits {base width value : Nat} (small : value < base ^ width) :
    ofBigDigits base (bigDigits base width value) = value := by
  induction width generalizing value with
  | zero =>
      rw [pow_zero, Nat.lt_one_iff] at small
      exact small.symm
  | succ width ih =>
      have high : value / base < base ^ width := Nat.div_lt_of_lt_mul (by rwa [← pow_succ'])
      rw [bigDigits, ofBigDigits_append, ih high, Nat.mul_comm, Nat.div_add_mod]

@[simp] theorem bigDigits_length (base width value : Nat) :
    (bigDigits base width value).length = width := by
  induction width generalizing value with
  | zero => rfl
  | succ width ih => rw [bigDigits, List.length_append, ih, List.length_singleton]

theorem bigDigits_lt {base : Nat} (positive : 0 < base) (width value : Nat) :
    ∀ digit ∈ bigDigits base width value, digit < base := by
  induction width generalizing value with
  | zero => exact nofun
  | succ width ih =>
      intro digit member
      rw [bigDigits, List.mem_append, List.mem_singleton] at member
      rcases member with inside | rfl
      · exact ih _ digit inside
      · exact Nat.mod_lt _ positive

theorem digitValue_digitChar {n : Nat} (small : n < 16) : digitValue n.digitChar = n := by
  have table : ∀ n < 16, digitValue n.digitChar = n := by decide
  exact table n small

variable {radix : Nat}

theorem toDigits_isDigitOf (two : 1 < radix) (small : radix ≤ 16) (value : Nat) :
    ∀ c ∈ Nat.toDigits radix value, isDigitOf radix c = true := by
  induction value using Nat.strongRecOn with
  | ind value ih =>
      intro c member
      by_cases single : value < radix
      · rw [Nat.toDigits_of_lt_base single, List.mem_singleton] at member
        rw [member, isDigitOf, digitValue_digitChar (by omega)]
        exact decide_eq_true single
      · have positive : 0 < value := by omega
        rw [Nat.toDigits_of_base_le two (not_lt.mp single), List.mem_append] at member
        rcases member with high | low
        · exact ih (value / radix) (Nat.div_lt_self positive two) c high
        · have remainder : value % radix < radix := Nat.mod_lt _ (by omega)
          rw [List.mem_singleton] at low
          rw [low, isDigitOf, digitValue_digitChar (by omega)]
          exact decide_eq_true remainder

theorem digitsValue_toDigits (two : 1 < radix) (small : radix ≤ 16) (value : Nat) :
    digitsValue radix (Nat.toDigits radix value) = value := by
  induction value using Nat.strongRecOn with
  | ind value ih =>
      by_cases single : value < radix
      · rw [Nat.toDigits_of_lt_base single]
        simp [digitsValue, ofBigDigits, digitValue_digitChar (show value < 16 by omega)]
      · have remainder : value % radix < radix := Nat.mod_lt _ (by omega)
        have high := ih (value / radix) (Nat.div_lt_self (by omega) two)
        rw [digitsValue] at high
        rw [Nat.toDigits_of_base_le two (not_lt.mp single), digitsValue, List.map_append,
          List.map_singleton, ofBigDigits_append, high, digitValue_digitChar (by omega),
          Nat.mul_comm, Nat.div_add_mod]

theorem toDigits_head (two : 1 < radix) (small : radix ≤ 16) (value : Nat)
    (zero : (Nat.toDigits radix value).head? = some '0') : value = 0 := by
  induction value using Nat.strongRecOn with
  | ind value ih =>
      by_cases single : value < radix
      · rw [Nat.toDigits_of_lt_base single] at zero
        simpa using zero
      · have positive : 0 < value := by omega
        rw [Nat.toDigits_of_base_le two (not_lt.mp single),
          List.head?_append_of_ne_nil _ Nat.toDigits_ne_nil] at zero
        have high := ih (value / radix) (Nat.div_lt_self positive two) zero
        have quotient : 0 < value / radix := Nat.div_pos (not_lt.mp single) (by omega)
        omega

def Ends (radix : Nat) (text : Text) : Prop := ∀ c ∈ text.head?, isDigitOf radix c = false

theorem takeWhile_digits {digits rest : Text} (all : ∀ c ∈ digits, isDigitOf radix c = true)
    (ends : Ends radix rest) : (digits ++ rest).takeWhile (isDigitOf radix) = digits ∧
      (digits ++ rest).dropWhile (isDigitOf radix) = rest := by
  rw [List.takeWhile_append_of_pos all, List.dropWhile_append_of_pos all]
  cases rest with
  | nil => simp
  | cons c rest =>
      have stops := ends c rfl
      simp [stops]

theorem readNumber_toDigits (two : 1 < radix) (small : radix ≤ 16) {maxDigits max value : Nat}
    {allowZeroPrefix : Bool} {rest : Text} (fits : value ≤ max)
    (digits : (Nat.toDigits radix value).length ≤ maxDigits) (ends : Ends radix rest) :
    readNumber radix maxDigits allowZeroPrefix max (Nat.toDigits radix value ++ rest) =
      some (value, rest) := by
  obtain ⟨taken, dropped⟩ := takeWhile_digits (toDigits_isDigitOf two small value) ends
  simp only [readNumber, taken, dropped, digitsValue_toDigits two small]
  rw [if_neg]
  rintro (empty | long | ⟨-, zero, several⟩ | large)
  · exact Nat.toDigits_ne_nil empty
  · omega
  · rw [toDigits_head two small value zero, Nat.toDigits_zero] at several
    simp at several
  · omega

/-! ### IPv4 -/

theorem ends_cons {c : Char} (text : Text) (stops : isDigitOf radix c = false) :
    Ends radix (c :: text) := by
  intro d head
  rwa [← Option.some.inj head]

theorem readNumber_octet {octet : Nat} (small : octet < 256) {rest : Text} (ends : Ends 10 rest) :
    readNumber 10 3 false 255 (Nat.toDigits 10 octet ++ rest) = some (octet, rest) :=
  readNumber_toDigits (by decide) (by decide) (by omega)
    (Nat.toDigits_length 10 octet 3 (by decide) (by omega)) ends

theorem readOctets_text (octets : List Nat) (small : ∀ octet ∈ octets, octet < 256) {rest : Text}
    (ends : Ends 10 rest) :
    Ends 10 (octets.flatMap (fun octet => '.' :: Nat.toDigits 10 octet) ++ rest) ∧
      readOctets octets.length false
        (octets.flatMap (fun octet => '.' :: Nat.toDigits 10 octet) ++ rest) =
          some (octets, rest) := by
  induction octets with
  | nil => exact ⟨ends, rfl⟩
  | cons octet octets ih =>
      obtain ⟨follows, read⟩ := ih fun octet member => small octet (List.mem_cons_of_mem _ member)
      rw [List.flatMap_cons, List.cons_append, List.cons_append]
      refine ⟨ends_cons _ (by decide), ?_⟩
      rw [List.length_cons, readOctets, readSeparator, if_pos rfl, List.append_assoc,
        readNumber_octet (small octet List.mem_cons_self) follows, Option.bind_some, read]
      rfl

theorem flatMap_mark (mark : Char) (base : Nat) (digits : List Nat) :
    (digits.map (Nat.toDigits base)).flatMap (mark :: ·) =
      digits.flatMap fun digit => mark :: Nat.toDigits base digit :=
  List.flatMap_map ..

theorem readIpv4_text {bits : Nat} (small : bits < 2 ^ 32) (rest : Text) (ends : Ends 10 rest) :
    readIpv4 (ipv4Text bits ++ rest) = some (bits, rest) := by
  have value : ofBigDigits 256 (bigDigits 256 4 bits) = bits := ofBigDigits_bigDigits small
  have bounds := bigDigits_lt (show 0 < 256 by decide) 4 bits
  have count := bigDigits_length 256 4 bits
  rw [readIpv4, ipv4Text]
  cases octets : bigDigits 256 4 bits with
  | nil => simp [octets] at count
  | cons octet more =>
      rw [octets] at value bounds count
      obtain ⟨follows, read⟩ := readOctets_text more
        (fun octet member => bounds octet (List.mem_cons_of_mem _ member)) ends
      have left : 4 = more.length + 1 := count.symm
      rw [List.map_cons, joined, flatMap_mark, List.append_assoc, left, readOctets, readSeparator,
        readNumber_octet (bounds octet List.mem_cons_self) follows, Option.bind_some, read]
      simp only [Option.map_some, value]

/-! ### IPv6 -/

def Closes (rest : Text) : Prop := rest = [] ∨ ∃ more, rest = ':' :: ':' :: more

theorem colon_not_digit (small : radix ≤ 16) : isDigitOf radix ':' = false := by
  have value : digitValue ':' = 36 := by decide
  rw [isDigitOf, value, decide_eq_false_iff_not]
  omega

theorem readNumber_colon (small : radix ≤ 16) {maxDigits max : Nat} {allowZeroPrefix : Bool}
    (text : Text) : readNumber radix maxDigits allowZeroPrefix max (':' :: text) = none := by
  simp [readNumber, colon_not_digit small]

theorem readIpv4_colon (text : Text) : readIpv4 (':' :: text) = none := by
  rw [readIpv4, readOctets, readSeparator, readNumber_colon (by decide)]
  rfl

theorem readIpv4_group {digits rest : Text} (plain : ∀ c ∈ digits, c ≠ '.')
    (next : ∀ c ∈ rest.head?, c ≠ '.' ∧ isDigitOf 10 c = false) :
    readIpv4 (digits ++ rest) = none := by
  have stops : ∀ c ∈ ((digits ++ rest).dropWhile (isDigitOf 10)).head?, c ≠ '.' := by
    induction digits with
    | nil =>
        cases rest with
        | nil => exact nofun
        | cons c rest =>
            have head := next c rfl
            simp only [List.nil_append, List.dropWhile_cons, head.2, Bool.false_eq_true, if_false]
            intro d same
            rw [← Option.some.inj same]
            exact head.1
    | cons c digits ih =>
        rw [List.cons_append, List.dropWhile_cons]
        split
        · exact ih fun c member => plain c (List.mem_cons_of_mem _ member)
        · intro d same
          rw [← Option.some.inj same]
          exact plain c List.mem_cons_self
  rw [readIpv4, readOctets, readSeparator, Option.map_eq_none_iff, Option.bind_eq_none_iff]
  intro found read
  simp only [readNumber] at read
  split at read
  · cases read
  · cases read
    -- the second octet would have to follow a point
    rw [readOctets, Option.map_eq_none_iff]
    generalize (digits ++ rest).dropWhile (isDigitOf 10) = after at stops
    cases after with
    | nil => rfl
    | cons c after =>
        rw [readSeparator, if_neg (stops c rfl)]
        rfl

theorem group_no_point (group : Nat) : ∀ c ∈ Nat.toDigits 16 group, c ≠ '.' := by
  intro c member same
  have digit := toDigits_isDigitOf (by decide) (by decide) group c member
  rw [same] at digit
  exact absurd digit (by decide)

theorem readNumber_group {group : Nat} (small : group < 65536) {rest : Text}
    (ends : Ends 16 rest) :
    readNumber 16 4 true 65535 (Nat.toDigits 16 group ++ rest) = some (group, rest) :=
  readNumber_toDigits (by decide) (by decide) (by omega)
    (Nat.toDigits_length 16 group 4 (by decide) (by omega)) ends

def groupsTail (segments : List Nat) : Text :=
  segments.flatMap fun segment => ':' :: Nat.toDigits 16 segment

theorem groupsText_cons (segment : Nat) (segments : List Nat) :
    groupsText (segment :: segments) = Nat.toDigits 16 segment ++ groupsTail segments := by
  rw [groupsText, List.map_cons, joined, flatMap_mark, groupsTail]

theorem groupsTail_next (segments : List Nat) {rest : Text} (closes : Closes rest) :
    ∀ c ∈ (groupsTail segments ++ rest).head?, c = ':' := by
  cases segments with
  | nil =>
      rcases closes with rfl | ⟨more, rfl⟩
      · exact nofun
      · exact fun c same => (Option.some.inj same).symm
  | cons segment segments => exact fun c same => (Option.some.inj same).symm

theorem readIpv4_groups (segment : Nat) (segments : List Nat) {rest : Text}
    (closes : Closes rest) :
    readIpv4 (Nat.toDigits 16 segment ++ (groupsTail segments ++ rest)) = none := by
  refine readIpv4_group (group_no_point segment) ?_
  intro c head
  rw [groupsTail_next segments closes c head]
  decide

theorem readNumber_groups {segment : Nat} (small : segment < 65536) (segments : List Nat)
    {rest : Text} (closes : Closes rest) :
    readNumber 16 4 true 65535 (Nat.toDigits 16 segment ++ (groupsTail segments ++ rest)) =
      some (segment, groupsTail segments ++ rest) := by
  refine readNumber_group small ?_
  intro c head
  rw [groupsTail_next segments closes c head]
  decide

theorem readSeparator_closes {α : Type} {inner : Text → Option (α × Text)} {rest : Text}
    (closes : Closes rest) (colon : ∀ text, inner (':' :: text) = none) :
    readSeparator ':' false inner rest = none := by
  rcases closes with rfl | ⟨more, rfl⟩
  · rfl
  · rw [readSeparator, if_pos rfl, colon]

theorem readGroups_closes (left : Nat) {rest : Text} (closes : Closes rest) :
    readGroups left false rest = ([], false, rest) := by
  cases left with
  | zero => rfl
  | succ left =>
      rw [readGroups, readSeparator_closes closes readIpv4_colon,
        readSeparator_closes closes fun text => readNumber_colon (by decide) text]
      simp

theorem readGroups_tail (segments : List Nat) (small : ∀ segment ∈ segments, segment < 65536)
    {left : Nat} (room : segments.length ≤ left) {rest : Text} (closes : Closes rest) :
    readGroups left false (groupsTail segments ++ rest) = (segments, false, rest) := by
  induction segments generalizing left with
  | nil => exact readGroups_closes left closes
  | cons segment segments ih =>
      cases left with
      | zero => simp at room
      | succ left =>
          have read := readNumber_groups (small segment List.mem_cons_self) segments closes
          have more := ih (fun segment member => small segment (List.mem_cons_of_mem _ member))
            (show segments.length ≤ left by simpa using room)
          have text : groupsTail (segment :: segments) ++ rest =
              ':' :: (Nat.toDigits 16 segment ++ (groupsTail segments ++ rest)) := by
            simp [groupsTail]
          rw [text, readGroups]
          simp only [readSeparator, if_true, readIpv4_groups segment segments closes, read, more,
            ite_self]

theorem readGroups_text (segments : List Nat) (small : ∀ segment ∈ segments, segment < 65536)
    {left : Nat} (room : segments.length ≤ left) {rest : Text} (closes : Closes rest) :
    readGroups left true (groupsText segments ++ rest) = (segments, false, rest) := by
  cases left with
  | zero =>
      obtain rfl : segments = [] := List.length_eq_zero_iff.mp (Nat.le_zero.mp room)
      rfl
  | succ left =>
      cases segments with
      | nil =>
          rcases closes with rfl | ⟨more, rfl⟩
          · rw [readGroups]
            cases left <;> rfl
          · rw [readGroups]
            simp [readSeparator, groupsText, joined, readIpv4_colon,
              readNumber_colon (show 16 ≤ 16 by decide)]
      | cons segment segments =>
          have read := readNumber_groups (small segment List.mem_cons_self) segments closes
          have more := readGroups_tail segments
            (fun segment member => small segment (List.mem_cons_of_mem _ member))
            (show segments.length ≤ left by simpa using room) closes
          rw [groupsText_cons, List.append_assoc, readGroups]
          simp only [readSeparator, readIpv4_groups segment segments closes, read, more, ite_self]

def ZeroRun (segments : List Nat) (span : Span) : Prop :=
  ∀ index, span.start ≤ index → index < span.start + span.len → segments[index]? = some 0

theorem longestZeros_run (done rest : List Nat) {current longest : Span}
    (run : ZeroRun (done ++ rest) current)
    (ends : current.len ≠ 0 → current.start + current.len = done.length)
    (best : ZeroRun (done ++ rest) longest) :
    ZeroRun (done ++ rest) (longestZeros rest done.length current longest) := by
  induction rest generalizing done current longest with
  | nil => exact best
  | cons segment rest ih =>
      have parts : done ++ segment :: rest = (done ++ [segment]) ++ rest := by simp
      have count : done.length + 1 = (done ++ [segment]).length := by simp
      rw [longestZeros]
      by_cases zero : segment = 0
      · rw [if_pos zero]
        have here : (done ++ segment :: rest)[done.length]? = some 0 := by simp [zero]
        have longer : ZeroRun (done ++ segment :: rest)
            ⟨if current.len = 0 then done.length else current.start, current.len + 1⟩ := by
          intro index low high
          dsimp only at low high
          by_cases last : index = done.length
          · rw [last, here]
          · by_cases fresh : current.len = 0
            · simp only [fresh, if_true] at low high
              omega
            · simp only [fresh, if_false] at low high
              have stop := ends fresh
              exact run index low (by omega)
        rw [count, parts]
        rw [parts] at longer best
        refine ih (done ++ [segment]) longer ?_ ?_
        · intro _
          dsimp only
          rw [List.length_append, List.length_singleton]
          by_cases fresh : current.len = 0
          · simp only [fresh, if_true]
          · have stop := ends fresh
            simp only [fresh, if_false]
            omega
        · by_cases wins : current.len + 1 > longest.len
          · simpa only [wins, if_true] using longer
          · simpa only [wins, if_false] using best
      · rw [if_neg zero, count, parts]
        rw [parts] at best
        refine ih (done ++ [segment]) ?_ (fun long => absurd rfl long) best
        intro index low high
        dsimp only at high
        omega

theorem ZeroRun.split {segments : List Nat} {span : Span} (run : ZeroRun segments span)
    (long : 0 < span.len) : span.start + span.len ≤ segments.length ∧
      segments = segments.take span.start ++ List.replicate span.len 0 ++
        segments.drop (span.start + span.len) := by
  have last := run (span.start + span.len - 1) (by omega) (by omega)
  have inside : span.start + span.len ≤ segments.length := by
    have bound := (List.getElem?_eq_some_iff.mp last).1
    omega
  refine ⟨inside, ?_⟩
  have middle : (segments.drop span.start).take span.len = List.replicate span.len 0 := by
    apply List.ext_getElem?
    intro index
    rw [List.getElem?_take, List.getElem?_drop, List.getElem?_replicate]
    split
    · exact run _ (by omega) (by omega)
    · rfl
  rw [← middle, List.append_assoc, ← List.drop_drop, List.take_append_drop,
    List.take_append_drop]

theorem readIpv4_groupsText (segments : List Nat) {rest : Text} (closes : Closes rest) :
    readIpv4 (groupsText segments ++ rest) = none := by
  cases segments with
  | nil =>
      rcases closes with rfl | ⟨more, rfl⟩
      · rfl
      · exact readIpv4_colon _
  | cons segment segments =>
      rw [groupsText_cons, List.append_assoc]
      exact readIpv4_groups segment segments closes

theorem readIpv6_gap (front back : List Nat) (small : ∀ segment ∈ front ++ back, segment < 65536)
    (room : front.length + back.length ≤ 6) :
    readIpv6 (groupsText front ++ ':' :: ':' :: groupsText back) =
      some (ofBigDigits 65536
        (front ++ List.replicate (8 - front.length - back.length) 0 ++ back), []) := by
  have head := readGroups_text front (fun segment member => small segment (by simp [member]))
    (show front.length ≤ 8 by omega) (.inr ⟨groupsText back, rfl⟩)
  have tail := readGroups_text back (fun segment member => small segment (by simp [member]))
    (show back.length ≤ 8 - (front.length + 1) by omega) (.inl rfl)
  rw [List.append_nil] at tail
  have short : front.length ≠ 8 := by omega
  simp only [readIpv6, head, tail, short, if_false, Bool.false_eq_true]

theorem readIpv6_full (segments : List Nat) (small : ∀ segment ∈ segments, segment < 65536)
    (count : segments.length = 8) :
    readIpv6 (groupsText segments) = some (ofBigDigits 65536 segments, []) := by
  have head := readGroups_text segments small (show segments.length ≤ 8 by omega) (.inl rfl)
  rw [List.append_nil] at head
  simp only [readIpv6, head, count, if_true]

theorem readGroups_mapped {low : Nat} (small : low < 2 ^ 32) :
    readGroups 7 true ("ffff:".toList ++ ipv4Text low) =
      (0xffff :: bigDigits 65536 2 low, true, []) := by
  have text : "ffff:".toList ++ ipv4Text low =
      Nat.toDigits 16 0xffff ++ ':' :: ipv4Text low := rfl
  have first : readIpv4 (Nat.toDigits 16 0xffff ++ ':' :: ipv4Text low) = none := by
    refine readIpv4_group (group_no_point _) ?_
    intro c head
    rw [← Option.some.inj head]
    decide
  have group : readNumber 16 4 true 65535 (Nat.toDigits 16 0xffff ++ ':' :: ipv4Text low) =
      some (0xffff, ':' :: ipv4Text low) :=
    readNumber_group (by decide) (ends_cons _ (by decide))
  have embedded : readIpv4 (ipv4Text low) = some (low, []) := by
    have whole := readIpv4_text small [] nofun
    rwa [List.append_nil] at whole
  rw [text, readGroups]
  simp only [readSeparator, first, group, ite_self]
  rw [readGroups]
  simp [readSeparator, embedded]

theorem ofBigDigits_mapped {bits : Nat} (small : bits < 2 ^ 128)
    (mapped : (bigDigits 65536 8 bits).take 6 = [0, 0, 0, 0, 0, 0xffff]) :
    ofBigDigits 65536
      (List.replicate 5 0 ++ 0xffff :: bigDigits 65536 2 (bits % 2 ^ 32)) = bits := by
  simp only [bigDigits, List.nil_append, List.cons_append, List.take_succ_cons, List.take_zero,
    List.cons.injEq, and_true, Nat.div_div_eq_div_mul] at mapped
  simp only [ofBigDigits, bigDigits, List.replicate, List.nil_append, List.cons_append,
    List.foldl_cons, List.foldl_nil]
  omega

theorem readIpv6_text {bits : Nat} (small : bits < 2 ^ 128) :
    readIpv4 (ipv6Text bits) = none ∧ readIpv6 (ipv6Text bits) = some (bits, []) := by
  have value : ofBigDigits 65536 (bigDigits 65536 8 bits) = bits :=
    ofBigDigits_bigDigits (by simpa using small)
  have bounds := bigDigits_lt (show 0 < 65536 by decide) 8 bits
  have count := bigDigits_length 65536 8 bits
  rw [ipv6Text]
  by_cases mapped : (bigDigits 65536 8 bits).take 6 = [0, 0, 0, 0, 0, 0xffff]
  · simp only [if_pos mapped]
    have low : bits % 2 ^ 32 < 2 ^ 32 := Nat.mod_lt _ (by decide)
    have text : "::ffff:".toList ++ ipv4Text (bits % 2 ^ 32) =
        groupsText [] ++ ':' :: ':' :: ("ffff:".toList ++ ipv4Text (bits % 2 ^ 32)) := rfl
    have head : readGroups 8 true
        (groupsText [] ++ ':' :: ':' :: ("ffff:".toList ++ ipv4Text (bits % 2 ^ 32))) = _ :=
      readGroups_text [] nofun (by decide) (.inr ⟨_, rfl⟩)
    refine ⟨readIpv4_colon _, ?_⟩
    rw [text]
    simp only [readIpv6, head, readGroups_mapped low, List.length_nil, List.length_cons,
      bigDigits_length]
    simp only [Nat.reduceEqDiff, if_false, Bool.false_eq_true, List.nil_append, Nat.sub_zero,
      Nat.reduceAdd, Nat.reduceSub]
    rw [ofBigDigits_mapped small mapped]
  · simp only [if_neg mapped]
    have run : ZeroRun (bigDigits 65536 8 bits)
        (longestZeros (bigDigits 65536 8 bits) 0 ⟨0, 0⟩ ⟨0, 0⟩) :=
      longestZeros_run [] (bigDigits 65536 8 bits) nofun nofun nofun
    generalize longestZeros (bigDigits 65536 8 bits) 0 ⟨0, 0⟩ ⟨0, 0⟩ = zeros at run ⊢
    generalize bigDigits 65536 8 bits = segments at value bounds count run
    split
    · rename_i long
      obtain ⟨inside, parts⟩ := run.split (by omega)
      have front : (segments.take zeros.start).length = zeros.start :=
        List.length_take_of_le (by omega)
      have back : (segments.drop (zeros.start + zeros.len)).length =
          8 - (zeros.start + zeros.len) := by rw [List.length_drop, count]
      refine ⟨readIpv4_groupsText _ (.inr ⟨_, rfl⟩), ?_⟩
      rw [readIpv6_gap]
      case small =>
        intro segment member
        rcases List.mem_append.mp member with inside | inside
        · exact bounds segment (List.mem_of_mem_take inside)
        · exact bounds segment (List.mem_of_mem_drop inside)
      case room => omega
      have gap : 8 - zeros.start - (8 - (zeros.start + zeros.len)) = zeros.len := by omega
      rw [front, back, gap, ← parts, value]
    · have whole := readIpv4_groupsText segments (.inl rfl)
      rw [List.append_nil] at whole
      refine ⟨whole, ?_⟩
      rw [readIpv6_full segments bounds count, value]

theorem parseIpAddr_text (ip : IpAddr) : parseIpAddr ip.text = some ip := by
  cases ip with
  | v4 bits =>
      have read := readIpv4_text bits.isLt [] nofun
      rw [List.append_nil] at read
      simp [parseIpAddr, IpAddr.text, read]
  | v6 bits =>
      obtain ⟨four, six⟩ := readIpv6_text bits.isLt
      simp [parseIpAddr, IpAddr.text, four, six]

theorem IpAddr.text_injective : Function.Injective IpAddr.text := by
  intro first second same
  have parsed := parseIpAddr_text first
  rw [same, parseIpAddr_text] at parsed
  exact (Option.some.inj parsed).symm

theorem IpAddr.text_ne_nil (ip : IpAddr) : ip.text ≠ [] := by
  intro empty
  have parsed := parseIpAddr_text ip
  have unread : parseIpAddr [] = none := by decide
  rw [empty, unread] at parsed
  cases parsed

/-! ### The characters of an address -/

def isAddressChar (c : Char) : Bool := isDigitOf 16 c || c == '.' || c == ':'

theorem isAddressChar_range {c : Char} (char : isAddressChar c = true) :
    46 ≤ c.toNat ∧ c.toNat ≤ 102 := by
  simp only [isAddressChar, Bool.or_eq_true, isDigitOf, decide_eq_true_eq, beq_iff_eq] at char
  rcases char with (digit | rfl) | rfl
  · rw [digitValue] at digit
    split_ifs at digit with decimal lower upper
    · have range := RustInt.isDigit_toNat decimal
      omega
    · omega
    · omega
    · omega
  · decide
  · decide

theorem joined_chars {mark : Char} {parts : List Text} {allowed : Char → Bool}
    (marked : allowed mark = true) (each : ∀ part ∈ parts, ∀ c ∈ part, allowed c = true) :
    ∀ c ∈ joined mark parts, allowed c = true := by
  cases parts with
  | nil => exact nofun
  | cons head tail =>
      intro c member
      rcases List.mem_append.mp member with first | later
      · exact each head List.mem_cons_self c first
      · obtain ⟨part, inside, found⟩ := List.mem_flatMap.mp later
        rcases List.mem_cons.mp found with rfl | found
        · exact marked
        · exact each part (List.mem_cons_of_mem _ inside) c found

theorem digits_chars (base : Nat) (two : 1 < base) (small : base ≤ 16) (values : List Nat) :
    ∀ part ∈ values.map (Nat.toDigits base), ∀ c ∈ part, isAddressChar c = true := by
  intro part member c inside
  obtain ⟨value, -, rfl⟩ := List.mem_map.mp member
  have digit := toDigits_isDigitOf two small value c inside
  rw [isDigitOf, decide_eq_true_iff] at digit
  have hex : isDigitOf 16 c = true := decide_eq_true (digit.trans_le small)
  simp [isAddressChar, hex]

theorem ipv4Text_chars (bits : Nat) : ∀ c ∈ ipv4Text bits, isAddressChar c = true :=
  joined_chars (by decide) (digits_chars 10 (by decide) (by decide) _)

theorem groupsText_chars (segments : List Nat) :
    ∀ c ∈ groupsText segments, isAddressChar c = true :=
  joined_chars (by decide) (digits_chars 16 (by decide) (by decide) _)

theorem IpAddr.text_chars (ip : IpAddr) : ∀ c ∈ ip.text, isAddressChar c = true := by
  have colon : isAddressChar ':' = true := by decide
  have start : "::ffff:".toList.all isAddressChar = true := by decide
  cases ip with
  | v4 bits => exact ipv4Text_chars _
  | v6 bits =>
      rw [IpAddr.text, ipv6Text]
      dsimp only
      split
      · intro c member
        rcases List.mem_append.mp member with first | later
        · exact List.all_eq_true.mp start c first
        · exact ipv4Text_chars _ c later
      · split
        · intro c member
          simp only [List.mem_append, List.mem_cons] at member
          rcases member with front | rfl | rfl | back
          · exact groupsText_chars _ c front
          · exact colon
          · exact colon
          · exact groupsText_chars _ c back
        · exact groupsText_chars _

end Strata.Net
