import Mathlib.Tactic
import Strata.Lib.Utf8

/-! Header maps and header values of the `http` crate, by their documented behaviour. -/

namespace Strata

open Utf8 (Text Bytes)

/-- A map by the lines of its iterator, each under its lower-case name. -/
abbrev HeaderMap := List (Text × Bytes)

namespace HeaderMap

def values (headers : HeaderMap) (name : Text) : List Bytes :=
  (headers.filter (·.1 = name)).map (·.2)

def names (headers : HeaderMap) : List Text := headers.map (·.1)

theorem mem_values {headers : HeaderMap} {name : Text} {value : Bytes} :
    value ∈ headers.values name ↔ (name, value) ∈ headers := by
  simp [values]

theorem values_cons (line : Text × Bytes) (headers : HeaderMap) (name : Text) :
    values (line :: headers) name = if line.1 = name then line.2 :: headers.values name
      else headers.values name := by
  by_cases same : line.1 = name <;> simp [values, same]

theorem values_append (front back : HeaderMap) (name : Text) :
    values (front ++ back) name = front.values name ++ back.values name := by
  simp [values]

theorem values_filter (keep : Text → Bool) (headers : HeaderMap) (name : Text) :
    values (headers.filter fun line => keep line.1) name =
      if keep name then headers.values name else [] := by
  rw [values, values, List.filter_filter]
  split
  · next kept =>
      congr 1
      apply List.filter_congr
      intro line _
      by_cases same : line.1 = name <;> simp [same, kept]
  · next gone =>
      rw [List.map_eq_nil_iff, List.filter_eq_nil_iff]
      intro line _
      by_cases same : line.1 = name <;> simp [same, gone]

theorem values_eq_nil {headers : HeaderMap} {name : Text} (absent : name ∉ headers.names) :
    headers.values name = [] := by
  rw [values, List.map_eq_nil_iff, List.filter_eq_nil_iff]
  intro line member same
  rw [decide_eq_true_eq] at same
  exact absent (same ▸ List.mem_map_of_mem member)

end HeaderMap

namespace Http

def isVisibleAscii (byte : UInt8) : Bool := (32 ≤ byte && byte < 127) || byte == 9

def isVisibleChar (c : Char) : Bool := (32 ≤ c.toNat && c.toNat < 127) || c.toNat == 9

def Visible (text : Text) : Prop := ∀ c ∈ text, isVisibleChar c = true

instance (text : Text) : Decidable (Visible text) := List.decidableBAll _ text

def lineText (value : Bytes) : Text := value.map fun byte => Char.ofNat byte.toNat

def lower (text : Text) : Text := text.map Char.toLower

end Http

/-- The `http` crate as far as headers and the parts of a URI go. -/
structure Http where
  get : HeaderMap → Text → Option Bytes
  insert : HeaderMap → Text → Bytes → HeaderMap
  append : HeaderMap → Text → Bytes → HeaderMap
  remove : HeaderMap → Text → HeaderMap
  toStr : Bytes → Option Text
  fromStr : Text → Option Bytes
  fromBytes : Bytes → Option Bytes
  headerName : Bytes → Option Text
  authority : Text → Option Text
  buildUri : Text → Text → Option Text
  get_eq : ∀ headers name, get headers name = (headers.values name).head?
  values_insert : ∀ headers name value other, (insert headers name value).values other =
    if other = name then [value] else headers.values other
  values_append : ∀ headers name value other, (append headers name value).values other =
    headers.values other ++ if other = name then [value] else []
  values_remove : ∀ headers name other, (remove headers name).values other =
    if other = name then [] else headers.values other
  toStr_eq_some : ∀ value text, toStr value = some text ↔
    value.all Http.isVisibleAscii = true ∧ Http.lineText value = text
  fromStr_visible : ∀ text, Http.Visible text → fromStr text = some (Utf8.encode text)
  fromStr_bytes : ∀ text value, fromStr text = some value → value = Utf8.encode text
  /-- Names are kept in lower case. -/
  headerName_lower : ∀ token name, headerName (Utf8.encode token) = some name →
    Http.lower token = name
  /-- The case of a name does not matter. -/
  headerName_cased : ∀ token, headerName (Utf8.encode (Http.lower token)) =
    some (Http.lower token) → headerName (Utf8.encode token) = some (Http.lower token)

namespace Http

/-! ### Visible text -/

theorem isVisibleAscii_iff (byte : UInt8) :
    isVisibleAscii byte = true ↔ 32 ≤ byte.toNat ∧ byte.toNat < 127 ∨ byte.toNat = 9 := by
  simp [isVisibleAscii, UInt8.le_iff_toNat_le, UInt8.lt_iff_toNat_lt, ← UInt8.toNat_inj]

theorem isVisibleChar_iff (c : Char) :
    isVisibleChar c = true ↔ 32 ≤ c.toNat ∧ c.toNat < 127 ∨ c.toNat = 9 := by
  simp [isVisibleChar]

theorem isVisibleChar_of_byte {byte : UInt8} (visible : isVisibleAscii byte = true) :
    isVisibleChar (Char.ofNat byte.toNat) = true := by
  have table : ∀ n < 256, isVisibleAscii (UInt8.ofNat n) = true →
      isVisibleChar (Char.ofNat n) = true := by decide +kernel
  exact table byte.toNat byte.toNat_lt (by simpa using visible)

theorem encodeChar_visible {c : Char} (visible : isVisibleChar c = true) :
    ∃ byte, String.utf8EncodeChar c = [byte] ∧ c = Char.ofNat byte.toNat ∧
      isVisibleAscii byte = true := by
  rw [isVisibleChar_iff] at visible
  have small : c.val.toNat ≤ 0x7f := by
    have same : c.val.toNat = c.toNat := rfl
    omega
  have value : (UInt8.ofNat c.val.toNat).toNat = c.toNat := by
    rw [UInt8.toNat_ofNat']
    exact Nat.mod_eq_of_lt (lt_of_le_of_lt small (by decide))
  refine ⟨UInt8.ofNat c.val.toNat, by rw [String.utf8EncodeChar, if_pos small], ?_, ?_⟩
  · rw [value, Char.ofNat_toNat]
  · rwa [isVisibleAscii_iff, value]

theorem encode_visible {text : Text} (visible : Visible text) :
    (Utf8.encode text).all isVisibleAscii = true ∧ lineText (Utf8.encode text) = text := by
  induction text with
  | nil => exact ⟨rfl, rfl⟩
  | cons c text ih =>
      have ⟨first, rest⟩ := List.forall_mem_cons.mp visible
      obtain ⟨byte, chunk, same, seen⟩ := encodeChar_visible first
      have tail := ih rest
      rw [Utf8.encode_cons, chunk]
      constructor
      · simpa [seen] using tail.1
      · rw [lineText, List.singleton_append, List.map_cons, ← same]
        exact congrArg (c :: ·) tail.2

theorem visible_of_encode {text : Text} (all : (Utf8.encode text).all isVisibleAscii = true) :
    Visible text := by
  rw [List.all_eq_true] at all
  intro c member
  have bytes (byte : UInt8) (inside : byte ∈ String.utf8EncodeChar c) :
      32 ≤ byte.toNat ∧ byte.toNat < 127 ∨ byte.toNat = 9 :=
    (isVisibleAscii_iff byte).mp (all byte (List.mem_flatMap.mpr ⟨c, member, inside⟩))
  -- every lead byte of a longer character is outside the visible range
  rcases Utf8.encodeChar_cases c with ⟨a, chunk, -, value⟩ | ⟨a, b, chunk, low, -⟩ |
    ⟨a, b, d, chunk, low, -⟩ | ⟨a, b, d, e, chunk, low, -⟩
  · rw [isVisibleChar_iff, value]
    exact bytes a (by simp [chunk])
  all_goals
    have range := bytes a (by simp [chunk])
    omega

section Laws

variable (http : Http)

theorem toStr_encode {text : Text} (visible : Visible text) :
    http.toStr (Utf8.encode text) = some text :=
  (http.toStr_eq_some _ _).mpr (encode_visible visible)

theorem visible_of_toStr_encode {text read : Text}
    (readable : http.toStr (Utf8.encode text) = some read) : Visible text :=
  visible_of_encode ((http.toStr_eq_some _ _).mp readable).1

theorem toStr_visible {value : Bytes} {text : Text} (read : http.toStr value = some text) :
    Visible text := by
  obtain ⟨all, rfl⟩ := (http.toStr_eq_some _ _).mp read
  rw [List.all_eq_true] at all
  intro c member
  obtain ⟨byte, inside, rfl⟩ := List.mem_map.mp member
  exact isVisibleChar_of_byte (all byte inside)

/-- `HeaderMap::remove` for each of the names. -/
theorem values_removes (names : List Text) (headers : HeaderMap) (other : Text) :
    (names.foldl http.remove headers).values other =
      if other ∈ names then [] else headers.values other := by
  induction names generalizing headers with
  | nil => simp
  | cons name names ih =>
      rw [List.foldl_cons, ih, http.values_remove]
      by_cases first : other = name
      · simp [first]
      · simp [first]

def removeIf (drop : Text → Bool) (headers : HeaderMap) : HeaderMap :=
  (headers.names.filter drop).foldl http.remove headers

theorem values_removeIf (drop : Text → Bool) (headers : HeaderMap) (other : Text) :
    (http.removeIf drop headers).values other =
      if drop other then [] else headers.values other := by
  rw [removeIf, values_removes]
  by_cases present : other ∈ headers.names
  · by_cases gone : drop other <;> simp [present, gone]
  · rw [HeaderMap.values_eq_nil present, ite_self, ite_self]

theorem values_appends (lines headers : HeaderMap) (other : Text) :
    (lines.foldl (fun headers line => http.append headers line.1 line.2) headers).values other =
      headers.values other ++ HeaderMap.values lines other := by
  induction lines generalizing headers with
  | nil => simp [HeaderMap.values]
  | cons line lines ih =>
      rw [List.foldl_cons, ih, http.values_append, HeaderMap.values_cons, List.append_assoc]
      by_cases same : line.1 = other
      · simp [same]
      · simp [same, Ne.symm same]

theorem get_congr {headers lines : HeaderMap} {name : Text}
    (same : headers.values name = lines.values name) :
    http.get headers name = http.get lines name := by
  rw [http.get_eq, http.get_eq, same]

end Laws

/-! ### The crate's own behaviour -/

def isTokenChar (c : Char) : Bool := c.isAlphanum || "!#$%&'*+-.^_`|~".toList.contains c

def isTokenByte (byte : UInt8) : Bool := isVisibleAscii byte && isTokenChar (Char.ofNat byte.toNat)

def readName (bytes : Bytes) : Option Text :=
  if bytes ≠ [] ∧ bytes.length < 2 ^ 16 ∧ bytes.all isTokenByte then some (lower (lineText bytes))
  else none

def isHostChar (c : Char) : Bool := c.isAlphanum || ".-:[]".toList.contains c

theorem isTokenChar_toLower (c : Char) : isTokenChar c.toLower = isTokenChar c := by
  by_cases upper : c.val ≥ 'A'.val ∧ c.val ≤ 'Z'.val
  · have range : 65 ≤ c.toNat ∧ c.toNat ≤ 90 := upper
    have table : ∀ n < 91, 65 ≤ n →
        isTokenChar (Char.ofNat n).toLower = isTokenChar (Char.ofNat n) := by decide +kernel
    have same := table c.toNat (by omega) range.1
    rwa [Char.ofNat_toNat] at same
  · have same : c.toLower = c := dif_neg upper
    rw [same]

theorem isVisibleChar_toLower {c : Char} (visible : isVisibleChar c.toLower = true) :
    isVisibleChar c = true := by
  by_cases upper : c.val ≥ 'A'.val ∧ c.val ≤ 'Z'.val
  · have range : 65 ≤ c.toNat ∧ c.toNat ≤ 90 := upper
    rw [isVisibleChar_iff]
    omega
  · have same : c.toLower = c := dif_neg upper
    rwa [same] at visible

theorem readName_eq_some {token name : Text} :
    readName (Utf8.encode token) = some name ↔
      (token ≠ [] ∧ token.length < 2 ^ 16 ∧ Visible token ∧ token.all isTokenChar = true) ∧
        lower token = name := by
  rw [readName, Option.ite_none_right_eq_some]
  have bytes : (Utf8.encode token).all isTokenByte = true ↔
      Visible token ∧ token.all isTokenChar = true := by
    have split : (Utf8.encode token).all isTokenByte =
        ((Utf8.encode token).all isVisibleAscii &&
          (lineText (Utf8.encode token)).all isTokenChar) := by
      rw [lineText, List.all_map]
      induction Utf8.encode token with
      | nil => rfl
      | cons byte rest ih =>
          simp only [List.all_cons, ih, isTokenByte, Function.comp_apply]
          cases isVisibleAscii byte <;> simp [Bool.and_left_comm]
    rw [split, Bool.and_eq_true]
    constructor
    · rintro ⟨all, tokens⟩
      have visible := visible_of_encode all
      exact ⟨visible, by rwa [(encode_visible visible).2] at tokens⟩
    · rintro ⟨visible, tokens⟩
      exact ⟨(encode_visible visible).1, by rwa [(encode_visible visible).2]⟩
  constructor
  · rintro ⟨⟨filled, short, all⟩, same⟩
    have ⟨visible, tokens⟩ := bytes.mp all
    have text := (encode_visible visible).2
    have length : (Utf8.encode token).length = token.length := by
      rw [← congrArg List.length text, lineText, List.length_map]
    rw [text, Option.some.injEq] at same
    refine ⟨⟨?_, by rwa [← length], visible, tokens⟩, same⟩
    rintro rfl
    exact filled rfl
  · rintro ⟨⟨filled, short, visible, tokens⟩, same⟩
    have text := (encode_visible visible).2
    have length : (Utf8.encode token).length = token.length := by
      rw [← congrArg List.length text, lineText, List.length_map]
    refine ⟨⟨?_, by rwa [length], bytes.mpr ⟨visible, tokens⟩⟩, by rw [text, same]⟩
    rw [← List.length_pos_iff, length]
    exact List.length_pos_iff.mpr filled

/-- The crate, with a map kept as the list of its lines. -/
def standard : Http where
  get headers name := (headers.values name).head?
  insert headers name value :=
    headers.filter (fun line => decide (line.1 ≠ name)) ++ [(name, value)]
  append headers name value := headers ++ [(name, value)]
  remove headers name := headers.filter fun line => decide (line.1 ≠ name)
  toStr value := if value.all isVisibleAscii then some (lineText value) else none
  fromStr text :=
    if (Utf8.encode text).all fun byte => (32 ≤ byte && byte != 127) || byte == 9 then
      some (Utf8.encode text)
    else none
  fromBytes bytes :=
    if bytes.all fun byte => (32 ≤ byte && byte != 127) || byte == 9 then some bytes else none
  headerName := readName
  authority text := if text ≠ [] ∧ text.all isHostChar then some text else none
  buildUri authority path := some ("http://".toList ++ authority ++ path)
  get_eq _ _ := rfl
  values_insert headers name value other := by
    rw [HeaderMap.values_append, HeaderMap.values_filter fun field => decide (field ≠ name)]
    by_cases same : other = name
    · simp [same, HeaderMap.values]
    · simp [same, HeaderMap.values, Ne.symm same]
  values_append headers name value other := by
    rw [HeaderMap.values_append]
    by_cases same : other = name
    · simp [same, HeaderMap.values]
    · simp [same, HeaderMap.values, Ne.symm same]
  values_remove headers name other := by
    rw [HeaderMap.values_filter fun field => decide (field ≠ name)]
    by_cases same : other = name <;> simp [same]
  toStr_eq_some value text := by rw [Option.ite_none_right_eq_some, Option.some.injEq]
  fromStr_visible text visible := by
    rw [if_pos]
    rw [List.all_eq_true]
    intro byte member
    have seen := List.all_eq_true.mp (encode_visible visible).1 byte member
    rw [isVisibleAscii_iff] at seen
    simp only [Bool.or_eq_true, Bool.and_eq_true, decide_eq_true_eq, bne_iff_ne, beq_iff_eq,
      UInt8.le_iff_toNat_le, ne_eq, ← UInt8.toNat_inj]
    simp only [UInt8.reduceToNat]
    omega
  fromStr_bytes text value valid := by
    rw [Option.ite_none_right_eq_some, Option.some.injEq] at valid
    exact valid.2.symm
  headerName_lower token name named := (readName_eq_some.mp named).2
  headerName_cased token named := by
    obtain ⟨⟨filled, short, visible, tokens⟩, -⟩ := readName_eq_some.mp named
    refine readName_eq_some.mpr ⟨⟨?_, ?_, ?_, ?_⟩, rfl⟩
    · rintro rfl
      exact filled rfl
    · rwa [lower, List.length_map] at short
    · exact fun c member => isVisibleChar_toLower (visible c.toLower (List.mem_map_of_mem member))
    · rw [lower, List.all_map] at tokens
      simpa only [Function.comp_def, isTokenChar_toLower] using tokens

end Http

end Strata
