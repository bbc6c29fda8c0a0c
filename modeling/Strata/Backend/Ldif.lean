import Mathlib.Tactic
import Strata.Lib.Base64
import Strata.Lib.Pieces
import Strata.Lib.RustStr
import Strata.Lib.Tables

/-! The computers read from the LDIF that `ldapsearch -LLL` prints. The reader knows values
written as text and continuation lines; a value written in base64 stands behind `::`, which it
does not look for. -/

namespace Strata.Backend.AdSync

open Utf8 (Text)
open Tables (Table)

structure DiscoveredComputer where
  dn : Text
  name : Text
  dnsHostName : Option Text
  description : Option Text
  deriving DecidableEq, Repr

/-- `str::lines`: a line ends at its line feed, and a carriage return before that is dropped. -/
def stripEnding (piece : Text) : Text :=
  if piece.getLast? = some '\n' then
    if piece.dropLast.getLast? = some '\r' then piece.dropLast.dropLast else piece.dropLast
  else piece

def lines (text : Text) : List Text := (Pieces.splitInclusive '\n' text).map stripEnding

structure Reading where
  computers : List DiscoveredComputer
  currentDn : Text
  attrs : Table Text Text
  lastKey : Text

def Reading.start : Reading := ⟨[], [], ∅, []⟩

def isDn (key : Text) : Bool := key.map Char.toLower == ['d', 'n']

def flush (dn : Text) (attrs : Table Text Text) : Option DiscoveredComputer :=
  if dn = [] then none
  else
    some {
      dn := dn
      name := ((attrs.lookup "cn".toList).or (attrs.lookup "name".toList)).getD dn
      dnsHostName := attrs.lookup "dNSHostName".toList
      description := attrs.lookup "description".toList }

def separator : Text := [':', ' ']

def readLine (s : Reading) (line : Text) : Reading :=
  match line with
  | [] => ⟨s.computers ++ (flush s.currentDn s.attrs).toList, [], ∅, []⟩
  | ' ' :: cont =>
      if isDn s.lastKey then { s with currentDn := s.currentDn ++ cont }
      else if s.lastKey = [] then s
      else { s with attrs := Tables.modify s.attrs s.lastKey (· ++ cont) }
  | '#' :: _ => s
  | line =>
      match RustStr.splitOnText separator line with
      | none => s
      | some (key, value) =>
          if isDn key then { s with lastKey := key, currentDn := value }
          else { s with lastKey := key, attrs := s.attrs.insert key value }

def parseLdif (ldif : Text) : List DiscoveredComputer :=
  let s := (lines ldif).foldl readLine .start
  s.computers ++ (flush s.currentDn s.attrs).toList

/-! ### What `ldapsearch` prints -/

def isPrintable (c : Char) : Bool := 0x20 ≤ c.toNat && c.toNat ≤ 0x7E

/-- A value that LDIF lets stand as it is. -/
def ldifSafe (value : Text) : Bool :=
  value.all isPrintable && value.head? != some ' ' && value.head? != some ':' &&
    value.head? != some '<' && value.getLast? != some ' '

/-- One attribute of an entry, and the pieces its line is folded into. -/
structure Field where
  name : Text
  value : Text
  pieces : List Text

namespace Field

def line (field : Field) : Text :=
  if ldifSafe field.value then field.name ++ separator ++ field.value
  else field.name ++ ':' :: separator ++ Base64.encodeBytes (Utf8.encode field.value)

def folded (field : Field) : Bool :=
  decide (field.pieces.flatten = field.line) && field.pieces.all fun piece => !piece.isEmpty

def printed (field : Field) : List Text :=
  match field.pieces with
  | [] => []
  | first :: more => first :: more.map (' ' :: ·)

end Field

structure Entry where
  dn : Field
  attrs : List Field

def requested : List Text :=
  ["cn", "dNSHostName", "distinguishedName", "name", "description"].map String.toList

namespace Entry

def value (entry : Entry) (name : String) : Option Text :=
  (entry.attrs.find? fun field => field.name = name.toList).map Field.value

/-- A directory entry with a name and single-valued attributes among those asked for. -/
def valid (entry : Entry) : Bool :=
  entry.dn.name == "dn".toList && !entry.dn.value.isEmpty && entry.dn.folded &&
    entry.attrs.all (fun field => requested.contains field.name && field.folded) &&
    decide (entry.attrs.map Field.name).Nodup

def printed (entry : Entry) : List Text :=
  entry.dn.printed ++ entry.attrs.flatMap Field.printed ++ [[]]

def computer (entry : Entry) : DiscoveredComputer where
  dn := entry.dn.value
  name := ((entry.value "cn").or (entry.value "name")).getD entry.dn.value
  dnsHostName := entry.value "dNSHostName"
  description := entry.value "description"

end Entry

def printed (entries : List Entry) : Text :=
  (entries.flatMap Entry.printed).flatMap (· ++ ['\n'])

/-- Every entry comes back as the computer it describes, in order. -/
def ReadsBack (entries : List Entry) : Prop :=
  parseLdif (printed entries) = entries.map Entry.computer

instance instDecidableReadsBack (entries : List Entry) : Decidable (ReadsBack entries) :=
  inferInstanceAs (Decidable (_ = _))

/-! ### When it is read back -/

namespace Field

/-- What the reader takes for the key, and behind it for the value: in base64 the second colon
belongs to the key. -/
def key (field : Field) : Text :=
  if ldifSafe field.value then field.name else field.name ++ [':']

def shown (field : Field) : Text :=
  if ldifSafe field.value then field.value else Base64.encodeBytes (Utf8.encode field.value)

/-- A fold before the end of the separator. -/
def cut (field : Field) : Bool :=
  field.pieces.head?.all fun first => decide (first.length < (field.key ++ separator).length)

/-- The value stands as text, and no fold cuts the name or the separator. -/
def plain (field : Field) : Bool := ldifSafe field.value && !field.cut

end Field

/-- The rest of the cut lines at the front, which the reader adds to the line it read before. -/
def spill : List Field → Text
  | [] => []
  | field :: rest => if field.cut then field.pieces.tail.flatten ++ spill rest else []

def taken (name : Text) : List Field → Option Text
  | [] => none
  | field :: rest =>
      if field.plain ∧ field.name = name then some (field.value ++ spill rest) else taken name rest

/-- The attribute, if it is there, stands as text and has no cut line behind it. -/
def Kept (name : Text) : List Field → Prop
  | [] => True
  | field :: rest =>
      if field.name = name then field.plain ∧ spill rest = [] else Kept name rest

instance decidableKept (name : Text) : (attrs : List Field) → Decidable (Kept name attrs)
  | [] => .isTrue trivial
  | field :: rest =>
      have := decidableKept name rest
      inferInstanceAs (Decidable (if field.name = name then _ else _))

structure Entry.Legible (entry : Entry) : Prop where
  dn : entry.dn.plain ∧ spill entry.attrs = []
  /-- A name that is not read may still be what the next in line says. -/
  name : ((taken "cn".toList entry.attrs).or (taken "name".toList entry.attrs)).getD
    entry.dn.value = entry.computer.name
  dnsHostName : Kept "dNSHostName".toList entry.attrs
  description : Kept "description".toList entry.attrs

/-! ### Lines -/

def Clean (line : Text) : Prop := line.all isPrintable = true

theorem Clean.notMem {line : Text} (clean : Clean line) {c : Char}
    (control : isPrintable c = false) : c ∉ line := by
  intro member
  rw [List.all_eq_true.mp clean c member] at control
  cases control

theorem stripEnding_clean {line : Text} (clean : Clean line) :
    stripEnding (line ++ ['\n']) = line := by
  have open_end : line.getLast? ≠ some '\r' :=
    fun last => clean.notMem (by decide) (List.mem_of_getLast? last)
  rw [stripEnding, if_pos (by simp), List.dropLast_concat, if_neg open_end]

theorem lines_clean {texts : List Text} (clean : ∀ text ∈ texts, Clean text) :
    lines (texts.flatMap (· ++ ['\n'])) = texts := by
  have closed : ∀ piece ∈ texts.map (· ++ ['\n']), Pieces.Closed '\n' piece := by
    intro piece member
    obtain ⟨text, inside, rfl⟩ := List.mem_map.mp member
    exact ⟨text, rfl, (clean text inside).notMem (by decide)⟩
  have split := Pieces.splitInclusive_flatten _ closed []
  rw [List.append_nil, Pieces.splitInclusive, List.append_nil] at split
  rw [lines, List.flatMap_def, split, List.map_map]
  calc texts.map (stripEnding ∘ (· ++ ['\n']))
      = texts.map id := List.map_congr_left fun text inside => stripEnding_clean (clean text inside)
    _ = texts := List.map_id texts

theorem clean_of_flatten {pieces : List Text} {line : Text} (whole : pieces.flatten = line)
    (clean : Clean line) : ∀ piece ∈ pieces, Clean piece := by
  intro piece member
  rw [← whole] at clean
  rw [Clean, List.all_eq_true] at clean ⊢
  exact fun c inside => clean c (List.mem_flatten.mpr ⟨piece, member, inside⟩)

theorem encodeBytes_clean (bytes : Utf8.Bytes) : Clean (Base64.encodeBytes bytes) := by
  have letters : ∀ n < 64, isPrintable (Base64.letter n) = true := by decide
  rw [Clean, List.all_eq_true]
  intro c member
  rcases Base64.encodeBytes_chars bytes c member with rfl | ⟨n, small, rfl⟩
  · decide
  · exact letters n small

theorem Field.line_eq (field : Field) : field.line = field.key ++ separator ++ field.shown := by
  rw [line, key, shown]
  split_ifs <;> simp

theorem Field.line_clean {field : Field} (named : Clean field.name) : Clean field.line := by
  have colon : Clean [':'] := rfl
  have space : Clean separator := rfl
  rw [line_eq, Clean, List.all_append, List.all_append, Bool.and_eq_true, Bool.and_eq_true, key,
    shown]
  split_ifs with safe
  · simp only [ldifSafe, Bool.and_eq_true] at safe
    exact ⟨⟨named, space⟩, safe.1.1.1.1⟩
  · rw [List.all_append, Bool.and_eq_true]
    exact ⟨⟨⟨named, colon⟩, space⟩, encodeBytes_clean _⟩

theorem Field.printed_clean {field : Field} (named : Clean field.name) (folded : field.folded) :
    ∀ line ∈ field.printed, Clean line := by
  rw [Field.folded, Bool.and_eq_true, decide_eq_true_eq] at folded
  have pieces := clean_of_flatten folded.1 (line_clean named)
  rw [Field.printed]
  cases cut : field.pieces with
  | nil => exact List.forall_mem_nil _
  | cons first more =>
      rw [cut, List.forall_mem_cons] at pieces
      rw [List.forall_mem_cons, List.forall_mem_map]
      refine ⟨pieces.1, fun piece member => ?_⟩
      rw [Clean, List.all_cons, pieces.2 piece member]
      decide

/-! ### One attribute -/

theorem splitOnText_skip {c : Char} (other : c ≠ ':') (text : Text) :
    RustStr.splitOnText separator (c :: text) =
      (RustStr.splitOnText separator text).map fun parts => (c :: parts.1, parts.2) := by
  have apart : separator.isPrefixOf (c :: text) = false := by
    simp [separator, List.isPrefixOf, other.symm]
  rw [RustStr.splitOnText, apart]
  rfl

theorem splitOnText_key {name : Text} (free : ':' ∉ name) (coded : Bool) (value : Text) :
    RustStr.splitOnText separator (name ++ (if coded then [':'] else []) ++ separator ++ value) =
      some (name ++ (if coded then [':'] else []), value) := by
  induction name with
  | nil => cases coded <;> rfl
  | cons c name ih =>
      rw [List.mem_cons, not_or] at free
      rw [List.cons_append, List.cons_append, List.cons_append, splitOnText_skip (Ne.symm free.1),
        ih free.2]
      rfl

theorem splitOnText_cut {name first : Text} (free : ':' ∉ name)
    (early : first <+: name ++ [':', ':']) : RustStr.splitOnText separator first = none := by
  induction name generalizing first with
  | nil =>
      rw [List.nil_append] at early
      have short := early.length_le
      rw [List.prefix_iff_eq_take] at early
      rw [early]
      match first.length, short with
      | 0, _ | 1, _ | 2, _ => rfl
  | cons c name ih =>
      rw [List.mem_cons, not_or] at free
      cases first with
      | nil => rfl
      | cons d first =>
          rw [List.cons_append, List.cons_prefix_cons] at early
          rw [early.1, splitOnText_skip (Ne.symm free.1), ih free.2 early.2]
          rfl

structure Named (name : Text) : Prop where
  clean : Clean name
  free : ':' ∉ name
  starts : ∃ c rest, name = c :: rest ∧ c ≠ ' ' ∧ c ≠ '#'

theorem named_dn : Named "dn".toList := ⟨rfl, by decide, 'd', _, rfl, by decide, by decide⟩

def store (s : Reading) (key value : Text) : Reading :=
  if isDn key then { s with lastKey := key, currentDn := value }
  else { s with lastKey := key, attrs := s.attrs.insert key value }

theorem readLine_text {c : Char} (solid : c ≠ ' ') (plain : c ≠ '#') (s : Reading) (text : Text) :
    readLine s (c :: text) = (RustStr.splitOnText separator (c :: text)).elim s fun parts =>
      store s parts.1 parts.2 := by
  rw [readLine.eq_def]
  split
  · next same => cases same
  · next same => exact absurd (List.cons.inj same).1 solid
  · next same => exact absurd (List.cons.inj same).1 plain
  · cases RustStr.splitOnText separator (c :: text) <;> rfl

theorem readLine_continuation {key : Text} (filled : key ≠ []) (s : Reading) (value cont : Text) :
    readLine (store s key value) (' ' :: cont) = store s key (value ++ cont) := by
  by_cases dn : isDn key = true
  · rw [store, store, if_pos dn, if_pos dn, readLine, if_pos dn]
  · rw [store, store, if_neg dn, if_neg dn, readLine, if_neg dn, if_neg filled]
    simp only [Tables.modify, AList.lookup_insert, AList.insert_insert]

theorem read_continuations {key : Text} (filled : key ≠ []) (more : List Text) :
    ∀ (s : Reading) (value : Text), (more.map (' ' :: ·)).foldl readLine (store s key value) =
      store s key (value ++ more.flatten) := by
  induction more with
  | nil => simp
  | cons cont more ih =>
      intro s value
      rw [List.map_cons, List.foldl_cons, readLine_continuation filled, ih, List.flatten_cons,
        List.append_assoc]

section Lines

variable {field : Field} (ok : Named field.name) (folded : field.folded)

include ok

theorem Field.key_ne_nil : field.key ≠ [] := by
  obtain ⟨c, rest, shape, -⟩ := ok.starts
  rw [key, shape]
  split_ifs <;> exact List.cons_ne_nil _ _

theorem readLine_key (s : Reading) (start : Text) :
    readLine s (field.key ++ separator ++ start) = store s field.key start := by
  obtain ⟨c, rest, shape, solid, plain⟩ := ok.starts
  have split := splitOnText_key ok.free (!ldifSafe field.value) start
  have key : field.name ++ (if (!ldifSafe field.value) = true then [':'] else []) = field.key := by
    rw [Field.key]
    cases ldifSafe field.value
    · rfl
    · exact List.append_nil _
  have head : ∃ more, field.key ++ separator ++ start = c :: more := by
    rw [← key, shape]
    exact ⟨_, rfl⟩
  obtain ⟨more, head⟩ := head
  rw [key, head] at split
  rw [head, readLine_text solid plain, split]
  rfl

include folded

theorem Field.pieces_shape : ∃ first more, field.pieces = first :: more ∧ first ≠ [] ∧
    first ++ more.flatten = field.key ++ separator ++ field.shown := by
  rw [Field.folded, Bool.and_eq_true, decide_eq_true_eq, line_eq] at folded
  cases shape : field.pieces with
  | nil =>
      have whole := folded.1
      rw [shape] at whole
      have empty := (List.append_eq_nil_iff.mp (List.append_eq_nil_iff.mp whole.symm).1).1
      exact absurd empty (key_ne_nil ok)
  | cons first more =>
      rw [shape, List.all_cons, Bool.and_eq_true] at folded
      exact ⟨first, more, rfl, by simpa using folded.2.1, folded.1⟩

theorem read_whole (whole : field.cut = false) (s : Reading) :
    field.printed.foldl readLine s = store s field.key field.shown := by
  obtain ⟨first, more, shape, -, line⟩ := Field.pieces_shape ok folded
  rw [Field.cut, shape, List.head?_cons, Option.all_some, decide_eq_false_iff_not, Nat.not_lt]
    at whole
  obtain ⟨start, rfl⟩ : field.key ++ separator <+: first :=
    List.prefix_of_prefix_length_le (List.prefix_append _ field.shown)
      (line ▸ List.prefix_append first more.flatten) whole
  rw [List.append_assoc, List.append_cancel_left_eq] at line
  rw [Field.printed, shape, List.foldl_cons, readLine_key ok,
    read_continuations (Field.key_ne_nil ok), line]

theorem read_cut (cut : field.cut) (s : Reading) : field.printed.foldl readLine s =
    (field.pieces.tail.map (' ' :: ·)).foldl readLine s := by
  obtain ⟨first, more, shape, filled, line⟩ := Field.pieces_shape ok folded
  obtain ⟨c, rest, name, solid, plain⟩ := ok.starts
  rw [Field.cut, shape, List.head?_cons, Option.all_some, decide_eq_true_eq] at cut
  have early : first <+: field.name ++ [':', ':'] := by
    have within : first <+: field.key ++ separator :=
      List.prefix_of_prefix_length_le (line ▸ List.prefix_append first more.flatten)
        (List.prefix_append _ field.shown) cut.le
    have front : first <+: field.key ++ [':'] := by
      refine List.prefix_of_prefix_length_le within ?_ ?_
      · exact List.prefix_append_right_inj _ |>.mpr ⟨[' '], rfl⟩
      · rw [List.length_append] at cut ⊢
        exact Nat.le_of_lt_succ cut
    refine front.trans ?_
    rw [Field.key]
    split_ifs
    · exact List.prefix_append_right_inj _ |>.mpr ⟨[':'], rfl⟩
    · rw [List.append_assoc]
      exact List.prefix_rfl
  obtain ⟨d, tail, rfl⟩ := List.exists_cons_of_ne_nil filled
  have head : d = c := by
    rw [name, List.cons_append, List.cons_prefix_cons] at early
    exact early.1
  rw [Field.printed, shape, List.foldl_cons, readLine_text (head ▸ solid) (head ▸ plain),
    splitOnText_cut ok.free early]
  rfl

end Lines

/-! ### Whole entries -/

theorem named_requested {name : Text} (known : requested.contains name) :
    Named name ∧ isDn name = false ∧ isDn (name ++ [':']) = false := by
  simp only [requested, List.map_cons, List.map_nil, List.contains_cons, List.contains_nil,
    Bool.or_false, Bool.or_eq_true, beq_iff_eq] at known
  rcases known with rfl | rfl | rfl | rfl | rfl <;>
    exact ⟨⟨rfl, by decide, _, _, rfl, by decide, by decide⟩, by decide, by decide⟩

theorem isDn_key {field : Field} (known : requested.contains field.name) :
    isDn field.key = false := by
  rw [Field.key]
  split_ifs
  · exact (named_requested known).2.1
  · exact (named_requested known).2.2

def Requested (attrs : List Field) : Prop :=
  attrs.all (fun field => requested.contains field.name && field.folded) = true

theorem taken_eq_none {name : Text} {attrs : List Field} (absent : name ∉ attrs.map Field.name) :
    taken name attrs = none := by
  induction attrs with
  | nil => rfl
  | cons field rest ih =>
      rw [List.map_cons, List.mem_cons, not_or] at absent
      rw [taken, if_neg fun both => absent.1 both.2.symm, ih absent.2]

theorem lookup_store {s : Reading} {key name : Text} (value : Text) (other : isDn name = false) :
    (store s key value).attrs.lookup name =
      if name = key then some value else s.attrs.lookup name := by
  rw [store]
  split_ifs with dn same same
  · rw [← same, other] at dn
    cases dn
  · rfl
  · rw [same, AList.lookup_insert]
  · rw [AList.lookup_insert_ne same]

/-- What the attributes leave behind: cut lines go to the line before them, the others are stored
under the keys read. -/
theorem read_attrs (attrs : List Field) :
    ∀ (s : Reading) (key value : Text), key ≠ [] → Requested attrs →
      (attrs.map Field.name).Nodup →
      ∃ last, (attrs.flatMap Field.printed).foldl readLine (store s key value) = last ∧
        last.computers = s.computers ∧
        last.currentDn = (if isDn key then value ++ spill attrs else s.currentDn) ∧
        ∀ name, requested.contains name → last.attrs.lookup name = (taken name attrs).or
          (if name = key then some (value ++ spill attrs) else s.attrs.lookup name) := by
  induction attrs with
  | nil =>
      intro s key value _ _ _
      refine ⟨store s key value, rfl, ?_, ?_, fun name known => ?_⟩
      · rw [store]
        split_ifs <;> rfl
      · rw [store, spill, List.append_nil]
        split_ifs <;> rfl
      · rw [lookup_store value (named_requested known).2.1, spill, List.append_nil]
        rfl
  | cons field rest ih =>
      intro s key value filled valid distinct
      rw [Requested, List.all_cons, Bool.and_eq_true, Bool.and_eq_true] at valid
      obtain ⟨⟨known, folded⟩, others⟩ := valid
      obtain ⟨apart, distinct⟩ := List.nodup_cons.mp distinct
      have ok := (named_requested known).1
      rw [List.flatMap_cons, List.foldl_append]
      cases cut : field.cut with
      | true =>
          rw [read_cut ok folded cut, read_continuations filled]
          obtain ⟨last, read, computers, dn, looked⟩ := ih s key
            (value ++ field.pieces.tail.flatten) filled others distinct
          have hidden (name : Text) : taken name (field :: rest) = taken name rest :=
            if_neg fun both => by simp [Field.plain, cut] at both
          rw [List.append_assoc] at dn
          simp only [spill, cut, if_true, hidden]
          exact ⟨last, read, computers, dn, fun name asked => by
            rw [looked name asked, List.append_assoc]⟩
      | false =>
          rw [read_whole ok folded cut]
          obtain ⟨last, read, computers, dn, looked⟩ := ih (store s key value) field.key
            field.shown (Field.key_ne_nil ok) others distinct
          have dry : spill (field :: rest) = [] := if_neg (by rw [cut]; decide)
          rw [isDn_key known, if_neg Bool.false_ne_true] at dn
          rw [dry, List.append_nil]
          refine ⟨last, read, computers.trans ?_, dn.trans ?_, fun name asked => ?_⟩
          · rw [store]
            split_ifs <;> rfl
          · rw [store]
            split_ifs <;> rfl
          · obtain ⟨named, other, -⟩ := named_requested asked
            rw [looked name asked, lookup_store value other, taken, Field.plain, cut]
            by_cases safe : ldifSafe field.value = true
            · rw [Field.key, Field.shown, if_pos safe, if_pos safe]
              by_cases same : field.name = name
              · rw [same] at apart ⊢
                rw [taken_eq_none apart]
                simp [safe]
              · simp [same, Ne.symm same]
            · have coded : name ≠ field.key := by
                rw [Field.key, if_neg safe]
                rintro rfl
                exact named.free (List.mem_append_right _ List.mem_cons_self)
              simp [safe, coded]

theorem read_idle {s : Reading} (fresh : s.lastKey = []) (more : List Text) :
    (more.map (' ' :: ·)).foldl readLine s = s := by
  have other : ¬isDn s.lastKey = true := by rw [fresh]; decide
  induction more with
  | nil => rfl
  | cons cont more ih => rwa [List.map_cons, List.foldl_cons, readLine, if_neg other, if_pos fresh]

theorem read_attrs_lost {s : Reading} (fresh : s.lastKey = []) {attrs : List Field}
    (valid : Requested attrs) (distinct : (attrs.map Field.name).Nodup) :
    ((attrs.flatMap Field.printed).foldl readLine s).computers = s.computers ∧
      ((attrs.flatMap Field.printed).foldl readLine s).currentDn = s.currentDn := by
  induction attrs with
  | nil => exact ⟨rfl, rfl⟩
  | cons field rest ih =>
      rw [Requested, List.all_cons, Bool.and_eq_true, Bool.and_eq_true] at valid
      obtain ⟨⟨known, folded⟩, others⟩ := valid
      have later := (List.nodup_cons.mp distinct).2
      have ok := (named_requested known).1
      rw [List.flatMap_cons, List.foldl_append]
      cases cut : field.cut with
      | true =>
          rw [read_cut ok folded cut, read_idle fresh]
          exact ih others later
      | false =>
          obtain ⟨last, read, computers, dn, -⟩ := read_attrs rest s field.key field.shown
            (Field.key_ne_nil ok) others later
          rw [isDn_key known, if_neg Bool.false_ne_true] at dn
          rw [read_whole ok folded cut, read]
          exact ⟨computers, dn⟩

/-- The computer the reader makes of an entry. -/
def Entry.found (entry : Entry) : Option DiscoveredComputer :=
  if entry.dn.plain then
    some {
      dn := entry.dn.value ++ spill entry.attrs
      name := ((taken "cn".toList entry.attrs).or (taken "name".toList entry.attrs)).getD
        (entry.dn.value ++ spill entry.attrs)
      dnsHostName := taken "dNSHostName".toList entry.attrs
      description := taken "description".toList entry.attrs }
  else none

theorem read_entry {entry : Entry} (valid : entry.valid) (computers : List DiscoveredComputer) :
    entry.printed.foldl readLine ⟨computers, [], ∅, []⟩ =
      ⟨computers ++ entry.found.toList, [], ∅, []⟩ := by
  simp only [Entry.valid, Bool.and_eq_true, beq_iff_eq, decide_eq_true_eq, Bool.not_eq_true',
    List.isEmpty_eq_false_iff] at valid
  obtain ⟨⟨⟨⟨named, filled⟩, folded⟩, attrs⟩, distinct⟩ := valid
  have ok : Named entry.dn.name := named ▸ named_dn
  rw [Entry.printed, List.foldl_append, List.foldl_append, List.foldl_cons, List.foldl_nil,
    readLine, Entry.found]
  cases cut : entry.dn.cut with
  | true =>
      have lost : entry.dn.plain = false := by simp [Field.plain, cut]
      have fresh : (⟨computers, [], ∅, []⟩ : Reading).lastKey = [] := rfl
      obtain ⟨same, empty⟩ := read_attrs_lost fresh attrs distinct
      rw [read_cut ok folded cut, read_idle fresh, same, empty, lost]
      rfl
  | false =>
      obtain ⟨last, read, same, dnRead, looked⟩ := read_attrs entry.attrs
        ⟨computers, [], ∅, []⟩ entry.dn.key entry.dn.shown (Field.key_ne_nil ok) attrs distinct
      rw [read_whole ok folded cut, read, same]
      by_cases safe : ldifSafe entry.dn.value = true
      · have plain : entry.dn.plain = true := by simp [Field.plain, cut, safe]
        have key : entry.dn.key = "dn".toList := by rw [Field.key, if_pos safe, named]
        have shown (name : Text) (known : requested.contains name) :
            last.attrs.lookup name = taken name entry.attrs := by
          have away : name ≠ entry.dn.key := by
            rw [key]
            rintro rfl
            cases known
          rw [looked name known, if_neg away]
          exact Option.or_none
        rw [key, if_pos (by decide), Field.shown, if_pos safe] at dnRead
        rw [dnRead, plain, flush, if_neg (by simp [filled]), shown _ (by decide),
          shown _ (by decide), shown _ (by decide), shown _ (by decide)]
        rfl
      · have lost : entry.dn.plain = false := by simp [Field.plain, safe]
        have other : isDn entry.dn.key = false := by rw [Field.key, if_neg safe, named]; decide
        rw [other, if_neg Bool.false_ne_true] at dnRead
        rw [dnRead, lost]
        rfl

theorem Entry.printed_clean {entry : Entry} (valid : entry.valid) :
    ∀ line ∈ entry.printed, Clean line := by
  simp only [Entry.valid, Bool.and_eq_true, beq_iff_eq] at valid
  obtain ⟨⟨⟨⟨named, -⟩, folded⟩, attrs⟩, -⟩ := valid
  intro line member
  rw [Entry.printed, List.mem_append, List.mem_append, List.mem_flatMap] at member
  rcases member with (first | ⟨field, inside, printed⟩) | last
  · exact Field.printed_clean (named ▸ named_dn.clean) folded line first
  · have known := List.all_eq_true.mp attrs field inside
    rw [Bool.and_eq_true] at known
    exact Field.printed_clean (named_requested known.1).1.clean known.2 line printed
  · rw [List.mem_singleton.mp last]
    rfl

theorem parseLdif_printed {entries : List Entry} (valid : entries.all Entry.valid) :
    parseLdif (printed entries) = entries.filterMap Entry.found := by
  have clean : ∀ line ∈ entries.flatMap Entry.printed, Clean line := by
    intro line member
    obtain ⟨entry, inside, printed⟩ := List.mem_flatMap.mp member
    exact Entry.printed_clean (List.all_eq_true.mp valid entry inside) line printed
  have read : ∀ (rest : List Entry) (computers : List DiscoveredComputer),
      rest.all Entry.valid → (rest.flatMap Entry.printed).foldl readLine ⟨computers, [], ∅, []⟩ =
        ⟨computers ++ rest.filterMap Entry.found, [], ∅, []⟩ := by
    intro rest
    induction rest with
    | nil => simp
    | cons entry rest ih =>
        intro computers valid
        rw [List.all_cons, Bool.and_eq_true] at valid
        rw [List.flatMap_cons, List.foldl_append, read_entry valid.1, ih _ valid.2,
          List.append_assoc, List.filterMap_cons]
        cases entry.found <;> rfl
  rw [parseLdif, printed, lines_clean clean, Reading.start, read entries [] valid]
  exact List.append_nil _

theorem taken_eq_iff {name : Text} {attrs : List Field} (distinct : (attrs.map Field.name).Nodup) :
    taken name attrs = (attrs.find? fun field => field.name = name).map Field.value ↔
      Kept name attrs := by
  induction attrs with
  | nil => exact ⟨fun _ => trivial, fun _ => rfl⟩
  | cons field rest ih =>
      obtain ⟨apart, distinct⟩ := List.nodup_cons.mp distinct
      rw [taken, Kept]
      by_cases same : field.name = name
      · rw [List.find?_cons_of_pos (by simpa using same), if_pos same]
        by_cases plain : field.plain = true
        · rw [if_pos ⟨plain, same⟩]
          simp [plain]
        · rw [if_neg fun both => plain both.1, taken_eq_none (same ▸ apart)]
          simp [plain]
      · rw [List.find?_cons_of_neg (by simpa using same), if_neg same,
          if_neg fun both => same both.2]
        exact ih distinct

theorem found_iff {entry : Entry} (valid : entry.valid) :
    entry.found = some entry.computer ↔ entry.Legible := by
  simp only [Entry.valid, Bool.and_eq_true, decide_eq_true_eq] at valid
  have kept (name : String) : taken name.toList entry.attrs = entry.value name ↔
      Kept name.toList entry.attrs := taken_eq_iff valid.2
  rw [Entry.found]
  by_cases plain : entry.dn.plain = true
  case neg =>
    rw [if_neg plain]
    exact ⟨nofun, fun legible => absurd legible.dn.1 plain⟩
  rw [if_pos plain, Option.some.injEq, Entry.computer, DiscoveredComputer.mk.injEq,
    List.append_right_eq_self, kept, kept]
  constructor
  · rintro ⟨dry, name, host, description⟩
    rw [dry, List.append_nil] at name
    exact ⟨⟨plain, dry⟩, name, host, description⟩
  · rintro ⟨⟨-, dry⟩, name, host, description⟩
    rw [dry, List.append_nil]
    exact ⟨rfl, name, host, description⟩

def plainEntry : Entry where
  dn := ⟨"dn".toList, "CN=A".toList, ["dn: CN".toList, "=A".toList]⟩
  attrs := [⟨"cn".toList, "A".toList, ["cn: A".toList]⟩,
    ⟨"description".toList, "a: b".toList, ["description: a".toList, ": b".toList]⟩]

/-- A name with an accent is written in base64. -/
def accentedEntry : Entry where
  dn := ⟨"dn".toList, "CN=é".toList, ["dn:: Q049w6k=".toList]⟩
  attrs := [⟨"cn".toList, "é".toList, ["cn:: w6k=".toList]⟩]

/-- A line folded inside its attribute's name. -/
def cutEntry : Entry where
  dn := ⟨"dn".toList, "CN=A".toList, ["dn: CN=A".toList]⟩
  attrs := [⟨"description".toList, "x".toList, ["desc".toList, "ription: x".toList]⟩]

end Strata.Backend.AdSync
