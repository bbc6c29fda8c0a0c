import Mathlib.Data.List.DropRight
import Strata.Backend.CoPilotRoom
import Strata.Lib.Pieces

/-! The names a co-pilot room shows: what cleaning makes of a requested name, and what the rosters
carry once a name in use has been given its suffix. -/

namespace Strata.Backend.CoPilot

open Utf8 (Text)
open RustInt (natText)
open RustStr (isWhitespace trimEndMatches)
open Tables
open Machine

/-! ### Byte lengths -/

@[simp] theorem byteLen_append (front back : Text) :
    byteLen (front ++ back) = byteLen front + byteLen back := by
  simp [byteLen]

theorem length_le_byteLen (text : Text) : text.length ≤ byteLen text := Utf8.length_le_encode text

theorem byteLen_reverse (text : Text) : byteLen text.reverse = byteLen text := by
  induction text with
  | nil => rfl
  | cons c text ih =>
      rw [List.reverse_cons, byteLen_append, ih, Nat.add_comm, ← byteLen_append,
        List.singleton_append]

theorem byteLen_le_of_front {front text : Text} (isFront : front <+: text) :
    byteLen front ≤ byteLen text := by
  obtain ⟨rest, rfl⟩ := isFront
  rw [byteLen_append]
  exact Nat.le_add_right ..

/-! ### Cleaning -/

/-- No control character, no white space but single blanks, and none of those in front. -/
structure Neat (text : Text) : Prop where
  visible : ∀ c ∈ text, isControl c = false ∧ (isWhitespace c = true → c = ' ')
  starts : text.head? ≠ some ' '
  single : text.IsChain fun first second => first = ' ' → second ≠ ' '

theorem Neat.nil : Neat [] := ⟨nofun, nofun, .nil⟩

theorem Neat.front {front text : Text} (neat : Neat text) (isFront : front <+: text) :
    Neat front where
  visible := fun c member => neat.visible c (isFront.mem member)
  starts := by
    obtain ⟨rest, rfl⟩ := isFront
    intro blank
    exact neat.starts (by rw [List.head?_append, blank]; rfl)
  single := neat.single.prefix isFront

theorem Neat.push {text : Text} {c : Char} (neat : Neat text)
    (shown : isControl c = false ∧ (isWhitespace c = true → c = ' '))
    (blank : c = ' ' → text ≠ [] ∧ text.getLast? ≠ some ' ') : Neat (text ++ [c]) where
  visible := by
    intro d member
    rcases List.mem_append.mp member with old | new
    · exact neat.visible d old
    · rw [List.mem_singleton.mp new]
      exact shown
  starts := by
    rw [List.head?_append]
    cases text with
    | nil =>
        intro same
        exact (blank (Option.some.inj same)).1 rfl
    | cons d text => exact neat.starts
  single := by
    refine List.isChain_append.mpr ⟨neat.single, .singleton c, ?_⟩
    intro last found next same before
    obtain rfl := Option.mem_some_iff.mp same
    rw [before] at found
    exact fun space => (blank space).2 found

theorem collapse_neat (raw : Text) {out : Text} {prevWasWs : Bool} (neat : Neat out)
    (ends : prevWasWs = true ↔ out.getLast? = some ' ') (short : byteLen out < maxDisplayNameLen) :
    Neat (collapse raw out prevWasWs) ∧
      byteLen (collapse raw out prevWasWs).dropLast < maxDisplayNameLen := by
  induction raw generalizing out prevWasWs with
  | nil => exact ⟨neat, (byteLen_le_of_front (List.dropLast_prefix out)).trans_lt short⟩
  | cons c raw ih =>
      have stays (d : Char) : byteLen (out ++ [d]).dropLast < maxDisplayNameLen := by
        rw [List.dropLast_concat]
        exact short
      rw [collapse]
      by_cases space : isWhitespace c = true
      · rw [if_pos space]
        split_ifs with skipped full
        · exact ih neat ends short
        all_goals
          simp only [Bool.or_eq_true, ends, List.isEmpty_iff, not_or] at skipped
          have pushed : Neat (out ++ [' ']) := neat.push (by decide) fun _ => skipped.symm
        · exact ⟨pushed, stays ' '⟩
        · exact ih pushed (by simp) (Nat.lt_of_not_le full)
      · rw [if_neg space]
        split_ifs with control full
        · exact ih neat ends short
        all_goals
          have solid : c ≠ ' ' := by
            rintro rfl
            exact space (by decide)
          have pushed : Neat (out ++ [c]) :=
            neat.push ⟨by simpa using control, fun ws => absurd ws space⟩ fun blank =>
              absurd blank solid
        · exact ⟨pushed, stays c⟩
        · exact ih pushed (by simp [solid]) (Nat.lt_of_not_le full)

theorem collapse_self (rest : Text) {out : Text} {prevWasWs : Bool} (neat : Neat (out ++ rest))
    (ends : prevWasWs = true ↔ out.getLast? = some ' ')
    (fits : byteLen (out ++ rest) ≤ maxDisplayNameLen) :
    collapse rest out prevWasWs = out ++ rest := by
  induction rest generalizing out prevWasWs with
  | nil => rw [collapse, List.append_nil]
  | cons c rest ih =>
      rw [List.append_cons] at neat fits ⊢
      have shown := neat.visible c (by simp)
      have last : byteLen (out ++ [c]) ≥ maxDisplayNameLen → out ++ [c] = out ++ [c] ++ rest := by
        intro full
        rw [byteLen_append] at fits
        have none := length_le_byteLen rest
        have empty : rest = [] := List.eq_nil_of_length_eq_zero (by omega)
        rw [empty, List.append_nil]
      rw [collapse]
      by_cases space : isWhitespace c = true
      · obtain rfl := shown.2 space
        have kept : ¬(prevWasWs || out.isEmpty) = true := by
          have own := neat.front (List.prefix_append ..)
          rw [Bool.or_eq_true, ends, List.isEmpty_iff]
          rintro (before | rfl)
          · exact (List.isChain_append.mp own.single).2.2 ' ' before ' ' rfl rfl rfl
          · exact own.starts rfl
        rw [if_pos space, if_neg kept]
        split_ifs with full
        · exact last full
        · exact ih neat (by simp) fits
      · rw [if_neg space, if_neg (by simp [shown.1])]
        have solid : c ≠ ' ' := by
          rintro rfl
          exact space (by decide)
        split_ifs with full
        · exact last full
        · exact ih neat (by simp [solid]) fits

/-- What `sanitise_display_name` has before it cuts to the limit. -/
def collected (raw : Text) : Text := trimEndMatches ' ' (collapse raw [] false)

theorem collected_front (raw : Text) : collected raw <+: collapse raw [] false :=
  List.rdropWhile_prefix ..

theorem collected_ends (raw : Text) : (collected raw).getLast? ≠ some ' ' := by
  have first := List.head?_dropWhile_not (· == ' ') (collapse raw [] false).reverse
  intro blank
  rw [collected, trimEndMatches, List.getLast?_reverse] at blank
  rw [blank] at first
  cases first

theorem collected_neat (raw : Text) :
    Neat (collected raw) ∧ byteLen (collected raw).dropLast < maxDisplayNameLen := by
  have nothing : false = true ↔ ([] : Text).getLast? = some ' ' := by simp
  have ⟨neat, short⟩ := collapse_neat raw .nil nothing (by decide : 0 < maxDisplayNameLen)
  have cut : (collected raw).dropLast <+: (collapse raw [] false).dropLast := by
    rw [List.dropLast_eq_take (l := collapse raw [] false), List.prefix_take_iff,
      List.length_dropLast]
    exact ⟨(List.dropLast_prefix _).trans (collected_front raw),
      Nat.sub_le_sub_right (collected_front raw).length_le 1⟩
  exact ⟨neat.front (collected_front raw), (byteLen_le_of_front cut).trans_lt short⟩

theorem popToFit_of_fits {text : Text} (fits : byteLen text ≤ maxDisplayNameLen) :
    popToFit text = text := by
  cases text with
  | nil => rfl
  | cons c text => rw [popToFit, if_neg (Nat.not_lt.mpr fits)]

theorem sanitiseDisplayName_eq (raw : Text) :
    sanitiseDisplayName raw =
      if byteLen (collected raw) ≤ maxDisplayNameLen then collected raw
      else (collected raw).dropLast := by
  have short := (collected_neat raw).2
  change (popToFit (collected raw).reverse).reverse = _
  split_ifs with fits
  · rw [popToFit_of_fits (by rwa [byteLen_reverse]), List.reverse_reverse]
  · rcases (collected raw).eq_nil_or_concat' with none | ⟨front, c, split⟩
    · exact absurd (none ▸ Nat.zero_le _) fits
    · rw [split, List.dropLast_concat] at short ⊢
      rw [split] at fits
      rw [List.reverse_concat, popToFit, if_pos, popToFit_of_fits, List.reverse_reverse]
      · rw [byteLen_reverse]
        exact short.le
      · rw [← List.reverse_concat, byteLen_reverse]
        exact Nat.lt_of_not_le fits

theorem sanitiseDisplayName_neat (raw : Text) :
    Neat (sanitiseDisplayName raw) ∧ byteLen (sanitiseDisplayName raw) ≤ maxDisplayNameLen := by
  have ⟨neat, short⟩ := collected_neat raw
  rw [sanitiseDisplayName_eq]
  split_ifs with fits
  · exact ⟨neat, fits⟩
  · exact ⟨neat.front (List.dropLast_prefix _), short.le⟩

theorem sanitiseDisplayName_self {name : Text} (neat : Neat name)
    (fits : byteLen name ≤ maxDisplayNameLen) (ends : name.getLast? ≠ some ' ') :
    sanitiseDisplayName name = name := by
  have walked : collapse name [] false = name := collapse_self name neat (by simp) fits
  have same : collected name = name := by
    rw [collected, walked]
    refine List.rdropWhile_eq_self_iff.mpr fun filled blank => ends ?_
    rw [List.getLast?_eq_some_getLast filled, beq_iff_eq.mp blank]
  rw [sanitiseDisplayName_eq, same, if_pos fits]

/-! ### Where the words of a name lie -/

def pieces (raw : Text) : List Text :=
  (raw.filter fun c => isWhitespace c || !isControl c).splitOnP isWhitespace

/-- The words of a requested name: what stands between white space, without control characters. -/
def words (raw : Text) : List Text := (pieces raw).filter (· ≠ [])

def spaced (words : List Text) : Text := words.flatMap (· ++ [' '])

/-- No word that a name of `maxDisplayNameLen` bytes has room to begin starts with a character that
does not fit any more. -/
def WordsStartInside (raw : Text) : Prop :=
  ∀ before c word after, words raw = before ++ (c :: word) :: after →
    byteLen (spaced before) < maxDisplayNameLen →
      byteLen (spaced before ++ [c]) ≤ maxDisplayNameLen

theorem pieces_ne_nil (raw : Text) : pieces raw ≠ [] := List.splitOnP_ne_nil _ _

/-- What a name goes on with: from within a word, or at a gap. -/
def ahead : Bool → List Text → Text
  | true, pieces => spaced (pieces.filter (· ≠ []))
  | false, pieces => pieces.headD [] ++ ' ' :: spaced (pieces.tail.filter (· ≠ []))

theorem ahead_gap (gap : Bool) (pieces : List Text) :
    ahead gap ([] :: pieces) = if gap then ahead true pieces else ' ' :: ahead true pieces := by
  cases gap <;> rfl

theorem ahead_char (gap : Bool) (c : Char) {pieces : List Text} (some : pieces ≠ []) :
    ahead gap (pieces.modifyHead (List.cons c)) = c :: ahead false pieces := by
  obtain ⟨piece, others, rfl⟩ := List.exists_cons_of_ne_nil some
  cases gap <;> simp [ahead, spaced]

/-- A front of `text` that goes just to the limit, or all of it but for a blank at the end. -/
structure FillsFrom (text front : Text) : Prop where
  isFront : front <+: text
  short : byteLen front.dropLast < maxDisplayNameLen
  whole : byteLen front < maxDisplayNameLen → text = front ∨ text = front ++ [' ']

theorem fillsFrom_concat {out rest : Text} {c : Char} (short : byteLen out < maxDisplayNameLen)
    (full : maxDisplayNameLen ≤ byteLen (out ++ [c])) :
    FillsFrom (out ++ c :: rest) (out ++ [c]) where
  isFront := ⟨rest, by simp⟩
  short := by rwa [List.dropLast_concat]
  whole := fun less => absurd full (Nat.not_le.mpr less)

theorem prefix_dropLast {front text : Text} (isFront : front <+: text) (other : front ≠ text) :
    front <+: text.dropLast := by
  obtain ⟨rest, rfl⟩ := isFront
  rcases rest.eq_nil_or_concat' with rfl | ⟨more, c, rfl⟩
  · exact absurd (List.append_nil front).symm other
  · rw [← List.append_assoc, List.dropLast_concat]
    exact List.prefix_append ..

/-- It stops behind the character that crosses the limit. -/
theorem FillsFrom.eq_concat {text front front' back : Text} {c : Char}
    (fills : FillsFrom text front) (split : text = front' ++ c :: back) (solid : c ≠ ' ')
    (short : byteLen front' < maxDisplayNameLen)
    (long : maxDisplayNameLen < byteLen (front' ++ [c])) : front = front' ++ [c] := by
  have other : front' ++ [c] <+: text := ⟨back, by simp [split]⟩
  rcases List.prefix_or_prefix_of_prefix fills.isFront other with inner | outer
  · by_contra fewer
    have inside : front <+: front' := by
      have cut := prefix_dropLast inner fewer
      rwa [List.dropLast_concat] at cut
    have less := (byteLen_le_of_front inside).trans_lt short
    obtain ⟨rest, rfl⟩ := inside
    rw [split, List.append_assoc] at fills
    rcases fills.whole less with same | same
    · simp at same
    · rcases List.append_eq_singleton_iff.mp (List.append_cancel_left same) with
        ⟨-, last⟩ | ⟨-, none⟩
      · exact solid (List.cons.inj last).1
      · cases none
  · by_contra more
    have := byteLen_le_of_front (prefix_dropLast outer (Ne.symm more))
    have := fills.short
    omega

theorem collapse_fills (raw : Text) {out : Text} (prevWasWs : Bool)
    (short : byteLen out < maxDisplayNameLen) :
    FillsFrom (out ++ ahead (prevWasWs || out.isEmpty) (pieces raw))
      (collapse raw out prevWasWs) := by
  induction raw generalizing out prevWasWs with
  | nil =>
      have fewer := byteLen_le_of_front (List.dropLast_prefix out)
      refine ⟨List.prefix_append .., fewer.trans_lt short, fun _ => ?_⟩
      cases prevWasWs || out.isEmpty
      · exact .inr rfl
      · exact .inl (List.append_nil out)
  | cons c raw ih =>
      rw [collapse]
      by_cases space : isWhitespace c = true
      · have cut : pieces (c :: raw) = [] :: pieces raw := by
          rw [pieces, List.filter_cons_of_pos (by simp [space]),
            List.splitOnP_cons_eq_if_modifyHead, if_pos space]
          rfl
        rw [if_pos space, cut, ahead_gap]
        split_ifs with skipped full
        · have same := ih prevWasWs short
          rwa [skipped] at same
        · exact fillsFrom_concat short full
        · have rest := ih true (Nat.lt_of_not_le full)
          rwa [Bool.true_or, List.append_assoc] at rest
      · rw [if_neg space]
        split_ifs with control full
        · have cut : pieces (c :: raw) = pieces raw := by
            rw [pieces, List.filter_cons_of_neg (by simp [space, control])]
            rfl
          rw [cut]
          exact ih prevWasWs short
        all_goals
          have cut : pieces (c :: raw) = (pieces raw).modifyHead (List.cons c) := by
            rw [pieces, List.filter_cons_of_pos (by simp [control]),
              List.splitOnP_cons_eq_if_modifyHead, if_neg space]
            rfl
          rw [cut, ahead_char _ c (pieces_ne_nil raw)]
        · exact fillsFrom_concat short full
        · have rest := ih false (Nat.lt_of_not_le full)
          have filled : (out ++ [c]).isEmpty = false := by simp
          rwa [filled, Bool.or_false, List.append_assoc] at rest

theorem mem_words {raw word : Text} (member : word ∈ words raw) :
    word ≠ [] ∧ ' ' ∉ word := by
  have ⟨piece, filled⟩ := List.mem_filter.mp member
  refine ⟨of_decide_eq_true filled, fun blank => ?_⟩
  exact absurd (Pieces.of_mem_splitOnP piece ' ' blank).2 (by decide)

theorem spaced_ends {before : List Text} (filled : before ≠ []) :
    (spaced before).getLast? = some ' ' := by
  rcases before.eq_nil_or_concat' with none | ⟨front, word, rfl⟩
  · exact absurd none filled
  · simp [spaced]

theorem words_of_spaced {list : List Text} {front back : Text} {c : Char}
    (solid : ∀ word ∈ list, word ≠ [] ∧ ' ' ∉ word) (split : spaced list = front ++ c :: back)
    (ends : front.getLast? = some ' ') (starts : c ≠ ' ') :
    ∃ before word after, list = before ++ (c :: word) :: after ∧ front = spaced before := by
  induction list generalizing front with
  | nil => simp [spaced] at split
  | cons first list ih =>
      have ⟨own, others⟩ := List.forall_mem_cons.mp solid
      have cut : first ++ ' ' :: spaced list = front ++ c :: back := by
        rw [← split]
        simp [spaced]
      -- the front ends in a blank, so it reaches beyond the first word
      rcases List.append_eq_append_iff.mp cut with ⟨more, rfl, rest⟩ | ⟨more, rfl, rest⟩
      · cases more with
        | nil =>
            rw [List.append_nil] at ends
            exact absurd (List.mem_of_mem_getLast? ends) own.2
        | cons mark more =>
            obtain ⟨rfl, tail⟩ := List.cons.inj rest
            rcases more.eq_nil_or_concat' with rfl | ⟨_, last, same⟩
            · cases list with
              | nil => simp [spaced] at tail
              | cons second list =>
                  have filled := (others second List.mem_cons_self).1
                  obtain ⟨d, word, rfl⟩ := List.exists_cons_of_ne_nil filled
                  obtain rfl : d = c := (List.cons.inj tail).1
                  exact ⟨[first], word, list, rfl, by simp [spaced]⟩
            · have blank : more.getLast? = some ' ' := by
                rw [same, List.getLast?_append, List.getLast?_cons, List.getLast?_concat] at ends
                rw [same, List.getLast?_concat]
                simpa using ends
              obtain ⟨before, word, after, rfl, rfl⟩ := ih others tail blank
              exact ⟨first :: before, word, after, rfl, by simp [spaced]⟩
      · have blank := List.mem_append_left more (List.mem_of_mem_getLast? ends)
        exact absurd blank own.2

theorem collapse_words (raw : Text) :
    FillsFrom (spaced (words raw)) (collapse raw [] false) :=
  collapse_fills raw false (by decide : byteLen [] < maxDisplayNameLen)

theorem byteLen_char_le (c : Char) : byteLen [c] ≤ 4 := by
  rw [byteLen, Utf8.encode_cons, Utf8.encode_nil, List.append_nil, String.length_utf8EncodeChar]
  exact c.utf8Size_le_four

/-- The cut uncovers a blank just where a word's first character is the one cut off. -/
theorem cut_uncovers_iff (raw : Text) :
    (maxDisplayNameLen < byteLen (collected raw) ∧
        (collected raw).dropLast.getLast? = some ' ') ↔ ¬WordsStartInside raw := by
  have fills := collapse_words raw
  constructor
  · rintro ⟨long, blank⟩ inside
    -- nothing was trimmed: what was collected without its last character is too short
    have same : collected raw = collapse raw [] false := by
      by_contra fewer
      have := byteLen_le_of_front (prefix_dropLast (collected_front raw) fewer)
      have := fills.short
      omega
    have ends := collected_ends raw
    rw [same] at long blank ends
    rcases (collapse raw [] false).eq_nil_or_concat' with none | ⟨front, c, split⟩
    · rw [none] at blank
      cases blank
    · rw [split] at long blank ends
      rw [List.dropLast_concat] at blank
      obtain ⟨back, cut⟩ := fills.isFront
      rw [split, List.append_assoc] at cut
      have short := fills.short
      rw [split, List.dropLast_concat] at short
      obtain ⟨before, word, after, found, rfl⟩ :=
        words_of_spaced (fun word member => mem_words member) cut.symm blank (by simpa using ends)
      exact absurd (inside before c word after found short) (Nat.not_le.mpr long)
  · intro crosses
    simp only [WordsStartInside, not_forall, Nat.not_le] at crosses
    obtain ⟨before, c, word, after, found, short, long⟩ := crosses
    have solid : c ≠ ' ' := by
      rintro rfl
      have member : ' ' :: word ∈ words raw := by simp [found]
      exact (mem_words member).2 List.mem_cons_self
    have cut : spaced (words raw) = spaced before ++ c :: (word ++ ' ' :: spaced after) := by
      rw [found]
      simp [spaced]
    have reached : collapse raw [] false = spaced before ++ [c] :=
      fills.eq_concat cut solid short long
    have same : collected raw = spaced before ++ [c] := by
      rw [collected, reached]
      exact List.rdropWhile_concat_neg _ _ _ (by simpa using solid)
    rw [same, List.dropLast_concat]
    refine ⟨long, spaced_ends ?_⟩
    rintro rfl
    have := byteLen_char_le c
    have : maxDisplayNameLen < byteLen [c] := long
    rw [maxDisplayNameLen] at this
    omega

/-- A name as the room wants to show it. -/
structure Tidy (name : Text) : Prop where
  fits : byteLen name ≤ maxDisplayNameLen
  visible : ∀ c ∈ name, isControl c = false
  starts : ∀ c ∈ name.head?, isWhitespace c = false
  ends : ∀ c ∈ name.getLast?, isWhitespace c = false
  single : name.IsChain fun first second => isWhitespace first = true → isWhitespace second = false

theorem Neat.tidy {name : Text} (neat : Neat name) (fits : byteLen name ≤ maxDisplayNameLen)
    (ends : name.getLast? ≠ some ' ') : Tidy name := by
  have solid {c : Char} (member : c ∈ name) (other : c ≠ ' ') : isWhitespace c = false :=
    Bool.eq_false_iff.mpr fun space => other ((neat.visible c member).2 space)
  refine ⟨fits, fun c member => (neat.visible c member).1, ?_, ?_, ?_⟩
  · rintro c first
    exact solid (List.mem_of_mem_head? first) fun blank => neat.starts (blank ▸ first)
  · rintro c last
    exact solid (List.mem_of_mem_getLast? last) fun blank => ends (blank ▸ last)
  · refine neat.single.imp_of_mem_imp fun first second before after apart space => ?_
    exact solid after (apart ((neat.visible first before).2 space))

/-- Cleaning gives a tidy name that cleaning again leaves alone, exactly if no word starts with the
character that crosses the limit. -/
theorem sanitise_tidy_iff (raw : Text) :
    (Tidy (sanitiseDisplayName raw) ∧
        sanitiseDisplayName (sanitiseDisplayName raw) = sanitiseDisplayName raw) ↔
      WordsStartInside raw := by
  have ⟨neat, fits⟩ := sanitiseDisplayName_neat raw
  have ending : (sanitiseDisplayName raw).getLast? ≠ some ' ' ↔ WordsStartInside raw := by
    rw [← not_iff_not, ← cut_uncovers_iff, not_not, sanitiseDisplayName_eq]
    split_ifs with within
    · simp [Nat.not_lt.mpr within, collected_ends]
    · simp [Nat.lt_of_not_le within]
  rw [← ending]
  constructor
  · rintro ⟨tidy, _⟩ blank
    exact absurd (tidy.ends ' ' blank) (by decide)
  · intro ends
    exact ⟨neat.tidy fits ends, sanitiseDisplayName_self neat fits ends⟩

/-- Thirty-eight letters, a blank and a letter of two bytes: the cut drops that letter only. -/
theorem cut_uncovers_blank :
    let raw := List.replicate 38 'a' ++ [' ', 'é']
    sanitiseDisplayName raw = List.replicate 38 'a' ++ [' '] ∧
      sanitiseDisplayName (sanitiseDisplayName raw) = List.replicate 38 'a' := by
  decide

/-! ### Validating a roster -/

def maxColorLen : Nat := 9

inductive CoPilotError where
  | fieldTooLong (field : Text) (max : Nat)
  | fieldEmpty (field : Text)
  deriving DecidableEq, Repr

def checkNonempty (field s : Text) : Except CoPilotError Unit :=
  if s.isEmpty then .error (.fieldEmpty field) else .ok ()

def checkLen (field s : Text) (max : Nat) : Except CoPilotError Unit :=
  if byteLen s > max then .error (.fieldTooLong field max) else .ok ()

variable {κ : Type}

def validateRoster : List (RosterEntry κ) → Except CoPilotError Unit
  | [] => .ok ()
  | p :: participants => do
      checkNonempty "display_name".toList p.displayName
      checkLen "display_name".toList p.displayName maxDisplayNameLen
      checkLen "color".toList p.color maxColorLen
      validateRoster participants

theorem checkNonempty_bind {β : Type} (field s : Text) (next : Unit → Except CoPilotError β)
    (answer : β) :
    (checkNonempty field s >>= next) = .ok answer ↔ s ≠ [] ∧ next () = .ok answer := by
  cases s <;> simp [checkNonempty, bind, Except.bind]

theorem checkLen_bind {β : Type} (field s : Text) (max : Nat)
    (next : Unit → Except CoPilotError β) (answer : β) :
    (checkLen field s max >>= next) = .ok answer ↔ byteLen s ≤ max ∧ next () = .ok answer := by
  rw [checkLen]
  split_ifs with long
  · simp [bind, Except.bind, long]
  · simp [bind, Except.bind, Nat.le_of_not_lt long]

theorem validateRoster_ok_iff (participants : List (RosterEntry κ)) :
    validateRoster participants = .ok () ↔
      ∀ p ∈ participants, p.displayName ≠ [] ∧ byteLen p.displayName ≤ maxDisplayNameLen ∧
        byteLen p.color ≤ maxColorLen := by
  induction participants with
  | nil => simp [validateRoster]
  | cons p participants ih =>
      rw [validateRoster, checkNonempty_bind, checkLen_bind, checkLen_bind, ih,
        List.forall_mem_cons, and_assoc, and_assoc]

/-! ### The names in a room -/

theorem disambiguate_cases (tag base : Text) (used : List Text) :
    (base ∉ used ∧ disambiguate tag base used = base) ∨
      ∃ suffix, (suffix = tag ∨ ∃ n, suffix = natText n) ∧
        disambiguate tag base used = suffixed base suffix := by
  unfold disambiguate
  by_cases free : base ∉ used
  · exact .inl ⟨free, if_pos free⟩
  · rw [if_neg free]
    right
    split
    · exact ⟨_, .inr ⟨_, rfl⟩, rfl⟩
    · exact ⟨_, .inl rfl, rfl⟩

/-- The bytes that ` (n)` takes behind a name in use: `n` has one digit while one of the namesakes
`(2)` to `(9)` is free, two digits up to `(99)`, and is the random tag behind that. -/
def suffixBytes (base : Text) (used : List Text) : Nat :=
  if ∃ n ∈ List.range' 2 8, suffixed base (natText n) ∉ used then 4
  else if ∃ n ∈ List.range' 10 90, suffixed base (natText n) ∉ used then 5
  else 11

theorem byteLen_suffixed (base suffix : Text) :
    byteLen (suffixed base suffix) = byteLen base + (byteLen suffix + 3) := by
  have marks : byteLen " (".toList = 2 ∧ byteLen ")".toList = 1 := by decide
  rw [suffixed, byteLen_append, byteLen_append, byteLen_append, marks.1, marks.2]
  omega

theorem byteLen_disambiguate {tag base : Text} {used : List Text} (taken : base ∈ used)
    (drawn : byteLen tag = 8) :
    byteLen (disambiguate tag base used) = byteLen base + suffixBytes base used := by
  have numbers : List.range' 2 98 = List.range' 2 8 ++ List.range' 10 90 := by decide
  have one : ∀ n ∈ List.range' 2 8, byteLen (natText n) = 1 := by decide
  have two : ∀ n ∈ List.range' 10 90, byteLen (natText n) = 2 := by decide
  have none (list : List Nat)
      (absent : list.find? (fun n => suffixed base (natText n) ∉ used) = none) :
      ¬∃ n ∈ list, suffixed base (natText n) ∉ used := by
    simpa using absent
  rw [disambiguate, if_neg (not_not.mpr taken), numbers, List.find?_append, suffixBytes]
  cases low : (List.range' 2 8).find? fun n => suffixed base (natText n) ∉ used with
  | some n =>
      have member := List.mem_of_find?_eq_some low
      have free : suffixed base (natText n) ∉ used := by simpa using List.find?_some low
      rw [if_pos ⟨n, member, free⟩]
      exact (byteLen_suffixed ..).trans (by rw [one n member])
  | none =>
      rw [if_neg (none _ low), Option.none_or]
      cases high : (List.range' 10 90).find? fun n => suffixed base (natText n) ∉ used with
      | some n =>
          have member := List.mem_of_find?_eq_some high
          have free : suffixed base (natText n) ∉ used := by simpa using List.find?_some high
          rw [if_pos ⟨n, member, free⟩]
          exact (byteLen_suffixed ..).trans (by rw [two n member])
      | none =>
          rw [if_neg (none _ high)]
          exact (byteLen_suffixed ..).trans (by rw [drawn])

theorem isControl_of_isDigit {c : Char} (digit : c.isDigit = true) : isControl c = false := by
  have range := RustInt.isDigit_toNat digit
  simp [isControl]
  omega

theorem suffixed_visible {base suffix : Text} (visible : ∀ c ∈ base, isControl c = false)
    (shown : ∀ c ∈ suffix, isControl c = false) :
    ∀ c ∈ suffixed base suffix, isControl c = false := by
  intro c member
  simp only [suffixed, List.mem_append, or_assoc] at member
  rcases member with old | mark | new | mark
  · exact visible c old
  · rcases List.mem_pair.mp mark with rfl | rfl <;> decide
  · exact shown c new
  · rw [List.mem_singleton.mp mark]
    decide

theorem disambiguate_visible {tag base : Text} (used : List Text)
    (visible : ∀ c ∈ base, isControl c = false) (drawn : ∀ c ∈ tag, isControl c = false) :
    ∀ c ∈ disambiguate tag base used, isControl c = false := by
  rcases disambiguate_cases tag base used with ⟨_, same⟩ | ⟨suffix, origin, same⟩
  · rw [same]
    exact visible
  · rw [same]
    refine suffixed_visible visible ?_
    rcases origin with rfl | ⟨n, rfl⟩
    · exact drawn
    · exact fun c member => isControl_of_isDigit (RustInt.natText_isDigit n c member)

theorem disambiguate_ne_nil {base : Text} (tag : Text) (used : List Text) (filled : base ≠ []) :
    disambiguate tag base used ≠ [] := by
  rcases disambiguate_cases tag base used with ⟨_, same⟩ | ⟨suffix, _, same⟩
  · rwa [same]
  · simp [same, suffixed]

theorem pickColor_fits (used : List Text) (index : Nat) :
    byteLen (pickColor used index) ≤ maxColorLen := by
  have each : ∀ color ∈ colorPalette, byteLen color ≤ maxColorLen := by decide
  unfold pickColor
  split
  · next found => exact each _ (List.mem_of_find?_eq_some found)
  · have inside : index % colorPalette.length < colorPalette.length :=
      Nat.mod_lt _ (by decide)
    rw [List.getD_eq_getElem?_getD, List.getElem?_eq_getElem inside]
    exact each _ (List.getElem_mem inside)

/-- The random tag of the last resort is eight hexadecimal digits. -/
def TagDrawn (call : Call κ × Nat) : Prop :=
  match call.1 with
  | .join _ _ _ tag => byteLen tag = 8 ∧ tag.all ("0123456789abcdef".toList.contains ·) = true
  | _ => True

instance decidableTagDrawn : (call : Call κ × Nat) → Decidable (TagDrawn call)
  | (.join .., _) => inferInstanceAs (Decidable (_ ∧ _))
  | (.leave _, _) | (.tryClaimInput _, _) | (.releaseInput _, _) | (.revokeInput, _)
  | (.forceGrant _, _) | (.noteInputActivity _, _) => .isTrue trivial

structure Shown (p : Participant κ) : Prop where
  named : p.displayName ≠ []
  visible : ∀ c ∈ p.displayName, isControl c = false
  fits : byteLen p.displayName ≤ maxDisplayNameLen
  color : byteLen p.color ≤ maxColorLen

variable [DecidableEq κ]

def AllShown (state : RoomState κ) : Prop :=
  ∀ pid p, state.participants.lookup pid = some p → Shown p

def RosterPasses (state : RoomState κ) : Prop :=
  validateRoster state.roster = .ok () ∧
    ∀ entry ∈ state.roster, ∀ c ∈ entry.displayName, isControl c = false

/-- A join that is let in under a name in use asks for one that leaves room for the suffix. -/
def SuffixFits (state : RoomState κ) (call : Call κ × Nat) : Prop :=
  match call.1 with
  | .join displayName isOwner _ _ =>
      isOwner = true ∨ size state.participants < maxParticipants →
        sanitiseDisplayName displayName ∈ state.usedNames →
          byteLen (sanitiseDisplayName displayName) +
            suffixBytes (sanitiseDisplayName displayName) state.usedNames ≤ maxDisplayNameLen
  | _ => True

instance decidableSuffixFits (state : RoomState κ) :
    (call : Call κ × Nat) → Decidable (SuffixFits state call)
  | (.join .., _) => inferInstanceAs (Decidable (_ → _ → _))
  | (.leave _, _) | (.tryClaimInput _, _) | (.releaseInput _, _) | (.revokeInput, _)
  | (.forceGrant _, _) | (.noteInputActivity _, _) => .isTrue trivial

theorem AllShown.passes {state : RoomState κ} (shown : AllShown state) : RosterPasses state := by
  have each : ∀ entry ∈ state.roster, ∃ p : Participant κ,
      Shown p ∧ entry.displayName = p.displayName ∧ entry.color = p.color := by
    intro entry member
    obtain ⟨pid, _, found⟩ := List.mem_filterMap.mp member
    obtain ⟨p, present, rfl⟩ := Option.map_eq_some_iff.mp found
    exact ⟨p, shown pid p present, rfl, rfl⟩
  constructor
  · refine (validateRoster_ok_iff _).mpr fun entry member => ?_
    obtain ⟨p, fine, name, color⟩ := each entry member
    rw [name, color]
    exact ⟨fine.named, fine.fits, fine.color⟩
  · intro entry member
    obtain ⟨p, fine, name, _⟩ := each entry member
    rw [name]
    exact fine.visible

section

variable {state : RoomState κ}

theorem AllShown.insert (shown : AllShown state) {pid : κ} {p : Participant κ} (fine : Shown p)
    (order : List κ) (holder : Option κ) (now : Nat) :
    AllShown ⟨state.participants.insert pid p, order, holder, now⟩ := by
  intro other q found
  rcases of_lookup_insert _ found with ⟨rfl, rfl⟩ | ⟨_, old⟩
  · exact fine
  · exact shown other q old

theorem AllShown.of_lookup (shown : AllShown state) {next : RoomState κ}
    (old : ∀ pid p, next.participants.lookup pid = some p →
      state.participants.lookup pid = some p) : AllShown next :=
  fun pid p found => shown pid p (old pid p found)

theorem AllShown.empty_unused (shown : AllShown state) : [] ∉ state.usedNames := by
  intro used
  obtain ⟨p, member, empty⟩ := List.mem_map.mp used
  obtain ⟨⟨pid, q⟩, inside, rfl⟩ := List.mem_map.mp member
  exact (shown pid q (AList.mem_lookup_iff.mpr inside)).named empty

theorem join_cases (shown : AllShown state) (displayName : Text) (isOwner : Bool) (pid : κ)
    {tag : Text} (now : Nat) (drawn : byteLen tag = 8 ∧ ∀ c ∈ tag, isControl c = false) :
    ((state.join displayName isOwner pid tag now).2 = state ∧
        SuffixFits state (.join displayName isOwner pid tag, now)) ∨
      ∃ p order holder last,
        (state.join displayName isOwner pid tag now).2 =
          ⟨state.participants.insert pid p, order ++ [pid], holder, last⟩ ∧
        (SuffixFits state (.join displayName isOwner pid tag, now) ↔
          byteLen p.displayName ≤ maxDisplayNameLen) ∧
        (byteLen p.displayName ≤ maxDisplayNameLen → Shown p) := by
  unfold RoomState.join
  by_cases full : (!isOwner && size state.participants ≥ maxParticipants) = true
  · rw [if_pos full]
    refine .inl ⟨rfl, fun room => ?_⟩
    simp only [Bool.and_eq_true, Bool.not_eq_true', decide_eq_true_eq] at full
    rcases room with owner | free
    · rw [owner] at full
      cases full.1
    · omega
  · rw [if_neg full]
    dsimp only
    by_cases empty : (sanitiseDisplayName displayName).isEmpty = true
    · rw [if_pos empty]
      refine .inl ⟨rfl, fun _ used => absurd used ?_⟩
      rw [List.isEmpty_iff.mp empty]
      exact shown.empty_unused
    · rw [if_neg empty]
      have ⟨neat, short⟩ := sanitiseDisplayName_neat displayName
      refine .inr ⟨_, _, _, _, rfl, ⟨?_, fun fits _ used => ?_⟩, fun fits => ?_⟩
      · intro suffixFits
        by_cases used : sanitiseDisplayName displayName ∈ state.usedNames
        · rw [byteLen_disambiguate used drawn.1]
          refine suffixFits ?_ used
          cases isOwner
          · exact .inr (by simpa using full)
          · exact .inl rfl
        · rw [disambiguate, if_pos used]
          exact short
      · rwa [byteLen_disambiguate used drawn.1] at fits
      · exact ⟨disambiguate_ne_nil _ _ fun none => empty (by rw [none]; rfl),
          disambiguate_visible _ (fun c member => (neat.visible c member).1) drawn.2, fits,
          pickColor_fits ..⟩

theorem roomStep_lookup (iteration : Iteration (Participant κ)) (call : Call κ × Nat)
    (other : ∀ name isOwner pid tag, call.1 ≠ .join name isOwner pid tag) (pid : κ)
    (p : Participant κ)
    (found : (roomStep iteration state call).1.participants.lookup pid = some p) :
    state.participants.lookup pid = some p := by
  obtain ⟨call, now⟩ := call
  cases call with
  | join name isOwner pid tag => exact absurd rfl (other name isOwner pid tag)
  | leave left =>
      simp only [roomStep, RoomState.leave] at found
      split at found
      · exact found
      · split at found <;> exact (of_lookup_erase _ found).2
  | tryClaimInput claimer =>
      simp only [roomStep, RoomState.tryClaimInput] at found
      split at found
      · exact found
      · split at found
        · exact found
        · split_ifs at found <;> exact found
  | releaseInput holder =>
      simp only [roomStep, RoomState.releaseInput] at found
      split at found <;> exact found
  | revokeInput => exact found
  | forceGrant target =>
      simp only [roomStep, RoomState.forceGrant] at found
      split at found <;> exact found
  | noteInputActivity holder =>
      simp only [roomStep, RoomState.noteInputActivity] at found
      split at found <;> exact found

theorem mem_roster_insert (state : RoomState κ) (pid : κ) (p : Participant κ) (order : List κ)
    (holder : Option κ) (now : Nat) :
    ∃ entry ∈ RoomState.roster ⟨state.participants.insert pid p, order ++ [pid], holder, now⟩,
      entry.displayName = p.displayName := by
  refine ⟨⟨pid, p.displayName, p.color, holder = some pid, p.isOwner⟩, ?_, rfl⟩
  refine List.mem_filterMap.mpr ⟨pid, by simp, ?_⟩
  dsimp only
  rw [AList.lookup_insert]
  rfl

theorem roomStep_exact (iteration : Iteration (Participant κ)) (shown : AllShown state)
    (call : Call κ × Nat) (drawn : TagDrawn call) :
    (RosterPasses (roomStep iteration state call).1 ↔ SuffixFits state call) ∧
      (SuffixFits state call → AllShown (roomStep iteration state call).1) := by
  obtain ⟨call, now⟩ := call
  have others (other : ∀ name isOwner pid tag, call ≠ .join name isOwner pid tag)
      (fits : SuffixFits state (call, now)) :
      (RosterPasses (roomStep iteration state (call, now)).1 ↔ SuffixFits state (call, now)) ∧
        (SuffixFits state (call, now) → AllShown (roomStep iteration state (call, now)).1) := by
    have kept := shown.of_lookup (roomStep_lookup iteration (call, now) other)
    exact ⟨iff_of_true kept.passes fits, fun _ => kept⟩
  cases call with
  | join name isOwner pid tag =>
      have visible : ∀ c ∈ tag, isControl c = false := by
        intro c member
        have digits : ("0123456789abcdef".toList).all fun c => !isControl c := by decide
        have digit := List.contains_iff_mem.mp (List.all_eq_true.mp drawn.2 c member)
        simpa using List.all_eq_true.mp digits c digit
      change (RosterPasses (state.join name isOwner pid tag now).2 ↔ _) ∧
        (_ → AllShown (state.join name isOwner pid tag now).2)
      rcases join_cases shown name isOwner pid now ⟨drawn.1, visible⟩ with
        ⟨same, fits⟩ | ⟨p, order, holder, last, enters, fits, fine⟩
      · rw [same]
        exact ⟨iff_of_true shown.passes fits, fun _ => shown⟩
      · rw [enters, fits]
        have kept (short : byteLen p.displayName ≤ maxDisplayNameLen) :
            AllShown ⟨state.participants.insert pid p, order ++ [pid], holder, last⟩ :=
          shown.insert (fine short) _ _ _
        refine ⟨⟨?_, fun short => (kept short).passes⟩, kept⟩
        rintro ⟨valid, _⟩
        obtain ⟨entry, member, same⟩ := mem_roster_insert state pid p order holder last
        rw [← same]
        exact ((validateRoster_ok_iff _).mp valid entry member).2.1
  | leave | tryClaimInput | releaseInput | revokeInput | forceGrant | noteInputActivity =>
      exact others nofun trivial

end

/-- The rosters of a run all pass exactly if every name that needed a suffix left room for it. -/
theorem rosters_pass_iff (iteration : Iteration (Participant κ)) (opened : Nat)
    (calls : List (Call κ × Nat)) (drawn : ∀ call ∈ calls, TagDrawn call) :
    (∀ past, past <+: calls →
        RosterPasses (run (roomStep iteration) (RoomState.new opened) past).1) ↔
      Meets (roomStep iteration) SuffixFits (RoomState.new opened) calls := by
  have empty : AllShown (RoomState.new opened : RoomState κ) := fun pid p found => by cases found
  exact kept_iff_meets_of TagDrawn AllShown empty empty.passes
    (fun _ call drawn shown => (roomStep_exact iteration shown call drawn).2)
    (fun _ call drawn shown => (roomStep_exact iteration shown call drawn).1) calls drawn

theorem rosters_pass_same_name :
    let iteration : Iteration (Participant Nat) := ⟨id, fun _ => .refl _⟩
    RosterPasses (run (roomStep iteration) (RoomState.new 0) sameName).1 := by
  intro iteration
  have drawn : ∀ call ∈ sameName, TagDrawn call := by decide
  exact (rosters_pass_iff iteration 0 sameName drawn).mpr (by decide) sameName List.prefix_rfl

/-- Two joins under the same name of forty bytes. -/
theorem suffix_passes_limit :
    let iteration : Iteration (Participant Nat) := ⟨id, fun _ => .refl _⟩
    let name := List.replicate 40 'a'
    let state := (run (roomStep iteration) (RoomState.new 0)
      [(.join name true 1 "0a1b2c3d".toList, 0), (.join name false 2 "4e5f6071".toList, 1)]).1
    state.roster.map (fun entry => byteLen entry.displayName) = [40, 44] ∧
      validateRoster state.roster = .error (.fieldTooLong "display_name".toList 40) := by
  decide

end Strata.Backend.CoPilot
