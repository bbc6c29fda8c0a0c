import Mathlib.Tactic
import Strata.Lib.RustInt
import Strata.Lib.Utf8

/-! String operations of Rust's standard library, over texts. -/

namespace Strata.RustStr

open Utf8 (Text)

/-- `char::is_whitespace`: the Unicode `White_Space` property. -/
def isWhitespace (c : Char) : Bool :=
  (0x09 ≤ c.toNat && c.toNat ≤ 0x0D) || c.toNat == 0x20 || c.toNat == 0x85 ||
    c.toNat == 0xA0 || c.toNat == 0x1680 || (0x2000 ≤ c.toNat && c.toNat ≤ 0x200A) ||
    c.toNat == 0x2028 || c.toNat == 0x2029 || c.toNat == 0x202F || c.toNat == 0x205F ||
    c.toNat == 0x3000

def trimStart (text : Text) : Text := text.dropWhile isWhitespace

def trimEnd (text : Text) : Text := (text.reverse.dropWhile isWhitespace).reverse

def trim (text : Text) : Text := trimEnd (trimStart text)

def splitOnce (mark : Char) : Text → Option (Text × Text)
  | [] => none
  | c :: rest =>
      if c = mark then some ([], rest)
      else (splitOnce mark rest).map (fun parts => (c :: parts.1, parts.2))

def rsplitOnce (mark : Char) (text : Text) : Option (Text × Text) :=
  (splitOnce mark text.reverse).map fun parts => (parts.2.reverse, parts.1.reverse)

def splitOnText (mark : Text) : Text → Option (Text × Text)
  | [] => if mark = [] then some ([], []) else none
  | c :: rest =>
      if mark.isPrefixOf (c :: rest) then some ([], (c :: rest).drop mark.length)
      else (splitOnText mark rest).map fun parts => (c :: parts.1, parts.2)

def trimStartMatches (mark : Char) (text : Text) : Text := text.dropWhile (· == mark)

def trimEndMatches (mark : Char) (text : Text) : Text :=
  (text.reverse.dropWhile (· == mark)).reverse

def replaceSkipping (mark with_ : Text) : Nat → Text → Text
  | _, [] => []
  | skip + 1, _ :: rest => replaceSkipping mark with_ skip rest
  | 0, c :: rest =>
      if mark.isPrefixOf (c :: rest) then
        with_ ++ replaceSkipping mark with_ (mark.length - 1) rest
      else c :: replaceSkipping mark with_ 0 rest

/-- `str::replace` for a mark that is not empty. -/
def replace (mark with_ text : Text) : Text := replaceSkipping mark with_ 0 text

theorem replaceSkipping_append (mark with_ skipped rest : Text) :
    replaceSkipping mark with_ skipped.length (skipped ++ rest) = replace mark with_ rest := by
  induction skipped with
  | nil => rfl
  | cons c skipped ih => exact ih

theorem replace_of_match (first : Char) (more with_ rest : Text) :
    replace (first :: more) with_ (first :: more ++ rest) =
      with_ ++ replace (first :: more) with_ rest := by
  have starts : (first :: more).isPrefixOf (first :: (more ++ rest)) = true := by
    rw [List.isPrefixOf_iff_prefix]
    exact List.prefix_append (first :: more) rest
  rw [List.cons_append, replace, replaceSkipping, if_pos starts]
  exact congrArg (with_ ++ ·) (replaceSkipping_append _ _ more rest)

theorem replace_of_other {mark : Text} {c : Char} {rest : Text} (with_ : Text)
    (other : ¬ mark <+: c :: rest) :
    replace mark with_ (c :: rest) = c :: replace mark with_ rest := by
  rw [replace, replaceSkipping, if_neg (mt List.isPrefixOf_iff_prefix.mp other)]
  rfl

theorem splitOnce_eq_some {mark : Char} {text before after : Text}
    (split : splitOnce mark text = some (before, after)) :
    text = before ++ mark :: after ∧ mark ∉ before := by
  induction text generalizing before with
  | nil => cases split
  | cons c rest ih =>
      rw [splitOnce] at split
      by_cases here : c = mark
      · rw [if_pos here] at split
        obtain ⟨rfl, rfl⟩ := Prod.mk.inj (Option.some.inj split)
        exact ⟨by rw [here]; rfl, List.not_mem_nil⟩
      · rw [if_neg here, Option.map_eq_some_iff] at split
        obtain ⟨⟨front, back⟩, found, same⟩ := split
        obtain ⟨rfl, rfl⟩ := Prod.mk.inj same
        obtain ⟨rfl, absent⟩ := ih found
        refine ⟨rfl, ?_⟩
        simp only [List.mem_cons, not_or]
        exact ⟨fun same => here same.symm, absent⟩

theorem splitOnce_append (mark : Char) (before after : Text) (absent : mark ∉ before) :
    splitOnce mark (before ++ mark :: after) = some (before, after) := by
  induction before with
  | nil => simp [splitOnce]
  | cons c before ih =>
      rw [List.mem_cons, not_or] at absent
      rw [List.cons_append, splitOnce, if_neg (fun same => absent.1 same.symm), ih absent.2]
      rfl

theorem trimStart_split (text : Text) :
    ∃ blank, text = blank ++ trimStart text ∧ ∀ c ∈ blank, isWhitespace c = true :=
  ⟨text.takeWhile isWhitespace, List.takeWhile_append_dropWhile.symm,
    List.all_eq_true.mp List.all_takeWhile⟩

theorem trimEnd_split (text : Text) :
    ∃ blank, text = trimEnd text ++ blank ∧ ∀ c ∈ blank, isWhitespace c = true := by
  obtain ⟨blank, split, white⟩ := trimStart_split text.reverse
  refine ⟨blank.reverse, ?_, fun c member => white c (List.mem_reverse.mp member)⟩
  have turned := congrArg List.reverse split
  rw [List.reverse_reverse, List.reverse_append] at turned
  exact turned

theorem isWhitespace_digit {c : Char} (digit : c.isDigit = true) : isWhitespace c = false := by
  have range := RustInt.isDigit_toNat digit
  simp only [isWhitespace, Bool.or_eq_false_iff, Bool.and_eq_false_iff, decide_eq_false_iff_not,
    beq_eq_false_iff_ne]
  omega

theorem trimStart_cons {c : Char} (visible : isWhitespace c = false) (text : Text) :
    trimStart (c :: text) = c :: text := by
  simp [trimStart, visible]

theorem trimEnd_concat {c : Char} (visible : isWhitespace c = false) (text : Text) :
    trimEnd (text ++ [c]) = text ++ [c] := by
  simp [trimEnd, visible]

theorem trimStart_concat {c : Char} (visible : isWhitespace c = false) (text : Text) :
    ∃ rest, trimStart (text ++ [c]) = rest ++ [c] := by
  induction text with
  | nil => exact ⟨[], by simp [trimStart, visible]⟩
  | cons d text ih =>
      by_cases blank : isWhitespace d = true
      · obtain ⟨rest, trimmed⟩ := ih
        exact ⟨rest, by simpa [trimStart, blank] using trimmed⟩
      · exact ⟨d :: text, trimStart_cons (by simpa using blank) (text ++ [c])⟩

theorem split_mark_cases {mark : Char} {before after front back : Text} (absent : mark ∉ before)
    (same : before ++ mark :: after = front ++ mark :: back) :
    (front = before ∧ back = after) ∨ ∃ more, after = more ++ mark :: back := by
  induction before generalizing front with
  | nil =>
      cases front with
      | nil =>
          rw [List.nil_append, List.nil_append, List.cons.injEq] at same
          exact Or.inl ⟨rfl, same.2.symm⟩
      | cons c front =>
          rw [List.nil_append, List.cons_append, List.cons.injEq] at same
          exact Or.inr ⟨front, same.2⟩
  | cons c before ih =>
      rw [List.mem_cons, not_or] at absent
      cases front with
      | nil =>
          rw [List.cons_append, List.nil_append, List.cons.injEq] at same
          exact absurd same.1.symm absent.1
      | cons d front =>
          rw [List.cons_append, List.cons_append, List.cons.injEq] at same
          rcases ih absent.2 same.2 with ⟨rfl, rfl⟩ | later
          · exact Or.inl ⟨by rw [same.1], rfl⟩
          · exact Or.inr later

end Strata.RustStr
