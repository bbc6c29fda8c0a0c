import Mathlib.Tactic
import Strata.Backend.AuditChain

/-! A verification of the whole chain against one that stops at a row and one that goes on from
there: reports join, up to the cap on recorded breaks. -/

namespace Strata.Backend.Audit

open Utf8 (Text)
open KeyOrder (Ordered after upTo byKey)

variable {Json : Type} (hashing : Hashing Json) (boundary : Option Int)

def Break.id : Break → Int
  | .link id | .digest id | .legacy id => id

/-! ### Joining reports -/

def Report.join (first second : Report) : Report where
  head := second.head.or first.head
  rows := first.rows + second.rows
  breaks := (first.breaks ++ second.breaks).take maxBreaks
  legacyLinkBreaks := first.legacyLinkBreaks + second.legacyLinkBreaks

def Report.empty : Report := ⟨none, 0, [], 0⟩

theorem take_append_take {α : Type} (first second : List α) (most : Nat) :
    (first.take most ++ second).take most = (first ++ second).take most ∧
      (first ++ second.take most).take most = (first ++ second).take most := by
  constructor
  · rw [List.take_append, List.take_append, List.take_take, min_self, List.length_take]
    rcases le_total most first.length with short | long
    · rw [min_eq_left short, Nat.sub_self, Nat.sub_eq_zero_of_le short]
    · rw [min_eq_right long]
  · rw [List.take_append, List.take_append, List.take_take, min_eq_left (Nat.sub_le ..)]

theorem mem_take_append {α : Type} {first more : List α} {most : Nat} (x : α)
    (room : first.length < most) : x ∈ (first ++ x :: more).take most := by
  obtain ⟨spare, rfl⟩ := Nat.exists_eq_add_of_lt room
  rw [List.take_append, Nat.add_assoc, Nat.add_sub_cancel_left, List.take_succ_cons]
  exact List.mem_append_right _ List.mem_cons_self

theorem Report.join_assoc (first second third : Report) :
    (first.join second).join third = first.join (second.join third) := by
  simp only [Report.join, Report.mk.injEq, Nat.add_assoc, and_true, true_and, Option.or_assoc]
  rw [(take_append_take ..).1, (take_append_take ..).2, List.append_assoc]

theorem Report.join_behind_iff {first second : Report} {id : Int}
    (room : first.breaks.length < maxBreaks) (low : ∀ b ∈ first.breaks, b.id ≤ id)
    (high : ∀ b ∈ second.breaks, id < b.id) :
    (∃ b ∈ (first.join second).breaks, id < b.id) ↔ second.breaks ≠ [] := by
  constructor
  · rintro ⟨b, member, behind⟩ none
    rw [Report.join, none, List.append_nil] at member
    exact absurd (low b (List.mem_of_mem_take member)) (by omega)
  · intro found
    cases breaks : second.breaks with
    | nil => exact absurd breaks found
    | cons b more =>
        rw [breaks] at high
        rw [Report.join, breaks]
        exact ⟨b, mem_take_append b room, high b List.mem_cons_self⟩

def Additive (step : Report → Report) : Prop :=
  ∀ report, report.breaks.length ≤ maxBreaks → step report = report.join (step .empty)

theorem Additive.comp {first second : Report → Report} (one : Additive first)
    (two : Additive second) : Additive (second ∘ first) := by
  have capped (report : Report) (fits : report.breaks.length ≤ maxBreaks) :
      (first report).breaks.length ≤ maxBreaks := by
    rw [one report fits]
    exact List.length_take_le ..
  intro report fits
  rw [Function.comp, Function.comp, two _ (capped _ fits), one report fits, Report.join_assoc,
    ← two _ (capped _ (Nat.zero_le _))]

theorem additive_id : Additive id := by
  intro report fits
  simp [Report.join, Report.empty, List.take_of_length_le fits]

theorem additive_push (b : Break) : Additive (·.push b) := by
  intro report fits
  change report.push b = report.join ⟨none, 0, [b], 0⟩
  rw [Report.push, Report.join]
  split_ifs with room
  · rw [List.take_of_length_le (by simpa using room)]
    rfl
  · rw [List.take_append_of_le_length (by omega), List.take_of_length_le fits]
    rfl

theorem additive_checkLink (expected : Text) (row : Row Json) :
    Additive (checkLink boundary expected row) := by
  have counted : Additive fun report =>
      { report with legacyLinkBreaks := report.legacyLinkBreaks + 1 } := by
    intro report fits
    simp [Report.join, Report.empty, List.take_of_length_le fits]
  intro report fits
  rw [checkLink, checkLink]
  split_ifs
  · exact counted report fits
  · exact additive_push _ report fits
  · exact additive_id report fits

theorem additive_checkDigest (row : Row Json) : Additive (checkDigest hashing boundary row) := by
  intro report fits
  rw [checkDigest, checkDigest]
  split_ifs
  · exact additive_id report fits
  · exact additive_id report fits
  · exact additive_push _ report fits
  · exact additive_push _ report fits

/-! ### Walks -/

def Walk.fresh (w : Walk) : Walk := { w with report := .empty }

theorem checkRow_join {w : Walk} (fits : w.report.breaks.length ≤ maxBreaks) (row : Row Json) :
    (checkRow hashing boundary w row).report =
      w.report.join (checkRow hashing boundary w.fresh row).report := by
  have counted : Additive fun report =>
      { report with rows := report.rows + 1, head := some ⟨row.id, row.currentHash⟩ } := by
    intro report fits
    simp [Report.join, Report.empty, List.take_of_length_le fits]
  exact (((additive_checkLink boundary w.expectedPrevious row).comp
    (additive_checkDigest hashing boundary row)).comp counted) w.report fits

theorem foldl_checkRow_join {w : Walk} (fits : w.report.breaks.length ≤ maxBreaks)
    (rows : List (Row Json)) :
    (rows.foldl (checkRow hashing boundary) w).report =
      w.report.join (rows.foldl (checkRow hashing boundary) w.fresh).report := by
  induction rows generalizing w with
  | nil => exact additive_id w.report fits
  | cons row rows ih =>
      have first := checkRow_join hashing boundary fits row
      have again := checkRow_join hashing boundary (w := w.fresh) (Nat.zero_le _) row
      have capped (start : Walk) (fits : start.report.breaks.length ≤ maxBreaks) :
          (checkRow hashing boundary start row).report.breaks.length ≤ maxBreaks := by
        rw [checkRow_join hashing boundary fits]
        exact List.length_take_le ..
      rw [List.foldl_cons, ih (capped w fits), first, Report.join_assoc, List.foldl_cons,
        ih (capped w.fresh (Nat.zero_le _))]
      rfl

theorem mem_push {report : Report} {b found : Break} (member : found ∈ (report.push b).breaks) :
    found ∈ report.breaks ∨ found = b := by
  rw [Report.push] at member
  split_ifs at member
  · rcases List.mem_append.mp member with old | new
    · exact .inl old
    · exact .inr (List.mem_singleton.mp new)
  · exact .inl member

theorem mem_checkRow {w : Walk} {row : Row Json} {b : Break}
    (member : b ∈ (checkRow hashing boundary w row).report.breaks) :
    b ∈ w.report.breaks ∨ b.id = row.id := by
  have linked (found : b ∈ (checkLink boundary w.expectedPrevious row w.report).breaks) :
      b ∈ w.report.breaks ∨ b.id = row.id := by
    rw [checkLink] at found
    split_ifs at found
    · exact .inl found
    · exact (mem_push found).imp_right fun same => by rw [same]; rfl
    · exact .inl found
  change b ∈ (checkDigest hashing boundary row _).breaks at member
  rw [checkDigest] at member
  split_ifs at member
  · exact linked member
  · exact linked member
  · exact (mem_push member).elim linked fun same => .inr (by rw [same]; rfl)
  · exact (mem_push member).elim linked fun same => .inr (by rw [same]; rfl)

theorem mem_foldl_checkRow {w : Walk} {rows : List (Row Json)} {b : Break}
    (member : b ∈ (rows.foldl (checkRow hashing boundary) w).report.breaks) :
    b ∈ w.report.breaks ∨ ∃ row ∈ rows, b.id = row.id := by
  induction rows generalizing w with
  | nil => exact .inl member
  | cons row rows ih =>
      rcases ih member with before | ⟨later, inside, same⟩
      · exact (mem_checkRow hashing boundary before).imp_right
          fun same => ⟨row, List.mem_cons_self, same⟩
      · exact .inr ⟨later, List.mem_cons_of_mem _ inside, same⟩

theorem breaks_upTo {w : Walk} {row : Row Json} {before : List (Row Json)}
    (none : w.report.breaks = []) (ahead : ∀ other ∈ before, other.id < row.id) :
    ∀ b ∈ (checkRow hashing boundary (before.foldl (checkRow hashing boundary) w)
      row).report.breaks, b.id ≤ row.id := by
  intro b found
  rcases mem_checkRow hashing boundary found with early | same
  · rcases mem_foldl_checkRow hashing boundary early with old | ⟨other, inside, same⟩
    · rw [none] at old
      cases old
    · rw [same]
      exact (ahead other inside).le
  · exact same.le

theorem breaks_behind {w : Walk} {id : Int} {rows : List (Row Json)}
    (none : w.report.breaks = []) (behind : ∀ other ∈ rows, id < other.id) :
    ∀ b ∈ (rows.foldl (checkRow hashing boundary) w).report.breaks, id < b.id := by
  intro b found
  rcases mem_foldl_checkRow hashing boundary found with old | ⟨other, inside, same⟩
  · rw [none] at old
    cases old
  · rw [same]
    exact behind other inside

/-! ### Splitting at a row -/

theorem foldl_checkRow_resume (w : Walk) (row : Row Json) (rows : List (Row Json)) :
    (rows.foldl (checkRow hashing boundary) (checkRow hashing boundary w row).fresh).report =
      (rows.foldl (checkRow hashing boundary)
        (Walk.start (some ⟨row.id, row.currentHash⟩)).fresh).report := by
  have same : (checkRow hashing boundary w row).fresh =
      { (Walk.start (some ⟨row.id, row.currentHash⟩)).fresh with after := w.after } := rfl
  rw [same, foldl_checkRow_cursor]

theorem foldl_checkRow_capped (w : Walk) (fits : w.report.breaks.length ≤ maxBreaks)
    (rows : List (Row Json)) :
    (rows.foldl (checkRow hashing boundary) w).report.breaks.length ≤ maxBreaks := by
  rw [foldl_checkRow_join hashing boundary fits]
  exact List.length_take_le ..

section

variable (logs : AuditLogs Json) {row : Row Json} {before later : List (Row Json)} {size : Nat}

/-- The three verifications, as passes over the rows before and after the one they meet at. -/
theorem verifyOf_passes (split : byKey Row.id logs.rows = before ++ row :: later)
    (positive : 0 < size) :
    let done := checkRow hashing boundary
      (before.foldl (checkRow hashing boundary) (Walk.start none)) row
    verifyOf size hashing (upTo Row.id row.id logs.rows) none boundary = done.report ∧
      verifyOf size hashing logs.rows none boundary =
        (later.foldl (checkRow hashing boundary) done).report ∧
      verifyOf size hashing logs.rows (some ⟨row.id, row.currentHash⟩) boundary =
        (later.foldl (checkRow hashing boundary)
          (Walk.start (some ⟨row.id, row.currentHash⟩))).report := by
  intro done
  have ordered := KeyOrder.byKey_ordered logs.distinct
  have fewer := KeyOrder.byKey_upTo logs.distinct row.id
  rw [split] at ordered
  rw [split, ordered.upTo_row] at fewer
  have above : ∀ other ∈ before ++ row :: later, 0 < other.id := by
    rw [← split]
    exact fun other inside => logs.positive other (KeyOrder.mem_byKey.mp inside)
  have low : ∀ other ∈ before ++ [row], 0 < other.id := by
    intro other inside
    exact above other (by rw [List.append_cons]; exact List.mem_append_left _ inside)
  have fewerDistinct : ((upTo Row.id row.id logs.rows).map Row.id).Nodup :=
    logs.distinct.sublist (List.filter_sublist.map Row.id)
  refine ⟨?_, ?_, ?_⟩
  · rw [verifyOf_eq fewerDistinct positive, fewer, Option.map_none, Option.getD_none,
      KeyOrder.after_eq_self low, List.foldl_append]
    rfl
  · rw [verifyOf_eq logs.distinct positive, split, Option.map_none, Option.getD_none,
      KeyOrder.after_eq_self above, List.foldl_append]
    rfl
  · rw [verifyOf_eq logs.distinct positive, split, Option.map_some, Option.getD_some,
      ordered.after_row]

/-- The report over all rows is that over the rows up to any one of them, joined with what a
verification from there reports; after the row both find a break or neither does, unless the cap
was reached before it. -/
theorem verify_splits (member : row ∈ logs.rows) (positive : 0 < size) :
    let full := verifyOf size hashing logs.rows none boundary
    let front := verifyOf size hashing (upTo Row.id row.id logs.rows) none boundary
    let back := verifyOf size hashing logs.rows (some ⟨row.id, row.currentHash⟩) boundary
    full.breaks = (front.breaks ++ back.breaks).take maxBreaks ∧ full.head = back.head ∧
      full.rows = front.rows + back.rows ∧
      full.legacyLinkBreaks = front.legacyLinkBreaks + back.legacyLinkBreaks ∧
      (front.breaks.length < maxBreaks →
        (back.breaks ≠ [] ↔ ∃ b ∈ full.breaks, row.id < b.id)) := by
  have inside : row ∈ byKey Row.id logs.rows := KeyOrder.mem_byKey.mpr member
  obtain ⟨before, later, split⟩ := List.append_of_mem inside
  obtain ⟨one, all, rest⟩ := verifyOf_passes hashing boundary logs split positive
  have ordered := KeyOrder.byKey_ordered logs.distinct
  rw [split] at ordered
  obtain ⟨_, middle, cross⟩ := List.pairwise_append.mp ordered
  have low := breaks_upTo hashing boundary (rfl : (Walk.start none).report.breaks = [])
    fun other inside => cross other inside row List.mem_cons_self
  have high := breaks_behind hashing boundary
    (rfl : (Walk.start (some ⟨row.id, row.currentHash⟩)).fresh.report.breaks = [])
    (List.pairwise_cons.mp middle).1
  have capped := foldl_checkRow_capped hashing boundary (Walk.start none) (Nat.zero_le _)
    (before ++ [row])
  rw [List.foldl_append, List.foldl_cons, List.foldl_nil] at capped
  -- both go on behind the row with the same finds, joined to what each had before
  have more := foldl_checkRow_join hashing boundary capped later
  have alone := foldl_checkRow_join hashing boundary
    (w := Walk.start (some ⟨row.id, row.currentHash⟩)) (Nat.zero_le _) later
  rw [foldl_checkRow_resume] at more
  rw [one, all, rest, more, alone]
  refine ⟨(take_append_take ..).2.symm, rfl, ?_, ?_, fun room => ?_⟩
  · simp [Report.join, Walk.start]
  · simp [Report.join, Walk.start]
  · rw [Report.join_behind_iff room low high]
    simp [Report.join, Walk.start, maxBreaks]

end

/-- The login behind a legacy row, with a link that is not the legacy row's digest. -/
def brokenLogs : AuditLogs Text where
  rows := [⟨1, sampleTime, none, "a".toList, sampleEvent.details, [], "00".toList, 1⟩,
    { loginRow with previousHash := "ff".toList }]
  distinct := by simp [loginRow]
  positive := by simp [loginRow]

theorem broken_login_found_from_both :
    let full := verifyOf 1 sampleHashing brokenLogs.rows none (some 2)
    let front := verifyOf 1 sampleHashing (upTo Row.id 1 brokenLogs.rows) none (some 2)
    let back := verifyOf 1 sampleHashing brokenLogs.rows (some ⟨1, "00".toList⟩) (some 2)
    front.breaks = [] ∧ back.breaks = [.link 2, .digest 2] ∧
      full.breaks = (front.breaks ++ back.breaks).take maxBreaks ∧
      full.rows = front.rows + back.rows ∧ ∃ b ∈ full.breaks, 1 < b.id := by
  intro full front back
  have clean : front.breaks = [] := by decide
  have found : back.breaks = [.link 2, .digest 2] := by decide
  obtain ⟨breaks, -, rows, -, behind⟩ := verify_splits sampleHashing (some 2) brokenLogs
    List.mem_cons_self Nat.one_pos
  have room : front.breaks.length < maxBreaks := by rw [clean]; decide
  exact ⟨clean, found, breaks, rows, (behind room).mp (by rw [found]; decide)⟩

end Strata.Backend.Audit
