import Mathlib.Tactic
import Strata.Lib.HashChain
import Strata.Backend.AuditVerify

/-! What a walk without breaks and a checkpoint without problems say together: from the first v2
row to the checkpoint's head, a table is the only one that they accept. -/

namespace Strata.Backend.Audit

open Utf8 (Text Bytes)
open KeyOrder (Ordered after upTo byKey)
open HashChain (Linked)

variable {Json : Type} {hashing : Hashing Json} {boundary : Option Int}

/-! ### Walks without breaks -/

def Row.Hashed (hashing : Hashing Json) (row : Row Json) : Prop :=
  row.hashVersion = 2 ∧ row.currentHash = auditHashV2 hashing row.event

def Sound (hashing : Hashing Json) (boundary : Option Int) (expected : Text) (row : Row Json) :
    Prop :=
  (isLegacy boundary row.id = true ∨ row.previousHash = expected) ∧
    (row.Hashed hashing ∨ row.hashVersion = 1 ∧ isLegacy boundary row.id = true)

def SoundFrom (hashing : Hashing Json) (boundary : Option Int) : Text → List (Row Json) → Prop
  | _, [] => True
  | expected, row :: rows =>
      Sound hashing boundary expected row ∧ SoundFrom hashing boundary row.currentHash rows

theorem soundFrom_append {expected : Text} {front back : List (Row Json)} :
    SoundFrom hashing boundary expected (front ++ back) ↔
      SoundFrom hashing boundary expected front ∧
        SoundFrom hashing boundary (HashChain.head Row.currentHash expected front) back := by
  induction front generalizing expected with
  | nil => simp [SoundFrom, HashChain.head]
  | cons row front ih =>
      simp only [List.cons_append, SoundFrom, HashChain.head, ih, and_assoc]

theorem push_breaks_ne_nil (report : Report) (b : Break) : (report.push b).breaks ≠ [] := by
  rw [Report.push]
  split
  · exact List.append_ne_nil_of_right_ne_nil _ (List.cons_ne_nil b [])
  · rename_i full
    intro empty
    rw [empty] at full
    exact full (by decide)

theorem checkLink_breaks (expected : Text) (row : Row Json) (report : Report) :
    (checkLink boundary expected row report).breaks = [] ↔
      report.breaks = [] ∧ (isLegacy boundary row.id = true ∨ row.previousHash = expected) := by
  rw [checkLink]
  split_ifs with other legacy
  · exact (and_iff_left (Or.inl legacy)).symm
  · refine iff_of_false (push_breaks_ne_nil _ _) ?_
    rintro ⟨-, old | same⟩
    · exact legacy old
    · exact other same
  · exact (and_iff_left (Or.inr (not_not.mp other))).symm

theorem checkDigest_breaks (row : Row Json) (report : Report) :
    (checkDigest hashing boundary row report).breaks = [] ↔
      report.breaks = [] ∧
        (row.Hashed hashing ∨ row.hashVersion = 1 ∧ isLegacy boundary row.id = true) := by
  have hashed : row.hashVersion = 2 ∧ row.digestOk hashing = some true ↔ row.Hashed hashing := by
    refine and_congr_right fun two => ?_
    rw [Row.digestOk, if_pos two, Option.some.injEq, decide_eq_true_iff]
  rw [checkDigest, ← hashed]
  split_ifs with matched one legacy
  · exact (and_iff_left (Or.inl matched)).symm
  · exact (and_iff_left (Or.inr ⟨one, legacy⟩)).symm
  · refine iff_of_false (push_breaks_ne_nil _ _) ?_
    rintro ⟨-, other | old⟩
    · exact matched other
    · exact legacy old.2
  · refine iff_of_false (push_breaks_ne_nil _ _) ?_
    rintro ⟨-, other | old⟩
    · exact matched other
    · exact one old.1

theorem checkRow_breaks (w : Walk) (row : Row Json) :
    (checkRow hashing boundary w row).report.breaks = [] ↔
      w.report.breaks = [] ∧ Sound hashing boundary w.expectedPrevious row := by
  rw [checkRow]
  dsimp only
  rw [checkDigest_breaks, checkLink_breaks, Sound, and_assoc]

theorem foldl_checkRow_after (w : Walk) (rows : List (Row Json)) :
    (rows.foldl (checkRow hashing boundary) w).after = w.after := by
  induction rows generalizing w with
  | nil => rfl
  | cons row rows ih => exact ih _

theorem foldl_checkRow_expected (w : Walk) (rows : List (Row Json)) :
    (rows.foldl (checkRow hashing boundary) w).expectedPrevious =
      HashChain.head Row.currentHash w.expectedPrevious rows := by
  induction rows generalizing w with
  | nil => rfl
  | cons row rows ih => exact ih _

theorem foldl_checkRow_breaks (w : Walk) (rows : List (Row Json)) :
    (rows.foldl (checkRow hashing boundary) w).report.breaks = [] ↔
      w.report.breaks = [] ∧ SoundFrom hashing boundary w.expectedPrevious rows := by
  induction rows generalizing w with
  | nil => simp [SoundFrom]
  | cons row rows ih =>
      rw [List.foldl_cons, ih, checkRow_breaks, SoundFrom, and_assoc]
      rfl

/-- A table with one row for an id, the ids drawn from a sequence that starts at one. -/
structure AuditLogs (Json : Type) where
  rows : List (Row Json)
  distinct : (rows.map Row.id).Nodup
  positive : ∀ row ∈ rows, 0 < row.id

section Batches

variable {table : List (Row Json)} {size : Nat}

theorem verifyTurnOf_cases (distinct : (table.map Row.id).Nodup) (positive : 0 < size) (w : Walk) :
    verifyTurnOf size hashing boundary table w = .inr w.report ∧
        after Row.id w.after (byKey Row.id table) = [] ∨
      ∃ last : Row Json, after Row.id w.after (byKey Row.id table) ≠ [] ∧
        after Row.id last.id (byKey Row.id table) =
          (after Row.id w.after (byKey Row.id table)).drop size ∧
        verifyTurnOf size hashing boundary table w =
          .inl (((after Row.id w.after (byKey Row.id table)).take size).foldl
            (checkRow hashing boundary) { w with after := last.id }) := by
  rw [verifyTurnOf, readBatch]
  cases batch : ((after Row.id w.after (byKey Row.id table)).take size).getLast? with
  | none =>
      have empty := List.take_eq_nil_iff.mp (List.getLast?_eq_none_iff.mp batch)
      exact .inl ⟨rfl, empty.resolve_left positive.ne'⟩
  | some last =>
      refine .inr ⟨last, fun empty => ?_, (KeyOrder.byKey_ordered distinct).after_batch batch, rfl⟩
      rw [empty, List.take_nil] at batch
      cases batch

theorem verifyTurnOf_decreasing (distinct : (table.map Row.id).Nodup) (positive : 0 < size) :
    Loop.Decreasing (fun w : Walk => (after Row.id w.after (byKey Row.id table)).length)
      (verifyTurnOf size hashing boundary table) := by
  intro w next turned
  rcases verifyTurnOf_cases distinct positive w with ⟨stopped, -⟩ | ⟨last, filled, rest, more⟩
  · rw [stopped] at turned
    cases turned
  · rw [more] at turned
    cases turned
    dsimp only
    rw [foldl_checkRow_after, rest, List.length_drop]
    exact Nat.sub_lt (List.length_pos_iff.mpr filled) positive

theorem foldl_checkRow_cursor (w : Walk) (cursor : Int) (rows : List (Row Json)) :
    rows.foldl (checkRow hashing boundary) { w with after := cursor } =
      { rows.foldl (checkRow hashing boundary) w with after := cursor } := by
  induction rows generalizing w with
  | nil => rfl
  | cons row rows ih => exact ih (checkRow hashing boundary w row)

/-- Batches do not show: the report is that of one pass over the rows behind the start. -/
theorem verifyOf_eq (distinct : (table.map Row.id).Nodup) (positive : 0 < size)
    (start : Option Head) :
    verifyOf size hashing table start boundary =
      ((after Row.id ((start.map Head.id).getD 0) (byKey Row.id table)).foldl
        (checkRow hashing boundary) (Walk.start start)).report := by
  rw [verifyOf]
  refine Loop.run_induction (verifyTurnOf_decreasing distinct positive)
    (fun w report => report = ((after Row.id w.after (byKey Row.id table)).foldl
      (checkRow hashing boundary) w).report) ?_ ?_ (Walk.start start)
  · intro w report turned
    rcases verifyTurnOf_cases distinct positive w with ⟨stopped, done⟩ | ⟨last, -, -, more⟩
    · rw [stopped] at turned
      cases turned
      rw [done, List.foldl_nil]
    · rw [more] at turned
      cases turned
  · intro w next report turned later
    rcases verifyTurnOf_cases distinct positive w with ⟨stopped, -⟩ | ⟨last, -, rest, more⟩
    · rw [stopped] at turned
      cases turned
    · rw [more] at turned
      cases turned
      rw [later, foldl_checkRow_after, rest, ← List.foldl_append, List.take_append_drop,
        foldl_checkRow_cursor]

theorem verify_breaks (distinct : (table.map Row.id).Nodup) (start : Option Head) :
    (verify hashing table start boundary).breaks = [] ↔
      SoundFrom hashing boundary ((start.map Head.hash).getD [])
        (after Row.id ((start.map Head.id).getD 0) (byKey Row.id table)) := by
  rw [verify, verifyOf_eq distinct (by decide), foldl_checkRow_breaks]
  exact and_iff_right rfl

end Batches

/-! ### The stretch up to a checkpoint -/

theorem mem_of_storedHash {table : List (Row Json)} {id : Int} {hash : Text}
    (stored : storedHash table id = some hash) :
    ∃ row ∈ table, row.id = id ∧ row.currentHash = hash := by
  obtain ⟨row, found, same⟩ := Option.map_eq_some_iff.mp stored
  have sameId : row.id = id := by simpa using List.find?_some found
  exact ⟨row, List.mem_of_find?_eq_some found, sameId, same⟩

theorem mem_of_firstV2 {table : List (Row Json)} {id : Int} (first : firstV2 table = some id) :
    ∃ row ∈ table, row.id = id := by
  obtain ⟨row, member, same⟩ := List.mem_map.mp (List.min?_mem first)
  exact ⟨row, (List.mem_filter.mp member).1, same⟩

theorem checkCheckpointRows_eq_nil {table : List (Row Json)} {cp : Checkpoint}
    (kept : checkCheckpointRows table cp = []) :
    (∃ row ∈ table, row.id = cp.head.id ∧ row.currentHash = cp.head.hash) ∧
      ∀ low, cp.firstV2 = some low → ∃ row ∈ table, row.id = low := by
  have ⟨head, boundary⟩ := List.append_eq_nil_iff.mp kept
  constructor
  · apply mem_of_storedHash
    cases stored : storedHash table cp.head.id with
    | none =>
        simp only [checkHead, stored] at head
        cases head
    | some hash =>
        simp only [checkHead, stored] at head
        split_ifs at head with other
        rw [not_not.mp other]
  · intro low known
    rw [known, Option.isSome_some, if_pos rfl, checkBoundary, known] at boundary
    split_ifs at boundary with other
    exact mem_of_firstV2 (not_not.mp other)

/-- The v2 rows from `low` to a head, each behind the one before it. -/
structure Stretch (hashing : Hashing Json) (low : Int) (hash : Text) (rows : List (Row Json)) :
    Prop where
  ordered : Ordered Row.id rows
  above : ∀ row ∈ rows, low ≤ row.id
  first : ∃ row ∈ rows, row.id = low
  hashed : ∀ row ∈ rows, row.Hashed hashing
  linked : ∃ expected, Linked Row.previousHash Row.currentHash expected rows ∧
    HashChain.head Row.currentHash expected rows = hash

theorem Stretch.eq_of_suffix {low : Int} {hash : Text} {rows others : List (Row Json)}
    (stretch : Stretch hashing low hash rows) (other : Stretch hashing low hash others)
    (suffix : rows <:+ others) : rows = others := by
  obtain ⟨more, rfl⟩ := suffix
  cases more with
  | nil => rfl
  | cons row more =>
      obtain ⟨first, member, same⟩ := stretch.first
      have below := (List.pairwise_append.mp other.ordered).2.2 row (List.mem_cons_self ..) first
        member
      have above := other.above row (by simp)
      omega

theorem Row.eq_of_hash {row other : Row Json} (unique : Function.Injective (auditHashV2 hashing))
    (hashed : row.Hashed hashing) (hashed' : other.Hashed hashing)
    (same : row.currentHash = other.currentHash) : row = other := by
  have events : row.event = other.event := by
    apply unique
    rw [← hashed.2, same, hashed'.2]
  rw [Row.event, Row.event, Event.mk.injEq] at events
  have ⟨id, at', user, action, details, previous⟩ := events
  exact Row.ext id at' user action details previous same (hashed.1.trans hashed'.1.symm)

theorem Stretch.unique {low : Int} {hash : Text} {rows others : List (Row Json)}
    (unique : Function.Injective (auditHashV2 hashing)) (stretch : Stretch hashing low hash rows)
    (other : Stretch hashing low hash others) : rows = others := by
  obtain ⟨expected, linked, head⟩ := stretch.linked
  obtain ⟨expected', linked', head'⟩ := other.linked
  have same (row) (member : row ∈ rows) (row') (present : row' ∈ others) :
      row.currentHash = row'.currentHash → row = row' :=
    Row.eq_of_hash unique (stretch.hashed row member) (other.hashed row' present)
  rcases HashChain.suffix_of_same_head same linked linked' (head.trans head'.symm) with
    short | short
  · exact stretch.eq_of_suffix other short
  · exact (other.eq_of_suffix stretch short).symm

theorem linked_of_soundFrom {low : Int} {expected : Text} {rows : List (Row Json)}
    (above : ∀ row ∈ rows, low ≤ row.id) (sound : SoundFrom hashing (some low) expected rows) :
    Linked Row.previousHash Row.currentHash expected rows ∧ ∀ row ∈ rows, row.Hashed hashing := by
  induction rows generalizing expected with
  | nil => exact ⟨trivial, nofun⟩
  | cons row rows ih =>
      have ⟨first, later⟩ := List.forall_mem_cons.mp above
      have ⟨linked, hashed⟩ := ih later sound.2
      have recent : ¬isLegacy (some low) row.id = true := by
        rw [isLegacy, Option.all_some, decide_eq_true_iff]
        omega
      have ⟨link, digest⟩ := sound.1
      have own := digest.resolve_right fun old => recent old.2
      exact ⟨⟨link.resolve_left recent, linked⟩, List.forall_mem_cons.mpr ⟨own, hashed⟩⟩

def between (low top : Int) (table : List (Row Json)) : List (Row Json) :=
  after Row.id (low - 1) (upTo Row.id top (byKey Row.id table))

theorem mem_between {low top : Int} {table : List (Row Json)} {row : Row Json} :
    row ∈ between low top table ↔ row ∈ table ∧ low ≤ row.id ∧ row.id ≤ top := by
  rw [between, KeyOrder.mem_after, KeyOrder.mem_upTo, KeyOrder.mem_byKey, and_assoc,
    and_comm (b := low - 1 < row.id), Int.sub_one_lt_iff]

theorem stretch_of_verify {low : Int} {cp : Checkpoint} (logs : AuditLogs Json)
    (known : cp.firstV2 = some low) (inside : low ≤ cp.head.id)
    (clean : (verify hashing logs.rows none cp.firstV2).breaks = [])
    (kept : checkCheckpointRows logs.rows cp = []) :
    Stretch hashing low cp.head.hash (between low cp.head.id logs.rows) := by
  have ordered := KeyOrder.byKey_ordered logs.distinct
  obtain ⟨⟨last, member, sameId, sameHash⟩, found⟩ := checkCheckpointRows_eq_nil kept
  obtain ⟨first, present, same⟩ := found low known
  have above : ∀ row ∈ between low cp.head.id logs.rows, low ≤ row.id :=
    fun row member => (mem_between.mp member).2.1
  have sound : SoundFrom hashing (some low) [] (byKey Row.id logs.rows) := by
    have whole : after Row.id 0 (byKey Row.id logs.rows) = byKey Row.id logs.rows :=
      KeyOrder.after_eq_self fun row member => logs.positive row (KeyOrder.mem_byKey.mp member)
    rw [verify_breaks logs.distinct none, known] at clean
    exact whole ▸ clean
  rw [← ordered.upTo_append_after cp.head.id, soundFrom_append,
    ← (ordered.upTo cp.head.id).upTo_append_after (low - 1), soundFrom_append] at sound
  have ⟨linked, hashed⟩ := linked_of_soundFrom above sound.1.2
  have parts : Ordered Row.id (between low cp.head.id logs.rows) :=
    (ordered.upTo cp.head.id).after (low - 1)
  refine ⟨parts, above, ⟨first, mem_between.mpr ⟨present, by omega, by omega⟩, same⟩, hashed,
    _, linked, ?_⟩
  obtain ⟨front, split⟩ := parts.eq_concat
    (mem_between.mpr ⟨member, by omega, sameId.le⟩)
    (fun row member => sameId ▸ (mem_between.mp member).2.2)
  rw [split, HashChain.head_concat, sameHash]

/-- Whatever two tables pass a full walk and one checkpoint, they hold the same rows from the
first v2 row to the checkpoint's head. -/
theorem verified_tables_agree (sha256_injective : Function.Injective hashing.sha256)
    (jsonText_injective : Function.Injective hashing.jsonText) (first second : AuditLogs Json)
    {cp : Checkpoint} {low : Int} (known : cp.firstV2 = some low)
    (clean : (verify hashing first.rows none cp.firstV2).breaks = [])
    (clean' : (verify hashing second.rows none cp.firstV2).breaks = [])
    (kept : checkCheckpointRows first.rows cp = [])
    (kept' : checkCheckpointRows second.rows cp = []) (row : Row Json) :
    (row ∈ first.rows ∧ low ≤ row.id ∧ row.id ≤ cp.head.id) ↔
      (row ∈ second.rows ∧ low ≤ row.id ∧ row.id ≤ cp.head.id) := by
  by_cases inside : low ≤ cp.head.id
  · have unique := auditHashV2_injective jsonText_injective sha256_injective
    have same := (stretch_of_verify first known inside clean kept).unique unique
      (stretch_of_verify second known inside clean' kept')
    rw [← mem_between, ← mem_between, same]
  · constructor <;> rintro ⟨_, _, _⟩ <;> omega

def sampleTime : Timestamp where
  year := 2026
  month := 10
  day := 9
  hour := 8
  minute := 7
  second := 6
  micros := 5
  commonEra := by decide
  monthRange := by decide
  dayRange := by decide
  timeRange := by decide

def sampleEvent : Event Text :=
  ⟨2, sampleTime, none, "auth.login".toList, ['\x7b', '\x7d'], "00".toList⟩

def sampleDigest : Bytes :=
  [6, 96, 48, 134, 56, 48, 80, 153, 44, 33, 74, 104, 98, 183, 23, 175, 119, 198, 209, 116, 246, 36,
    16, 176, 254, 93, 201, 214, 50, 120, 13, 243]

/-- SHA-256 on the sample, and without collisions elsewhere. -/
def sampleHashing : Hashing Text where
  sha256 bytes :=
    if bytes = Utf8.encode (auditCanonicalV2 ⟨id, id⟩ sampleEvent) then sampleDigest
    else 0 :: bytes
  jsonText := id

theorem sampleHashing_injective : Function.Injective sampleHashing.sha256 := by
  intro first second same
  simp only [sampleHashing] at same
  split_ifs at same with one two two
  · rw [one, two]
  · cases same
  · cases same
  · exact (List.cons.inj same).2

def loginRow : Row Text :=
  ⟨2, sampleTime, none, "auth.login".toList, sampleEvent.details, "00".toList,
    Hex.encode sampleDigest, 2⟩

/-- The login behind a legacy row with any action: the legacy row's content is under no digest. -/
def sampleLogs (action : Text) : AuditLogs Text where
  rows := [⟨1, sampleTime, none, action, sampleEvent.details, [], "00".toList, 1⟩, loginRow]
  distinct := by simp [loginRow]
  positive := by simp [loginRow]

def sampleCheckpoint : Checkpoint := ⟨⟨2, Hex.encode sampleDigest⟩, some 2⟩

theorem tables_agree_from_login :
    (loginRow ∈ (sampleLogs "a".toList).rows ∧ 2 ≤ loginRow.id ∧ loginRow.id ≤ 2) ↔
      (loginRow ∈ (sampleLogs "b".toList).rows ∧ 2 ≤ loginRow.id ∧ loginRow.id ≤ 2) := by
  apply verified_tables_agree sampleHashing_injective Function.injective_id _ _
    (rfl : sampleCheckpoint.firstV2 = some 2)
  · decide
  · decide
  · decide
  · decide

end Strata.Backend.Audit
