import Mathlib.Tactic
import Strata.Backend.AuditChain

/-! A chain that is intact and only grows at its end: a walk that reads it batch by batch, each
batch from the table as it is then, meets no break. -/

namespace Strata.Backend.Audit

open Utf8 (Text Bytes)
open KeyOrder (Ordered upTo byKey)
open HashChain (Linked)

variable {Json : Type} {hashing : Hashing Json} {boundary : Option Int} {rows : List (Row Json)}

def tip (rows : List (Row Json)) : Text := (rows.getLast?.map Row.currentHash).getD []

theorem tip_eq (rows : List (Row Json)) : tip rows = HashChain.head Row.currentHash [] rows :=
  (HashChain.head_eq [] rows).symm

/-- Legacy rows, and behind them v2 rows that are hashed and linked. -/
structure Intact (hashing : Hashing Json) (rows : List (Row Json)) : Prop where
  ordered : Ordered Row.id rows
  positive : ∀ row ∈ rows, 0 < row.id
  parts : ∃ legacy recent, rows = legacy ++ recent ∧ (∀ row ∈ legacy, row.hashVersion = 1) ∧
    (∀ row ∈ recent, row.Hashed hashing) ∧
    Linked Row.previousHash Row.currentHash (tip legacy) recent

theorem Intact.concat (intact : Intact hashing rows) {row : Row Json}
    (hashed : row.Hashed hashing) (link : row.previousHash = tip rows)
    (newer : ∀ other ∈ rows, other.id < row.id) (positive : 0 < row.id) :
    Intact hashing (rows ++ [row]) where
  ordered := by
    refine List.pairwise_append.mpr ⟨intact.ordered, List.pairwise_singleton .., ?_⟩
    intro other member last same
    rw [List.mem_singleton.mp same]
    exact newer other member
  positive := by
    intro other member
    rcases List.mem_append.mp member with old | same
    · exact intact.positive other old
    · rwa [List.mem_singleton.mp same]
  parts := by
    obtain ⟨legacy, recent, rfl, old, hashes, linked⟩ := intact.parts
    refine ⟨legacy, recent ++ [row], List.append_assoc .., old, ?_, ?_⟩
    · intro other member
      rcases List.mem_append.mp member with before | same
      · exact hashes other before
      · rwa [List.mem_singleton.mp same]
    · rw [HashChain.linked_concat]
      refine ⟨linked, ?_⟩
      rw [link, tip_eq, tip_eq, HashChain.head_append]

theorem Intact.previous (intact : Intact hashing rows) {front back : List (Row Json)}
    {row : Row Json} (split : rows = front ++ row :: back) (two : row.hashVersion = 2) :
    row.previousHash = tip front := by
  obtain ⟨legacy, recent, whole, old, -, linked⟩ := intact.parts
  rw [tip_eq] at linked ⊢
  rcases List.append_eq_append_iff.mp (split.symm.trans whole) with
    ⟨middle, rfl, tail⟩ | ⟨middle, rfl, rfl⟩
  · cases middle with
    | nil =>
        rw [List.nil_append] at tail
        rw [← tail] at linked
        rw [List.append_nil] at linked
        exact linked.1
    | cons first middle =>
        rw [List.cons_append, List.cons.injEq] at tail
        have one := old row (by simp [tail.1])
        omega
  · rw [HashChain.linked_append] at linked
    rw [HashChain.head_append]
    exact linked.2.1

theorem Intact.hashed (intact : Intact hashing rows) {row : Row Json} (member : row ∈ rows)
    (two : row.hashVersion = 2) : row.Hashed hashing := by
  obtain ⟨legacy, recent, rfl, old, hashed, -⟩ := intact.parts
  rcases List.mem_append.mp member with before | behind
  · have one := old row before
    omega
  · exact hashed row behind

theorem firstV2_eq_some_iff {low : Int} : firstV2 rows = some low ↔
    (∃ row ∈ rows, row.hashVersion = 2 ∧ row.id = low) ∧
      ∀ row ∈ rows, row.hashVersion = 2 → low ≤ row.id := by
  rw [firstV2, List.min?_eq_some_iff]
  simp only [List.mem_map, List.mem_filter, decide_eq_true_iff, and_assoc, forall_exists_index,
    and_imp]
  refine and_congr_right fun _ => ⟨?_, ?_⟩
  · intro least row member two
    exact least row.id row member two rfl
  · rintro least _ row member two rfl
    exact least row member two

/-- The boundary is where the v2 rows begin, if it was read after they began. -/
def Known (rows : List (Row Json)) (boundary : Option Int) : Prop :=
  ∀ low, boundary = some low → firstV2 rows = some low

theorem firstV2_append {low : Int} {more : List (Row Json)}
    (ordered : Ordered Row.id (rows ++ more)) (first : firstV2 rows = some low) :
    firstV2 (rows ++ more) = some low := by
  rw [firstV2_eq_some_iff] at first ⊢
  obtain ⟨⟨row, member, two, rfl⟩, least⟩ := first
  refine ⟨⟨row, List.mem_append_left _ member, two, rfl⟩, fun other inside version => ?_⟩
  rcases List.mem_append.mp inside with old | new
  · exact least other old version
  · exact ((List.pairwise_append.mp ordered).2.2 row member other new).le

theorem Known.append {more : List (Row Json)} (known : Known rows boundary)
    (ordered : Ordered Row.id (rows ++ more)) : Known (rows ++ more) boundary :=
  fun low same => firstV2_append ordered (known low same)

theorem soundFrom_legacy (expected : Text)
    (legacy : ∀ row ∈ rows, row.hashVersion = 1 ∧ isLegacy boundary row.id = true) :
    SoundFrom hashing boundary expected rows := by
  induction rows generalizing expected with
  | nil => trivial
  | cons row rows ih =>
      have ⟨first, later⟩ := List.forall_mem_cons.mp legacy
      exact ⟨⟨Or.inl first.2, Or.inr first⟩, ih _ later⟩

theorem soundFrom_linked {expected : Text} (hashed : ∀ row ∈ rows, row.Hashed hashing)
    (linked : Linked Row.previousHash Row.currentHash expected rows) :
    SoundFrom hashing boundary expected rows := by
  induction rows generalizing expected with
  | nil => trivial
  | cons row rows ih =>
      have ⟨first, later⟩ := List.forall_mem_cons.mp hashed
      exact ⟨⟨Or.inr linked.1, Or.inl first⟩, ih later linked.2⟩

theorem Intact.sound (intact : Intact hashing rows) (known : Known rows boundary) :
    SoundFrom hashing boundary [] rows := by
  obtain ⟨legacy, recent, rfl, old, hashed, linked⟩ := intact.parts
  rw [soundFrom_append, ← tip_eq]
  refine ⟨soundFrom_legacy [] fun row member => ⟨old row member, ?_⟩,
    soundFrom_linked hashed linked⟩
  cases boundary with
  | none => rfl
  | some low =>
      obtain ⟨⟨first, inside, two, rfl⟩, -⟩ := firstV2_eq_some_iff.mp (known low rfl)
      rw [isLegacy, Option.all_some, decide_eq_true_iff]
      rcases List.mem_append.mp inside with before | behind
      · have one := old first before
        omega
      · exact (List.pairwise_append.mp intact.ordered).2.2 row member first behind

/-! ### Walks along a growing chain -/

/-- A walk without a break, at the start of the chain or behind one of its rows. -/
structure Walk.At (rows : List (Row Json)) (w : Walk) : Prop where
  breaks : w.report.breaks = []
  place : (w.after = 0 ∧ w.expectedPrevious = [] ∧ w.report.head = none) ∨
    ∃ row ∈ rows, w.after = row.id ∧ w.expectedPrevious = row.currentHash ∧
      w.report.head = some ⟨row.id, row.currentHash⟩

theorem Walk.At.mono {w : Walk} {more : List (Row Json)} (placed : w.At rows)
    (grown : ∀ row ∈ rows, row ∈ more) : w.At more where
  breaks := placed.breaks
  place := placed.place.imp_right fun ⟨row, member, same⟩ => ⟨row, grown row member, same⟩

def startable (rows : List (Row Json)) (start : Option Head) : Bool :=
  start.all fun head => storedHash rows head.id = some head.hash

theorem Walk.start_at {start : Option Head} (allowed : startable rows start = true) :
    (Walk.start start).At rows := by
  refine ⟨rfl, ?_⟩
  cases start with
  | none => exact Or.inl ⟨rfl, rfl, rfl⟩
  | some head =>
      obtain ⟨row, member, id, hash⟩ := mem_of_storedHash (of_decide_eq_true allowed)
      exact Or.inr ⟨row, member, id.symm, hash.symm, by rw [id, hash]; rfl⟩

theorem Walk.At.expected {w : Walk} (placed : w.At rows) (intact : Intact hashing rows) :
    w.expectedPrevious = HashChain.head Row.currentHash [] (upTo Row.id w.after rows) := by
  rcases placed.place with ⟨zero, nothing, -⟩ | ⟨row, member, id, hash, -⟩
  · rw [zero, nothing, KeyOrder.upTo_eq_nil intact.positive]
    rfl
  · obtain ⟨front, back, rfl⟩ := List.append_of_mem member
    rw [id, hash, intact.ordered.upTo_row, HashChain.head_concat]

theorem Walk.At.turn {w next : Walk} (placed : w.At rows) (intact : Intact hashing rows)
    (known : Known rows boundary) (turned : verifyTurn hashing boundary rows w = .inl next) :
    next.At rows := by
  have sound := intact.sound known
  rw [← intact.ordered.upTo_append_after w.after, soundFrom_append, ← placed.expected intact]
    at sound
  have read : readBatch batchSize rows w.after =
      (KeyOrder.after Row.id w.after rows).take batchSize := by
    rw [readBatch, intact.ordered.byKey_eq]
  rw [verifyTurn, verifyTurnOf, read] at turned
  cases batch : ((KeyOrder.after Row.id w.after rows).take batchSize).getLast? with
  | none =>
      rw [batch] at turned
      cases turned
  | some last =>
      rw [batch] at turned
      cases turned
      obtain ⟨front, split⟩ := List.getLast?_eq_some_iff.mp batch
      have member : last ∈ rows := by
        have inside : last ∈ (KeyOrder.after Row.id w.after rows).take batchSize := by simp [split]
        exact (KeyOrder.mem_after.mp (List.mem_of_mem_take inside)).1
      constructor
      · rw [foldl_checkRow_breaks]
        refine ⟨placed.breaks, ?_⟩
        have parts := sound.2
        rw [← List.take_append_drop batchSize (KeyOrder.after Row.id w.after rows),
          soundFrom_append] at parts
        exact parts.1
      · refine Or.inr ⟨last, member, ?_, ?_, ?_⟩
        · rw [foldl_checkRow_after]
        · rw [foldl_checkRow_expected, split, HashChain.head_concat]
        · rw [split, List.foldl_concat]
          rfl

theorem report_of_turn {w : Walk} {report : Report}
    (turned : verifyTurn hashing boundary rows w = .inr report) : report = w.report := by
  rw [verifyTurn, verifyTurnOf] at turned
  cases batch : (readBatch batchSize rows w.after).getLast? with
  | none =>
      rw [batch] at turned
      exact (Sum.inr.inj turned).symm
  | some last =>
      rw [batch] at turned
      cases turned

end Strata.Backend.Audit
