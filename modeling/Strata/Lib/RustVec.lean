import Mathlib.Tactic

/-! Slices of vectors, which panic out of range, and traversals that may panic. -/

namespace Strata.RustVec

variable {α β : Type}

def slice (items : List α) (start length : Nat) : Option (List α) :=
  if start + length ≤ items.length then some ((items.drop start).take length) else none

theorem slice_of_le {items : List α} {start length : Nat} (le : start + length ≤ items.length) :
    slice items start length = some ((items.drop start).take length) := if_pos le

theorem slice_getElem? (items : List α) (start : Nat) {length index : Nat} (lt : index < length) :
    ((items.drop start).take length)[index]? = items[start + index]? := by
  rw [List.getElem?_take_of_lt lt, List.getElem?_drop]

def chunksFor (size : Nat) : Nat → List α → List (List α)
  | 0, _ => []
  | _ + 1, [] => []
  | fuel + 1, item :: items =>
      (item :: items).take size :: chunksFor size fuel ((item :: items).drop size)

def chunks (size : Nat) (items : List α) : List (List α) := chunksFor size items.length items

/-- `vec[start..stop]`, which also panics where the bounds cross. -/
def range (items : List α) (start stop : Nat) : Option (List α) :=
  if start ≤ stop ∧ stop ≤ items.length then some ((items.drop start).take (stop - start)) else none

theorem range_of_le {items : List α} {start stop : Nat} (ordered : start ≤ stop)
    (inside : stop ≤ items.length) :
    range items start stop = some ((items.drop start).take (stop - start)) :=
  if_pos ⟨ordered, inside⟩

theorem range_of_lt (items : List α) {start stop : Nat} (crossed : stop < start) :
    range items start stop = none := if_neg fun both => absurd both.1 (by omega)

/-- `windows(mark.len()).position(|window| window == mark)`. -/
def position [BEq α] (mark : List α) : List α → Option Nat
  | [] => if mark.isEmpty then some 0 else none
  | item :: rest =>
      if mark.isPrefixOf (item :: rest) then some 0 else (position mark rest).map (· + 1)

section Position

variable [BEq α] [LawfulBEq α] {mark : List α}

theorem position_of_starts {items : List α} (starts : mark <+: items) :
    position mark items = some 0 := by
  cases items with
  | nil =>
      rw [List.prefix_nil.mp starts]
      rfl
  | cons item rest => rw [position, if_pos (List.isPrefixOf_iff_prefix.mpr starts)]

theorem position_cons_of_not {item : α} {rest : List α} (starts : ¬ mark <+: item :: rest) :
    position mark (item :: rest) = (position mark rest).map (· + 1) := by
  rw [position, if_neg (mt List.isPrefixOf_iff_prefix.mp starts)]

theorem position_length {items : List α} {index : Nat}
    (found : position mark items = some index) : index + mark.length ≤ items.length := by
  induction items generalizing index with
  | nil =>
      rw [position, Option.ite_none_right_eq_some, List.isEmpty_iff] at found
      simp [found.1, ← Option.some.inj found.2]
  | cons item rest ih =>
      by_cases starts : mark <+: item :: rest
      · rw [position_of_starts starts] at found
        rw [← Option.some.inj found, Nat.zero_add]
        exact starts.length_le
      · rw [position_cons_of_not starts] at found
        obtain ⟨index, later, rfl⟩ := Option.map_eq_some_iff.mp found
        have short := ih later
        rw [List.length_cons]
        omega

theorem position_append_iff {front : List α} (back : List α) (index : Nat) :
    position mark front = some index ↔
      position mark (front ++ back) = some index ∧ index + mark.length ≤ front.length := by
  induction front generalizing index with
  | nil =>
      rw [position, Option.ite_none_right_eq_some, List.isEmpty_iff, List.nil_append]
      constructor
      · intro found
        rw [found.1, ← Option.some.inj found.2]
        exact ⟨position_of_starts List.nil_prefix, le_rfl⟩
      · intro found
        have none_left : index + mark.length ≤ 0 := found.2
        have empty : mark = [] := List.length_eq_zero_iff.mp (by omega)
        exact ⟨empty, congrArg some (by omega)⟩
  | cons item rest ih =>
      by_cases fits : mark.length ≤ (item :: rest).length
      case neg =>
        constructor
        · intro found
          have short := position_length found
          omega
        · intro found
          omega
      by_cases starts : mark <+: item :: rest
      · have longer : mark <+: item :: rest ++ back := starts.trans (List.prefix_append _ back)
        rw [position_of_starts starts, position_of_starts longer]
        constructor
        · intro found
          refine ⟨found, ?_⟩
          rw [← Option.some.inj found]
          omega
        · exact fun found => found.1
      · have longer : ¬ mark <+: item :: (rest ++ back) := fun there =>
          starts (List.prefix_of_prefix_length_le there (List.prefix_append _ back) fits)
        rw [List.cons_append, position_cons_of_not starts, position_cons_of_not longer,
          Option.map_eq_some_iff, Option.map_eq_some_iff, List.length_cons]
        constructor
        · intro found
          obtain ⟨index, later, rfl⟩ := found
          obtain ⟨later, short⟩ := (ih index).mp later
          exact ⟨⟨index, later, rfl⟩, by omega⟩
        · intro found
          obtain ⟨⟨index, later, rfl⟩, short⟩ := found
          exact ⟨index, (ih index).mpr ⟨later, by omega⟩, rfl⟩

end Position

theorem allM_eq_some {test : α → Option Bool} {result : α → Bool} {items : List α}
    (each : ∀ item ∈ items, test item = some (result item)) :
    items.allM test = some (items.all result) := by
  induction items with
  | nil => rfl
  | cons item items ih =>
      rw [List.allM, each item List.mem_cons_self, List.all_cons]
      cases result item with
      | true => exact ih fun other member => each other (List.mem_cons_of_mem _ member)
      | false => rfl

theorem mapM_eq_some {each : α → Option β} {result : α → β} {items : List α}
    (maps : ∀ item ∈ items, each item = some (result item)) :
    items.mapM each = some (items.map result) := by
  induction items with
  | nil => rfl
  | cons item items ih =>
      rw [List.mapM_cons, maps item List.mem_cons_self,
        ih fun other member => maps other (List.mem_cons_of_mem _ member)]
      rfl

section Fold

variable {σ : Type} {turn : σ → α → Option σ} (kept : σ → Prop) {items : List α} {start : σ}

theorem foldlM_returns (begins : kept start)
    (each : ∀ state, ∀ item ∈ items, kept state → ∃ next, turn state item = some next ∧ kept next) :
    ∃ last, items.foldlM turn start = some last ∧ kept last := by
  induction items generalizing start with
  | nil => exact ⟨start, rfl, begins⟩
  | cons item items ih =>
      obtain ⟨next, turned, holds⟩ := each start item List.mem_cons_self begins
      rw [List.foldlM_cons, turned]
      exact ih holds fun state other member => each state other (List.mem_cons_of_mem _ member)

theorem foldlM_keeps (begins : kept start)
    (each : ∀ state item next, turn state item = some next → kept state → kept next) {last : σ}
    (folded : items.foldlM turn start = some last) : kept last := by
  induction items generalizing start with
  | nil => exact Option.some.inj folded ▸ begins
  | cons item items ih =>
      rw [List.foldlM_cons] at folded
      obtain ⟨next, turned, rest⟩ := Option.bind_eq_some_iff.mp folded
      exact ih (each start item next turned begins) rest

theorem foldlM_range {turn : σ → Nat → Option σ} (reached : Nat → σ → Prop) {count : Nat}
    (begins : reached 0 start)
    (each : ∀ state, ∀ index < count, reached index state →
      ∃ next, turn state index = some next ∧ reached (index + 1) next) :
    ∃ last, (List.range count).foldlM turn start = some last ∧ reached count last := by
  induction count with
  | zero => exact ⟨start, rfl, begins⟩
  | succ count ih =>
      obtain ⟨state, folded, holds⟩ :=
        ih fun state index below => each state index (Nat.lt_succ_of_lt below)
      obtain ⟨next, turned, further⟩ := each state count (Nat.lt_succ_self count) holds
      refine ⟨next, ?_, further⟩
      rw [List.range_succ, List.foldlM_append, folded, Option.bind_eq_bind, Option.bind_some,
        List.foldlM_cons, turned]
      rfl

end Fold

theorem grid_ext {cols rows : Nat} {grid other : List α} (length : grid.length = cols * rows)
    (otherLength : other.length = cols * rows)
    (cells : ∀ row < rows, ∀ col < cols, grid[row * cols + col]? = other[row * cols + col]?) :
    grid = other := by
  refine List.ext_getElem? fun index => ?_
  by_cases inside : index < cols * rows
  · have colsPos : 0 < cols := Nat.pos_of_mul_pos_right (Nat.zero_lt_of_lt inside)
    have row : index / cols < rows := Nat.div_lt_of_lt_mul inside
    have split : index / cols * cols + index % cols = index := Nat.div_add_mod' index cols
    have cell := cells (index / cols) row (index % cols) (Nat.mod_lt index colsPos)
    rwa [split] at cell
  · rw [List.getElem?_eq_none (by omega), List.getElem?_eq_none (by omega)]

end Strata.RustVec
