import Mathlib.Tactic

/-! Blocks of a fixed size, as a reader with one block of look-ahead sees them: every block but
the last is full, and the last one may be short. Nothing at all is one empty block. -/

namespace Strata.Blocks

variable {α : Type}

def blocksFor (size : Nat) : Nat → List α → List (List α)
  | 0, items => [items]
  | fuel + 1, items =>
      if items.drop size = [] then [items]
      else items.take size :: blocksFor size fuel (items.drop size)

def blocks (size : Nat) (items : List α) : List (List α) := blocksFor size items.length items

theorem blocksFor_enough {size : Nat} (positive : 0 < size) (fuel more : Nat) (items : List α)
    (enough : items.length ≤ fuel) :
    blocksFor size (fuel + more) items = blocksFor size fuel items := by
  induction fuel generalizing items with
  | zero =>
      have empty := List.eq_nil_of_length_eq_zero (Nat.le_zero.mp enough)
      cases more with
      | zero => rfl
      | succ more => simp [blocksFor, empty]
  | succ fuel ih =>
      rw [Nat.add_right_comm, blocksFor, blocksFor]
      split
      · rfl
      · rename_i more
        have long := List.length_pos_iff.mpr more
        rw [ih]
        rw [List.length_drop] at long ⊢
        omega

theorem blocks_eq {size : Nat} (positive : 0 < size) (items : List α) :
    blocks size items =
      if items.drop size = [] then [items]
      else items.take size :: blocks size (items.drop size) := by
  cases items with
  | nil => simp [blocks, blocksFor]
  | cons item items =>
      have shorter : ((item :: items).drop size).length ≤ items.length := by
        rw [List.length_drop, List.length_cons]
        omega
      obtain ⟨more, total⟩ := Nat.exists_eq_add_of_le shorter
      have enough := blocksFor_enough positive _ more ((item :: items).drop size) le_rfl
      rw [← total] at enough
      rw [blocks, List.length_cons, blocksFor, enough]
      rfl

/-- The next block and what is left after it, fetched only behind a full block. -/
def lookAhead (size : Nat) (block rest : List α) : List α × List α :=
  if block.length = size then (rest.take size, rest.drop size) else ([], rest)

theorem lookAhead_blocks (size : Nat) (items : List α) :
    lookAhead size (items.take size) (items.drop size) =
      ((items.drop size).take size, (items.drop size).drop size) := by
  rw [lookAhead]
  split
  · rfl
  · rename_i short
    have done : items.drop size = [] := by
      rw [List.length_take] at short
      exact List.drop_eq_nil_iff.mpr (by omega)
    rw [done, List.take_nil, List.drop_nil]

theorem lookAhead_shorter {size : Nat} (positive : 0 < size) {block rest : List α}
    (more : (lookAhead size block rest).1 ≠ []) :
    (lookAhead size block rest).1.length + (lookAhead size block rest).2.length <
      block.length + rest.length := by
  rw [lookAhead] at more ⊢
  split
  · rename_i full
    rw [List.length_take, List.length_drop]
    omega
  · rename_i short
    rw [if_neg short] at more
    exact absurd rfl more

theorem take_eq_nil_iff {size : Nat} (positive : 0 < size) {items : List α} :
    items.take size = [] ↔ items = [] := by
  rw [List.take_eq_nil_iff]
  exact or_iff_right positive.ne'

theorem blocks_induction {size : Nat} (positive : 0 < size)
    (P : List α → List (List α) → Prop)
    (last : ∀ items, items.drop size = [] → P items [items])
    (next : ∀ items, items.drop size ≠ [] →
      P (items.drop size) (blocks size (items.drop size)) →
      P items (items.take size :: blocks size (items.drop size)))
    (items : List α) : P items (blocks size items) := by
  induction length : items.length using Nat.strong_induction_on generalizing items with
  | _ bound ih =>
      rw [blocks_eq positive]
      split
      · exact last items ‹_›
      · rename_i more
        have long := List.length_pos_iff.mpr more
        apply next items more
        apply ih _ _ _ rfl
        rw [List.length_drop] at long ⊢
        omega

theorem blocks_ne_nil (size : Nat) (items : List α) : blocks size items ≠ [] := by
  rw [blocks]
  cases items with
  | nil => exact List.cons_ne_nil _ _
  | cons item items =>
      rw [List.length_cons, blocksFor]
      split <;> exact List.cons_ne_nil _ _

theorem blocks_flatten {size : Nat} (positive : 0 < size) (items : List α) :
    (blocks size items).flatten = items := by
  apply blocks_induction positive fun items list => list.flatten = items
  · intro items _
    exact List.flatten_singleton
  · intro items _ ih
    rw [List.flatten_cons, ih, List.take_append_drop]

theorem blocks_length_le_iff {size : Nat} (positive : 0 < size) (items : List α) {count : Nat}
    (enough : 0 < count) :
    (blocks size items).length ≤ count ↔ items.length ≤ count * size := by
  revert count
  apply blocks_induction positive fun items list => ∀ {count : Nat}, 0 < count →
    (list.length ≤ count ↔ items.length ≤ count * size)
  · intro items done count enough
    have short := List.drop_eq_nil_iff.mp done
    have room := Nat.le_mul_of_pos_left size enough
    rw [List.length_singleton]
    omega
  · intro items more ih count enough
    have long := List.length_pos_iff.mpr more
    obtain ⟨fewer, rfl⟩ := Nat.exists_eq_succ_of_ne_zero enough.ne'
    have later := List.length_pos_iff.mpr (blocks_ne_nil size (items.drop size))
    rw [List.length_drop] at long
    rw [List.length_cons, Nat.succ_le_succ_iff, Nat.succ_mul]
    rcases Nat.eq_zero_or_pos fewer with rfl | some
    · omega
    · rw [ih some, List.length_drop]
      omega

def Blocked (size : Nat) : List (List α) → Prop
  | [] => False
  | [last] => last.length ≤ size
  | first :: second :: rest =>
      first.length = size ∧ second ≠ [] ∧ Blocked size (second :: rest)

theorem blocked_blocks {size : Nat} (positive : 0 < size) (items : List α) :
    Blocked size (blocks size items) := by
  have shape : Blocked size (blocks size items) ∧
      (items ≠ [] → ∃ first rest, blocks size items = first :: rest ∧ first ≠ []) := by
    apply blocks_induction positive fun items list => Blocked size list ∧
      (items ≠ [] → ∃ first rest, list = first :: rest ∧ first ≠ [])
    · intro items done
      exact ⟨List.drop_eq_nil_iff.mp done, fun filled => ⟨items, [], rfl, filled⟩⟩
    · intro items more ih
      obtain ⟨first, rest, split, full⟩ := ih.2 more
      have long : size < items.length := by
        rw [ne_eq, List.drop_eq_nil_iff] at more
        omega
      rw [split] at ih ⊢
      refine ⟨⟨List.length_take_of_le long.le, full, ih.1⟩, fun _ => ⟨_, _, rfl, ?_⟩⟩
      rw [ne_eq, ← List.length_eq_zero_iff, List.length_take_of_le long.le]
      omega
  exact shape.1

theorem blocks_of_blocked {size : Nat} (positive : 0 < size) {list : List (List α)}
    (blocked : Blocked size list) : blocks size list.flatten = list := by
  induction list with
  | nil => cases blocked
  | cons first rest ih =>
      rw [blocks_eq positive]
      cases rest with
      | nil =>
          have short : first.drop size = [] := List.drop_eq_nil_iff.mpr blocked
          simp [short]
      | cons second rest =>
          have ⟨full, filled, tail⟩ := blocked
          have dropped :
              (first :: second :: rest).flatten.drop size = (second :: rest).flatten := by
            rw [List.flatten_cons, ← full, List.drop_left]
          have taken : (first :: second :: rest).flatten.take size = first := by
            rw [List.flatten_cons, ← full, List.take_left]
          have left : (second :: rest).flatten ≠ [] := by
            rw [List.flatten_cons]
            exact fun empty => filled (List.append_eq_nil_iff.mp empty).1
          rw [dropped, taken, if_neg left, ih tail]

end Strata.Blocks
