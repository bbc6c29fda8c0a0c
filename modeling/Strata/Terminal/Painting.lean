import Mathlib.Tactic
import Strata.Lib.Machine
import Strata.Terminal.Flush
import Strata.Terminal.Screen

/-! The rectangles a flush takes from the emulator's damage, the cursor and the selection, and a
renderer under the operations of a session. -/

namespace Strata.Terminal

open Utf8 (Bytes)

variable {τ ς : Type}

def Damaged (em : Emulator τ ς) (term : τ) (row col : Nat) : Prop :=
  match em.damage term with
  | .full => True
  | .lines bounds => ∃ bound ∈ bounds, bound.line = row ∧ bound.left ≤ col ∧ col ≤ bound.right

namespace Renderer

def Dirty (em : Emulator τ ς) (renderer : Renderer τ) (row col : Nat) : Prop :=
  Damaged em renderer.term row col ∨ row ∈ renderer.selectionDamage

variable {em : Emulator τ ς} {renderer : Renderer τ}

/-! ### The rectangles of a flush -/

theorem full_covers {row col : Nat} (rowLt : row < renderer.rows) (colLt : col < renderer.cols) :
    renderer.full.Covers col row := by
  dsimp only [full, Rect.Covers]
  omega

theorem takeDamage_fst :
    (renderer.takeDamage em).1 =
      { renderer with
        term := em.resetDamage renderer.term
        lastCursor := renderer.cursorPosition em
        selectionDamage := []
        forceFull := false } := by
  rw [takeDamage]
  split
  · rfl
  · split <;> rfl

def CursorMoved (em : Emulator τ ς) (renderer : Renderer τ) (row col : Nat) : Prop :=
  renderer.cursorPosition em ≠ renderer.lastCursor ∧
    (renderer.cursorPosition em = some (col, row) ∨ renderer.lastCursor = some (col, row))

theorem damagedLines_covers {bounds : List LineDamageBounds} {row col : Nat}
    (reported : em.damage renderer.term = .lines bounds) (rowLt : row < renderer.rows)
    (colLt : col < renderer.cols)
    (dirty : renderer.Dirty em row col ∨ renderer.CursorMoved em row col) :
    ∃ line ∈ renderer.damagedLines em bounds, Reaches renderer.cols line col row := by
  simp only [damagedLines, List.mem_append]
  rcases dirty with (damaged | queued) | ⟨moved, here⟩
  · rw [Damaged, reported] at damaged
    obtain ⟨bound, member, rfl, left, right⟩ := damaged
    refine ⟨(bound.line, bound.left, bound.right),
      .inl (.inl (List.mem_map.mpr ⟨bound, ?_, rfl⟩)), ?_⟩
    · exact List.mem_filter.mpr ⟨member, decide_eq_true rowLt⟩
    · exact ⟨rfl, left, Nat.le_min.mpr ⟨right, by omega⟩⟩
  · refine ⟨(row, 0, renderer.cols - 1), .inr (List.mem_map.mpr ⟨row, ?_, rfl⟩), ?_⟩
    · exact List.mem_filter.mpr ⟨queued, decide_eq_true rowLt⟩
    · exact ⟨rfl, Nat.zero_le _, by dsimp only; omega⟩
  · refine ⟨(row, col, col), .inl (.inr ?_), rfl, Nat.le_refl _, by dsimp only; omega⟩
    rw [if_neg moved]
    refine List.mem_map.mpr ⟨(col, row), List.mem_filterMap.mpr ⟨some (col, row), ?_, rfl⟩, rfl⟩
    rcases here with here | here <;> simp [here]

theorem takeDamage_covers {row col : Nat} (rowLt : row < renderer.rows)
    (colLt : col < renderer.cols)
    (dirty : renderer.forceFull = true ∨ renderer.Dirty em row col ∨
      renderer.CursorMoved em row col) :
    ∃ rect ∈ (renderer.takeDamage em).2, rect.Covers col row := by
  rw [takeDamage]
  split
  · exact ⟨_, List.mem_singleton_self _, full_covers rowLt colLt⟩
  · rename_i kept
    split
    · exact ⟨_, List.mem_singleton_self _, full_covers rowLt colLt⟩
    · rename_i bounds reported
      obtain ⟨line, member, reaches⟩ :=
        damagedLines_covers reported rowLt colLt (dirty.resolve_left kept)
      exact mergeLines_covers member reaches

/-- The damaged lines that the emulator reports and the cursor of the last flush lie in the
grid. -/
structure Reported (em : Emulator τ ς) (renderer : Renderer τ) : Prop where
  lines : ∀ bounds, em.damage renderer.term = .lines bounds →
    ∀ bound ∈ bounds, bound.left ≤ bound.right ∧ bound.right < renderer.cols
  cursor : renderer.forceFull = false → ∀ pos, renderer.lastCursor = some pos →
    pos.1 < renderer.cols ∧ pos.2 < renderer.rows

theorem damagedLines_inside (reported : renderer.Reported em)
    (kept : renderer.forceFull = false) {bounds : List LineDamageBounds}
    (found : em.damage renderer.term = .lines bounds) :
    ∀ line ∈ renderer.damagedLines em bounds,
      line.1 < renderer.rows ∧ line.2.1 ≤ line.2.2 ∧ line.2.2 < renderer.cols := by
  intro line member
  simp only [damagedLines, List.mem_append, List.mem_map, List.mem_filter, decide_eq_true_eq]
    at member
  rcases member with (⟨bound, ⟨member, rowLt⟩, rfl⟩ | cursor) | ⟨row, ⟨_, rowLt⟩, rfl⟩
  · exact ⟨rowLt, reported.lines bounds found bound member⟩
  · rw [List.mem_ite_nil_left, List.mem_map] at cursor
    obtain ⟨_, ⟨col, row⟩, found, rfl⟩ := cursor
    have inside : col < renderer.cols ∧ row < renderer.rows := by
      simp only [List.mem_filterMap, List.mem_cons, List.not_mem_nil, or_false, id] at found
      obtain ⟨_, rfl | rfl, found⟩ := found
      · exact cursorPosition_inside found
      · exact reported.cursor kept _ found
    exact ⟨inside.2, Nat.le_refl _, inside.1⟩
  · exact ⟨rowLt, Nat.zero_le _, Nat.sub_one_lt (Nat.pos_iff_ne_zero.mp renderer.cols_pos)⟩

theorem takeDamage_inside (reported : renderer.Reported em) :
    ∀ rect ∈ (renderer.takeDamage em).2, rect.Inside renderer.cols renderer.rows := by
  have full : renderer.full.Inside renderer.cols renderer.rows := by
    dsimp only [Renderer.full, Rect.Inside]
    omega
  rw [takeDamage]
  split
  · intro rect member
    rwa [List.mem_singleton.mp member]
  · rename_i kept
    split
    · intro rect member
      rwa [List.mem_singleton.mp member]
    · rename_i bounds found
      exact mergeLines_inside (damagedLines_inside reported (Bool.eq_false_iff.mpr kept) found)

theorem taken_snapshot (keeps : ∀ term, em.content (em.resetDamage term) = em.content term) :
    (renderer.takeDamage em).1.snapshot em = renderer.snapshot em := by
  rw [takeDamage_fst, snapshot, snapshot, gridCells, gridCells, cursorPosition, cursorPosition,
    keeps]
  rfl

end Renderer

/-! ### Runs -/

inductive Op where
  | advance (bytes : Bytes)
  | scroll (lines : Int)
  | scrollToBottom
  | startSelection (ty : SelectionType) (x y : Int)
  | extendSelection (x y : Int)
  | clearSelection
  | resize (cols rows : Nat)
  | flush
  deriving DecidableEq, Repr

def Op.Flushes : Op → Prop
  | .advance _ | .flush => True
  | _ => False

/-- A renderer, the shape of the grid at its last flush, and whether an operation panicked. -/
structure World (τ : Type) where
  renderer : Renderer τ
  shape : Option (Nat × Nat)
  panicked : Bool

namespace World

variable (em : Emulator τ ς)

def new (palette : Palette) (cell : CellMetrics) (cols rows : Nat) : World τ :=
  ⟨Renderer.new em palette cell cols rows, none, false⟩

def flushed (world : World τ) : Option (Renderer τ × List ImageUpdate) → World τ × List ImageUpdate
  | some (renderer, updates) => (⟨renderer, some (renderer.cols, renderer.rows), false⟩, updates)
  | none => ({ world with panicked := true }, [])

def step (world : World τ) (op : Op) : World τ × List ImageUpdate :=
  if world.panicked then (world, [])
  else
    match op with
    | .advance bytes => world.flushed (world.renderer.advance em bytes)
    | .flush => world.flushed (world.renderer.flush em)
    | .scroll lines => ({ world with renderer := world.renderer.scroll em lines }, [])
    | .scrollToBottom => ({ world with renderer := (world.renderer.scrollToBottom em).1 }, [])
    | .startSelection ty x y =>
        ({ world with renderer := world.renderer.startSelection em ty x y }, [])
    | .extendSelection x y => ({ world with renderer := world.renderer.extendSelection em x y }, [])
    | .clearSelection => ({ world with renderer := world.renderer.clearSelection em }, [])
    | .resize cols rows => ({ world with renderer := world.renderer.resize em cols rows }, [])

end World

end Strata.Terminal
