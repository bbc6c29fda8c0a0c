import Mathlib.Tactic
import Strata.Terminal.Renderer

/-! Where a snapshot shows a point of the emulator's grid, and its length. -/

namespace Strata.Terminal

variable {τ ς : Type} (em : Emulator τ ς)

def Content.InView (content : Content) (row col : Nat) (point : Point) : Prop :=
  point.line + content.displayOffset = row ∧ point.column = col

namespace Renderer

variable {em} {renderer : Renderer τ}

theorem viewport_eq_some {content : Content} {point : Point} {pos : Nat × Nat} :
    renderer.viewport content point = some pos ↔
      content.InView pos.2 pos.1 point ∧ pos.2 < renderer.rows ∧ pos.1 < renderer.cols := by
  obtain ⟨col, row⟩ := pos
  rw [viewport, Content.InView]
  split
  · simp only [reduceCtorEq, false_iff]
    omega
  · simp only [Option.some.injEq, Prod.mk.injEq]
    omega

theorem cursorPosition_inside {pos : Nat × Nat} (found : renderer.cursorPosition em = some pos) :
    pos.1 < renderer.cols ∧ pos.2 < renderer.rows := by
  rw [cursorPosition] at found
  split at found
  · cases found
  · obtain ⟨_, row, col⟩ := viewport_eq_some.mp found
    exact ⟨col, row⟩

variable {content : Content}

@[simp]
theorem length_placeCell (cells : List CellSnapshot) (indexed : Point × Cell) :
    (renderer.placeCell em content cells indexed).length = cells.length := by
  rw [placeCell]
  split
  · exact List.length_set
  · rfl

@[simp]
theorem length_foldl_placeCell (items : List (Point × Cell)) (cells : List CellSnapshot) :
    (items.foldl (renderer.placeCell em content) cells).length = cells.length := by
  induction items generalizing cells with
  | nil => rfl
  | cons indexed items ih => rw [List.foldl_cons, ih, length_placeCell]

theorem length_gridCells : (renderer.gridCells em).length = renderer.cols * renderer.rows := by
  rw [gridCells, length_foldl_placeCell, List.length_replicate]

theorem length_snapshot : (renderer.snapshot em).length = renderer.cols * renderer.rows := by
  rw [snapshot]
  split
  · rw [List.length_modify, length_gridCells]
  · exact length_gridCells

end Renderer

end Strata.Terminal
