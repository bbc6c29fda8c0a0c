import Mathlib.Tactic
import Strata.Terminal.Damage
import Strata.Terminal.Snapshot

/-! What a flush paints on the client, cell by cell. -/

namespace Strata.Terminal

instance (rect : Rect) (col row : Nat) : Decidable (rect.Covers col row) := instDecidableAnd

namespace Renderer

variable {τ ς : Type} {em : Emulator τ ς} {renderer : Renderer τ} {cells : List CellSnapshot}
  {rect : Rect}

section Inside

variable (inside : rect.Inside renderer.cols renderer.rows)
  (length : cells.length = renderer.cols * renderer.rows)
include inside length

def rowOf (renderer : Renderer τ) (cells : List CellSnapshot) (rect : Rect) (row : Nat) :
    List CellSnapshot :=
  (cells.drop (row * renderer.cols + rect.col)).take rect.cols

omit inside length in
theorem rowOf_getElem? {row col : Nat} (covers : rect.Covers col row) :
    (renderer.rowOf cells rect row)[col - rect.col]? = cells[row * renderer.cols + col]? := by
  obtain ⟨_, _, colFrom, colTo⟩ := covers
  rw [rowOf, RustVec.slice_getElem? _ _ (by omega)]
  congr 1
  omega

theorem rowSlice_le {row : Nat} (rowLt : row < rect.row + rect.rows) :
    row * renderer.cols + rect.col + rect.cols ≤ cells.length := by
  obtain ⟨rowsLe, colsLe⟩ := inside
  calc
    row * renderer.cols + rect.col + rect.cols ≤ row * renderer.cols + renderer.cols := by omega
    _ = renderer.cols * (row + 1) := by ring
    _ ≤ renderer.cols * renderer.rows := Nat.mul_le_mul_left _ (by omega)
    _ = cells.length := length.symm

theorem rowSlice_eq {row : Nat} (member : row ∈ List.range' rect.row rect.rows) :
    renderer.rowSlice cells rect row = some (renderer.rowOf cells rect row) := by
  rw [List.mem_range'_1] at member
  exact RustVec.slice_of_le (rowSlice_le inside length member.2)

theorem render_eq :
    renderer.render cells rect =
      some ⟨rect, ((List.range' rect.row rect.rows).map (renderer.rowOf cells rect)).flatten⟩ := by
  rw [render, RustVec.mapM_eq_some fun row member => rowSlice_eq inside length member]
  rfl

def SameCell (renderer : Renderer τ) (cells : List CellSnapshot) (row col : Nat) : Prop :=
  renderer.lastSnapshot.length = cells.length ∧
    renderer.lastSnapshot[row * renderer.cols + col]? = cells[row * renderer.cols + col]?

theorem rectUnchanged_eq :
    ∃ unchanged, renderer.rectUnchanged cells rect = some unchanged ∧
      (unchanged = true → ∀ row col, rect.Covers col row → renderer.SameCell cells row col) := by
  rw [rectUnchanged]
  by_cases same : renderer.lastSnapshot.length = cells.length
  · have lastLength := same.trans length
    rw [if_neg (not_not.mpr same), RustVec.allM_eq_some fun row member => by
      rw [rowSlice_eq inside length member, rowSlice_eq inside lastLength member, Option.bind_some,
        Option.map_some]]
    refine ⟨_, rfl, fun unchanged row col covers => ⟨same, ?_⟩⟩
    have member : row ∈ List.range' rect.row rect.rows :=
      List.mem_range'_1.mpr ⟨covers.1, covers.2.1⟩
    have rows := beq_iff_eq.mp (List.all_eq_true.mp unchanged row member)
    rw [← rowOf_getElem? covers, ← rows, rowOf_getElem? covers]
  · rw [if_pos same]
    exact ⟨false, rfl, fun impossible => nomatch impossible⟩

end Inside

end Renderer

end Strata.Terminal
