import Mathlib.Tactic
import Strata.Terminal.Renderer

/-! The rectangles of `take_damage`: they lie in the grid, one below the other, and cover every
damaged cell, both cursor cells and every row the selection moved over. -/

namespace Strata.Terminal

def Rect.Covers (rect : Rect) (col row : Nat) : Prop :=
  rect.row ≤ row ∧ row < rect.row + rect.rows ∧ rect.col ≤ col ∧ col < rect.col + rect.cols

def Rect.Inside (cols rows : Nat) (rect : Rect) : Prop :=
  rect.row + rect.rows ≤ rows ∧ rect.col + rect.cols ≤ cols

def Rect.Above (upper lower : Rect) : Prop :=
  upper.row < lower.row ∧ upper.row + upper.rows ≤ lower.row

namespace Renderer

instance : Std.Total LineLE := ⟨fun one other => by unfold LineLE; omega⟩

instance : IsTrans (Nat × Nat × Nat) LineLE :=
  ⟨fun one other third first second => by unfold LineLE at *; omega⟩

def Reaches (cols : Nat) (line : Nat × Nat × Nat) (col row : Nat) : Prop :=
  line.1 = row ∧ line.2.1 ≤ col ∧ col ≤ min line.2.2 (cols - 1)

def EndsBy (rects : List Rect) (line : Nat) : Prop :=
  ∀ last ∈ rects.head?, last.row ≤ line ∧ last.row + last.rows ≤ line + 1

section AddLine

variable {cols : Nat} {rects : List Rect} {line : Nat × Nat × Nat}

theorem addLine_endsBy (ends : EndsBy rects line.1) :
    EndsBy (addLine cols rects line) line.1 := by
  obtain ⟨row, left, right⟩ := line
  cases rects with
  | nil =>
      intro last head
      cases head
      exact ⟨Nat.le_refl _, Nat.le_refl _⟩
  | cons newest done =>
      have bound := ends newest rfl
      intro last head
      rw [addLine] at head
      split at head
      · cases head
        dsimp only at bound ⊢
        omega
      · cases head
        exact ⟨Nat.le_refl _, Nat.le_refl _⟩

theorem addLine_covers {col row : Nat} (ends : EndsBy rects line.1)
    (damaged : (∃ rect ∈ rects, rect.Covers col row) ∨ Reaches cols line col row) :
    ∃ rect ∈ addLine cols rects line, rect.Covers col row := by
  obtain ⟨at_, left, right⟩ := line
  cases rects with
  | nil =>
      rcases damaged with ⟨rect, member, _⟩ | ⟨rfl, after, before⟩
      · cases member
      · refine ⟨_, List.mem_singleton_self _, ?_⟩
        dsimp only [Rect.Covers] at after before ⊢
        omega
  | cons newest done =>
      have bound := ends newest rfl
      rw [addLine]
      split
      · rename_i touches
        rcases damaged with ⟨rect, member, covers⟩ | ⟨rfl, after, before⟩
        · rcases List.mem_cons.mp member with rfl | member
          · refine ⟨_, List.mem_cons_self, ?_⟩
            dsimp only [Rect.Covers] at covers bound ⊢
            omega
          · exact ⟨rect, List.mem_cons_of_mem _ member, covers⟩
        · refine ⟨_, List.mem_cons_self, ?_⟩
          dsimp only [Rect.Covers] at after before bound ⊢
          omega
      · rcases damaged with ⟨rect, member, covers⟩ | ⟨rfl, after, before⟩
        · exact ⟨rect, List.mem_cons_of_mem _ member, covers⟩
        · refine ⟨_, List.mem_cons_self, ?_⟩
          dsimp only [Rect.Covers] at after before ⊢
          omega

theorem addLine_inside {rows : Nat} (inside : ∀ rect ∈ rects, rect.Inside cols rows)
    (row : line.1 < rows) (ordered : line.2.1 ≤ line.2.2) (col : line.2.2 < cols) :
    ∀ rect ∈ addLine cols rects line, rect.Inside cols rows := by
  obtain ⟨at_, left, right⟩ := line
  dsimp only at row ordered col
  intro rect member
  cases rects with
  | nil =>
      rw [List.mem_singleton.mp member]
      dsimp only [Rect.Inside]
      omega
  | cons newest done =>
      obtain ⟨newestRows, newestCols⟩ := inside newest List.mem_cons_self
      rw [addLine] at member
      split at member
      · rename_i touches
        rcases List.mem_cons.mp member with rfl | member
        · dsimp only [Rect.Inside] at newestRows newestCols ⊢
          omega
        · exact inside rect (List.mem_cons_of_mem _ member)
      · rcases List.mem_cons.mp member with rfl | member
        · dsimp only [Rect.Inside]
          omega
        · exact inside rect member

theorem addLine_ordered (ends : EndsBy rects line.1)
    (ordered : rects.Pairwise fun newer older => older.Above newer) :
    (addLine cols rects line).Pairwise fun newer older => older.Above newer := by
  obtain ⟨at_, left, right⟩ := line
  cases rects with
  | nil => exact List.pairwise_singleton _ _
  | cons newest done =>
      have bound := ends newest rfl
      have above := List.pairwise_cons.mp ordered
      rw [addLine]
      split
      · exact List.pairwise_cons.mpr above
      · rename_i apart
        refine List.pairwise_cons.mpr ⟨fun older member => ?_, ordered⟩
        dsimp only [Rect.Above] at bound ⊢
        rcases List.mem_cons.mp member with rfl | member
        · omega
        · have higher := above.1 older member
          unfold Rect.Above at higher
          omega

theorem addLine_endsBy_next {lines : List (Nat × Nat × Nat)} (ends : EndsBy rects line.1)
    (sorted : ∀ next ∈ lines, LineLE line next) :
    ∀ next ∈ lines, EndsBy (addLine cols rects line) next.1 := by
  intro next member last head
  have newEnd := addLine_endsBy ends last head
  have order := sorted next member
  unfold LineLE at order
  omega

end AddLine

theorem foldl_addLine_ordered {cols : Nat} {lines : List (Nat × Nat × Nat)} {rects : List Rect}
    (sorted : lines.Pairwise LineLE) (ends : ∀ line ∈ lines, EndsBy rects line.1)
    (ordered : rects.Pairwise fun newer older => older.Above newer) :
    (lines.foldl (addLine cols) rects).Pairwise fun newer older => older.Above newer := by
  induction lines generalizing rects with
  | nil => exact ordered
  | cons line lines ih =>
      have first := ends line List.mem_cons_self
      have later := List.pairwise_cons.mp sorted
      exact ih later.2 (addLine_endsBy_next first later.1) (addLine_ordered first ordered)

theorem foldl_addLine_covers {cols col row : Nat} {lines : List (Nat × Nat × Nat)}
    {rects : List Rect} (sorted : lines.Pairwise LineLE)
    (ends : ∀ line ∈ lines, EndsBy rects line.1)
    (damaged : (∃ rect ∈ rects, rect.Covers col row) ∨ ∃ line ∈ lines, Reaches cols line col row) :
    ∃ rect ∈ lines.foldl (addLine cols) rects, rect.Covers col row := by
  induction lines generalizing rects with
  | nil =>
      rcases damaged with covered | ⟨line, member, _⟩
      · exact covered
      · cases member
  | cons line lines ih =>
      obtain ⟨before, sorted⟩ := List.pairwise_cons.mp sorted
      refine ih sorted (addLine_endsBy_next (ends line List.mem_cons_self) before) ?_
      rcases damaged with covered | ⟨which, member, reaches⟩
      · exact .inl (addLine_covers (ends line List.mem_cons_self) (.inl covered))
      · rcases List.mem_cons.mp member with rfl | member
        · exact .inl (addLine_covers (ends which List.mem_cons_self) (.inr reaches))
        · exact .inr ⟨which, member, reaches⟩

theorem foldl_addLine_inside {cols rows : Nat} {lines : List (Nat × Nat × Nat)}
    {rects : List Rect}
    (bounds : ∀ line ∈ lines, line.1 < rows ∧ line.2.1 ≤ line.2.2 ∧ line.2.2 < cols)
    (inside : ∀ rect ∈ rects, rect.Inside cols rows) :
    ∀ rect ∈ lines.foldl (addLine cols) rects, rect.Inside cols rows := by
  induction lines generalizing rects with
  | nil => exact inside
  | cons line lines ih =>
      obtain ⟨row, ordered, col⟩ := bounds line List.mem_cons_self
      exact ih (fun next member => bounds next (List.mem_cons_of_mem _ member))
        (addLine_inside inside row ordered col)

theorem mergeLines_covers {cols col row : Nat} {lines : List (Nat × Nat × Nat)}
    {line : Nat × Nat × Nat} (member : line ∈ lines) (reaches : Reaches cols line col row) :
    ∃ rect ∈ mergeLines cols lines, rect.Covers col row := by
  simp only [mergeLines, List.mem_reverse]
  refine foldl_addLine_covers (List.pairwise_insertionSort LineLE lines) ?_
    (.inr ⟨line, ?_, reaches⟩)
  · intro next _ last head
    cases head
  · exact (List.mem_insertionSort LineLE).mpr member

theorem mergeLines_ordered (cols : Nat) (lines : List (Nat × Nat × Nat)) :
    (mergeLines cols lines).Pairwise Rect.Above := by
  rw [mergeLines, List.pairwise_reverse]
  refine foldl_addLine_ordered (List.pairwise_insertionSort LineLE lines) ?_ .nil
  intro next _ last head
  cases head

theorem mergeLines_inside {cols rows : Nat} {lines : List (Nat × Nat × Nat)}
    (bounds : ∀ line ∈ lines, line.1 < rows ∧ line.2.1 ≤ line.2.2 ∧ line.2.2 < cols) :
    ∀ rect ∈ mergeLines cols lines, rect.Inside cols rows := by
  simp only [mergeLines, List.mem_reverse]
  refine foldl_addLine_inside (fun line member => bounds line ?_) (fun _ member => nomatch member)
  exact (List.mem_insertionSort LineLE).mp member

end Renderer

end Strata.Terminal
