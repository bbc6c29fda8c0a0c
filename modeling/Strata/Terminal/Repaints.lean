import Mathlib.Tactic
import Strata.Terminal.Painting

/-! What a flush repaints: the rectangles it considers, and the whole grid after a resize, but
for a grid whose cells are, in a row, those of the grid before. -/

namespace Strata.Terminal

open Machine (run)

variable {τ ς : Type} {em : Emulator τ ς}

namespace Renderer

variable {renderer : Renderer τ}

/-- The rectangles of `take_damage` lie in the grid, one below the other, and cover every damaged
cell, every row the selection moved over and both cells of a cursor that moved. -/
theorem takeDamage_rectangles (reported : renderer.Reported em) :
    (∀ rect ∈ (renderer.takeDamage em).2, rect.Inside renderer.cols renderer.rows) ∧
      (renderer.takeDamage em).2.Pairwise Rect.Above ∧
      ∀ row < renderer.rows, ∀ col < renderer.cols,
        Damaged em renderer.term row col ∨ row ∈ renderer.selectionDamage ∨
            renderer.CursorMoved em row col →
          ∃ rect ∈ (renderer.takeDamage em).2, rect.Covers col row := by
  refine ⟨takeDamage_inside reported, ?_, ?_⟩
  · rw [takeDamage]
    split
    · exact List.pairwise_singleton _ _
    · split
      · exact List.pairwise_singleton _ _
      · exact mergeLines_ordered _ _
  · intro row rowLt col colLt dirty
    apply takeDamage_covers rowLt colLt
    rcases dirty with damaged | queued | moved
    · exact .inr (.inl (.inl damaged))
    · exact .inr (.inl (.inr queued))
    · exact .inr (.inr moved)

def sampleDamage : Renderer Screen where
  term := ⟨4, 3, fun _ _ => ' ', 1, 2, none, false, [⟨0, 1, 2⟩]⟩
  palette := .default
  cell := ⟨10, 10⟩
  cols := 4
  rows := 3
  cols_pos := by decide
  rows_pos := by decide
  lastCursor := some (3, 0)
  lastSnapshot := []
  forceFull := false
  selectionRows := none
  selectionDamage := [2, 7]

theorem takeDamage_rectangles_sample :
    sampleDamage.Reported Screen.emulator ∧
      (sampleDamage.takeDamage Screen.emulator).2.Pairwise Rect.Above := by
  have reported : sampleDamage.Reported Screen.emulator := by
    constructor
    · intro bounds found
      cases found
      decide
    · intro _ pos found
      cases found
      decide
  exact ⟨reported, (takeDamage_rectangles reported).2.1⟩

/-! ### The whole grid -/

theorem full_inside : renderer.full.Inside renderer.cols renderer.rows := by
  dsimp only [full, Rect.Inside]
  omega

theorem rectUnchanged_lastSnapshot
    (length : renderer.lastSnapshot.length = renderer.cols * renderer.rows) :
    renderer.rectUnchanged renderer.lastSnapshot renderer.full = some true := by
  have each : ∀ row ∈ List.range' renderer.full.row renderer.full.rows,
      ((renderer.rowSlice renderer.lastSnapshot renderer.full row).bind fun now =>
        (renderer.rowSlice renderer.lastSnapshot renderer.full row).map fun before =>
          now == before) = some true := by
    intro row member
    rw [rowSlice_eq full_inside length member]
    simp
  rw [rectUnchanged, if_neg (not_not.mpr rfl), RustVec.allM_eq_some each]
  simp

theorem rectUnchanged_full {cells : List CellSnapshot}
    (length : cells.length = renderer.cols * renderer.rows) :
    renderer.rectUnchanged cells renderer.full = some (decide (cells = renderer.lastSnapshot)) := by
  obtain ⟨unchanged, compared, same⟩ := rectUnchanged_eq full_inside length
  rw [compared, Option.some.injEq]
  cases unchanged with
  | true =>
      have cell : ∀ row < renderer.rows, ∀ col < renderer.cols,
          renderer.SameCell cells row col := by
        intro row rowLt col colLt
        exact same rfl row col (full_covers rowLt colLt)
      have lengths := (cell 0 renderer.rows_pos 0 renderer.cols_pos).1
      apply (decide_eq_true _).symm
      apply RustVec.grid_ext length (lengths.trans length)
      intro row rowLt col colLt
      exact (cell row rowLt col colLt).2.symm
  | false =>
      apply (decide_eq_false _).symm
      rintro rfl
      rw [rectUnchanged_lastSnapshot length] at compared
      cases compared

def Repaints (updates : List ImageUpdate) (renderer : Renderer τ) : Prop :=
  ∀ row < renderer.rows, ∀ col < renderer.cols, ∃ update ∈ updates, update.rect.Covers col row

instance (updates : List ImageUpdate) : Decidable (Repaints updates renderer) := by
  unfold Repaints
  infer_instance

theorem not_repaints_nil : ¬ Repaints [] renderer := by
  intro repaints
  obtain ⟨update, member, -⟩ := repaints 0 renderer.rows_pos 0 renderer.cols_pos
  cases member

theorem flush_forced (keeps : ∀ term, em.content (em.resetDamage term) = em.content term)
    (forced : renderer.forceFull = true) :
    ∃ next updates, renderer.flush em = some (next, updates) ∧
      (Repaints updates renderer ↔ renderer.snapshot em ≠ renderer.lastSnapshot) := by
  have rects : (renderer.takeDamage em).2 = [renderer.full] := by
    rw [takeDamage, if_pos forced]
  have cells : (renderer.takeDamage em).1.snapshot em = renderer.snapshot em :=
    taken_snapshot keeps
  have compared : (renderer.takeDamage em).1.rectUnchanged (renderer.snapshot em) renderer.full =
      some (decide (renderer.snapshot em = renderer.lastSnapshot)) := by
    rw [takeDamage_fst]
    exact rectUnchanged_full length_snapshot
  obtain ⟨update, drawn, rect⟩ : ∃ update,
      (renderer.takeDamage em).1.render (renderer.snapshot em) renderer.full = some update ∧
        update.rect = renderer.full := by
    rw [takeDamage_fst]
    exact ⟨_, render_eq full_inside length_snapshot, rfl⟩
  rw [flush]
  simp only [rects, cells, List.cons_ne_nil, if_false, List.mapM_cons, List.mapM_nil, repaint,
    compared, Option.bind_some]
  by_cases same : renderer.snapshot em = renderer.lastSnapshot
  · rw [decide_eq_true same, if_pos rfl]
    refine ⟨_, [], rfl, ?_⟩
    exact iff_of_false not_repaints_nil (not_not.mpr same)
  · rw [decide_eq_false same, if_neg Bool.false_ne_true, drawn]
    refine ⟨_, [update], rfl, ?_⟩
    refine iff_of_true ?_ same
    intro row rowLt col colLt
    refine ⟨update, List.mem_singleton_self _, ?_⟩
    rw [rect]
    exact full_covers rowLt colLt

end Renderer

namespace World

variable {world : World τ}

def atFlush (em : Emulator τ ς) (renderer : Renderer τ) : Op → Renderer τ
  | .advance bytes => { renderer with term := em.advance renderer.term bytes }
  | _ => renderer

theorem step_quiet {op : Op} (silent : ¬ op.Flushes) (running : world.panicked = false)
    (forced : world.renderer.forceFull = true) :
    (step em world op).1.panicked = false ∧ (step em world op).1.renderer.forceFull = true := by
  simp only [step, running, Bool.false_eq_true, if_false]
  cases op with
  | advance bytes => exact absurd trivial silent
  | flush => exact absurd trivial silent
  | scroll lines => exact ⟨rfl, forced⟩
  | scrollToBottom =>
      refine ⟨rfl, ?_⟩
      dsimp only [Renderer.scrollToBottom]
      split
      · exact forced
      · exact forced
  | startSelection ty x y => exact ⟨rfl, forced⟩
  | extendSelection x y =>
      refine ⟨rfl, ?_⟩
      dsimp only [Renderer.extendSelection]
      split
      · exact forced
      · exact forced
  | clearSelection =>
      refine ⟨rfl, ?_⟩
      dsimp only [Renderer.clearSelection]
      split
      · exact forced
      · exact forced
  | resize cols rows =>
      refine ⟨rfl, ?_⟩
      dsimp only [Renderer.resize]
      split
      · exact forced
      · rfl

theorem run_quiet {quiet : List Op} (silent : ∀ op ∈ quiet, ¬ op.Flushes)
    (running : world.panicked = false) (forced : world.renderer.forceFull = true) :
    (run (step em) world quiet).1.panicked = false ∧
      (run (step em) world quiet).1.renderer.forceFull = true := by
  induction quiet generalizing world with
  | nil => exact ⟨running, forced⟩
  | cons op quiet ih =>
      have after : (step em world op).1.panicked = false ∧
          (step em world op).1.renderer.forceFull = true :=
        step_quiet (silent op List.mem_cons_self) running forced
      exact ih (fun other member => silent other (List.mem_cons_of_mem _ member)) after.1 after.2

theorem step_flush (keeps : ∀ term, em.content (em.resetDamage term) = em.content term)
    (running : world.panicked = false) (forced : world.renderer.forceFull = true) {last : Op}
    (flushes : last.Flushes) :
    Renderer.Repaints (step em world last).2 world.renderer ↔
      (atFlush em world.renderer last).snapshot em ≠ world.renderer.lastSnapshot := by
  simp only [step, running, Bool.false_eq_true, if_false]
  cases last with
  | advance bytes =>
      have fed : (atFlush em world.renderer (.advance bytes)).forceFull = true := forced
      obtain ⟨next, updates, flushed, repaints⟩ := Renderer.flush_forced keeps fed
      change Renderer.Repaints
        (world.flushed ((atFlush em world.renderer (.advance bytes)).flush em)).2 _ ↔ _
      rw [flushed]
      exact repaints
  | flush =>
      obtain ⟨next, updates, flushed, repaints⟩ := Renderer.flush_forced keeps forced
      rw [flushed]
      exact repaints
  | scroll | scrollToBottom | startSelection | extendSelection | clearSelection | resize =>
      exact flushes.elim

/-- After a resize, the flush repaints the grid exactly if its cells, row by row, are not the
list of cells painted last. -/
theorem resize_repaints_iff (keeps : ∀ term, em.content (em.resetDamage term) = em.content term)
    (running : world.panicked = false) (cols rows : Nat)
    (changes : (max cols 1, max rows 1) ≠ (world.renderer.cols, world.renderer.rows))
    (quiet : List Op) (silent : ∀ op ∈ quiet, ¬ op.Flushes) (last : Op) (flushes : last.Flushes)
    (resized : World τ) (reached : (run (step em) world (.resize cols rows :: quiet)).1 = resized) :
    Renderer.Repaints (step em resized last).2 resized.renderer ↔
      (atFlush em resized.renderer last).snapshot em ≠ resized.renderer.lastSnapshot := by
  have forces : (step em world (.resize cols rows)).1.panicked = false ∧
      (step em world (.resize cols rows)).1.renderer.forceFull = true := by
    simp only [step, running, Bool.false_eq_true, if_false]
    rw [Renderer.resize, if_neg changes]
    exact ⟨trivial, rfl⟩
  rw [← reached]
  have ready : (run (step em) (step em world (.resize cols rows)).1 quiet).1.panicked = false ∧
      (run (step em) (step em world (.resize cols rows)).1 quiet).1.renderer.forceFull = true :=
    run_quiet silent forces.1 forces.2
  exact step_flush keeps ready.1 ready.2 flushes

def blankScreen : World Screen :=
  (run (step Screen.emulator) (World.new Screen.emulator .default ⟨10, 10⟩ 3 2) [.flush]).1

theorem resize_repaints_wider :
    Renderer.Repaints
      (step Screen.emulator (run (step Screen.emulator) blankScreen [.resize 4 2]).1 .flush).2
      (run (step Screen.emulator) blankScreen [.resize 4 2]).1.renderer :=
  (resize_repaints_iff (fun _ => rfl) (by decide +kernel) 4 2 (by decide +kernel) []
    (List.forall_mem_nil _) .flush trivial _ rfl).mpr (by decide +kernel)

/-- Two columns and three lines have as many cells, and they are the same in a row. -/
theorem resize_repaints_nothing :
    blankScreen.panicked = false ∧ (2, 3) ≠ (blankScreen.renderer.cols, blankScreen.renderer.rows) ∧
      ¬ Renderer.Repaints
        (step Screen.emulator (run (step Screen.emulator) blankScreen [.resize 2 3]).1 .flush).2
        (run (step Screen.emulator) blankScreen [.resize 2 3]).1.renderer := by
  decide +kernel

end World

end Strata.Terminal
