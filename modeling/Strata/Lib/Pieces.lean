import Mathlib.Tactic

/-! Cutting a list behind every mark, as `split_inclusive` does, keeping some of the pieces, and
joining pieces with a mark. -/

namespace Strata.Pieces

theorem of_mem_splitOnP {α : Type} {p : α → Bool} {list piece : List α}
    (member : piece ∈ list.splitOnP p) : ∀ c ∈ piece, c ∈ list ∧ p c = false := by
  induction list generalizing piece with
  | nil =>
      rw [List.splitOnP_nil, List.mem_singleton] at member
      rw [member]
      exact nofun
  | cons d list ih =>
      have later (inside : piece ∈ list.splitOnP p) : ∀ c ∈ piece, c ∈ d :: list ∧ p c = false :=
        fun c own => (ih inside c own).imp_left (List.mem_cons_of_mem d)
      rw [List.splitOnP_cons_eq_if_modifyHead] at member
      split_ifs at member with mark
      · rcases List.mem_cons.mp member with rfl | inside
        · exact nofun
        · exact later inside
      · obtain ⟨first, others, split⟩ :=
          List.exists_cons_of_ne_nil (List.splitOnP_ne_nil p list)
        rw [split] at member ih later
        rcases List.mem_cons.mp member with rfl | inside
        · refine List.forall_mem_cons.mpr ⟨⟨List.mem_cons_self, by simpa using mark⟩, ?_⟩
          exact fun c own => (ih List.mem_cons_self c own).imp_left (List.mem_cons_of_mem d)
        · exact later (List.mem_cons_of_mem _ inside)

variable {α : Type} [DecidableEq α]

def splitInclusive (mark : α) : List α → List (List α)
  | [] => []
  | c :: rest =>
      if c = mark then [c] :: splitInclusive mark rest
      else
        match splitInclusive mark rest with
        | [] => [[c]]
        | piece :: pieces => (c :: piece) :: pieces

theorem splitInclusive_of_notMem {mark : α} {text : List α} (filled : text ≠ [])
    (free : mark ∉ text) : splitInclusive mark text = [text] := by
  induction text with
  | nil => exact absurd rfl filled
  | cons c rest ih =>
      rw [List.mem_cons, not_or] at free
      rw [splitInclusive, if_neg (fun same => free.1 same.symm)]
      cases rest with
      | nil => rfl
      | cons d rest => rw [ih (List.cons_ne_nil d rest) free.2]

def Closed (mark : α) (piece : List α) : Prop := ∃ body, piece = body ++ [mark] ∧ mark ∉ body

theorem splitInclusive_closed {mark : α} {piece : List α} (closed : Closed mark piece)
    (back : List α) : splitInclusive mark (piece ++ back) = piece :: splitInclusive mark back := by
  obtain ⟨body, rfl, free⟩ := closed
  induction body with
  | nil => simp [splitInclusive]
  | cons c body ih =>
      rw [List.mem_cons, not_or] at free
      rw [List.cons_append, List.cons_append, splitInclusive, if_neg (fun same => free.1 same.symm),
        ih free.2]

theorem splitInclusive_flatten {mark : α} (pieces : List (List α))
    (closed : ∀ piece ∈ pieces, Closed mark piece) (back : List α) :
    splitInclusive mark (pieces.flatten ++ back) = pieces ++ splitInclusive mark back := by
  induction pieces with
  | nil => rfl
  | cons piece pieces ih =>
      rw [List.flatten_cons, List.append_assoc, splitInclusive_closed (closed piece (by simp)),
        ih (fun p member => closed p (by simp [member])), List.cons_append]

theorem flatten_injective {mark : α} {first second : List (List α)}
    (firstClosed : ∀ piece ∈ first, Closed mark piece)
    (secondClosed : ∀ piece ∈ second, Closed mark piece)
    (same : first.flatten = second.flatten) : first = second := by
  have left := splitInclusive_flatten first firstClosed []
  have right := splitInclusive_flatten second secondClosed []
  rw [same, right] at left
  simpa using left.symm

theorem exists_closed (mark : α) (text : List α) :
    ∃ piece pieces, (∀ p ∈ piece :: pieces, Closed mark p) ∧
      text ++ [mark] = (piece :: pieces).flatten := by
  induction text with
  | nil => exact ⟨[mark], [], by simp [Closed], rfl⟩
  | cons c text ih =>
      obtain ⟨piece, pieces, closed, split⟩ := ih
      by_cases marked : c = mark
      · subst marked
        refine ⟨[c], piece :: pieces, ?_, by simp [split]⟩
        intro p member
        rcases List.mem_cons.mp member with rfl | later
        · exact ⟨[], rfl, List.not_mem_nil⟩
        · exact closed p later
      · refine ⟨c :: piece, pieces, ?_, by simp [split]⟩
        intro p member
        rcases List.mem_cons.mp member with rfl | later
        · obtain ⟨body, rfl, free⟩ := closed piece (by simp)
          refine ⟨c :: body, rfl, ?_⟩
          rw [List.mem_cons, not_or]
          exact ⟨fun same => marked same.symm, free⟩
        · exact closed p (by simp [later])

theorem splitInclusive_ended (mark : α) (text : List α) :
    (∀ piece ∈ splitInclusive mark (text ++ [mark]), Closed mark piece) ∧
      (splitInclusive mark (text ++ [mark])).flatten = text ++ [mark] := by
  obtain ⟨piece, pieces, closed, split⟩ := exists_closed mark text
  have cut := splitInclusive_flatten (piece :: pieces) closed []
  rw [List.append_nil, ← split, splitInclusive, List.append_nil] at cut
  rw [cut]
  exact ⟨closed, split.symm⟩

section Kept

variable {ι β : Type} (pieces : ι → List β) (keep : β → Bool) (good : ι → Bool)

theorem kept_length_le (items : List ι)
    (whole : ∀ item ∈ items, good item = true → ∀ piece ∈ pieces item, keep piece = true) :
    ((items.filter good).flatMap pieces).length ≤
      ((items.flatMap pieces).filter keep).length := by
  induction items with
  | nil => exact le_rfl
  | cons item items ih =>
      have tail := ih (fun i member => whole i (by simp [member]))
      rw [List.flatMap_cons, List.filter_append, List.length_append]
      by_cases kept : good item = true
      · rw [List.filter_cons_of_pos kept, List.flatMap_cons, List.length_append,
          List.filter_eq_self.mpr (whole item (by simp) kept)]
        omega
      · rw [List.filter_cons_of_neg kept]
        omega

theorem filter_flatMap_iff (items : List ι) :
    (items.flatMap pieces).filter keep = (items.filter good).flatMap pieces ↔
      ∀ item ∈ items, ∀ piece ∈ pieces item, keep piece = good item := by
  constructor
  · intro same
    have whole : ∀ item ∈ items, good item = true → ∀ piece ∈ pieces item, keep piece = true := by
      intro item member kept piece inside
      have present : piece ∈ (items.filter good).flatMap pieces :=
        List.mem_flatMap.mpr ⟨item, List.mem_filter.mpr ⟨member, kept⟩, inside⟩
      rw [← same] at present
      exact (List.mem_filter.mp present).2
    induction items with
    | nil => simp
    | cons item items ih =>
        have tailWhole := fun i (member : i ∈ items) => whole i (by simp [member])
        rw [List.flatMap_cons, List.filter_append] at same
        intro i member piece inside
        by_cases kept : good item = true
        · have all := whole item (by simp) kept
          rw [List.filter_cons_of_pos kept, List.flatMap_cons, List.filter_eq_self.mpr all] at same
          rcases List.mem_cons.mp member with rfl | later
          · rw [all piece inside, kept]
          · exact ih (List.append_cancel_left same) tailWhole i later piece inside
        · rw [List.filter_cons_of_neg kept] at same
          have sizes := congrArg List.length same
          rw [List.length_append] at sizes
          have bound := kept_length_le pieces keep good items tailWhole
          have none : (pieces item).filter keep = [] := List.eq_nil_of_length_eq_zero (by omega)
          rw [none, List.nil_append] at same
          rcases List.mem_cons.mp member with rfl | later
          · have dropped := List.filter_eq_nil_iff.mp none piece inside
            rw [Bool.not_eq_true] at dropped kept
            rw [dropped, kept]
          · exact ih same tailWhole i later piece inside
  · intro judged
    induction items with
    | nil => rfl
    | cons item items ih =>
        have head := judged item (by simp)
        rw [List.flatMap_cons, List.filter_append, ih (fun i member => judged i (by simp [member]))]
        by_cases kept : good item = true
        · rw [List.filter_cons_of_pos kept, List.flatMap_cons,
            List.filter_eq_self.mpr (fun piece inside => by rw [head piece inside, kept])]
        · rw [List.filter_cons_of_neg kept,
            List.filter_eq_nil_iff.mpr (fun piece inside => by rw [head piece inside]; exact kept),
            List.nil_append]

end Kept

omit [DecidableEq α] in
theorem intercalate_cons_eq (mark : α) (first : List α) (more : List (List α)) :
    [mark].intercalate (first :: more) = first ++ more.flatMap (mark :: ·) := by
  induction more generalizing first with
  | nil => simp
  | cons next more ih => simp [List.intercalate_cons_cons, ih]

omit [DecidableEq α] in
theorem notMem_intercalate {mark other : α} (apart : mark ≠ other)
    {pieces : List (List α)} (absent : ∀ piece ∈ pieces, mark ∉ piece) :
    mark ∉ [other].intercalate pieces := by
  cases pieces with
  | nil => exact List.not_mem_nil
  | cons first more =>
      rw [List.forall_mem_cons] at absent
      rw [intercalate_cons_eq, List.mem_append, List.mem_flatMap, not_or]
      refine ⟨absent.1, ?_⟩
      rintro ⟨piece, member, inside⟩
      exact (List.mem_cons.mp inside).elim apart (absent.2 piece member)

end Strata.Pieces
