import Mathlib.Tactic

/-! Rows linked by digests: each row names the digest of the row before it. Where a digest
determines its row, the digest of the last row determines all rows before it. -/

namespace Strata.HashChain

variable {ρ δ : Type} (previous current : ρ → δ)

/-- Every row names the digest before it, the first one `expected`. -/
def Linked : δ → List ρ → Prop
  | _, [] => True
  | expected, row :: rows => previous row = expected ∧ Linked (current row) rows

def head : δ → List ρ → δ
  | expected, [] => expected
  | _, row :: rows => head (current row) rows

variable {previous current}

theorem head_append (expected : δ) (front back : List ρ) :
    head current expected (front ++ back) = head current (head current expected front) back := by
  induction front generalizing expected with
  | nil => rfl
  | cons row front ih => exact ih (current row)

theorem head_concat (expected : δ) (rows : List ρ) (row : ρ) :
    head current expected (rows ++ [row]) = current row := head_append expected rows [row]

theorem head_eq (expected : δ) (rows : List ρ) :
    head current expected rows = (rows.getLast?.map current).getD expected := by
  rcases List.eq_nil_or_concat' rows with rfl | ⟨front, row, rfl⟩
  · rfl
  · rw [head_concat, List.getLast?_concat]
    rfl

theorem linked_append {expected : δ} {front back : List ρ} :
    Linked previous current expected (front ++ back) ↔
      Linked previous current expected front ∧
        Linked previous current (head current expected front) back := by
  induction front generalizing expected with
  | nil => simp [Linked, head]
  | cons row front ih => simp only [List.cons_append, Linked, head, ih, and_assoc]

theorem linked_concat {expected : δ} {rows : List ρ} {row : ρ} :
    Linked previous current expected (rows ++ [row]) ↔
      Linked previous current expected rows ∧ previous row = head current expected rows := by
  rw [linked_append, Linked, Linked, and_true]

theorem suffix_of_same_head {first second : List ρ} {expected other : δ}
    (unique : ∀ x ∈ first, ∀ y ∈ second, current x = current y → x = y)
    (linked : Linked previous current expected first)
    (linked' : Linked previous current other second)
    (same : head current expected first = head current other second) :
    first <:+ second ∨ second <:+ first := by
  induction first using List.reverseRecOn generalizing second with
  | nil => exact Or.inl List.nil_suffix
  | append_singleton front row ih =>
      rcases List.eq_nil_or_concat' second with rfl | ⟨back, last, rfl⟩
      · exact Or.inr List.nil_suffix
      rw [head_concat, head_concat] at same
      obtain rfl := unique row (by simp) last (by simp) same
      rw [linked_concat] at linked linked'
      have shorter := ih
        (fun x member y present =>
          unique x (List.mem_append_left _ member) y (List.mem_append_left _ present))
        linked.1 linked'.1 (linked.2.symm.trans linked'.2)
      rcases shorter with ⟨more, rfl⟩ | ⟨more, rfl⟩
      · exact Or.inl ⟨more, (List.append_assoc ..).symm⟩
      · exact Or.inr ⟨more, (List.append_assoc ..).symm⟩

end Strata.HashChain
