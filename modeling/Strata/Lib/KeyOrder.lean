import Mathlib.Tactic

/-! Rows in the strict order of their keys, and the parts of them below and above a bound. -/

namespace Strata.KeyOrder

variable {ρ κ : Type} [LinearOrder κ] (key : ρ → κ)

def Ordered (rows : List ρ) : Prop := rows.Pairwise fun first second => key first < key second

def after (bound : κ) (rows : List ρ) : List ρ := rows.filter fun row => decide (bound < key row)

def upTo (bound : κ) (rows : List ρ) : List ρ := rows.filter fun row => decide (key row ≤ bound)

variable {key} {bound : κ} {rows front back : List ρ} {row : ρ}

theorem mem_after : row ∈ after key bound rows ↔ row ∈ rows ∧ bound < key row := by
  rw [after, List.mem_filter, decide_eq_true_iff]

theorem mem_upTo : row ∈ upTo key bound rows ↔ row ∈ rows ∧ key row ≤ bound := by
  rw [upTo, List.mem_filter, decide_eq_true_iff]

theorem after_eq_self (above : ∀ row ∈ rows, bound < key row) : after key bound rows = rows :=
  List.filter_eq_self.mpr fun row member => decide_eq_true (above row member)

theorem after_eq_nil (below : ∀ row ∈ rows, key row ≤ bound) : after key bound rows = [] :=
  List.filter_eq_nil_iff.mpr fun row member =>
    Bool.not_eq_true _ ▸ decide_eq_false (not_lt.mpr (below row member))

theorem upTo_eq_nil (above : ∀ row ∈ rows, bound < key row) : upTo key bound rows = [] :=
  List.filter_eq_nil_iff.mpr fun row member =>
    Bool.not_eq_true _ ▸ decide_eq_false (not_le.mpr (above row member))

theorem Ordered.upTo_append_after (ordered : Ordered key rows) (bound : κ) :
    upTo key bound rows ++ after key bound rows = rows := by
  induction rows with
  | nil => rfl
  | cons first rows ih =>
      have ⟨below, later⟩ := List.pairwise_cons.mp ordered
      by_cases low : key first ≤ bound
      · have kept : upTo key bound (first :: rows) = first :: upTo key bound rows :=
          List.filter_cons_of_pos (decide_eq_true low)
        have dropped : after key bound (first :: rows) = after key bound rows :=
          List.filter_cons_of_neg (by simpa using low)
        rw [kept, dropped, List.cons_append, ih later]
      · have above : ∀ row ∈ first :: rows, bound < key row := by
          rw [List.forall_mem_cons]
          exact ⟨not_le.mp low, fun row member => (not_le.mp low).trans (below row member)⟩
        rw [upTo_eq_nil above, after_eq_self above, List.nil_append]

theorem Ordered.after_row (ordered : Ordered key (front ++ row :: back)) :
    after key (key row) (front ++ row :: back) = back := by
  have ⟨_, middle, cross⟩ := List.pairwise_append.mp ordered
  have ⟨above, _⟩ := List.pairwise_cons.mp middle
  have low : ∀ other ∈ front ++ [row], key other ≤ key row := by
    intro other member
    rcases List.mem_append.mp member with before | same
    · exact (cross other before row (List.mem_cons_self ..)).le
    · rw [List.mem_singleton.mp same]
  rw [List.append_cons, after, List.filter_append]
  exact (congrArg₂ _ (after_eq_nil low) (after_eq_self above)).trans (List.nil_append back)

theorem Ordered.upTo_row (ordered : Ordered key (front ++ row :: back)) :
    upTo key (key row) (front ++ row :: back) = front ++ [row] := by
  have whole := ordered.upTo_append_after (key row)
  rw [ordered.after_row, List.append_cons] at whole
  rw [List.append_cons]
  exact List.append_cancel_right whole

theorem Ordered.sublist (ordered : Ordered key rows) (part : front.Sublist rows) :
    Ordered key front := List.Pairwise.sublist part ordered

theorem Ordered.after (ordered : Ordered key rows) (bound : κ) :
    Ordered key (after key bound rows) := ordered.sublist List.filter_sublist

theorem Ordered.upTo (ordered : Ordered key rows) (bound : κ) :
    Ordered key (upTo key bound rows) := ordered.sublist List.filter_sublist

theorem Ordered.eq_concat (ordered : Ordered key rows) (member : row ∈ rows)
    (greatest : ∀ other ∈ rows, key other ≤ key row) : ∃ front, rows = front ++ [row] := by
  obtain ⟨front, back, rfl⟩ := List.append_of_mem member
  have ⟨_, middle, _⟩ := List.pairwise_append.mp ordered
  cases back with
  | nil => exact ⟨front, rfl⟩
  | cons next back =>
      have above := (List.pairwise_cons.mp middle).1 next (List.mem_cons_self ..)
      exact absurd (greatest next (by simp)) (not_le.mpr above)

/-! ### Sorting -/

def byKey (key : ρ → κ) (rows : List ρ) : List ρ :=
  rows.insertionSort fun first second => key first ≤ key second

theorem mem_byKey : row ∈ byKey key rows ↔ row ∈ rows :=
  List.mem_insertionSort _

theorem Ordered.byKey_eq (ordered : Ordered key rows) : byKey key rows = rows :=
  List.Pairwise.insertionSort_eq (ordered.imp le_of_lt)

theorem byKey_ordered (distinct : (rows.map key).Nodup) : Ordered key (byKey key rows) := by
  have sorted : (byKey key rows).Pairwise fun first second => key first ≤ key second :=
    List.pairwise_insertionSort _ rows
  have apart : (byKey key rows).Pairwise fun first second => key first ≠ key second := by
    have perm := (List.perm_insertionSort (fun first second => key first ≤ key second) rows).map key
    exact List.pairwise_map.mp (perm.nodup_iff.mpr distinct)
  exact sorted.imp₂ (fun _ _ le ne => lt_of_le_of_ne le ne) apart

theorem byKey_upTo (distinct : (rows.map key).Nodup) (bound : κ) :
    byKey key (upTo key bound rows) = upTo key bound (byKey key rows) := by
  have fewer : ((upTo key bound rows).map key).Nodup :=
    distinct.sublist (List.filter_sublist.map key)
  refine List.Perm.eq_of_pairwise (fun _ _ _ _ less more => absurd more less.asymm)
    (byKey_ordered fewer) ((byKey_ordered distinct).upTo bound) ?_
  exact (List.perm_insertionSort _ _).trans ((List.perm_insertionSort _ _).filter _).symm

theorem Ordered.after_batch (ordered : Ordered key rows) {size : Nat} {last : ρ}
    (batch : ((KeyOrder.after key bound rows).take size).getLast? = some last) :
    KeyOrder.after key (key last) rows = (KeyOrder.after key bound rows).drop size := by
  obtain ⟨front, taken⟩ := List.getLast?_eq_some_iff.mp batch
  have split : rows = (KeyOrder.upTo key bound rows ++ front) ++
      last :: (KeyOrder.after key bound rows).drop size := by
    calc
      rows = KeyOrder.upTo key bound rows ++ KeyOrder.after key bound rows :=
        (ordered.upTo_append_after bound).symm
      _ = KeyOrder.upTo key bound rows ++ ((KeyOrder.after key bound rows).take size ++
            (KeyOrder.after key bound rows).drop size) := by rw [List.take_append_drop]
      _ = _ := by rw [taken, List.append_assoc, List.append_assoc, List.singleton_append]
  nth_rewrite 1 [split]
  rw [split] at ordered
  exact ordered.after_row

/-! ### The first match of a stable sort -/

/-- `sort_by_key(Reverse(key))`, which keeps the order of equal keys. -/
def byKeyDesc (key : ρ → κ) (rows : List ρ) : List ρ :=
  rows.insertionSort fun first second => key second ≤ key first

/-- The earliest of the matching rows with the greatest key. -/
inductive Greatest (key : ρ → κ) (matching : ρ → Bool) (rows : List ρ) : Option ρ → Prop
  | none (unmatched : ∀ row ∈ rows, matching row = false) : Greatest key matching rows none
  | some (front back : List ρ) (row : ρ) (split : rows = front ++ row :: back)
      (matched : matching row = true)
      (before : ∀ other ∈ front, matching other = true → key other < key row)
      (after : ∀ other ∈ back, matching other = true → key other ≤ key row) :
      Greatest key matching rows (some row)

theorem find?_orderedInsert (matching : ρ → Bool) (row : ρ) {rows : List ρ}
    (sorted : rows.Pairwise fun first second => key second ≤ key first) :
    (rows.orderedInsert (fun first second => key second ≤ key first) row).find? matching =
      match rows.find? matching with
      | none => if matching row then some row else none
      | some best => if matching row ∧ key best ≤ key row then some row else some best := by
  induction rows with
  | nil => cases matched : matching row <;> simp [matched]
  | cons first rows ih =>
      obtain ⟨below, sorted⟩ := List.pairwise_cons.mp sorted
      rw [List.orderedInsert_cons]
      by_cases fits : key first ≤ key row
      · have least : ∀ best ∈ (first :: rows).find? matching, key best ≤ key row := by
          intro best found
          rcases List.mem_cons.mp (List.mem_of_find?_eq_some found) with rfl | later
          · exact fits
          · exact (below best later).trans fits
        rw [if_pos fits]
        cases found : (first :: rows).find? matching with
        | none => cases matched : matching row <;> simp [matched, found]
        | some best =>
            have less := least best found
            cases matched : matching row <;> simp [matched, found, less]
      · rw [if_neg fits, List.find?_cons, ih sorted, List.find?_cons]
        cases matching first with
        | false => rfl
        | true => simp [fits]

theorem greatest_byKeyDesc (key : ρ → κ) (matching : ρ → Bool) (rows : List ρ) :
    Greatest key matching rows ((byKeyDesc key rows).find? matching) := by
  induction rows with
  | nil => exact .none nofun
  | cons row rows ih =>
      have sorted : (byKeyDesc key rows).Pairwise fun first second => key second ≤ key first :=
        haveI : Std.Total fun first second : ρ => key second ≤ key first :=
          ⟨fun first second => le_total (key second) (key first)⟩
        haveI : IsTrans ρ fun first second => key second ≤ key first :=
          ⟨fun _ _ _ first second => second.trans first⟩
        List.pairwise_insertionSort _ rows
      have inserted := find?_orderedInsert matching row sorted
      change Greatest key matching (row :: rows)
        (((byKeyDesc key rows).orderedInsert _ row).find? matching)
      rw [inserted]
      generalize (byKeyDesc key rows).find? matching = found at ih
      cases ih with
      | none unmatched =>
          dsimp only
          split_ifs with matched
          · exact .some [] rows row rfl matched nofun
              fun other member hit => absurd (unmatched other member) (by rw [hit]; nofun)
          · exact .none (List.forall_mem_cons.mpr ⟨Bool.not_eq_true _ ▸ matched, unmatched⟩)
      | some front back best split matched before after =>
          dsimp only
          split_ifs with better
          · refine .some [] rows row rfl better.1 nofun fun other member hit => ?_
            subst split
            rcases List.mem_append.mp member with early | late
            · exact (before other early hit).le.trans better.2
            · rcases List.mem_cons.mp late with rfl | late
              · exact better.2
              · exact (after other late hit).trans better.2
          · refine .some (row :: front) back best (by rw [split]; rfl) matched ?_ after
            refine List.forall_mem_cons.mpr ⟨fun hit => ?_, before⟩
            exact not_le.mp fun less => better ⟨hit, less⟩

end Strata.KeyOrder
