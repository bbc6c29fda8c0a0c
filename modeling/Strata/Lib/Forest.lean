import Mathlib.Tactic

/-! Items that name their parents, walked down from those without one. Nothing is assumed of the
parents: items on a cycle, and all below them, are the ones no walk reaches. -/

namespace Strata.Forest

variable {α ι : Type} (children : Option ι → List α) (ident : α → ι)

/-- The items below `key` in depth-first order, each with its depth. -/
def preorderFor : Nat → Option ι → Nat → List (α × Nat)
  | 0, _, _ => []
  | fuel + 1, key, depth =>
      (children key).flatMap fun item =>
        (item, depth) :: preorderFor fuel (some (ident item)) (depth + 1)

/-- The children of every key are the items with that parent, each once. -/
structure Family (items : List α) (parent : α → Option ι) : Prop where
  member : ∀ key item, item ∈ children key ↔ item ∈ items ∧ parent item = key
  once : ∀ key, (children key).Nodup
  distinct : (items.map ident).Nodup

inductive HasDepth (items : List α) (parent : α → Option ι) : α → Nat → Prop
  | root {item : α} : item ∈ items → parent item = none → HasDepth items parent item 0
  | child {item above : α} {depth : Nat} : item ∈ items → parent item = some (ident above) →
      HasDepth items parent above depth → HasDepth items parent item (depth + 1)

def Rooted (items : List α) (parent : α → Option ι) (item : α) : Prop :=
  ∃ depth, HasDepth ident items parent item depth

def AtDepth (items : List α) (parent : α → Option ι) (key : Option ι) (depth : Nat) : Prop :=
  (key = none ∧ depth = 0) ∨
    ∃ above height, key = some (ident above) ∧ HasDepth ident items parent above height ∧
      depth = height + 1

inductive IsAbove (items : List α) (parent : α → Option ι) : α → α → Nat → Prop
  | here {item : α} : item ∈ items → IsAbove items parent item item 0
  | up {top item above : α} {height : Nat} : item ∈ items → parent item = some (ident above) →
      IsAbove items parent top above height → IsAbove items parent top item (height + 1)

/-- Whatever has a parent comes behind it, or its parent has been `seen`. -/
def ParentsFirst (parent : α → Option ι) (seen : List ι) : List α → Prop
  | [] => True
  | item :: rest =>
      (∀ above, parent item = some above → above ∈ seen) ∧
        ParentsFirst parent (ident item :: seen) rest

variable {children ident} {items : List α} {parent : α → Option ι}

theorem HasDepth.mem {item : α} {depth : Nat} (deep : HasDepth ident items parent item depth) :
    item ∈ items := by
  cases deep with
  | root inside _ => exact inside
  | child inside _ _ => exact inside

section Family

variable (family : Family children ident items parent)

include family

theorem Family.eq_of_ident {first second : α} (here : first ∈ items) (there : second ∈ items)
    (same : ident first = ident second) : first = second :=
  List.inj_on_of_nodup_map family.distinct here there same

theorem Family.depth_unique {item : α} {first : Nat}
    (deep : HasDepth ident items parent item first) :
    ∀ second, HasDepth ident items parent item second → first = second := by
  induction deep with
  | root inside none_above =>
      intro second other
      cases other with
      | root _ _ => rfl
      | child _ some_above _ =>
          rw [none_above] at some_above
          cases some_above
  | child inside some_above below ih =>
      intro second other
      cases other with
      | root _ none_above =>
          rw [none_above] at some_above
          cases some_above
      | child _ again other =>
          rw [some_above] at again
          have same := family.eq_of_ident below.mem other.mem (Option.some.inj again)
          rw [ih _ (same ▸ other)]

theorem Family.depth_lt {item : α} {depth : Nat} (deep : HasDepth ident items parent item depth) :
    depth < items.length := by
  have chain : ∃ above : List α, above.length = depth + 1 ∧ above.Nodup ∧
      ∀ other ∈ above, other ∈ items ∧
        ∃ height ≤ depth, HasDepth ident items parent other height := by
    induction deep with
    | root inside none_above =>
        exact ⟨[_], rfl, List.nodup_singleton _, fun other member =>
          List.mem_singleton.mp member ▸ ⟨inside, 0, le_rfl, .root inside none_above⟩⟩
    | @child item above depth inside some_above below ih =>
        obtain ⟨chain, length, nodup, each⟩ := ih
        have deep := HasDepth.child inside some_above below
        refine ⟨item :: chain, by rw [List.length_cons, length],
          List.nodup_cons.mpr ⟨?_, nodup⟩, ?_⟩
        · intro member
          obtain ⟨-, height, low, other⟩ := each item member
          have same := family.depth_unique deep _ other
          omega
        · intro other member
          rcases List.mem_cons.mp member with rfl | member
          · exact ⟨inside, depth + 1, le_rfl, deep⟩
          · obtain ⟨there, height, low, other⟩ := each other member
            exact ⟨there, height, by omega, other⟩
  obtain ⟨chain, length, nodup, each⟩ := chain
  have subset : chain ⊆ items := fun other member => (each other member).1
  have bound := (List.subperm_of_subset nodup subset).length_le
  omega

theorem Family.child_depth {key : Option ι} {depth : Nat}
    (at_depth : AtDepth ident items parent key depth) {item : α} (member : item ∈ children key) :
    HasDepth ident items parent item depth := by
  obtain ⟨inside, same⟩ := (family.member key item).mp member
  rcases at_depth with ⟨rfl, rfl⟩ | ⟨above, height, rfl, deep, rfl⟩
  · exact .root inside same
  · exact .child inside same deep

theorem Family.atDepth_child {key : Option ι} {depth : Nat}
    (at_depth : AtDepth ident items parent key depth) {item : α} (member : item ∈ children key) :
    AtDepth ident items parent (some (ident item)) (depth + 1) :=
  Or.inr ⟨item, depth, rfl, family.child_depth at_depth member, rfl⟩

theorem Family.depth_le {key : Option ι} {depth : Nat}
    (at_depth : AtDepth ident items parent key depth) : depth ≤ items.length := by
  rcases at_depth with ⟨-, rfl⟩ | ⟨above, height, -, deep, rfl⟩
  · exact Nat.zero_le _
  · exact family.depth_lt deep

/-- Once the fuel covers the depth that is left, more of it changes nothing: the walk ends. -/
theorem Family.preorder_stable (fuel : Nat) :
    ∀ (more : Nat) (key : Option ι) (depth : Nat), AtDepth ident items parent key depth →
      items.length < depth + fuel → fuel ≤ more →
      preorderFor children ident more key depth = preorderFor children ident fuel key depth := by
  induction fuel with
  | zero =>
      intro more key depth at_depth enough _
      have low := family.depth_le at_depth
      omega
  | succ fuel ih =>
      intro more key depth at_depth enough le
      cases more with
      | zero => omega
      | succ more =>
          rw [preorderFor, preorderFor]
          apply List.flatMap_congr
          intro item member
          rw [ih more _ _ (family.atDepth_child at_depth member) (by omega) (by omega)]

theorem Family.preorder_depth (fuel : Nat) :
    ∀ (key : Option ι) (depth : Nat), AtDepth ident items parent key depth →
      ∀ entry ∈ preorderFor children ident fuel key depth,
        HasDepth ident items parent entry.1 entry.2 ∧ depth ≤ entry.2 := by
  induction fuel with
  | zero => exact fun _ _ _ => List.forall_mem_nil _
  | succ fuel ih =>
      intro key depth at_depth entry member
      obtain ⟨item, child, inside⟩ := List.mem_flatMap.mp member
      rcases List.mem_cons.mp inside with rfl | below
      · exact ⟨family.child_depth at_depth child, le_rfl⟩
      · obtain ⟨deep, low⟩ := ih _ _ (family.atDepth_child at_depth child) entry below
        exact ⟨deep, by omega⟩

theorem Family.above_unique {first item : α} {height : Nat}
    (above : IsAbove ident items parent first item height) :
    ∀ second, IsAbove ident items parent second item height → first = second := by
  have bottom {top item : α} {height : Nat} (above : IsAbove ident items parent top item height) :
      item ∈ items := by
    cases above with
    | here inside => exact inside
    | up inside _ _ => exact inside
  induction above with
  | here inside =>
      intro second other
      cases other
      rfl
  | up inside named above ih =>
      intro second other
      cases other with
      | up _ again other =>
          rw [named] at again
          have same := family.eq_of_ident (bottom above) (bottom other) (Option.some.inj again)
          exact ih second (same ▸ other)

omit family in
theorem IsAbove.extend {top item child : α} {height : Nat} (inside : top ∈ items)
    (named : parent child = some (ident top))
    (above : IsAbove ident items parent child item height) :
    IsAbove ident items parent top item (height + 1) := by
  induction above with
  | here there => exact .up there named (.here inside)
  | up there again _ ih => exact .up there again ih

theorem Family.preorder_above (fuel : Nat) :
    ∀ (key : Option ι) (depth : Nat) (item : α), AtDepth ident items parent key depth →
      item ∈ children key →
      ∀ entry ∈ (item, depth) :: preorderFor children ident fuel (some (ident item)) (depth + 1),
        IsAbove ident items parent item entry.1 (entry.2 - depth) := by
  induction fuel with
  | zero =>
      intro key depth item at_depth child entry member
      rw [preorderFor, List.mem_singleton] at member
      rw [member, Nat.sub_self]
      exact .here ((family.member key item).mp child).1
  | succ fuel ih =>
      intro key depth item at_depth child entry member
      have inside := ((family.member key item).mp child).1
      rcases List.mem_cons.mp member with rfl | below
      · rw [Nat.sub_self]
        exact .here inside
      · have next := family.atDepth_child at_depth child
        have low := (family.preorder_depth (fuel + 1) _ _ next entry below).2
        obtain ⟨grandchild, named, listed⟩ := List.mem_flatMap.mp below
        have above := ih _ _ grandchild next named entry listed
        have step := above.extend inside ((family.member _ grandchild).mp named).2
        rwa [show entry.2 - (depth + 1) + 1 = entry.2 - depth by omega] at step

theorem Family.preorder_nodup (fuel : Nat) :
    ∀ (key : Option ι) (depth : Nat), AtDepth ident items parent key depth →
      ((preorderFor children ident fuel key depth).map Prod.fst).Nodup := by
  induction fuel with
  | zero => exact fun _ _ _ => List.nodup_nil
  | succ fuel ih =>
      intro key depth at_depth
      rw [preorderFor, List.map_flatMap, List.nodup_flatMap]
      constructor
      · intro item member
        have next := family.atDepth_child at_depth member
        rw [List.map_cons, List.nodup_cons]
        refine ⟨?_, ih _ _ next⟩
        intro again
        obtain ⟨entry, listed, same⟩ := List.mem_map.mp again
        obtain ⟨deep, low⟩ := family.preorder_depth fuel _ _ next entry listed
        rw [same] at deep
        have equal := family.depth_unique deep _ (family.child_depth at_depth member)
        omega
      · apply (family.once key).imp_of_mem
        intro first second here there apart item left right
        obtain ⟨entry, listed, rfl⟩ := List.mem_map.mp left
        obtain ⟨other, again, same⟩ := List.mem_map.mp right
        -- Both entries are the same item, at the same depth, with both children above it.
        have above := family.preorder_above fuel key depth first at_depth here entry listed
        have above' := family.preorder_above fuel key depth second at_depth there other again
        have deep := (family.preorder_depth (fuel + 1) key depth at_depth entry
          (List.mem_flatMap.mpr ⟨first, here, listed⟩)).1
        have deep' := (family.preorder_depth (fuel + 1) key depth at_depth other
          (List.mem_flatMap.mpr ⟨second, there, again⟩)).1
        rw [same] at deep' above'
        rw [family.depth_unique deep' _ deep] at above'
        exact apart (family.above_unique above second above')

theorem Family.preorder_closed (fuel : Nat) :
    ∀ (key : Option ι) (depth : Nat), AtDepth ident items parent key depth →
      ∀ entry ∈ preorderFor children ident fuel key depth, ∀ child ∈ children
        (some (ident entry.1)), entry.2 + 1 < depth + fuel →
        (child, entry.2 + 1) ∈ preorderFor children ident fuel key depth := by
  induction fuel with
  | zero => exact fun _ _ _ => List.forall_mem_nil _
  | succ fuel ih =>
      intro key depth at_depth entry member child named room
      obtain ⟨item, inside, listed⟩ := List.mem_flatMap.mp member
      apply List.mem_flatMap.mpr
      refine ⟨item, inside, List.mem_cons_of_mem _ ?_⟩
      rcases List.mem_cons.mp listed with rfl | below
      · cases fuel with
        | zero => simp at room
        | succ fuel => exact List.mem_flatMap.mpr ⟨child, named, List.mem_cons_self⟩
      · exact ih _ _ (family.atDepth_child at_depth inside) entry below child named (by omega)

theorem Family.mem_preorder_of_depth {item : α} {depth : Nat}
    (deep : HasDepth ident items parent item depth) :
    ∀ fuel, depth < fuel → (item, depth) ∈ preorderFor children ident fuel none 0 := by
  induction deep with
  | @root item inside none_above =>
      intro fuel room
      cases fuel with
      | zero => omega
      | succ fuel =>
          have child := (family.member none item).mpr ⟨inside, none_above⟩
          exact List.mem_flatMap.mpr ⟨item, child, List.mem_cons_self⟩
  | @child item above depth inside named deep ih =>
      intro fuel room
      have child := (family.member _ item).mpr ⟨inside, named⟩
      exact family.preorder_closed fuel none 0 (Or.inl ⟨rfl, rfl⟩) (above, depth)
        (ih fuel (by omega)) item child (by simpa using room)

theorem Family.mem_preorder_iff (item : α) :
    item ∈ (preorderFor children ident (items.length + 1) none 0).map Prod.fst ↔
      Rooted ident items parent item := by
  rw [List.mem_map]
  constructor
  · intro found
    obtain ⟨entry, member, rfl⟩ := found
    exact ⟨entry.2, (family.preorder_depth _ _ _ (Or.inl ⟨rfl, rfl⟩) entry member).1⟩
  · intro rooted
    obtain ⟨depth, deep⟩ := rooted
    have bound := family.depth_lt deep
    exact ⟨_, family.mem_preorder_of_depth deep (items.length + 1) (by omega), rfl⟩

/-- Every item is listed exactly once where all are rooted, and only there. -/
theorem Family.preorder_perm_iff :
    ((preorderFor children ident (items.length + 1) none 0).map Prod.fst).Perm items ↔
      ∀ item ∈ items, Rooted ident items parent item := by
  constructor
  · intro perm item member
    exact (family.mem_preorder_iff item).mp (perm.mem_iff.mpr member)
  · intro rooted
    have nodup := family.preorder_nodup (items.length + 1) none 0 (Or.inl ⟨rfl, rfl⟩)
    apply (List.perm_ext_iff_of_nodup nodup (family.distinct.of_map ident)).mpr
    intro item
    rw [family.mem_preorder_iff]
    exact ⟨fun found => found.elim fun _ deep => deep.mem, rooted item⟩

end Family

/-! ### Parents first -/

theorem ParentsFirst.mono {more : List α} : ∀ {seen seen' : List ι}, seen ⊆ seen' →
    ParentsFirst ident parent seen more → ParentsFirst ident parent seen' more := by
  induction more with
  | nil => exact fun _ _ => trivial
  | cons item more ih =>
      intro seen seen' subset first
      exact ⟨fun above named => subset (first.1 above named),
        ih (List.cons_subset_cons _ subset) first.2⟩

theorem parentsFirst_append {front back : List α} : ∀ {seen : List ι},
    ParentsFirst ident parent seen front → ParentsFirst ident parent seen back →
    ParentsFirst ident parent seen (front ++ back) := by
  induction front with
  | nil => exact fun _ second => second
  | cons item front ih =>
      intro seen first second
      exact ⟨first.1, ih first.2 (second.mono (List.subset_cons_self _ _))⟩

theorem Family.preorder_parentsFirst (family : Family children ident items parent) (fuel : Nat) :
    ∀ (key : Option ι) (depth : Nat) (seen : List ι), (∀ above, key = some above → above ∈ seen) →
      ParentsFirst ident parent seen
        ((preorderFor children ident fuel key depth).map Prod.fst) := by
  induction fuel with
  | zero => exact fun _ _ _ _ => trivial
  | succ fuel ih =>
      intro key depth seen known
      have walk : ∀ some_children : List α, some_children ⊆ children key →
          ParentsFirst ident parent seen ((some_children.flatMap fun item =>
            (item, depth) :: preorderFor children ident fuel (some (ident item)) (depth + 1)).map
              Prod.fst) := by
        intro some_children
        induction some_children with
        | nil => exact fun _ => trivial
        | cons item rest inner =>
            intro subset
            rw [List.flatMap_cons, List.map_append]
            apply parentsFirst_append _ (inner fun other member =>
              subset (List.mem_cons_of_mem _ member))
            have named := ((family.member key item).mp (subset List.mem_cons_self)).2
            refine ⟨fun above same => known above (named.symm.trans same), ?_⟩
            apply ih
            intro above same
            rw [← Option.some.inj same]
            exact List.mem_cons_self
      exact walk (children key) (List.Subset.refl _)

end Strata.Forest
