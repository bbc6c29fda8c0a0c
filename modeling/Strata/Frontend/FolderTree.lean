import Mathlib.Data.List.Sort
import Mathlib.Tactic
import Strata.Lib.Forest
import Strata.Lib.Utf8

/-! Connection folders shown as a hierarchy. The backend stores whatever parent an update names,
and the page walks down from the folders without one: folders whose parents form a cycle, and all
below them, are not shown. -/

namespace Strata.Frontend.FolderTree

open Utf8 (Text)
open Forest (Family ParentsFirst Rooted preorderFor)

structure ConnectionFolder where
  id : Text
  name : Text
  parentId : Option Text
  deriving DecidableEq, Repr

/-- `update_folder`: the row as it is requested, without a look at the other rows. -/
def updateFolder (rows : List ConnectionFolder) (id name : Text) (parentId : Option Text) :
    List ConnectionFolder :=
  rows.map fun row => if row.id = id then ⟨id, name, parentId⟩ else row

/-- A value the page takes as present: not null and not the empty text. -/
def truthy (text : Option Text) : Option Text := text.filter (· ≠ [])

variable (collate : Text → Text → Prop) [DecidableRel collate] (folders : List ConnectionFolder)

def sorted (siblings : List ConnectionFolder) : List ConnectionFolder :=
  siblings.insertionSort fun a b => collate a.name b.name

def known (folders : List ConnectionFolder) (id : Text) : Bool := folders.any (·.id = id)

/-- The parent under which `orderFoldersByHierarchy` files a folder. -/
def listParent (folder : ConnectionFolder) : Option Text :=
  (truthy folder.parentId).filter fun id => known folders id

def byParent (key : Option Text) : List ConnectionFolder :=
  sorted collate (folders.filter fun folder => listParent folders folder = key)

def orderFoldersByHierarchy : List (ConnectionFolder × Nat) :=
  preorderFor (byParent collate folders) (·.id) (folders.length + 1) none 0

/-- The parent whose `children` a node is pushed on; a folder that names itself is a root. -/
def treeParent (folder : ConnectionFolder) : Option Text :=
  (truthy folder.parentId).filter fun id => known folders id && id ≠ folder.id

def nodesBelow (key : Option Text) : List ConnectionFolder :=
  sorted collate (folders.filter fun folder => treeParent folders folder = key)

abbrev Connections := List (Option Text)

def directCount (connections : Connections) (folder : ConnectionFolder) : Nat :=
  connections.countP fun id => truthy id = some folder.id

structure Finished where
  visited : List Text
  totalCount : Text → Nat

def finishNode (finish : List ConnectionFolder → Finished → Nat × Finished)
    (below : Option Text → List ConnectionFolder) (direct : ConnectionFolder → Nat)
    (acc : Nat × Finished) (node : ConnectionFolder) : Nat × Finished :=
  if node.id ∈ acc.2.visited then acc
  else
    let inner := finish (below (some node.id)) ⟨node.id :: acc.2.visited, acc.2.totalCount⟩
    let total := direct node + inner.1
    (acc.1 + total, ⟨inner.2.visited, Function.update inner.2.totalCount node.id total⟩)

def finishFor (below : Option Text → List ConnectionFolder) (direct : ConnectionFolder → Nat) :
    Nat → List ConnectionFolder → Finished → Nat × Finished
  | 0, _, s => (0, s)
  | fuel + 1, list, s => list.foldl (finishNode (finishFor below direct fuel) below direct) (0, s)

structure FolderNode where
  folder : ConnectionFolder
  depth : Nat
  directCount : Nat
  totalCount : Nat

/-- The tree, as its nodes in depth-first order with their depths. -/
def buildFolderTree (connections : Connections) : List FolderNode :=
  let below := nodesBelow collate folders
  let direct := FolderTree.directCount connections
  let finished := finishFor below direct (folders.length + 1) (below none) ⟨[], fun _ => 0⟩
  (preorderFor below (·.id) (folders.length + 1) none 0).map fun entry =>
    ⟨entry.1, entry.2, direct entry.1, finished.2.totalCount entry.1.id⟩

def rootTotal (tree : List FolderNode) : Nat :=
  ((tree.filter fun node => node.depth = 0).map FolderNode.totalCount).sum

/-! ### Both walks go down families -/

variable {collate folders}

theorem mem_sorted {siblings : List ConnectionFolder} {folder : ConnectionFolder} :
    folder ∈ sorted collate siblings ↔ folder ∈ siblings :=
  (List.perm_insertionSort _ siblings).mem_iff

theorem family_of (distinct : (folders.map (·.id)).Nodup)
    (parent : ConnectionFolder → Option Text) :
    Family (fun key => sorted collate (folders.filter fun folder => parent folder = key)) (·.id)
      folders parent where
  member key folder := by
    rw [mem_sorted, List.mem_filter, decide_eq_true_eq]
  once key := by
    have nodup : folders.Nodup := List.Nodup.of_map _ distinct
    exact (List.perm_insertionSort _ _).nodup_iff.mpr (nodup.filter _)
  distinct := distinct

/-! ### What `finish` adds up -/

section Finish

variable {below : Option Text → List ConnectionFolder} {direct : ConnectionFolder → Nat}

abbrev Listing := List (ConnectionFolder × Nat)

def ids (entries : Listing) : List Text := entries.map (·.1.id)

def weigh (direct : ConnectionFolder → Nat) (entries : Listing) : Nat :=
  (entries.map fun entry => direct entry.1).sum

structure Finishes (direct : ConnectionFolder → Nat) (entries : Listing)
    (before after : Nat × Finished) : Prop where
  sum : after.1 = before.1 + weigh direct entries
  visited : ∀ id ∈ after.2.visited, id ∈ before.2.visited ∨ id ∈ ids entries
  kept : ∀ id, id ∉ ids entries → after.2.totalCount id = before.2.totalCount id

theorem Finishes.append {front back : Listing} {before between after : Nat × Finished}
    (first : Finishes direct front before between) (second : Finishes direct back between after) :
    Finishes direct (front ++ back) before after where
  sum := by
    rw [second.sum, first.sum, weigh, weigh, weigh, List.map_append, List.sum_append, Nat.add_assoc]
  visited id member := by
    rw [ids, List.map_append, List.mem_append]
    rcases second.visited id member with earlier | listed
    · exact (first.visited id earlier).imp_right Or.inl
    · exact Or.inr (Or.inr listed)
  kept id absent := by
    rw [ids, List.map_append, List.mem_append, not_or] at absent
    rw [second.kept id absent.2, first.kept id absent.1]

theorem finishNode_finishes (finish : List ConnectionFolder → Finished → Nat × Finished)
    {entries : Listing} {acc : Nat × Finished} {node : ConnectionFolder} (depth : Nat)
    (inner : Finishes direct entries (0, ⟨node.id :: acc.2.visited, acc.2.totalCount⟩)
      (finish (below (some node.id)) ⟨node.id :: acc.2.visited, acc.2.totalCount⟩))
    (fresh : node.id ∉ acc.2.visited) :
    Finishes direct ((node, depth) :: entries) acc (finishNode finish below direct acc node) ∧
      (finishNode finish below direct acc node).2.totalCount node.id =
        direct node + weigh direct entries := by
  have sum := inner.sum
  rw [Nat.zero_add] at sum
  rw [finishNode, if_neg fresh]
  refine ⟨⟨?_, ?_, ?_⟩, ?_⟩
  · simp only [sum, weigh, List.map_cons, List.sum_cons]
  · intro id member
    rw [ids, List.map_cons, List.mem_cons]
    rcases inner.visited id member with earlier | listed
    · rcases List.mem_cons.mp earlier with same | old
      · exact Or.inr (Or.inl same)
      · exact Or.inl old
    · exact Or.inr (Or.inr listed)
  · intro id absent
    rw [ids, List.map_cons, List.mem_cons, not_or] at absent
    exact (Function.update_of_ne absent.1 ..).trans (inner.kept id absent.2)
  · simp only [Function.update_self, sum]

def subtree (below : Option Text → List ConnectionFolder) (fuel depth : Nat)
    (node : ConnectionFolder) : Listing :=
  (node, depth) :: preorderFor below (·.id) fuel (some node.id) (depth + 1)

theorem finishFold_finishes (direct : ConnectionFolder → Nat) {fuel depth : Nat}
    (each : ∀ (node : ConnectionFolder) (s : Finished),
      (ids (preorderFor below (·.id) fuel (some node.id) (depth + 1))).Nodup →
      (∀ id ∈ ids (preorderFor below (·.id) fuel (some node.id) (depth + 1)), id ∉ s.visited) →
      Finishes direct (preorderFor below (·.id) fuel (some node.id) (depth + 1)) (0, s)
        (finishFor below direct fuel (below (some node.id)) s))
    (list : List ConnectionFolder) :
    ∀ acc : Nat × Finished, (ids (list.flatMap (subtree below fuel depth))).Nodup →
      (∀ id ∈ ids (list.flatMap (subtree below fuel depth)), id ∉ acc.2.visited) →
      Finishes direct (list.flatMap (subtree below fuel depth)) acc
        (list.foldl (finishNode (finishFor below direct fuel) below direct) acc) ∧
      ∀ node ∈ list,
        (list.foldl (finishNode (finishFor below direct fuel) below direct) acc).2.totalCount
          node.id = weigh direct (subtree below fuel depth node) := by
  induction list with
  | nil =>
      intro acc _ _
      exact ⟨⟨rfl, fun id member => Or.inl member, fun _ _ => rfl⟩, List.forall_mem_nil _⟩
  | cons node list ih =>
      intro acc nodup fresh
      rw [List.flatMap_cons, ids, List.map_append, ← ids, ← ids] at nodup fresh
      obtain ⟨here, there, apart⟩ := List.nodup_append'.mp nodup
      rw [subtree, ids, List.map_cons, ← ids, List.nodup_cons] at here
      have self : node.id ∈ ids (subtree below fuel depth node) := List.mem_cons_self
      obtain ⟨first, total⟩ := finishNode_finishes (finishFor below direct fuel) depth
        (each node ⟨node.id :: acc.2.visited, acc.2.totalCount⟩ here.2 (by
          intro id listed visited
          rcases List.mem_cons.mp visited with rfl | old
          · exact here.1 listed
          · exact fresh id (List.mem_append_left _ (List.mem_cons_of_mem _ listed)) old))
        (fresh node.id (List.mem_append_left _ self))
      obtain ⟨rest, totals⟩ := ih _ there (by
        intro id listed visited
        rcases first.visited id visited with old | inner
        · exact fresh id (List.mem_append_right _ listed) old
        · exact apart inner listed)
      rw [List.flatMap_cons, List.foldl_cons]
      refine ⟨first.append rest, List.forall_mem_cons.mpr ⟨?_, totals⟩⟩
      rw [rest.kept node.id (apart self), total]
      simp only [subtree, weigh, List.map_cons, List.sum_cons]

theorem finishFor_finishes (fuel : Nat) : ∀ (key : Option Text) (depth : Nat) (s : Finished),
    (ids (preorderFor below (·.id) fuel key depth)).Nodup →
    (∀ id ∈ ids (preorderFor below (·.id) fuel key depth), id ∉ s.visited) →
    Finishes direct (preorderFor below (·.id) fuel key depth) (0, s)
      (finishFor below direct fuel (below key) s) := by
  induction fuel with
  | zero =>
      intro key depth s _ _
      exact ⟨rfl, fun id member => Or.inl member, fun _ _ => rfl⟩
  | succ fuel ih =>
      intro key depth s nodup fresh
      exact (finishFold_finishes direct (fun node s => ih (some node.id) (depth + 1) s)
        (below key) (0, s) nodup fresh).1

end Finish

/-! ### Totals -/

theorem known_iff {id : Text} : known folders id = true ↔ id ∈ folders.map (·.id) := by
  rw [known, List.any_eq_true, List.mem_map]
  simp only [decide_eq_true_eq]

def filed (folders : List ConnectionFolder) (id : Option Text) : Bool :=
  (truthy id).any (known folders)

theorem filed_cons {folder : ConnectionFolder} (apart : folder.id ∉ folders.map (·.id))
    (id : Option Text) :
    (if truthy id = some folder.id then 1 else 0) + (if filed folders id = true then 1 else 0) =
      if filed (folder :: folders) id = true then 1 else 0 := by
  cases held : truthy id with
  | none => simp [filed, held]
  | some here =>
      have cons : known (folder :: folders) here =
          (decide (folder.id = here) || known folders here) := List.any_cons
      by_cases same : folder.id = here
      · have absent : known folders here = false := by
          rw [Bool.eq_false_iff, Ne, known_iff, ← same]
          exact apart
        simp [filed, held, cons, absent, same]
      · have other : here ≠ folder.id := fun equal => same equal.symm
        simp [filed, held, cons, same, other]

theorem sum_directCount (distinct : (folders.map (·.id)).Nodup) (connections : Connections) :
    (folders.map (directCount connections)).sum = connections.countP (filed folders) := by
  induction folders with
  | nil =>
      symm
      apply List.countP_eq_zero.mpr
      intro id _
      rw [filed]
      cases truthy id <;> simp [known]
  | cons folder folders ih =>
      obtain ⟨apart, distinct⟩ := List.nodup_cons.mp distinct
      rw [List.map_cons, List.sum_cons, ih distinct, directCount]
      clear ih distinct
      induction connections with
      | nil => rfl
      | cons id connections ih =>
          have one := filed_cons apart id
          simp only [List.countP_cons, decide_eq_true_eq]
          omega

theorem preorder_roots (below : Option Text → List ConnectionFolder) (fuel : Nat) :
    (preorderFor below (·.id) (fuel + 1) none 0).filter (fun entry => entry.2 = 0) =
      (below none).map fun node => (node, 0) := by
  have deeper : ∀ (fuel : Nat) (key : Option Text) (depth : Nat),
      ∀ entry ∈ preorderFor below (·.id) fuel key depth, depth ≤ entry.2 := by
    intro fuel
    induction fuel with
    | zero => exact fun _ _ => List.forall_mem_nil _
    | succ fuel ih =>
        intro key depth entry member
        obtain ⟨node, -, listed⟩ := List.mem_flatMap.mp member
        rcases List.mem_cons.mp listed with rfl | inner
        · exact le_rfl
        · exact Nat.le_of_succ_le (ih _ _ entry inner)
  rw [preorderFor, List.filter_flatMap, ← List.flatMap_pure_eq_map]
  apply List.flatMap_congr
  intro node _
  have none_left : (preorderFor below (·.id) fuel (some node.id) (0 + 1)).filter
      (fun entry => entry.2 = 0) = [] := by
    rw [List.filter_eq_nil_iff]
    intro entry member zero
    have low := deeper fuel _ _ entry member
    rw [decide_eq_true_eq] at zero
    omega
  rw [List.filter_cons_of_pos (by rfl), none_left]
  rfl

theorem rootTotal_eq (distinct : (folders.map (·.id)).Nodup) (connections : Connections) :
    rootTotal (buildFolderTree collate folders connections) =
      weigh (directCount connections)
        (preorderFor (nodesBelow collate folders) (·.id) (folders.length + 1) none 0) := by
  have family : Family (nodesBelow collate folders) (·.id) folders (treeParent folders) :=
    family_of distinct (treeParent folders)
  have top : Forest.AtDepth (·.id) folders (treeParent folders) none 0 := Or.inl ⟨rfl, rfl⟩
  have nodup : (ids (preorderFor (nodesBelow collate folders) (·.id) (folders.length + 1) none
      0)).Nodup := by
    have listed := family.preorder_nodup (folders.length + 1) none 0 top
    rw [ids, ← Function.comp_def (f := ConnectionFolder.id), ← List.map_map]
    apply listed.map_on
    intro first here second there same
    obtain ⟨entry, inside, rfl⟩ := List.mem_map.mp here
    obtain ⟨other, inside', rfl⟩ := List.mem_map.mp there
    exact family.eq_of_ident (family.preorder_depth _ _ _ top entry inside).1.mem
      (family.preorder_depth _ _ _ top other inside').1.mem same
  have totals := (finishFold_finishes (directCount connections)
    (fun node s => finishFor_finishes folders.length (some node.id) 1 s)
    (nodesBelow collate folders none) (0, ⟨[], fun _ => 0⟩) nodup (fun _ _ => List.not_mem_nil)).2
  have roots : (buildFolderTree collate folders connections).filter (fun node => node.depth = 0) =
      (nodesBelow collate folders none).map fun node => ⟨node, 0, directCount connections node,
        weigh (directCount connections) (subtree (nodesBelow collate folders) folders.length 0
          node)⟩ := by
    rw [buildFolderTree, List.filter_map]
    simp only [Function.comp_def]
    rw [preorder_roots, List.map_map]
    apply List.map_congr_left
    intro node member
    rw [← totals node member]
    rfl
  rw [rootTotal, roots, List.map_map, weigh, preorderFor, List.map_flatMap, List.flatMap_def,
    List.sum_flatten, List.map_map]
  rfl

def Ends (below : Option Text → List ConnectionFolder) (folders : List ConnectionFolder) : Prop :=
  ∀ fuel, folders.length + 1 ≤ fuel → preorderFor below (·.id) fuel none 0 =
    preorderFor below (·.id) (folders.length + 1) none 0

theorem ends_of_family {below : Option Text → List ConnectionFolder}
    {parent : ConnectionFolder → Option Text} (family : Family below (·.id) folders parent) :
    Ends below folders := by
  intro fuel enough
  exact family.preorder_stable (folders.length + 1) fuel none 0 (Or.inl ⟨rfl, rfl⟩) (by omega)
    enough

/-- Both walks end. The one down the list shows every folder once exactly where every chain of
parents ends, with parents first in any case. The tree places every folder once exactly
where every chain ends or comes to a folder that names itself, and then its roots count every
filed connection. -/
theorem folders_shown_iff (collate : Text → Text → Prop) [DecidableRel collate]
    (folders : List ConnectionFolder) (distinct : (folders.map (·.id)).Nodup)
    (connections : Connections) :
    (Ends (byParent collate folders) folders ∧ Ends (nodesBelow collate folders) folders) ∧
    (((orderFoldersByHierarchy collate folders).map Prod.fst).Perm folders ↔
      ∀ folder ∈ folders, Rooted (·.id) folders (listParent folders) folder) ∧
    ParentsFirst (·.id) (listParent folders) []
      ((orderFoldersByHierarchy collate folders).map Prod.fst) ∧
    (((buildFolderTree collate folders connections).map FolderNode.folder).Perm folders ↔
      ∀ folder ∈ folders, Rooted (·.id) folders (treeParent folders) folder) ∧
    ((∀ folder ∈ folders, Rooted (·.id) folders (treeParent folders) folder) →
      rootTotal (buildFolderTree collate folders connections) =
        connections.countP (filed folders)) := by
  have listed : Family (byParent collate folders) (·.id) folders (listParent folders) :=
    family_of distinct (listParent folders)
  have placed : Family (nodesBelow collate folders) (·.id) folders (treeParent folders) :=
    family_of distinct (treeParent folders)
  have nodes : (buildFolderTree collate folders connections).map FolderNode.folder =
      (preorderFor (nodesBelow collate folders) (·.id) (folders.length + 1) none 0).map
        Prod.fst := by
    rw [buildFolderTree, List.map_map]
    rfl
  refine ⟨⟨ends_of_family listed, ends_of_family placed⟩, listed.preorder_perm_iff, ?_, ?_, ?_⟩
  · exact listed.preorder_parentsFirst _ none 0 [] (fun above absent => by cases absent)
  · rw [nodes]
    exact placed.preorder_perm_iff
  · intro rooted
    have all := placed.preorder_perm_iff.mpr rooted
    calc rootTotal (buildFolderTree collate folders connections)
        = (((preorderFor (nodesBelow collate folders) (·.id) (folders.length + 1) none 0).map
            Prod.fst).map (directCount connections)).sum := by
          rw [rootTotal_eq distinct, List.map_map]
          rfl
      _ = (folders.map (directCount connections)).sum := (all.map _).sum_eq
      _ = connections.countP (filed folders) := sum_directCount distinct connections

def nested : List ConnectionFolder := [⟨['b'], ['b'], some ['a']⟩, ⟨['a'], ['a'], none⟩]

theorem nested_shown :
    orderFoldersByHierarchy (fun _ _ => True) nested =
      [(⟨['a'], ['a'], none⟩, 0), (⟨['b'], ['b'], some ['a']⟩, 1)] ∧
    rootTotal (buildFolderTree (fun _ _ => True) nested [some ['b'], none]) = 1 := by
  have shown := folders_shown_iff (fun _ _ => True) nested (by decide) [some ['b'], none]
  exact ⟨by decide, shown.2.2.2.2 (shown.2.2.2.1.mp (by decide))⟩

def circle : List ConnectionFolder := updateFolder nested ['a'] ['a'] (some ['b'])

def selfMoved : List ConnectionFolder := updateFolder nested ['a'] ['a'] (some ['a'])

/-- A circle is not shown at all and its connection is in no total; a folder moved into itself
and the one below it are missing from the list. -/
theorem folders_vanish :
    (circle.map (·.id)).Nodup ∧ orderFoldersByHierarchy (fun _ _ => True) circle = [] ∧
    (buildFolderTree (fun _ _ => True) circle [some ['a']]).map FolderNode.folder = [] ∧
    rootTotal (buildFolderTree (fun _ _ => True) circle [some ['a']]) = 0 ∧
    [some ['a']].countP (filed circle) = 1 ∧
    orderFoldersByHierarchy (fun _ _ => True) selfMoved = [] := by
  decide

end Strata.Frontend.FolderTree
