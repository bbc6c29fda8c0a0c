import Mathlib.Tactic
import Mathlib.Data.List.AList

/-! Finite tables keyed by an index, with the weight of everything they hold. -/

namespace Strata.Tables

variable {κ β : Type}

abbrev Table (κ β : Type) : Type := AList (fun _ : κ => β)

def size (table : Table κ β) : Nat := table.entries.length

def total (weight : β → Nat) (table : Table κ β) : Nat :=
  (table.entries.map fun entry => weight entry.2).sum

/-- `HashMap::retain` on the values. -/
def retain (keep : β → Bool) (table : Table κ β) : Table κ β :=
  ⟨table.entries.filter fun entry => keep entry.2,
    table.nodupKeys.sublist List.filter_sublist⟩

def retainKeys (keep : κ → Bool) (table : Table κ β) : Table κ β :=
  ⟨table.entries.filter fun entry => keep entry.1,
    table.nodupKeys.sublist List.filter_sublist⟩

variable (weight : β → Nat) (keep : β → Bool) (table : Table κ β)

theorem size_retain_le : size (retain keep table) ≤ size table := List.length_filter_le ..

theorem total_retain :
    total weight (retain keep table) + total weight (retain (fun value => !keep value) table) =
      total weight table := by
  simp only [total, retain]
  induction table.entries with
  | nil => rfl
  | cons entry entries ih =>
      by_cases kept : keep entry.2 = true
      · simp only [List.filter_cons, kept, List.map_cons, List.sum_cons, Bool.not_true,
          Bool.false_eq_true, if_true, if_false]
        omega
      · simp only [List.filter_cons, kept, List.map_cons, List.sum_cons, Bool.not_false,
          Bool.false_eq_true, if_true, if_false]
        omega

theorem total_eq_zero {count : β → Nat} (light : ∀ value, count value = 0 → weight value = 0)
    (none : total count table = 0) : total weight table = 0 := by
  rw [total, List.sum_eq_zero_iff] at none ⊢
  intro value member
  obtain ⟨entry, inside, rfl⟩ := List.mem_map.mp member
  exact light entry.2 (none _ (List.mem_map_of_mem inside))

theorem total_of_size_eq_zero (empty : size table = 0) : total weight table = 0 := by
  rw [total, List.eq_nil_of_length_eq_zero empty]
  rfl

theorem size_eq_keys : size table = table.keys.length := (List.length_map ..).symm

theorem total_le_of_each {bound : Nat} (each : ∀ entry ∈ table.entries, weight entry.2 ≤ bound) :
    total weight table ≤ size table * bound := by
  have most := List.sum_le_card_nsmul (table.entries.map fun entry => weight entry.2) bound ?_
  · rwa [List.length_map, smul_eq_mul] at most
  · intro value member
    obtain ⟨entry, inside, rfl⟩ := List.mem_map.mp member
    exact each entry inside

variable [DecidableEq κ]

theorem sum_kerase (key : κ) (entries : List (Σ _ : κ, β)) :
    ((entries.kerase key).map fun entry => weight entry.2).sum +
        ((entries.dlookup key).elim 0 weight) =
      (entries.map fun entry => weight entry.2).sum := by
  induction entries with
  | nil => rfl
  | cons entry entries ih =>
      obtain ⟨other, value⟩ := entry
      by_cases same : key = other
      · subst same
        have erased : List.kerase key ((⟨key, value⟩ : Σ _ : κ, β) :: entries) = entries :=
          List.kerase_cons_eq rfl
        have found : List.dlookup key ((⟨key, value⟩ : Σ _ : κ, β) :: entries) = some value :=
          List.dlookup_cons_eq _ _ _
        rw [erased, found]
        simp only [List.map_cons, List.sum_cons, Option.elim_some]
        omega
      · have erased : List.kerase key ((⟨other, value⟩ : Σ _ : κ, β) :: entries) =
            ⟨other, value⟩ :: entries.kerase key := List.kerase_cons_ne same
        have found : List.dlookup key ((⟨other, value⟩ : Σ _ : κ, β) :: entries) =
            entries.dlookup key := List.dlookup_cons_ne _ _ same
        rw [erased, found]
        simp only [List.map_cons, List.sum_cons]
        omega

theorem total_erase (key : κ) :
    total weight (table.erase key) + (table.lookup key).elim 0 weight = total weight table :=
  sum_kerase weight key table.entries

theorem total_insert (key : κ) (value : β) :
    total weight (table.insert key value) = weight value + total weight (table.erase key) := by
  rw [total, AList.entries_insert, List.map_cons, List.sum_cons]
  rfl

theorem total_erase_of_lookup {key : κ} {value : β} (present : table.lookup key = some value) :
    total weight (table.erase key) + weight value = total weight table := by
  rw [← total_erase weight table key, present, Option.elim_some]

theorem total_insert_of_notMem {key : κ} (absent : key ∉ table) (value : β) :
    total weight (table.insert key value) = total weight table + weight value := by
  have split := total_erase weight table key
  rw [AList.lookup_eq_none.mpr absent, Option.elim_none] at split
  rw [total_insert]
  omega

theorem total_insert_of_lookup {key : κ} {old : β} (present : table.lookup key = some old)
    (value : β) :
    total weight (table.insert key value) + weight old = total weight table + weight value := by
  have split := total_erase_of_lookup weight table present
  rw [total_insert]
  omega

theorem total_insert_of_same {key : κ} {old : β} (present : table.lookup key = some old)
    {value : β} (same : weight value = weight old) :
    total weight (table.insert key value) = total weight table := by
  have moved := total_insert_of_lookup weight table present value
  omega

theorem total_erase_of_light {key : κ} {old : β} (present : table.lookup key = some old)
    (light : weight old = 0) : total weight (table.erase key) = total weight table := by
  have split := total_erase_of_lookup weight table present
  omega

theorem erase_erase (key : κ) : (table.erase key).erase key = table.erase key :=
  AList.ext (List.kerase_of_notMem_keys (List.notMem_keys_kerase key table.2))

theorem size_erase_le (key : κ) : size (table.erase key) ≤ size table :=
  (List.kerase_sublist key table.entries).length_le

theorem size_insert_le (key : κ) (value : β) :
    size (table.insert key value) ≤ size table + 1 := by
  rw [size, AList.entries_insert, List.length_cons]
  exact Nat.succ_le_succ (size_erase_le table key)

theorem size_insert_of_mem {key : κ} (member : key ∈ table) (value : β) :
    size (table.insert key value) = size table := by
  have inside : key ∈ table.keys := member
  have positive := List.length_pos_of_mem inside
  rw [size_eq_keys, size_eq_keys, AList.keys_insert, List.length_cons,
    List.length_erase_of_mem inside]
  omega

theorem size_insert_of_notMem {key : κ} (absent : key ∉ table) (value : β) :
    size (table.insert key value) = size table + 1 := by
  rw [size, AList.entries_insert_of_notMem absent]
  rfl

theorem size_erase_of_mem {key : κ} (member : key ∈ table) :
    size (table.erase key) + 1 = size table := by
  have inside : key ∈ table.keys := member
  have positive := List.length_pos_of_mem inside
  rw [size_eq_keys, size_eq_keys, AList.keys_erase, List.length_erase_of_mem inside]
  omega

theorem of_lookup_insert {key other : κ} {value found : β}
    (present : (table.insert key value).lookup other = some found) :
    other = key ∧ found = value ∨ other ≠ key ∧ table.lookup other = some found := by
  by_cases same : other = key
  · rw [same, AList.lookup_insert] at present
    exact .inl ⟨same, (Option.some.inj present).symm⟩
  · rw [AList.lookup_insert_ne same] at present
    exact .inr ⟨same, present⟩

theorem of_lookup_erase {key other : κ} {found : β}
    (present : (table.erase key).lookup other = some found) :
    other ≠ key ∧ table.lookup other = some found := by
  by_cases same : other = key
  · rw [same, AList.lookup_erase] at present
    cases present
  · rw [AList.lookup_erase_ne same] at present
    exact ⟨same, present⟩

def modify (table : Table κ β) (key : κ) (change : β → β) : Table κ β :=
  match table.lookup key with
  | some value => table.insert key (change value)
  | none => table

theorem lookup_modify (key other : κ) (change : β → β) :
    (modify table key change).lookup other =
      if other = key then (table.lookup key).map change else table.lookup other := by
  rw [modify]
  split
  case h_1 value present =>
      split_ifs with same
      · rw [same, AList.lookup_insert, present, Option.map_some]
      · rw [AList.lookup_insert_ne same]
  case h_2 absent =>
      split_ifs with same
      · rw [same, absent, Option.map_none]
      · rfl

def mapValues (change : β → β) (table : Table κ β) : Table κ β where
  entries := table.entries.map fun entry => ⟨entry.1, change entry.2⟩
  nodupKeys := by
    have keys : (table.entries.map fun entry => (⟨entry.1, change entry.2⟩ : Σ _ : κ, β)).keys =
        table.entries.keys := by
      simp [List.keys, Function.comp_def]
    rw [List.NodupKeys, keys]
    exact table.nodupKeys

theorem lookup_mapValues (change : β → β) (key : κ) :
    (mapValues change table).lookup key = (table.lookup key).map change := by
  apply Option.ext
  intro value
  rw [← Option.mem_def, AList.mem_lookup_iff, mapValues, List.mem_map, Option.map_eq_some_iff]
  constructor
  · intro found
    obtain ⟨entry, member, same⟩ := found
    obtain ⟨rfl, rfl⟩ := Sigma.mk.inj same
    exact ⟨entry.2, AList.mem_lookup_iff.mpr member, rfl⟩
  · intro found
    obtain ⟨old, present, rfl⟩ := found
    exact ⟨⟨key, old⟩, AList.mem_lookup_iff.mp present, rfl⟩

theorem lookup_retain {key : κ} {value : β}
    (present : (retain keep table).lookup key = some value) :
    table.lookup key = some value := by
  have member : Sigma.mk key value ∈ (retain keep table).entries :=
    AList.mem_lookup_iff.mp present
  exact AList.mem_lookup_iff.mpr (List.mem_of_mem_filter member)

theorem lookup_retain_eq (key : κ) :
    (retain keep table).lookup key = (table.lookup key).bind fun value =>
      if keep value then some value else none := by
  apply Option.ext
  intro value
  rw [← Option.mem_def, AList.mem_lookup_iff, retain, List.mem_filter, ← AList.mem_lookup_iff,
    Option.mem_def, Option.bind_eq_some_iff]
  constructor
  · rintro ⟨present, kept⟩
    exact ⟨value, present, if_pos kept⟩
  · rintro ⟨other, present, same⟩
    split_ifs at same with kept
    obtain rfl := Option.some.inj same
    exact ⟨present, kept⟩

theorem mem_of_mem_retain {key : κ} (member : key ∈ retain keep table) : key ∈ table := by
  rw [← AList.lookup_isSome, Option.isSome_iff_exists] at member ⊢
  obtain ⟨value, present⟩ := member
  exact ⟨value, lookup_retain keep table present⟩

theorem lookup_retainKeys {wanted : κ → Bool} {key : κ} (kept : wanted key = true) :
    (retainKeys wanted table).lookup key = table.lookup key := by
  apply Option.ext
  intro value
  rw [← Option.mem_def, ← Option.mem_def, AList.mem_lookup_iff, AList.mem_lookup_iff, retainKeys,
    List.mem_filter]
  exact and_iff_left kept

end Strata.Tables
