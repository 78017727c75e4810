import Mathlib.Data.Finset.Sort
import Mathlib.Data.List.AList
import Mathlib.Data.List.Sort

/-!
# Hash maps with an explicit iteration order

A Rust `HashMap` is modelled by Mathlib's association lists with unique keys.
The order of the entries stands for the iteration order, which the language
leaves unspecified; `SameEntries` relates two maps that differ in that order
only.  A `BTreeMap` is the same data read through `sortedEntries`.
-/

namespace Connexa

/-- A finite map together with the order in which it is iterated. -/
abbrev HashMap (K V : Type) := AList (fun _ : K => V)

namespace HashMap

variable {K V : Type}

/-- The stored values, in iteration order. -/
def values (m : HashMap K V) : List V :=
  m.entries.map Sigma.snd

/-- Number of entries. -/
def len (m : HashMap K V) : ℕ :=
  m.entries.length

/-- Keep the entries accepted by `f`, as `HashMap::retain`. -/
def retain (f : K → V → Bool) (m : HashMap K V) : HashMap K V where
  entries := m.entries.filter fun e => f e.1 e.2
  nodupKeys := m.nodupKeys.sublist List.filter_sublist

/-- The two maps hold the same entries, possibly in another order. -/
def SameEntries (m n : HashMap K V) : Prop :=
  m.entries.Perm n.entries

theorem len_of_sameEntries {m n : HashMap K V} (h : SameEntries m n) :
    len m = len n :=
  List.Perm.length_eq h

@[simp] theorem values_empty : values (∅ : HashMap K V) = [] := rfl

@[simp] theorem len_empty : len (∅ : HashMap K V) = 0 := rfl

theorem len_retain_le (f : K → V → Bool) (m : HashMap K V) : len (retain f m) ≤ len m :=
  List.length_filter_le _ _

/-! ## Ordered iteration -/

section Sorted

variable [LinearOrder K]

/-- Entries in increasing key order: how a `BTreeMap` is iterated. -/
def sortedEntries (m : HashMap K V) : List (K × V) :=
  (m.entries.map fun e => (e.1, e.2)).insertionSort fun a b => a.1 ≤ b.1

theorem sortedEntries_perm (m : HashMap K V) :
    (sortedEntries m).Perm (m.entries.map fun e => (e.1, e.2)) :=
  List.perm_insertionSort _ _

theorem mem_sortedEntries {m : HashMap K V} {k : K} {v : V} :
    (k, v) ∈ sortedEntries m ↔ Sigma.mk k v ∈ m.entries := by
  rw [(sortedEntries_perm m).mem_iff]
  simp

theorem sortedEntries_keys_nodup (m : HashMap K V) :
    ((sortedEntries m).map Prod.fst).Nodup := by
  rw [((sortedEntries_perm m).map Prod.fst).nodup_iff, List.map_map]
  exact m.nodupKeys

end Sorted

/-! ## Lookup after each operation -/

variable [DecidableEq K]

theorem lookup_of_sameEntries {m n : HashMap K V} (h : SameEntries m n)
    (k : K) : m.lookup k = n.lookup k :=
  AList.perm_lookup h

theorem lookup_eq_some_iff {m : HashMap K V} {k : K} {v : V} :
    m.lookup k = some v ↔ Sigma.mk k v ∈ m.entries :=
  AList.mem_lookup_iff

theorem mem_iff_exists_lookup {m : HashMap K V} {k : K} :
    k ∈ m ↔ ∃ v, m.lookup k = some v := by
  rw [← AList.lookup_isSome, Option.isSome_iff_exists]

theorem mem_of_lookup {m : HashMap K V} {k : K} {v : V}
    (h : m.lookup k = some v) : k ∈ m :=
  mem_iff_exists_lookup.mpr ⟨v, h⟩

theorem mem_congr_lookup {m n : HashMap K V} {k : K} (h : m.lookup k = n.lookup k) :
    k ∈ m ↔ k ∈ n := by
  rw [mem_iff_exists_lookup, mem_iff_exists_lookup, h]

theorem mem_values_iff {m : HashMap K V} {v : V} :
    v ∈ values m ↔ ∃ k, m.lookup k = some v := by
  simp only [values, List.mem_map, lookup_eq_some_iff]
  constructor
  · rintro ⟨⟨k, u⟩, hmem, rfl⟩
    exact ⟨k, hmem⟩
  · rintro ⟨k, hmem⟩
    exact ⟨⟨k, v⟩, hmem, rfl⟩

theorem mem_of_sameEntries {m n : HashMap K V} (h : SameEntries m n) {k : K} :
    k ∈ m ↔ k ∈ n :=
  mem_congr_lookup (lookup_of_sameEntries h k)

@[simp] theorem lookup_insert_self (m : HashMap K V) (k : K) (v : V) :
    (m.insert k v).lookup k = some v :=
  AList.lookup_insert m

theorem lookup_insert (m : HashMap K V) (k j : K) (v : V) :
    (m.insert k v).lookup j = if j = k then some v else m.lookup j := by
  split
  · next h =>
    subst h
    exact AList.lookup_insert m
  · next h => exact AList.lookup_insert_ne h

theorem lookup_erase (m : HashMap K V) (k j : K) :
    (m.erase k).lookup j = if j = k then none else m.lookup j := by
  split
  · next h =>
    subst h
    exact AList.lookup_erase j m
  · next h => exact AList.lookup_erase_ne h

theorem lookup_erase_some {m : HashMap K V} {k j : K} {v : V} :
    (m.erase k).lookup j = some v ↔ j ≠ k ∧ m.lookup j = some v := by
  rw [lookup_erase]
  split <;> simp_all

theorem lookup_retain_some {f : K → V → Bool} {m : HashMap K V}
    {k : K} {v : V} :
    (retain f m).lookup k = some v ↔ m.lookup k = some v ∧ f k v = true := by
  rw [lookup_eq_some_iff, lookup_eq_some_iff]
  simp [retain]

theorem len_retain_lt {f : K → V → Bool} {m : HashMap K V} {k : K} {v : V}
    (h : m.lookup k = some v) (hf : f k v = false) : len (retain f m) < len m :=
  List.length_filter_lt_length_iff_exists.mpr
    ⟨⟨k, v⟩, lookup_eq_some_iff.mp h, by simp [hf]⟩

theorem len_insert_of_notMem {m : HashMap K V} {k : K} (h : k ∉ m) (v : V) :
    len (m.insert k v) = len m + 1 := by
  simp only [len]
  rw [AList.entries_insert_of_notMem h, List.length_cons]

theorem len_erase_le (m : HashMap K V) (k : K) : len (m.erase k) ≤ len m :=
  (List.kerase_sublist k m.entries).length_le

theorem len_insert_of_mem {m : HashMap K V} {k : K} (h : k ∈ m) (v : V) :
    len (m.insert k v) = len m := by
  have hkeys : (m.insert k v).keys.length = m.keys.length := by
    rw [AList.keys_insert, List.length_cons,
      List.length_erase_of_mem (AList.mem_keys.mp h)]
    have hpos : 0 < m.keys.length :=
      List.length_pos_of_mem (AList.mem_keys.mp h)
    omega
  simpa [len, AList.keys, List.keys] using hkeys

/-- Taking out an entry. -/
theorem entries_perm_erase {m : HashMap K V} {k : K} {v : V}
    (h : m.lookup k = some v) : m.entries.Perm (⟨k, v⟩ :: (m.erase k).entries) := by
  obtain ⟨u, before, after, -, hentries, herase⟩ :=
    List.exists_of_kerase (AList.mem_keys.mp (mem_of_lookup h))
  have hu : m.lookup k = some u :=
    lookup_eq_some_iff.mpr (by rw [hentries]; simp)
  rw [h] at hu
  cases hu
  change m.entries.Perm (_ :: List.kerase k m.entries)
  rw [herase, hentries]
  exact List.perm_middle

theorem len_erase_of_mem {m : HashMap K V} {k : K} (h : k ∈ m) :
    len (m.erase k) + 1 = len m := by
  obtain ⟨v, hlookup⟩ := mem_iff_exists_lookup.mp h
  exact (entries_perm_erase hlookup).length_eq.symm

theorem erase_of_lookup_eq_none {m : HashMap K V} {k : K}
    (h : m.lookup k = none) : m.erase k = m := by
  refine AList.ext ?_
  change List.kerase k m.entries = m.entries
  exact List.kerase_of_notMem_keys fun hmem =>
    AList.lookup_eq_none.mp h (AList.mem_keys.mpr hmem)

theorem values_perm_erase (m : HashMap K V) (k : K) :
    (values m).Perm ((m.lookup k).toList ++ values (m.erase k)) := by
  cases h : m.lookup k with
  | none => rw [erase_of_lookup_eq_none h, Option.toList_none, List.nil_append]
  | some v => exact (entries_perm_erase h).map Sigma.snd

theorem values_insert (m : HashMap K V) (k : K) (v : V) :
    values (m.insert k v) = v :: values (m.erase k) := by
  rfl

/-- A map that gives `f k` for the keys in `s` is iterated along `s`. -/
theorem sortedEntries_eq_map_sort [LinearOrder K]
    {m : HashMap K V} {s : Finset K} {f : K → V}
    (h : ∀ k v, m.lookup k = some v ↔ k ∈ s ∧ v = f k) :
    sortedEntries m = s.sort.map fun k => (k, f k) := by
  have hmem : ∀ e, e ∈ sortedEntries m ↔ e ∈ s.sort.map fun k => (k, f k) := by
    rintro ⟨k, v⟩
    rw [mem_sortedEntries, ← lookup_eq_some_iff, h]
    simp [eq_comm]
  have hperm : (sortedEntries m).Perm (s.sort.map fun k => (k, f k)) := by
    have hsorted : (s.sort.map fun k => (k, f k)).Nodup :=
      (Finset.sort_nodup s _).map fun a b hab => (Prod.mk.inj hab).1
    exact (List.perm_ext_iff_of_nodup (List.Nodup.of_map _ (sortedEntries_keys_nodup m))
      hsorted).mpr hmem
  have hantisymm : ∀ a b, a ∈ sortedEntries m → b ∈ s.sort.map (fun k => (k, f k)) →
      a.1 ≤ b.1 → b.1 ≤ a.1 → a = b := by
    intro a b ha hb hab hba
    obtain ⟨k, -, rfl⟩ := List.mem_map.mp ((hmem a).mp ha)
    obtain ⟨j, -, rfl⟩ := List.mem_map.mp hb
    have hkj : k = j := le_antisymm hab hba
    rw [hkj]
  exact List.Perm.eq_of_pairwise hantisymm (List.pairwise_insertionSort _ _)
    (List.pairwise_map.mpr (Finset.pairwise_sort s _)) hperm

/-! ## Changing the values -/

/-- Change every value. -/
def update (f : K → V → V) (m : HashMap K V) : HashMap K V where
  entries := m.entries.map fun e => ⟨e.1, f e.1 e.2⟩
  nodupKeys := by
    have hkeys := m.nodupKeys
    simpa [List.NodupKeys, List.keys, Function.comp_def] using hkeys

theorem lookup_update_some {f : K → V → V} {m : HashMap K V} {k : K} {v : V} :
    (update f m).lookup k = some v ↔ ∃ u, m.lookup k = some u ∧ f k u = v := by
  rw [lookup_eq_some_iff]
  constructor
  · intro h
    obtain ⟨⟨j, u⟩, hmem, heq⟩ := List.mem_map.mp h
    cases heq
    exact ⟨u, lookup_eq_some_iff.mpr hmem, rfl⟩
  · rintro ⟨u, hu, rfl⟩
    exact List.mem_map.mpr ⟨_, lookup_eq_some_iff.mp hu, rfl⟩

/-! ## Searching the entries -/

theorem any_entries_iff {p : (Σ _ : K, V) → Bool} {m : HashMap K V} :
    m.entries.any p = true ↔ ∃ k v, m.lookup k = some v ∧ p ⟨k, v⟩ = true := by
  rw [List.any_eq_true]
  constructor
  · rintro ⟨⟨k, v⟩, hmem, hp⟩
    exact ⟨k, v, lookup_eq_some_iff.mpr hmem, hp⟩
  · rintro ⟨k, v, hmem, hp⟩
    exact ⟨⟨k, v⟩, lookup_eq_some_iff.mp hmem, hp⟩

end HashMap

end Connexa
