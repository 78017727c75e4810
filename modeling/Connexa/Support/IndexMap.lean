import Connexa.Support.NestedMap

/-!
# Maps that keep the order of insertion

An `IndexMap` is iterated in the order in which its keys were first inserted,
so a new key comes last and a known one keeps its place.  `erase` is its
`shift_remove`, which leaves the order of the others alone.
-/

namespace Connexa.HashMap

variable {K I V : Type} [DecidableEq K] [DecidableEq I]

/-- `IndexMap::insert` -/
def insertLast (m : HashMap K V) (k : K) (v : V) : HashMap K V :=
  match h : m.lookup k with
  | some _ => update (fun j u => if j = k then v else u) m
  | none =>
      { entries := m.entries ++ [⟨k, v⟩]
        nodupKeys := by
          have hkey : k ∉ m.keys :=
            fun hmem => AList.lookup_eq_none.mp h (AList.mem_keys.mpr hmem)
          rw [List.NodupKeys, List.keys, List.map_append]
          exact m.nodupKeys.append (List.nodup_singleton k)
            (List.disjoint_singleton.mpr hkey) }

/-- `m.entry(k).or_default().insert(i, v)` -/
def insertLastAt (m : HashMap K (HashMap I V)) (k : K) (i : I) (v : V) :
    HashMap K (HashMap I V) :=
  insertLast m k (insertLast ((m.lookup k).getD ∅) i v)

/-- Erase an entry of an inner map in its place, if there is one. -/
def shiftRemoveAt (m : HashMap K (HashMap I V)) (k : K) (i : I) :
    HashMap K (HashMap I V) :=
  update (fun j inner => if j = k then inner.erase i else inner) m

section Lookup

variable {m : HashMap K V} {k j : K} {v : V}

theorem lookup_update (f : K → V → V) (m : HashMap K V) (k : K) :
    (update f m).lookup k = (m.lookup k).map (f k) := by
  cases h : m.lookup k with
  | some v => exact lookup_update_some.mpr ⟨v, h, rfl⟩
  | none =>
      rw [Option.map_none, Option.eq_none_iff_forall_ne_some]
      intro u hu
      obtain ⟨v, hv, -⟩ := lookup_update_some.mp hu
      rw [h] at hv
      cases hv

theorem lookup_insertLast (m : HashMap K V) (k j : K) (v : V) :
    (insertLast m k v).lookup j = if j = k then some v else m.lookup j := by
  unfold insertLast
  split
  · next u hu =>
    rw [lookup_update]
    split
    · next hj => rw [hj, hu, Option.map_some]
    · simp
  · next hnone =>
    refine Option.ext fun w => ?_
    rw [lookup_eq_some_iff, List.mem_append, List.mem_singleton, ← lookup_eq_some_iff]
    split
    · next hj =>
      subst hj
      simp [hnone, eq_comm]
    · next hj => simp [hj]

/-- A new key comes last, and a known one keeps its place. -/
theorem keys_insertLast :
    (insertLast m k v).keys = if k ∈ m then m.keys else m.keys ++ [k] := by
  unfold insertLast
  split
  · next u hu =>
    rw [if_pos (mem_of_lookup hu)]
    simp [update, AList.keys, List.keys, Function.comp_def]
  · next hnone =>
    rw [if_neg (AList.lookup_eq_none.mp hnone)]
    simp [AList.keys, List.keys]

theorem mem_insertLast : j ∈ insertLast m k v ↔ j = k ∨ j ∈ m := by
  rw [mem_iff_exists_lookup, lookup_insertLast]
  split
  · next hj => simp [hj]
  · next hj => simp [hj, mem_iff_exists_lookup]

end Lookup

section Nested

variable {m : HashMap K (HashMap I V)} {k k' : K} {i i' : I} {v : V}

theorem lookupAt_insertLastAt :
    lookupAt (insertLastAt m k i v) k' i' =
      if k' = k ∧ i' = i then some v else lookupAt m k' i' := by
  simp only [lookupAt, insertLastAt, lookup_insertLast]
  by_cases hk : k' = k
  · subst hk
    simp only [if_true, Option.bind_some, lookup_insertLast, true_and]
    cases hm : m.lookup k' with
    | none => simp
    | some inner => simp
  · simp [hk]

theorem lookup_shiftRemoveAt :
    (shiftRemoveAt m k i).lookup k' =
      if k' = k then (m.lookup k').map fun inner => inner.erase i else m.lookup k' := by
  rw [shiftRemoveAt, lookup_update]
  split <;> simp

theorem lookupAt_shiftRemoveAt :
    lookupAt (shiftRemoveAt m k i) k' i' =
      if k' = k ∧ i' = i then none else lookupAt m k' i' := by
  simp only [lookupAt, lookup_shiftRemoveAt]
  by_cases hk : k' = k
  · subst hk
    cases hm : m.lookup k' with
    | none => simp
    | some inner => simp [lookup_erase]
  · simp [hk]

theorem mem_shiftRemoveAt : k' ∈ shiftRemoveAt m k i ↔ k' ∈ m := by
  rw [mem_iff_exists_lookup, mem_iff_exists_lookup, lookup_shiftRemoveAt]
  split
  · simp
  · rfl

theorem len_insertLast_ne_zero (inner : HashMap I V) (i : I) (v : V) :
    len (insertLast inner i v) ≠ 0 := by
  intro hzero
  have hnone := lookup_of_len_eq_zero hzero i
  rw [lookup_insertLast, if_pos rfl] at hnone
  cases hnone

theorem NoEmpty.insertLastAt (h : NoEmpty m) : NoEmpty (insertLastAt m k i v) := by
  intro k' inner hinner
  rw [HashMap.insertLastAt, lookup_insertLast] at hinner
  split at hinner
  · cases hinner
    exact len_insertLast_ne_zero _ i v
  · exact h k' inner hinner

theorem NoEmpty.shiftRemoveAt_prune (h : NoEmpty m) :
    NoEmpty (prune (shiftRemoveAt m k i) k) := by
  refine noEmpty_prune fun k' inner hk hinner => h k' inner ?_
  rwa [lookup_shiftRemoveAt, if_neg hk] at hinner

end Nested

end Connexa.HashMap
