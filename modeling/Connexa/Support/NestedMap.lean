import Mathlib.Algebra.BigOperators.Group.List.Basic
import Mathlib.Algebra.Ring.Nat
import Connexa.Support.HashMap

/-!
# Maps of maps

A two-level map under a pair of keys.  Inserting creates the inner map where
it is missing; erasing leaves it behind, possibly empty, until it is pruned.
-/

namespace Connexa.HashMap

variable {K I V : Type} [DecidableEq K] [DecidableEq I]

def lookupAt (m : HashMap K (HashMap I V)) (k : K) (i : I) : Option V :=
  (m.lookup k).bind fun inner => inner.lookup i

/-- `m.entry(k).or_default().insert(i, v)` -/
def insertAt (m : HashMap K (HashMap I V)) (k : K) (i : I) (v : V) :
    HashMap K (HashMap I V) :=
  m.insert k (((m.lookup k).getD ∅).insert i v)

/-- Erase an entry of an inner map, if there is one. -/
def eraseAt (m : HashMap K (HashMap I V)) (k : K) (i : I) :
    HashMap K (HashMap I V) :=
  match m.lookup k with
  | none => m
  | some inner => m.insert k (inner.erase i)

/-- Drop an inner map that is empty. -/
def prune (m : HashMap K (HashMap I V)) (k : K) : HashMap K (HashMap I V) :=
  match m.lookup k with
  | none => m
  | some inner => if len inner = 0 then m.erase k else m

variable {m : HashMap K (HashMap I V)} {k k' : K} {i i' : I} {v : V}

theorem lookup_of_len_eq_zero {inner : HashMap I V} (h : len inner = 0) (i : I) :
    inner.lookup i = none := by
  have hempty : inner = ∅ := by
    cases inner with
    | mk entries nodup =>
        simp only [len, List.length_eq_zero_iff] at h
        subst h
        rfl
  rw [hempty, AList.lookup_empty]

theorem lookupAt_insertAt :
    lookupAt (insertAt m k i v) k' i' =
      if k' = k ∧ i' = i then some v else lookupAt m k' i' := by
  simp only [lookupAt, insertAt, lookup_insert]
  by_cases hk : k' = k
  · subst hk
    simp only [if_true, Option.bind_some, lookup_insert, true_and]
    cases hm : m.lookup k' with
    | none => simp
    | some inner => simp
  · simp [hk]

theorem lookupAt_eraseAt :
    lookupAt (eraseAt m k i) k' i' =
      if k' = k ∧ i' = i then none else lookupAt m k' i' := by
  simp only [lookupAt, eraseAt]
  by_cases hk : k' = k
  · subst hk
    cases hm : m.lookup k' with
    | none => simp [hm]
    | some inner => simp [lookup_erase]
  · cases hm : m.lookup k with
    | none => simp [hk]
    | some inner => simp [hk]

theorem lookupAt_prune : lookupAt (prune m k) k' i' = lookupAt m k' i' := by
  unfold prune
  split
  · rfl
  · next inner hinner =>
    split
    · next hempty =>
      simp only [lookupAt, lookup_erase]
      split
      · next hk =>
        subst hk
        rw [hinner, Option.bind_none, Option.bind_some,
          lookup_of_len_eq_zero hempty]
      · rfl
    · rfl

/-! ## Empty inner maps -/

/-- No key has an empty inner map. -/
def NoEmpty (m : HashMap K (HashMap I V)) : Prop :=
  ∀ k inner, m.lookup k = some inner → len inner ≠ 0

omit [DecidableEq I] in
theorem noEmpty_empty : NoEmpty (∅ : HashMap K (HashMap I V)) := by
  intro k inner h
  rw [AList.lookup_empty] at h
  cases h

theorem len_insert_ne_zero (inner : HashMap I V) (i : I) (v : V) :
    len (inner.insert i v) ≠ 0 := by
  by_cases h : i ∈ inner
  · rw [len_insert_of_mem h]
    intro hzero
    obtain ⟨u, hu⟩ := mem_iff_exists_lookup.mp h
    rw [lookup_of_len_eq_zero hzero] at hu
    cases hu
  · rw [len_insert_of_notMem h]
    exact Nat.succ_ne_zero _

theorem NoEmpty.insertAt (h : NoEmpty m) : NoEmpty (insertAt m k i v) := by
  intro k' inner hinner
  rw [HashMap.insertAt, lookup_insert] at hinner
  split at hinner
  · cases hinner
    exact len_insert_ne_zero _ i v
  · exact h k' inner hinner

omit [DecidableEq I] in
/-- A map of which only the inner map of one key may be empty, after pruning. -/
theorem noEmpty_prune
    (h : ∀ k' inner, k' ≠ k → m.lookup k' = some inner → len inner ≠ 0) :
    NoEmpty (prune m k) := by
  intro k' inner hinner
  unfold prune at hinner
  split at hinner
  · next hnone =>
    refine h k' inner ?_ hinner
    rintro rfl
    rw [hnone] at hinner
    cases hinner
  · next pruned hpruned =>
    split at hinner
    · obtain ⟨hk, hinner⟩ := lookup_erase_some.mp hinner
      exact h k' inner hk hinner
    · next hlen =>
      by_cases hk : k' = k
      · subst hk
        rw [hpruned] at hinner
        cases hinner
        exact hlen
      · exact h k' inner hk hinner

theorem NoEmpty.eraseAt_prune (h : NoEmpty m) : NoEmpty (prune (eraseAt m k i) k) := by
  refine noEmpty_prune fun k' inner hk hinner => h k' inner ?_
  unfold HashMap.eraseAt at hinner
  split at hinner
  · exact hinner
  · rwa [lookup_insert, if_neg hk] at hinner

theorem NoEmpty.eraseAt (h : NoEmpty m)
    (hothers : ∀ inner, m.lookup k = some inner → len (inner.erase i) ≠ 0) :
    NoEmpty (eraseAt m k i) := by
  intro k' inner hinner
  unfold HashMap.eraseAt at hinner
  split at hinner
  · exact h k' inner hinner
  · next old hold =>
    rw [lookup_insert] at hinner
    split at hinner
    · cases hinner
      exact hothers old hold
    · exact h k' inner hinner

/-- Number of entries of all inner maps. -/
def total (m : HashMap K (HashMap I V)) : ℕ :=
  ((values m).map len).sum

omit [DecidableEq I] in
theorem len_le_total (h : NoEmpty m) : len m ≤ total m := by
  have hpos : ∀ n ∈ (values m).map len, 1 ≤ n := by
    intro n hn
    obtain ⟨inner, hinner, rfl⟩ := List.mem_map.mp hn
    obtain ⟨k, hk⟩ := mem_values_iff.mp hinner
    exact Nat.one_le_iff_ne_zero.mpr (h k inner hk)
  calc
    len m = ((values m).map len).length := by simp [len, values]
    _ ≤ total m := List.length_le_sum_of_one_le _ hpos

end Connexa.HashMap
