import Connexa.Support.HashMap

/-!
# Directories with unsynced updates

A directory is the state that is safely on disk and the updates applied since
then.  A crash keeps some prefix of the updates; syncing makes all of them
durable.  `Sees` collects the states in which the directory may be found: all
prefixes where updates can be lost, the current one where they cannot.
-/

namespace Connexa

/-- One atomic update: the new value of each name it touches. -/
abbrev DirUpdate (N X : Type) := List (N × Option X)

/-- A directory with names `N` and nodes `X`. -/
structure Dir (N X : Type) where
  durable : HashMap N X
  pending : List (DirUpdate N X)

namespace Dir

open HashMap

variable {N X : Type} [DecidableEq N]

/-- Give one name its new value. -/
def assign (m : HashMap N X) (name : N) (value : Option X) : HashMap N X :=
  match value with
  | some x => m.insert name x
  | none => m.erase name

def applyUpdate (m : HashMap N X) (u : DirUpdate N X) : HashMap N X :=
  u.foldl (fun m e => assign m e.1 e.2) m

/-- The state after the first `k` pending updates. -/
def viewAt (d : Dir N X) (k : ℕ) : HashMap N X :=
  (d.pending.take k).foldl applyUpdate d.durable

/-- The state as running programs see it. -/
def view (d : Dir N X) : HashMap N X :=
  d.pending.foldl applyUpdate d.durable

/-- Apply an update without syncing it. -/
def push (u : DirUpdate N X) (d : Dir N X) : Dir N X :=
  { d with pending := d.pending ++ [u] }

/-- Make all updates durable. -/
def sync (d : Dir N X) : Dir N X :=
  ⟨d.view, []⟩

/-- A directory without unsynced updates. -/
def synced (m : HashMap N X) : Dir N X :=
  ⟨m, []⟩

/-- After a crash the first `k` updates are kept, the first `j` of them safely
on disk. -/
def Crash (d d' : Dir N X) : Prop :=
  ∃ j k, j ≤ k ∧ k ≤ d.pending.length ∧
    d' = ⟨d.viewAt j, (d.pending.take k).drop j⟩

/-- The directory may be found in this state. -/
def Sees (lossy : Bool) (d : Dir N X) (v : HashMap N X) : Prop :=
  if lossy then ∃ k ≤ d.pending.length, v = d.viewAt k else v = d.view

/-- Once `P` holds along the pending updates, it goes on to hold. -/
def Stays (lossy : Bool) (P : HashMap N X → Prop) (d : Dir N X) : Prop :=
  lossy = true → ∀ a b, a ≤ b → b ≤ d.pending.length →
    P (d.viewAt a) → P (d.viewAt b)

/-! ## Lookup after an update -/

@[simp] theorem lookup_assign (m : HashMap N X) (name other : N)
    (value : Option X) :
    (assign m name value).lookup other =
      if other = name then value else m.lookup other := by
  cases value with
  | some x => exact HashMap.lookup_insert m name other x
  | none => exact HashMap.lookup_erase m name other

@[simp] theorem applyUpdate_nil (m : HashMap N X) : applyUpdate m [] = m := rfl

@[simp] theorem applyUpdate_cons (m : HashMap N X) (e : N × Option X)
    (u : DirUpdate N X) :
    applyUpdate m (e :: u) = applyUpdate (assign m e.1 e.2) u := rfl

/-! ## Views -/

theorem viewAt_length (d : Dir N X) : d.viewAt d.pending.length = d.view := by
  rw [viewAt, view, List.take_length]

@[simp] theorem view_push (u : DirUpdate N X) (d : Dir N X) :
    (d.push u).view = applyUpdate d.view u := by
  simp [push, view]

@[simp] theorem view_sync (d : Dir N X) : d.sync.view = d.view := rfl

@[simp] theorem view_synced (m : HashMap N X) : (synced m).view = m := rfl

theorem viewAt_push {u : DirUpdate N X} {d : Dir N X} {k : ℕ}
    (hk : k ≤ d.pending.length) : (d.push u).viewAt k = d.viewAt k := by
  simp only [viewAt, push]
  rw [List.take_append_of_le_length hk]

theorem sees_view (lossy : Bool) (d : Dir N X) : Sees lossy d d.view := by
  cases lossy with
  | true => exact ⟨_, le_refl _, (viewAt_length d).symm⟩
  | false => rfl

theorem sees_push {lossy : Bool} {u : DirUpdate N X} {d : Dir N X}
    {v : HashMap N X} (h : Sees lossy (d.push u) v) :
    Sees lossy d v ∨ v = applyUpdate d.view u := by
  cases lossy with
  | false => exact Or.inr (h.trans (view_push u d))
  | true =>
      obtain ⟨k, hk, rfl⟩ := h
      have hlen : (d.push u).pending.length = d.pending.length + 1 := by
        simp [push]
      rcases Nat.lt_or_ge d.pending.length k with hlt | hle
      · right
        have hlast : k = (d.push u).pending.length := by omega
        rw [hlast, viewAt_length, view_push]
      · exact Or.inl ⟨k, hle, viewAt_push hle⟩

theorem sees_sync {lossy : Bool} {d : Dir N X} {v : HashMap N X}
    (h : Sees lossy d.sync v) : v = d.view := by
  cases lossy with
  | false => exact h
  | true =>
      obtain ⟨k, -, rfl⟩ := h
      simp [viewAt, sync]

theorem sees_synced {lossy : Bool} {m v : HashMap N X}
    (h : Sees lossy (synced m) v) : v = m := by
  cases lossy with
  | false => exact h
  | true =>
      obtain ⟨k, -, rfl⟩ := h
      simp [viewAt, synced]

theorem stays_sync (lossy : Bool) (P : HashMap N X → Prop) (d : Dir N X) :
    Stays lossy P d.sync := by
  intro _ a b _ _ h
  simpa [viewAt, sync] using h

theorem stays_of_never {lossy : Bool} {P : HashMap N X → Prop} {d : Dir N X}
    (h : ∀ v, Sees lossy d v → ¬P v) : Stays lossy P d := by
  rintro rfl a b hab hb ha
  exact absurd ha (h _ ⟨a, hab.trans hb, rfl⟩)

theorem stays_push {lossy : Bool} {P : HashMap N X → Prop} {d : Dir N X}
    {u : DirUpdate N X} (h : Stays lossy P d)
    (hu : P d.view → P (applyUpdate d.view u)) :
    Stays lossy P (d.push u) := by
  intro hlossy a b hab hb ha
  have hlen : (d.push u).pending.length = d.pending.length + 1 := by
    simp [push]
  rcases Nat.lt_or_ge d.pending.length b with hlt | hle
  · have hlast : b = (d.push u).pending.length := by omega
    rw [hlast, viewAt_length, view_push]
    rcases Nat.lt_or_ge d.pending.length a with hlta | hlea
    · have ha' : a = (d.push u).pending.length := by omega
      rwa [ha', viewAt_length, view_push] at ha
    · rw [viewAt_push hlea] at ha
      apply hu
      rw [← viewAt_length]
      exact h hlossy a _ hlea le_rfl ha
  · rw [viewAt_push hle]
    rw [viewAt_push (hab.trans hle)] at ha
    exact h hlossy a b hab hle ha

/-! ## Crashes -/

theorem viewAt_crash {d : Dir N X} {j k a : ℕ} (ha : a ≤ k - j) :
    viewAt ⟨d.viewAt j, (d.pending.take k).drop j⟩ a = d.viewAt (j + a) := by
  have htake : (d.pending.take (j + a)) =
      d.pending.take j ++ ((d.pending.take k).drop j).take a := by
    rw [List.take_add, List.drop_take, List.take_take, min_eq_left ha]
  simp only [viewAt]
  rw [htake, List.foldl_append]

theorem Crash.sees {d d' : Dir N X} {v : HashMap N X} (h : Crash d d')
    (hv : Sees true d' v) : Sees true d v := by
  obtain ⟨j, k, hjk, hk, rfl⟩ := h
  obtain ⟨a, ha, rfl⟩ := hv
  have ha' : a ≤ k - j := by
    rw [List.length_drop, List.length_take] at ha
    omega
  exact ⟨j + a, by omega, viewAt_crash ha'⟩

theorem Crash.stays {d d' : Dir N X} {P : HashMap N X → Prop}
    (h : Crash d d') (hP : Stays true P d) : Stays true P d' := by
  obtain ⟨j, k, hjk, hk, rfl⟩ := h
  intro _ a b hab hb ha
  have hb' : b ≤ k - j := by
    rw [List.length_drop, List.length_take] at hb
    omega
  rw [viewAt_crash hb']
  rw [viewAt_crash (hab.trans hb')] at ha
  exact hP rfl _ _ (by omega) (by omega) ha

/-- A process crash loses nothing. -/
theorem Crash.refl (d : Dir N X) : Crash d d :=
  ⟨0, d.pending.length, Nat.zero_le _, le_refl _, by simp [viewAt]⟩

/-- If `P` fails at the end of the updates, it fails in every seen state. -/
theorem Stays.not_of_not_view {d : Dir N X} {P : HashMap N X → Prop}
    (h : Stays true P d) (hview : ¬P d.view) {v : HashMap N X}
    (hv : Sees true d v) : ¬P v := by
  obtain ⟨k, hk, rfl⟩ := hv
  intro hP
  apply hview
  rw [← viewAt_length]
  exact h rfl k _ hk le_rfl hP

end Dir

end Connexa
