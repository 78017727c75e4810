import Mathlib.Logic.Relation
import Connexa.Keystore.Keychain.Phases

/-!
# An empty cipher slot

Once the slot is empty and the lock is free, nothing changes any more: no
method fills the slot, none writes to the backend, and every call that asks for
the cipher is refused.
-/

namespace Connexa.Keystore.Keychain

variable {K : Type}

/-- The call got the error of an empty slot, or failed before it asked for the
lock. -/
def Refused (identity : Identity K) (disabled : Bool) (call : Call K)
    (result : Except Error (Value K)) : Prop :=
  result = .error ((beforeLock identity disabled call).getD unknownResult)

/-- What a call that returns after `s` may return: it had given up the lock
before, or it is refused. -/
def Accounted (identity : Identity K) (disabled : Bool) (s : Clones K)
    (call : Call K) (started : World K) (result : Except Error (Value K)) : Prop :=
  ⟨call, started, result⟩ ∈ s.returned ∨
    (∃ i task, s.tasks i = some task ∧ task.call = call ∧
      task.started = started ∧ .unlock ∈ task.ran) ∨
    Refused identity disabled call result

/-- A task for which the slot is not full: it has not looked at it, has found it
empty or had given up the lock before `s`. -/
def Kept (identity : Identity K) (disabled : Bool) (s : Clones K)
    (task : Task (Op K) Reply (Call K) (Except Error (Value K)) (World K)) : Prop :=
  ∃ p, InPhase identity disabled id task p ∧
    (p = .fresh ∨ (∃ guard, p = .asked guard) ∨ (∃ guard, p = .refused guard) ∨
      p = .passed ∧ ∃ i old, s.tasks i = some old ∧ old.call = task.call ∧
        old.started = task.started ∧ .unlock ∈ old.ran)

section Refusals

variable {identity : Identity K} {disabled : Bool} {env : Environment K}
  {lost : Option (Except Error (Value K))} {w w' : World K} {s t u : Clones K}
  {task : Task (Op K) Reply (Call K) (Except Error (Value K)) (World K)}

theorem kept_of_free
    (hs : System.Reachable (machine env) Op.kind (program identity disabled) lost w s)
    (hfree : ∀ i task, s.tasks i = some task → task.guard = .none) {i : ℕ}
    (htask : s.tasks i = some task) : Kept identity disabled s task := by
  obtain ⟨p, hp⟩ := exists_inPhase id hs htask
  have hnone : p.guard = .none := hp.guard_eq.symm.trans (hfree i task htask)
  refine ⟨p, hp, ?_⟩
  cases p with
  | fresh => exact Or.inl rfl
  | asked guard => exact Or.inr (Or.inl ⟨guard, rfl⟩)
  | refused guard => exact Or.inr (Or.inr (Or.inl ⟨guard, rfl⟩))
  | passed =>
      exact Or.inr (Or.inr (Or.inr ⟨rfl, i, task, htask, rfl, rfl, hp.ran.2⟩))
  | broken => exact absurd rfl (hp.follows.here)
  | _ => cases hnone

theorem step_of_free {o : Op K} {r : Reply o} (hkind : o.kind = .free)
    (h : World.step env o w r w') : w' = w := by
  cases o with
  | now => exact h.2
  | generate keyType => exact h.2
  | _ => cases hkind

/-- With an empty slot a task changes nothing and stays where it is not full. -/
theorem Kept.advance {o : Op K}
    {k : Reply o → Prog (Op K) Reply (Except Error (Value K))} {r : Reply o}
    (h : Kept identity disabled s task) (hprog : task.prog = .call o k)
    (hslot : w.cipher = none) (hstep : World.step env o w r w') :
    w' = w ∧ Kept identity disabled s (task.advance Op.kind o (k r)) := by
  obtain ⟨p, hp, hphase⟩ := h
  obtain ⟨hnext, hp'⟩ := hp.advance hprog r
  generalize hq : p.next o r = q at hnext hp'
  rcases hphase with rfl | ⟨guard, rfl⟩ | ⟨guard, rfl⟩ | ⟨rfl, hold⟩
  · cases hnext with
    | free hkind _ => exact ⟨step_of_free hkind hstep, .fresh, hp', Or.inl rfl⟩
    | read hkind hquiet hphase => simp at hphase
    | readLock => exact ⟨hstep, _, hp', Or.inr (Or.inl ⟨_, rfl⟩)⟩
    | writeLock => exact ⟨hstep, _, hp', Or.inr (Or.inl ⟨_, rfl⟩)⟩
  · -- the slot is empty, so the task is refused
    have hrefused : o = .cipher ∧ q = .refused guard := by
      cases hnext with
      | free hkind hphase => simp at hphase
      | read hkind hquiet hphase => simp at hphase
      | refused => exact ⟨rfl, rfl⟩
      | readable =>
          obtain ⟨rfl, -⟩ := hstep
          rw [hslot] at hq
          cases hq
      | writable =>
          obtain ⟨rfl, -⟩ := hstep
          rw [hslot] at hq
          cases hq
    obtain ⟨rfl, rfl⟩ := hrefused
    exact ⟨hstep.2, _, hp', Or.inr (Or.inr (Or.inl ⟨guard, rfl⟩))⟩
  · cases hnext with
    | free hkind hphase => simp at hphase
    | read hkind hquiet hphase => simp at hphase
  · cases hnext with
    | free hkind _ =>
        exact ⟨step_of_free hkind hstep, .passed, hp',
          Or.inr (Or.inr (Or.inr ⟨rfl, hold⟩))⟩
    | read hkind hquiet hphase => simp at hphase

theorem Kept.detached_eq (h : Kept identity disabled s task) :
    task.detached = false := by
  obtain ⟨p, hp, hphase⟩ := h
  rw [hp.detached_eq]
  rcases hphase with rfl | ⟨guard, rfl⟩ | ⟨guard, rfl⟩ | ⟨rfl, -⟩
  · rfl
  · rfl
  · rfl
  · rfl

theorem Kept.accounted {result : Except Error (Value K)}
    (h : Kept identity disabled s task) (hprog : task.prog = .done result) :
    Accounted identity disabled s task.call task.started result := by
  obtain ⟨p, hp, hphase⟩ := h
  have hends := hp.follows
  rw [hprog] at hends
  rcases hphase with rfl | ⟨guard, rfl⟩ | ⟨guard, rfl⟩ | ⟨rfl, hold⟩
  · obtain ⟨e, hlock, rfl⟩ := hends.2
    refine Or.inr (Or.inr ?_)
    rw [Refused, show beforeLock identity disabled task.call = some e from hlock]
    rfl
  · exact hends.2.elim
  · obtain ⟨hlock, rfl⟩ := hends.2
    refine Or.inr (Or.inr ?_)
    rw [Refused, show beforeLock identity disabled task.call = none from hlock]
    rfl
  · exact Or.inr (Or.inl hold)

/-- Everything that has happened since `s`. -/
structure Stuck (identity : Identity K) (disabled : Bool) (s t : Clones K) :
    Prop where
  world_eq : t.world = s.world
  kept : ∀ i task, t.tasks i = some task → Kept identity disabled s task
  accounted : ∀ e ∈ t.returned,
    Accounted identity disabled s e.call e.started e.result

theorem Stuck.step (h : Stuck identity disabled s t) (hslot : s.world.cipher = none)
    (hstep : System.Step (machine env) Op.kind (program identity disabled) lost t u) :
    Stuck identity disabled s u := by
  -- all tasks but the one that takes the step are old ones
  have hkept : ∀ i now, (∀ task, now = some task → Kept identity disabled s task) →
      ∀ (v : Clones K), v.tasks = t.tasks → ∀ j task,
        (v.setTask i now).tasks j = some task → Kept identity disabled s task := by
    intro i now hnow v hv j task htask
    rw [System.tasks_setTask] at htask
    split at htask
    · exact hnow task htask
    · rw [hv] at htask
      exact h.kept j task htask
  have hgone := fun i => hkept i none fun _ hnone => by cases hnone
  cases hstep with
  | start i call hfree =>
      refine ⟨h.world_eq, hkept i _ ?_ t rfl, h.accounted⟩
      rintro task ⟨⟩
      exact ⟨.fresh, ⟨follows_program identity disabled call, rfl, rfl, nofun, nofun⟩,
        Or.inl rfl⟩
  | @run i task o k r v htask hprog hgrants hstep =>
      obtain ⟨rfl, hadvance⟩ := (h.kept i task htask).advance hprog
        (h.world_eq ▸ hslot) hstep
      refine ⟨h.world_eq, hkept i _ ?_ t rfl, h.accounted⟩
      rintro _ ⟨⟩
      exact hadvance
  | @finish i task result htask hprog =>
      refine ⟨h.world_eq, hgone i { t with returned := _ } rfl, ?_⟩
      intro e he
      rcases List.mem_append.mp he with he | he
      · exact h.accounted e he
      · rw [Task.returns] at he
        split at he
        · rw [List.mem_singleton] at he
          subst he
          exact (h.kept i task htask).accounted hprog
        · cases he
  | drop htask hdetached => exact ⟨h.world_eq, hgone _ t rfl, h.accounted⟩
  | leave htask hdetached =>
      rw [(h.kept _ _ htask).detached_eq] at hdetached
      cases hdetached
  | stop htask hdetached hlost =>
      rw [(h.kept _ _ htask).detached_eq] at hdetached
      cases hdetached

/-- From an empty slot and a free lock on nothing changes, and calls are
refused. -/
theorem stuck_of_empty
    (hs : System.Reachable (machine env) Op.kind (program identity disabled) lost w s)
    (hslot : s.world.cipher = none)
    (hfree : ∀ i task, s.tasks i = some task → task.guard = .none)
    (hrun : Relation.ReflTransGen
      (System.Step (machine env) Op.kind (program identity disabled) lost) s t) :
    Stuck identity disabled s t := by
  induction hrun with
  | refl =>
      exact ⟨rfl, fun i task htask => kept_of_free hs hfree htask,
        fun e he => Or.inl he⟩
  | tail _ hstep ih => exact ih.step hslot hstep

end Refusals

end Connexa.Keystore.Keychain
