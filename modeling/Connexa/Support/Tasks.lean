import Connexa.Support.Program

/-!
# Tasks that share a world under a readers-writer lock

Any number of tasks run programs over a shared world, one operation at a time
and in any order.  A caller may be dropped at any point: its task ends there
and gives up its guard, unless it has detached, in which case it goes on on
its own.
-/

namespace Connexa

/-- What a task holds of the lock. -/
inductive Guard where
  | none
  | read
  | write
  deriving DecidableEq

/-- What an operation means to the lock. -/
inductive OpKind where
  /-- It does not touch the world. -/
  | free
  /-- It works on the world under a guard. -/
  | shared
  | lockRead
  | lockWrite
  | unlock
  /-- From here on the task does not depend on its caller. -/
  | detach
  deriving DecidableEq

/-- The guard after an operation. -/
def OpKind.next : OpKind → Guard → Guard
  | .lockRead, _ => .read
  | .lockWrite, _ => .write
  | .unlock, _ => .none
  | _, guard => guard

theorem OpKind.next_cases (kind : OpKind) (guard : Guard) :
    kind = .lockRead ∧ kind.next guard = .read ∨
      kind = .lockWrite ∧ kind.next guard = .write ∨
      kind = .unlock ∧ kind.next guard = .none ∨ kind.next guard = guard := by
  cases kind <;> simp [OpKind.next]

/-! ## Programs among others -/

namespace Machine

variable {Op : Type} {R : Op → Type} {α β ε σ : Type}

/-- Every operation of the program keeps `C`, in whatever state with `C` the
others have left the world, and `Q` holds of the result. -/
def Keeps (M : Machine Op R σ) (C : σ → Prop) (Q : α → Prop) : Prog Op R α → Prop
  | .done a => Q a
  | .call o k => ∀ s r t, C s → M.step o s r t → C t ∧ M.Keeps C Q (k r)

variable {M : Machine Op R σ} {C : σ → Prop} {Q : α → Prop}

theorem Keeps.bind {p : Prog Op R α} {f : α → Prog Op R β} {Q' : β → Prop}
    (hp : M.Keeps C Q p) (hf : ∀ a, Q a → M.Keeps C Q' (f a)) :
    M.Keeps C Q' (p >>= f) := by
  induction p with
  | done a => exact hf a hp
  | call o k ih =>
      intro s r t hs hstep
      obtain ⟨ht, hrest⟩ := hp s r t hs hstep
      exact ⟨ht, ih r hrest⟩

theorem Keeps.mono {p : Prog Op R α} {Q' : α → Prop} (hp : M.Keeps C Q p)
    (hQ : ∀ a, Q a → Q' a) : M.Keeps C Q' p := by
  rw [← bind_pure p]
  exact hp.bind hQ

theorem keeps_of_calls {P : Op → Prop} {p : Prog Op R α}
    (hstep : ∀ o s r t, P o → C s → M.step o s r t → C t) (hp : p.Calls P) :
    M.Keeps C (fun _ => True) p := by
  induction p with
  | done a => trivial
  | call o k ih =>
      exact fun s r t hs ht => ⟨hstep o s r t hp.1 hs ht, ih r (hp.2 r)⟩

/-- Sequencing: an error ends the program. -/
theorem Keeps.bindExcept {x : ExceptT ε (Prog Op R) α}
    {f : α → ExceptT ε (Prog Op R) β} {P : α → Prop} {P' : β → Prop}
    (hx : M.Keeps C (fun r => ∀ a, r = .ok a → P a) x.run)
    (hf : ∀ a, P a → M.Keeps C (fun r => ∀ b, r = .ok b → P' b) (f a).run) :
    M.Keeps C (fun r => ∀ b, r = .ok b → P' b) (x >>= f).run := by
  refine Keeps.bind hx ?_
  intro r hr
  cases r with
  | ok a => exact hf a (hr a rfl)
  | error e => exact nofun

/-- The machine, as far as it gives replies that are allowed. -/
def only (M : Machine Op R σ) (allowed : (o : Op) → R o → Prop) : Machine Op R σ where
  step o s r t := M.step o s r t ∧ allowed o r

theorem Keeps.only {p : Prog Op R α} {allowed : (o : Op) → R o → Prop}
    (hp : M.Keeps C Q p) : (M.only allowed).Keeps C Q p := by
  induction p with
  | done a => exact hp
  | call o k ih =>
      intro s r t hs hstep
      obtain ⟨ht, hrest⟩ := hp s r t hs hstep.1
      exact ⟨ht, ih r hrest⟩

end Machine

structure Task (Op : Type) (R : Op → Type) (κ α σ : Type) where
  call : κ
  prog : Prog Op R α
  guard : Guard
  detached : Bool
  /-- The caller still waits for the result. -/
  awaited : Bool
  /-- What the task has done so far. -/
  ran : List Op
  /-- The world in which the call was made. -/
  started : σ

/-- A call that has returned to its caller. -/
structure Return (κ α σ : Type) where
  call : κ
  started : σ
  result : α

/-- The tasks, their world and the calls that have returned. -/
structure System (Op : Type) (R : Op → Type) (κ α σ : Type) where
  world : σ
  tasks : ℕ → Option (Task Op R κ α σ)
  returned : List (Return κ α σ)

variable {Op : Type} {R : Op → Type} {κ α σ : Type}

namespace Task

/-- The task of a call that was just made. -/
def new (program : κ → Prog Op R α) (call : κ) (w : σ) : Task Op R κ α σ :=
  ⟨call, program call, .none, false, true, [], w⟩

/-- The task after an operation, with the rest of its program. -/
def advance (kind : Op → OpKind) (task : Task Op R κ α σ) (o : Op)
    (rest : Prog Op R α) : Task Op R κ α σ :=
  { task with
    prog := rest
    guard := (kind o).next task.guard
    detached := task.detached || decide (kind o = OpKind.detach)
    ran := task.ran ++ [o] }

/-- What the caller receives, if it still waits. -/
def returns (task : Task Op R κ α σ) (result : α) : List (Return κ α σ) :=
  if task.awaited then [⟨task.call, task.started, result⟩] else []

end Task

namespace System

def setTask (s : System Op R κ α σ) (i : ℕ)
    (task : Option (Task Op R κ α σ)) : System Op R κ α σ :=
  { s with tasks := fun j => if j = i then task else s.tasks j }

theorem tasks_setTask (s : System Op R κ α σ) (i j : ℕ)
    (task : Option (Task Op R κ α σ)) :
    (s.setTask i task).tasks j = if j = i then task else s.tasks j := rfl

/-- The lock can be taken. -/
def Grants (s : System Op R κ α σ) : OpKind → Prop
  | .lockRead => ∀ j task, s.tasks j = some task → task.guard ≠ .write
  | .lockWrite => ∀ j task, s.tasks j = some task → task.guard = .none
  | _ => True

/-- One step of the system.  A detached task may be stopped if `lost` says
what its caller then receives. -/
inductive Step (M : Machine Op R σ) (kind : Op → OpKind)
    (program : κ → Prog Op R α) (lost : Option α) :
    System Op R κ α σ → System Op R κ α σ → Prop where
  | start {s} (i : ℕ) (call : κ) (hfree : s.tasks i = none) :
      Step M kind program lost s
        (s.setTask i (some (.new program call s.world)))
  | run {s} {i : ℕ} {task : Task Op R κ α σ} {o : Op} {k : R o → Prog Op R α}
      {r : R o} {w : σ} (htask : s.tasks i = some task)
      (hprog : task.prog = .call o k) (hgrants : s.Grants (kind o))
      (hstep : M.step o s.world r w) :
      Step M kind program lost s
        ({ s with world := w }.setTask i (some (task.advance kind o (k r))))
  | finish {s} {i : ℕ} {task : Task Op R κ α σ} {a : α}
      (htask : s.tasks i = some task) (hprog : task.prog = .done a) :
      Step M kind program lost s
        ({ s with returned := s.returned ++ task.returns a }.setTask i none)
  | drop {s} {i : ℕ} {task : Task Op R κ α σ} (htask : s.tasks i = some task)
      (hdetached : task.detached = false) :
      Step M kind program lost s (s.setTask i none)
  | leave {s} {i : ℕ} {task : Task Op R κ α σ} (htask : s.tasks i = some task)
      (hdetached : task.detached = true) :
      Step M kind program lost s
        (s.setTask i (some { task with awaited := false }))
  | stop {s} {i : ℕ} {task : Task Op R κ α σ} {a : α}
      (htask : s.tasks i = some task) (hdetached : task.detached = true)
      (hlost : lost = some a) :
      Step M kind program lost s
        ({ s with returned := s.returned ++ task.returns a }.setTask i none)

/-- The systems that can be reached from a world without tasks. -/
inductive Reachable (M : Machine Op R σ) (kind : Op → OpKind)
    (program : κ → Prog Op R α) (lost : Option α) (w : σ) :
    System Op R κ α σ → Prop where
  | init : Reachable M kind program lost w ⟨w, fun _ => none, []⟩
  | step {s s'} (hs : Reachable M kind program lost w s)
      (hstep : Step M kind program lost s s') :
      Reachable M kind program lost w s'

variable {M : Machine Op R σ} {kind : Op → OpKind} {program : κ → Prog Op R α}
  {lost : Option α} {w : σ} {s : System Op R κ α σ}

/-- What every task has from its start on. -/
theorem Reachable.tasks {T : Task Op R κ α σ → Prop}
    (hs : Reachable M kind program lost w s)
    (hnew : ∀ call w, T (.new program call w))
    (hadvance : ∀ task o k r, T task → task.prog = .call o k →
      T (task.advance kind o (k r)))
    (hleave : ∀ task, T task → T { task with awaited := false }) {i : ℕ}
    {task : Task Op R κ α σ} (htask : s.tasks i = some task) : T task := by
  induction hs generalizing i task with
  | init => cases htask
  | step _ hstep ih =>
      -- only the task that takes the step is a new one
      cases hstep with
      | start j call hfree =>
          rw [tasks_setTask] at htask
          split at htask
          · cases htask
            exact hnew _ _
          · exact ih htask
      | @run j old o k r w hold hprog hgrants hstep =>
          rw [tasks_setTask] at htask
          split at htask
          · cases htask
            exact hadvance old o k r (ih hold) hprog
          · exact ih htask
      | leave hold hdetached =>
          rw [tasks_setTask] at htask
          split at htask
          · cases htask
            exact hleave _ (ih hold)
          · exact ih htask
      | finish hold hprog =>
          rw [tasks_setTask] at htask
          split at htask
          · cases htask
          · exact ih htask
      | drop hold hdetached =>
          rw [tasks_setTask] at htask
          split at htask
          · cases htask
          · exact ih htask
      | stop hold hdetached hlost =>
          rw [tasks_setTask] at htask
          split at htask
          · cases htask
          · exact ih htask

/-- A task goes away when it is done, dropped or stopped, and nothing else
changes. -/
theorem Step.gone {s' : System Op R κ α σ}
    (hstep : Step M kind program lost s s') {i : ℕ} {task : Task Op R κ α σ}
    (htask : s.tasks i = some task) (hgone : s'.tasks i = none) :
    ((∃ a, task.prog = .done a) ∨ task.detached = false ∨
      task.detached = true ∧ lost ≠ none) ∧
      s'.world = s.world ∧ ∀ j, j ≠ i → s'.tasks j = s.tasks j := by
  -- the step is one of the task itself, and leaves none in its place
  have hset : ∀ (u : System Op R κ α σ) j now, u.tasks = s.tasks →
      (u.setTask j now).tasks i = none → j = i ∧ now = none := by
    intro u j now hu hnone
    rw [tasks_setTask] at hnone
    split at hnone
    · next hi => exact ⟨hi.symm, hnone⟩
    · rw [hu, htask] at hnone
      cases hnone
  cases hstep with
  | start j call hfree => cases (hset s j _ rfl hgone).2
  | run hold hprog hgrants hstep => cases (hset { s with world := _ } _ _ rfl hgone).2
  | leave hold hdetached => cases (hset s _ _ rfl hgone).2
  | finish hold hprog =>
      obtain ⟨rfl, -⟩ := hset { s with returned := _ } _ none rfl hgone
      rw [htask] at hold
      cases hold
      exact ⟨Or.inl ⟨_, hprog⟩, rfl, fun j hj => if_neg hj⟩
  | drop hold hdetached =>
      obtain ⟨rfl, -⟩ := hset s _ none rfl hgone
      rw [htask] at hold
      cases hold
      exact ⟨Or.inr (Or.inl hdetached), rfl, fun j hj => if_neg hj⟩
  | stop hold hdetached hlost =>
      obtain ⟨rfl, -⟩ := hset { s with returned := _ } _ none rfl hgone
      rw [htask] at hold
      cases hold
      exact ⟨Or.inr (Or.inr ⟨hdetached, by simp [hlost]⟩), rfl, fun j hj => if_neg hj⟩

/-- A task that has done one thing goes on with the rest of its program. -/
theorem Reachable.prog_of_ran (hs : Reachable M kind program lost w s) {i : ℕ}
    {task : Task Op R κ α σ} (htask : s.tasks i = some task) {o : Op}
    (hran : task.ran = [o]) :
    ∃ k r, program task.call = .call o k ∧ task.prog = k r := by
  have hboth : (task.ran = [] → task.prog = program task.call) ∧
      ∀ o, task.ran = [o] → ∃ k r, program task.call = .call o k ∧ task.prog = k r := by
    refine hs.tasks (T := fun task : Task Op R κ α σ =>
      (task.ran = [] → task.prog = program task.call) ∧ ∀ o, task.ran = [o] →
        ∃ k r, program task.call = .call o k ∧ task.prog = k r) ?_ ?_ ?_ htask
    · intro call w
      exact ⟨fun _ => rfl, nofun⟩
    · rintro task o k r ⟨hnew, -⟩ hprog
      refine ⟨fun hnil => by simp [Task.advance] at hnil, fun o' hone => ?_⟩
      obtain ⟨hnil, rfl⟩ : task.ran = [] ∧ o = o' := by
        simpa [Task.advance, List.append_eq_singleton_iff] using hone
      exact ⟨k, r, (hnew hnil).symm.trans hprog, rfl⟩
    · intro task h
      exact h
  exact hboth.2 o hran

/-! ## Runs with what the calls are told -/

/-- The systems that are reached when a call is only told what is allowed for it. -/
inductive ReachableWhere (M : Machine Op R σ) (allowed : κ → (o : Op) → R o → Prop)
    (kind : Op → OpKind) (program : κ → Prog Op R α) (lost : Option α) (w : σ) :
    System Op R κ α σ → Prop where
  | init : ReachableWhere M allowed kind program lost w ⟨w, fun _ => none, []⟩
  | step {s s'} {call : κ} (hs : ReachableWhere M allowed kind program lost w s)
      (hstep : Step (M.only (allowed call)) kind program lost s s')
      (hothers : ∀ i task, s.tasks i = some task → task.call ≠ call →
        s'.tasks i = some task) :
      ReachableWhere M allowed kind program lost w s'

variable {allowed : κ → (o : Op) → R o → Prop}

/-- A step, as one of the call whose task takes it. -/
theorem Step.exists_call {M' : Machine Op R σ} {s s' : System Op R κ α σ}
    (hstep : Step M kind program lost s s')
    (hallowed : ∀ i task o k r t, s.tasks i = some task → task.prog = .call o k →
      M.step o s.world r t → M'.step o s.world r t ∧ allowed task.call o r) :
    ∃ call, Step (M'.only (allowed call)) kind program lost s s' ∧
      ∀ i task, s.tasks i = some task → task.call ≠ call → s'.tasks i = some task := by
  -- the tasks of other calls are not the one that takes the step
  have hset : ∀ (u : System Op R κ α σ) i old now, s.tasks i = some old →
      u.tasks = s.tasks → ∀ j task, s.tasks j = some task → task.call ≠ old.call →
        (u.setTask i now).tasks j = some task := by
    intro u i old now hold hu j task htask hne
    rw [tasks_setTask, if_neg, hu, htask]
    rintro rfl
    rw [hold] at htask
    exact hne (congrArg Task.call (Option.some.inj htask)).symm
  cases hstep with
  | start i call hfree =>
      refine ⟨call, .start i call hfree, fun j task htask _ => ?_⟩
      rw [tasks_setTask, if_neg, htask]
      rintro rfl
      rw [hfree] at htask
      cases htask
  | run htask hprog hgrants hstep =>
      exact ⟨_, .run htask hprog hgrants (hallowed _ _ _ _ _ _ htask hprog hstep),
        hset { s with world := _ } _ _ _ htask rfl⟩
  | finish htask hprog =>
      exact ⟨_, .finish htask hprog, hset { s with returned := _ } _ _ _ htask rfl⟩
  | drop htask hdetached => exact ⟨_, .drop htask hdetached, hset s _ _ _ htask rfl⟩
  | leave htask hdetached => exact ⟨_, .leave htask hdetached, hset s _ _ _ htask rfl⟩
  | stop htask hdetached hlost =>
      exact ⟨_, .stop htask hdetached hlost,
        hset { s with returned := _ } _ _ _ htask rfl⟩

/-- What all programs keep of the world, as long as they are told what is allowed,
holds in every system that is reached so. -/
theorem ReachableWhere.keeps {C : σ → Prop}
    (hprogram : ∀ call, (M.only (allowed call)).Keeps C (fun _ => True) (program call))
    (hw : C w) (hs : ReachableWhere M allowed kind program lost w s) : C s.world := by
  have hboth : C s.world ∧ ∀ i task, s.tasks i = some task →
      (M.only (allowed task.call)).Keeps C (fun _ => True) task.prog := by
    induction hs with
    | init => exact ⟨hw, nofun⟩
    | @step s s' call hs hstep hothers ih =>
        obtain ⟨hworld, htasks⟩ := ih
        -- the world and the task that takes the step, then the other tasks
        have hset : ∀ (u : System Op R κ α σ) i now, u.tasks = s.tasks →
            (∀ task, now = some task →
              (M.only (allowed task.call)).Keeps C (fun _ => True) task.prog) →
            ∀ j task, (u.setTask i now).tasks j = some task →
              (M.only (allowed task.call)).Keeps C (fun _ => True) task.prog := by
          intro u i now hu hnow j task htask
          rw [tasks_setTask] at htask
          split at htask
          · exact hnow task htask
          · exact htasks j task (hu ▸ htask)
        cases hstep with
        | start i call hfree =>
            refine ⟨hworld, hset s i _ rfl ?_⟩
            rintro _ ⟨⟩
            exact hprogram call
        | @run i task o k r v htask hprog hgrants hstep =>
            have hcall := htasks i task htask
            rw [hprog] at hcall
            obtain rfl : task.call = call := by
              by_contra hne
              have hsame := hothers i task htask hne
              rw [tasks_setTask, if_pos rfl] at hsame
              have hran := congrArg Task.ran (Option.some.inj hsame)
              simp [Task.advance] at hran
            obtain ⟨hv, hrest⟩ := hcall s.world r v hworld hstep
            refine ⟨hv, hset { s with world := v } i _ rfl ?_⟩
            rintro _ ⟨⟩
            exact hrest
        | @leave i task htask hdetached =>
            refine ⟨hworld, hset s i _ rfl ?_⟩
            rintro _ ⟨⟩
            exact htasks i task htask
        | finish htask hprog =>
            exact ⟨hworld, hset { s with returned := _ } _ none rfl nofun⟩
        | drop htask hdetached => exact ⟨hworld, hset s _ none rfl nofun⟩
        | stop htask hdetached hlost =>
            exact ⟨hworld, hset { s with returned := _ } _ none rfl nofun⟩
  exact hboth.1

/-! ## Sections -/

/-- A writer is alone with the lock. -/
theorem Reachable.exclusive (hs : Reachable M kind program lost w s) {i j : ℕ}
    {writer other : Task Op R κ α σ} (hwriter : s.tasks i = some writer)
    (hother : s.tasks j = some other) (hne : j ≠ i)
    (hwrite : writer.guard = .write) : other.guard = .none := by
  induction hs generalizing i j writer other with
  | init => cases hwriter
  | step hs hstep ih =>
      cases hstep with
      | start n call hfree =>
          rw [tasks_setTask] at hwriter hother
          split at hwriter
          · cases hwriter
            cases hwrite
          · split at hother
            · cases hother
              rfl
            · exact ih hwriter hother hne hwrite
      | @run n task o k r w hold hprog hgrants hstep =>
          rw [tasks_setTask] at hwriter hother
          split at hwriter
          · next hi =>
            rw [if_neg (hi ▸ hne)] at hother
            cases hwriter
            -- a new writer got the lock, an old one had it before
            rcases (kind o).next_cases task.guard with
              ⟨-, hnext⟩ | ⟨hkind, -⟩ | ⟨-, hnext⟩ | hnext
            · simp [Task.advance, hnext] at hwrite
            · rw [hkind] at hgrants
              exact hgrants j other hother
            · simp [Task.advance, hnext] at hwrite
            · exact ih hold hother (hi ▸ hne) (hnext.symm.trans hwrite)
          · split at hother
            · next hi hj =>
              cases hother
              rcases (kind o).next_cases task.guard with
                ⟨hkind, -⟩ | ⟨hkind, -⟩ | ⟨-, hnext⟩ | hnext
              · rw [hkind] at hgrants
                exact absurd hwrite (hgrants i writer hwriter)
              · rw [hkind] at hgrants
                rw [hgrants i writer hwriter] at hwrite
                cases hwrite
              · exact hnext
              · exact hnext.trans (ih hwriter hold (hj ▸ hne) hwrite)
            · exact ih hwriter hother hne hwrite
      | finish hold hprog =>
          rw [tasks_setTask] at hwriter hother
          split at hwriter
          · cases hwriter
          · split at hother
            · cases hother
            · exact ih hwriter hother hne hwrite
      | drop hold hdetached =>
          rw [tasks_setTask] at hwriter hother
          split at hwriter
          · cases hwriter
          · split at hother
            · cases hother
            · exact ih hwriter hother hne hwrite
      | @leave n task hold hdetached =>
          rw [tasks_setTask] at hwriter hother
          split at hwriter
          · next hi =>
            rw [if_neg (hi ▸ hne)] at hother
            cases hwriter
            exact ih hold hother (hi ▸ hne) hwrite
          · split at hother
            · next hi hj =>
              cases hother
              have hnone : task.guard = .none := ih hwriter hold (hj ▸ hne) hwrite
              exact hnone
            · exact ih hwriter hother hne hwrite
      | stop hold hdetached hlost =>
          rw [tasks_setTask] at hwriter hother
          split at hwriter
          · cases hwriter
          · split at hother
            · cases hother
            · exact ih hwriter hother hne hwrite

/-- Steps of the system during which the task keeps the write guard. -/
inductive During (M : Machine Op R σ) (kind : Op → OpKind)
    (program : κ → Prog Op R α) (lost : Option α) (i : ℕ) :
    System Op R κ α σ → System Op R κ α σ → Prop where
  | refl {s : System Op R κ α σ} {task : Task Op R κ α σ} (htask : s.tasks i = some task)
      (hguard : task.guard = .write) : During M kind program lost i s s
  | step {s t u : System Op R κ α σ} {task : Task Op R κ α σ}
      (h : During M kind program lost i s t)
      (hstep : Step M kind program lost t u) (htask : u.tasks i = some task)
      (hguard : task.guard = .write) : During M kind program lost i s u

theorem During.reachable {t : System Op R κ α σ} {i : ℕ}
    (hs : Reachable M kind program lost w s)
    (h : During M kind program lost i s t) :
    Reachable M kind program lost w t := by
  induction h with
  | refl htask hguard => exact hs
  | step h hstep htask hguard ih => exact ih.step hstep

theorem During.guard_eq {t : System Op R κ α σ} {i : ℕ} {task : Task Op R κ α σ}
    (h : During M kind program lost i s t) (htask : t.tasks i = some task) :
    task.guard = .write := by
  cases h with
  | refl hlast hguard =>
      rw [htask] at hlast
      cases hlast
      exact hguard
  | step h hstep hlast hguard =>
      rw [htask] at hlast
      cases hlast
      exact hguard

theorem During.exists_task {t : System Op R κ α σ} {i : ℕ}
    (h : During M kind program lost i s t) : ∃ task, t.tasks i = some task := by
  cases h with
  | refl htask hguard => exact ⟨_, htask⟩
  | step h hstep htask hguard => exact ⟨_, htask⟩

/-- What the writer's own steps keep holds throughout its section, if tasks
without a guard leave the world alone. -/
theorem During.invariant {t : System Op R κ α σ} {i : ℕ}
    {J : Task Op R κ α σ → σ → Prop} (hs : Reachable M kind program lost w s)
    (h : During M kind program lost i s t)
    (hinit : ∀ task, s.tasks i = some task → J task s.world)
    (hrun : ∀ task o k r v v', task.guard = .write → J task v →
      task.prog = .call o k → M.step o v r v' → J (task.advance kind o (k r)) v')
    (hleave : ∀ task v, J task v → J { task with awaited := false } v)
    (hidle : ∀ u : System Op R κ α σ, Reachable M kind program lost w u →
      ∀ j task o k r v, u.tasks j = some task → task.guard = .none →
        task.prog = .call o k → M.step o u.world r v → v = u.world)
    {task : Task Op R κ α σ} (htask : t.tasks i = some task) :
    J task t.world := by
  induction h generalizing task with
  | refl => exact hinit task htask
  | @step t u last h hstep hlast hguard ih =>
      have ht := h.reachable hs
      obtain ⟨writer, hwriter⟩ := h.exists_task
      have hwrite := h.guard_eq hwriter
      have hold := ih hwriter
      cases hstep with
      | start j call hfree =>
          rw [tasks_setTask] at htask
          split at htask
          · next hj =>
            rw [← hj, hwriter] at hfree
            cases hfree
          · rw [hwriter] at htask
            cases htask
            exact hold
      | @run j other o k r v hother hprog hgrants hstep =>
          rw [tasks_setTask] at htask
          split at htask
          · next hj =>
            cases htask
            rw [← hj, hwriter] at hother
            cases hother
            exact hrun writer o k r t.world v hwrite hold hprog hstep
          · next hj =>
            rw [hwriter] at htask
            cases htask
            have hnone := ht.exclusive hwriter hother (Ne.symm hj) hwrite
            obtain rfl := hidle t ht j other o k r v hother hnone hprog hstep
            exact hold
      | @leave j other hother hdetached =>
          rw [tasks_setTask] at htask
          split at htask
          · next hj =>
            cases htask
            rw [← hj, hwriter] at hother
            cases hother
            exact hleave writer t.world hold
          · rw [hwriter] at htask
            cases htask
            exact hold
      | finish hother hprog =>
          rw [tasks_setTask] at htask
          split at htask
          · cases htask
          · rw [hwriter] at htask
            cases htask
            exact hold
      | drop hother hdetached =>
          rw [tasks_setTask] at htask
          split at htask
          · cases htask
          · rw [hwriter] at htask
            cases htask
            exact hold
      | stop hother hdetached hlost =>
          rw [tasks_setTask] at htask
          split at htask
          · cases htask
          · rw [hwriter] at htask
            cases htask
            exact hold

end System

/-! ## Schedules -/

/-- What a scheduler may do next. -/
inductive Move (κ : Type) where
  | start (i : ℕ) (call : κ)
  | run (i : ℕ)
  | finish (i : ℕ)
  | drop (i : ℕ)
  | leave (i : ℕ)
  | stop (i : ℕ)

namespace System

/-- The lock can be taken, if only tasks below `bound` run. -/
def grants (bound : ℕ) (s : System Op R κ α σ) : OpKind → Bool
  | .lockRead => (List.range bound).all fun j =>
      (s.tasks j).all fun task => task.guard ≠ .write
  | .lockWrite => (List.range bound).all fun j =>
      (s.tasks j).all fun task => task.guard = .none
  | _ => true

variable (bound : ℕ) (exec : (o : Op) → σ → R o × σ) (kind : Op → OpKind)
  (program : κ → Prog Op R α) (lost : Option α)

/-- The system after a move, if the move is possible. -/
def move (s : System Op R κ α σ) : Move κ → Option (System Op R κ α σ)
  | .start i call =>
      if i < bound ∧ (s.tasks i).isNone then
        some (s.setTask i (some (.new program call s.world)))
      else none
  | .run i => do
      let task ← s.tasks i
      match task.prog with
      | .done _ => none
      | .call o k =>
          let (r, w) := exec o s.world
          if s.grants bound (kind o) then
            some ({ s with world := w }.setTask i
              (some (task.advance kind o (k r))))
          else none
  | .finish i => do
      let task ← s.tasks i
      match task.prog with
      | .done a =>
          some ({ s with returned := s.returned ++ task.returns a }.setTask i none)
      | .call _ _ => none
  | .drop i => do
      let task ← s.tasks i
      if task.detached then none else some (s.setTask i none)
  | .leave i => do
      let task ← s.tasks i
      if task.detached then
        some (s.setTask i (some { task with awaited := false }))
      else none
  | .stop i => do
      let task ← s.tasks i
      let a ← lost
      if task.detached then
        some ({ s with returned := s.returned ++ task.returns a }.setTask i none)
      else none

/-- All that the tasks would be told next may be told to their calls. -/
def tells (bound : ℕ) (exec : (o : Op) → σ → R o × σ) (ok : κ → (o : Op) → R o → Bool)
    (s : System Op R κ α σ) : Bool :=
  (List.range bound).all fun i => (s.tasks i).all fun task =>
    match task.prog with
    | .done _ => true
    | .call o _ => ok task.call o (exec o s.world).1

/-- The system after a move, where tasks are told what they may be told. -/
def moveWhere (ok : κ → (o : Op) → R o → Bool) (s : System Op R κ α σ) (m : Move κ) :
    Option (System Op R κ α σ) :=
  if s.tells bound exec ok then s.move bound exec kind program lost m else none

/-- The system after a move that leaves the task its write guard. -/
def moveUnder (i : ℕ) (s : System Op R κ α σ) (m : Move κ) :
    Option (System Op R κ α σ) :=
  (s.move bound exec kind program lost m).filter fun s' =>
    (s'.tasks i).any fun task => task.guard = .write

variable {bound exec kind program lost} {M : Machine Op R σ}
  {s s' : System Op R κ α σ}

theorem grants_of_bounded (hbound : ∀ j, bound ≤ j → s.tasks j = none)
    {lock : OpKind} (h : s.grants bound lock = true) : s.Grants lock := by
  have hlt : ∀ j task, s.tasks j = some task → j ∈ List.range bound := by
    intro j task htask
    rw [List.mem_range]
    by_contra hge
    rw [hbound j (by omega)] at htask
    cases htask
  cases lock with
  | lockRead =>
      intro j task htask
      simpa [htask] using List.all_eq_true.mp h j (hlt j task htask)
  | lockWrite =>
      intro j task htask
      simpa [htask] using List.all_eq_true.mp h j (hlt j task htask)
  | _ => trivial

theorem step_of_move (hexec : ∀ o w, M.step o w (exec o w).1 (exec o w).2)
    (hbound : ∀ j, bound ≤ j → s.tasks j = none) {m : Move κ}
    (h : s.move bound exec kind program lost m = some s') :
    Step M kind program lost s s' ∧ ∀ j, bound ≤ j → s'.tasks j = none := by
  -- a task that is there has a number below the bound
  have hset : ∀ i (u : System Op R κ α σ) task, i < bound → u.tasks = s.tasks →
      ∀ j, bound ≤ j → (u.setTask i task).tasks j = none := by
    intro i u task hi hu j hj
    rw [tasks_setTask, if_neg (by omega), hu]
    exact hbound j hj
  have hlt : ∀ i task, s.tasks i = some task → i < bound := by
    intro i task htask
    by_contra hge
    rw [hbound i (by omega)] at htask
    cases htask
  cases m with
  | start i call =>
      simp only [move, Option.ite_none_right_eq_some] at h
      obtain ⟨⟨hi, hnone⟩, ⟨⟩⟩ := h
      exact ⟨.start i call (Option.isNone_iff_eq_none.mp hnone), hset i s _ hi rfl⟩
  | run i =>
      simp only [move, Option.bind_eq_bind, Option.bind_eq_some_iff] at h
      obtain ⟨task, htask, h⟩ := h
      split at h
      · cases h
      · next o k hprog =>
        simp only [Option.ite_none_right_eq_some] at h
        obtain ⟨hgrants, ⟨⟩⟩ := h
        exact ⟨.run htask hprog (grants_of_bounded hbound hgrants) (hexec o s.world),
          hset i { s with world := _ } _ (hlt i task htask) rfl⟩
  | finish i =>
      simp only [move, Option.bind_eq_bind, Option.bind_eq_some_iff] at h
      obtain ⟨task, htask, h⟩ := h
      split at h
      · next a hprog =>
        cases h
        exact ⟨.finish htask hprog,
          hset i { s with returned := _ } _ (hlt i task htask) rfl⟩
      · cases h
  | drop i =>
      simp only [move, Option.bind_eq_bind, Option.bind_eq_some_iff] at h
      obtain ⟨task, htask, h⟩ := h
      split at h
      · cases h
      · next hdetached =>
        cases h
        exact ⟨.drop htask (by simpa using hdetached),
          hset i s _ (hlt i task htask) rfl⟩
  | leave i =>
      simp only [move, Option.bind_eq_bind, Option.bind_eq_some_iff] at h
      obtain ⟨task, htask, h⟩ := h
      split at h
      · next hdetached =>
        cases h
        exact ⟨.leave htask hdetached, hset i s _ (hlt i task htask) rfl⟩
      · cases h
  | stop i =>
      simp only [move, Option.bind_eq_bind, Option.bind_eq_some_iff] at h
      obtain ⟨task, htask, a, hlost, h⟩ := h
      split at h
      · next hdetached =>
        cases h
        exact ⟨.stop htask hdetached hlost,
          hset i { s with returned := _ } _ (hlt i task htask) rfl⟩
      · cases h

theorem Reachable.moves {w : σ}
    (hexec : ∀ o w, M.step o w (exec o w).1 (exec o w).2)
    (hs : Reachable M kind program lost w s)
    (hbound : ∀ j, bound ≤ j → s.tasks j = none) {schedule : List (Move κ)}
    (h : schedule.foldlM (move bound exec kind program lost) s = some s') :
    Reachable M kind program lost w s' := by
  induction schedule generalizing s with
  | nil =>
      cases h
      exact hs
  | cons m rest ih =>
      rw [List.foldlM_cons, Option.bind_eq_bind, Option.bind_eq_some_iff] at h
      obtain ⟨t, hmove, hrest⟩ := h
      obtain ⟨hstep, ht⟩ := step_of_move hexec hbound hmove
      exact ih (hs.step hstep) ht hrest

/-- What holds after a concrete schedule holds in a reachable system. -/
theorem exists_reachable_of_schedule (bound : ℕ)
    (exec : (o : Op) → σ → R o × σ)
    (hexec : ∀ o w, M.step o w (exec o w).1 (exec o w).2) (w : σ)
    (schedule : List (Move κ)) (P : System Op R κ α σ → Bool)
    (h : (schedule.foldlM (move bound exec kind program lost)
      ⟨w, fun _ => none, []⟩).any P = true) :
    ∃ s, Reachable M kind program lost w s ∧ P s = true := by
  obtain ⟨s, hrun, hs⟩ := (Option.any_eq_true _ _).mp h
  exact ⟨s, .moves hexec .init (fun _ _ => rfl) hrun, hs⟩

/-- What holds after a concrete schedule in which the tasks are told what is
allowed. -/
theorem ReachableWhere.moves {ok : κ → (o : Op) → R o → Bool} {w : σ}
    (hexec : ∀ o w, M.step o w (exec o w).1 (exec o w).2)
    (hok : ∀ call o r, ok call o r = true → allowed call o r)
    (hs : ReachableWhere M allowed kind program lost w s)
    (hbound : ∀ j, bound ≤ j → s.tasks j = none) {schedule : List (Move κ)}
    (h : schedule.foldlM (moveWhere bound exec kind program lost ok) s = some s') :
    ReachableWhere M allowed kind program lost w s' := by
  induction schedule generalizing s with
  | nil =>
      cases h
      exact hs
  | cons m rest ih =>
      rw [List.foldlM_cons, Option.bind_eq_bind, Option.bind_eq_some_iff] at h
      obtain ⟨t, hmove, hrest⟩ := h
      obtain ⟨htells, hmove⟩ := Option.ite_none_right_eq_some.mp hmove
      have htold : ∀ i task o k r u, s.tasks i = some task → task.prog = .call o k →
          r = (exec o s.world).1 ∧ u = (exec o s.world).2 →
          M.step o s.world r u ∧ allowed task.call o r := by
        rintro i task o k _ _ htask hprog ⟨rfl, rfl⟩
        refine ⟨hexec o s.world, hok _ _ _ ?_⟩
        have hi : i ∈ List.range bound := by
          rw [List.mem_range]
          by_contra hge
          rw [hbound i (by omega)] at htask
          cases htask
        have hall := List.all_eq_true.mp htells i hi
        simpa only [htask, hprog, Option.all_some] using hall
      obtain ⟨hstep, ht⟩ := step_of_move
        (M := { step := fun o v r u => r = (exec o v).1 ∧ u = (exec o v).2 })
        (fun _ _ => ⟨rfl, rfl⟩) hbound hmove
      obtain ⟨call, hstep, hothers⟩ := hstep.exists_call htold
      exact ih (hs.step hstep hothers) ht hrest

theorem During.moves {t u : System Op R κ α σ} {i : ℕ}
    (hexec : ∀ o w, M.step o w (exec o w).1 (exec o w).2)
    (ht : During M kind program lost i s t)
    (hbound : ∀ j, bound ≤ j → t.tasks j = none) {schedule : List (Move κ)}
    (h : schedule.foldlM (moveUnder bound exec kind program lost i) t = some u) :
    During M kind program lost i s u := by
  induction schedule generalizing t with
  | nil =>
      cases h
      exact ht
  | cons m rest ih =>
      rw [List.foldlM_cons, Option.bind_eq_bind, Option.bind_eq_some_iff] at h
      obtain ⟨v, hmove, hrest⟩ := h
      obtain ⟨hmove, hwriter⟩ := Option.filter_eq_some_iff.mp hmove
      obtain ⟨writer, hwriter, hwrite⟩ := (Option.any_eq_true _ _).mp hwriter
      obtain ⟨hstep, hv⟩ := step_of_move hexec hbound hmove
      exact ih (ht.step hstep hwriter (by simpa using hwrite)) hv hrest

/-- What holds after a concrete schedule that leaves the task its write guard. -/
theorem exists_during_of_schedule (bound : ℕ) (exec : (o : Op) → σ → R o × σ)
    (hexec : ∀ o w, M.step o w (exec o w).1 (exec o w).2) {i : ℕ}
    {task : Task Op R κ α σ} (htask : s.tasks i = some task)
    (hguard : task.guard = .write) (hbound : ∀ j, bound ≤ j → s.tasks j = none)
    (schedule : List (Move κ)) (P : System Op R κ α σ → Bool)
    (h : (schedule.foldlM (moveUnder bound exec kind program lost i) s).any P = true) :
    ∃ t, During M kind program lost i s t ∧ P t = true := by
  obtain ⟨t, hrun, ht⟩ := (Option.any_eq_true _ _).mp h
  exact ⟨t, .moves hexec (.refl htask hguard) hbound hrun, ht⟩

end System

end Connexa
