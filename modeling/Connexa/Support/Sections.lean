import Connexa.Support.Linearize
import Connexa.Support.Tasks
import Connexa.Support.Traces

/-!
# Calls with one critical section

Tasks under a readers-writer lock look like an object that answers calls at once,
if every program takes the lock at most once and works on the world only while it
has it.  A reader is answered by the value that it saw; it may go on for a while after
it has given the lock back.  A writer keeps the lock to its end, and until it has
detached the world stands for the old value.
-/

namespace Connexa

/-- Steps that show events, one after another. -/
inductive Shown {S ε : Type} (step : S → List ε → S → Prop) (s : S) :
    List ε → S → Prop where
  | refl : Shown step s [] s
  | snoc {history events : List ε} {t u : S} (hrun : Shown step s history t)
      (hstep : step t events u) : Shown step s (history ++ events) u

namespace Shown

variable {S T ε : Type} {step : S → List ε → S → Prop} {step' : T → List ε → T → Prop}
  {s t : S} {events history : List ε}

theorem single (h : step s events t) : Shown step s events t :=
  .snoc .refl h

theorem trans {u : S} {more : List ε} (h : Shown step s history t)
    (h' : Shown step t more u) : Shown step s (history ++ more) u := by
  induction h' with
  | refl => rwa [List.append_nil]
  | snoc _ hstep ih =>
      rw [← List.append_assoc]
      exact .snoc ih hstep

/-- Where each step is simulated, so is each history. -/
theorem simulate {Sim : S → T → Prop}
    (hstep : ∀ s t events s', Sim s t → step s events s' →
      ∃ t', Shown step' t events t' ∧ Sim s' t') {s' : S} {a : T}
    (h : Shown step s history s') (hs : Sim s a) :
    ∃ a', Shown step' a history a' ∧ Sim s' a' := by
  induction h with
  | refl => exact ⟨a, .refl, hs⟩
  | snoc _ hlast ih =>
      obtain ⟨b, hb, hsim⟩ := ih
      obtain ⟨a', ha', hsim'⟩ := hstep _ _ _ _ hsim hlast
      exact ⟨a', hb.trans ha', hsim'⟩

end Shown

variable {Op : Type} {R : Op → Type} {κ α β ε σ μ : Type}

/-! ## What callers see -/

/-- The calls of numbered tasks and what they return. -/
abbrev CallEvent (κ α : Type) :=
  JobEvent κ fun _ => α

/-- What the caller of the task sees at its end. -/
def returnEvents (awaited : Bool) (i : ℕ) (call : κ) (result : α) :
    List (CallEvent κ α) :=
  if awaited then [.returned i call result] else []

/-- A step of tasks that are not stopped, with what callers see of it. -/
inductive System.Shows (M : Machine Op R σ) (kind : Op → OpKind)
    (program : κ → Prog Op R α) (s : System Op R κ α σ) :
    List (CallEvent κ α) → System Op R κ α σ → Prop where
  | start (i : ℕ) (call : κ) (hfree : s.tasks i = none) :
      Shows M kind program s [.called i call]
        (s.setTask i (some (.new program call s.world)))
  | run {i : ℕ} {task : Task Op R κ α σ} {o : Op} {k : R o → Prog Op R α} {r : R o}
      {w : σ} (htask : s.tasks i = some task) (hprog : task.prog = .call o k)
      (hgrants : s.Grants (kind o)) (hstep : M.step o s.world r w) :
      Shows M kind program s []
        ({ s with world := w }.setTask i (some (task.advance kind o (k r))))
  | finish {i : ℕ} {task : Task Op R κ α σ} {a : α} (htask : s.tasks i = some task)
      (hprog : task.prog = .done a) :
      Shows M kind program s (returnEvents task.awaited i task.call a)
        ({ s with returned := s.returned ++ task.returns a }.setTask i none)
  | drop {i : ℕ} {task : Task Op R κ α σ} (htask : s.tasks i = some task)
      (hdetached : task.detached = false) :
      Shows M kind program s [] (s.setTask i none)
  | leave {i : ℕ} {task : Task Op R κ α σ} (htask : s.tasks i = some task)
      (hdetached : task.detached = true) :
      Shows M kind program s [] (s.setTask i (some { task with awaited := false }))

theorem System.Shows.step {M : Machine Op R σ} {kind : Op → OpKind}
    {program : κ → Prog Op R α} {s s' : System Op R κ α σ}
    {events : List (CallEvent κ α)} (h : System.Shows M kind program s events s') :
    System.Step M kind program none s s' := by
  cases h with
  | start i call hfree => exact .start i call hfree
  | run htask hprog hgrants hstep => exact .run htask hprog hgrants hstep
  | finish htask hprog => exact .finish htask hprog
  | drop htask hdetached => exact .drop htask hdetached
  | leave htask hdetached => exact .leave htask hdetached

/-- The steps without their events are all there are. -/
theorem System.Step.shows {M : Machine Op R σ} {kind : Op → OpKind}
    {program : κ → Prog Op R α} {s s' : System Op R κ α σ}
    (h : System.Step M kind program none s s') :
    ∃ events, System.Shows M kind program s events s' := by
  cases h with
  | start i call hfree => exact ⟨_, .start i call hfree⟩
  | run htask hprog hgrants hstep => exact ⟨_, .run htask hprog hgrants hstep⟩
  | finish htask hprog => exact ⟨_, .finish htask hprog⟩
  | drop htask hdetached => exact ⟨_, .drop htask hdetached⟩
  | leave htask hdetached => exact ⟨_, .leave htask hdetached⟩
  | stop htask hdetached hlost => cases hlost

/-- The operation takes the lock. -/
def OpKind.locks (kind : OpKind) : Prop :=
  kind = .lockRead ∨ kind = .lockWrite

/-- Nobody writes where the lock is granted. -/
theorem System.Grants.unwritten {s : System Op R κ α σ} {kind : OpKind}
    (h : s.Grants kind) (hlocks : kind.locks) :
    ∀ j task, s.tasks j = some task → task.guard ≠ .write := by
  rcases hlocks with rfl | rfl
  · exact h
  · intro j task htask
    simp [h j task htask]

/-! ## Objects that answer at once -/

namespace Sections

/-- A call that has not returned, and the value that it saw if it has looked. -/
structure Job (κ μ : Type) where
  call : κ
  seen : Option μ
  awaited : Bool

structure State (κ μ : Type) where
  value : μ
  jobs : ℕ → Option (Job κ μ)

/-- No call yet. -/
def initial (m : μ) : State κ μ :=
  ⟨m, fun _ => none⟩

def State.setJob (a : State κ μ) (i : ℕ) (job : Option (Job κ μ)) : State κ μ :=
  { a with jobs := fun j => if j = i then job else a.jobs j }

/-- A call on the value `m` may return `r` and leave `m'`: `answer c m r m'`.  A call
that leaves the value as it is may look at it first and be answered later; any other
is answered when it changes the value. -/
inductive Step (answer : κ → μ → α → μ → Prop) (a : State κ μ) :
    List (CallEvent κ α) → State κ μ → Prop where
  | call (i : ℕ) (c : κ) (hfree : a.jobs i = none) :
      Step answer a [.called i c] (a.setJob i (some ⟨c, none, true⟩))
  | look {i : ℕ} {c : κ} {awaited : Bool} (hjob : a.jobs i = some ⟨c, none, awaited⟩) :
      Step answer a [] (a.setJob i (some ⟨c, some a.value, awaited⟩))
  | answer {i : ℕ} {c : κ} {m : μ} {awaited : Bool} {r : α}
      (hjob : a.jobs i = some ⟨c, some m, awaited⟩) (hanswer : answer c m r m) :
      Step answer a (returnEvents awaited i c r) (a.setJob i none)
  | change {i : ℕ} {c : κ} {m : μ} {awaited : Bool} {r : α}
      (hjob : a.jobs i = some ⟨c, none, awaited⟩) (hanswer : answer c a.value r m) :
      Step answer a (returnEvents awaited i c r) ({ a with value := m }.setJob i none)
  | leave {i : ℕ} {job : Job κ μ} (hjob : a.jobs i = some job) :
      Step answer a [] (a.setJob i (some { job with awaited := false }))
  | drop {i : ℕ} {job : Job κ μ} (hjob : a.jobs i = some job) :
      Step answer a [] (a.setJob i none)

theorem State.setJob_setJob (a : State κ μ) (i : ℕ) (job job' : Option (Job κ μ)) :
    (a.setJob i job).setJob i job' = a.setJob i job' := by
  simp only [State.setJob, State.mk.injEq, true_and]
  funext j
  split
  · rfl
  · rfl

/-- A call may look at the value and be answered at once. -/
theorem shown_answer {answer : κ → μ → α → μ → Prop} {a : State κ μ} {i : ℕ} {c : κ}
    {awaited : Bool} {r : α} (hjob : a.jobs i = some ⟨c, none, awaited⟩)
    (hanswer : answer c a.value r a.value) :
    Shown (Step answer) a (returnEvents awaited i c r) (a.setJob i none) := by
  have hlooked : (a.setJob i (some ⟨c, some a.value, awaited⟩)).jobs i =
      some ⟨c, some a.value, awaited⟩ := if_pos rfl
  have hlook : Step answer a [] (a.setJob i (some ⟨c, some a.value, awaited⟩)) :=
    .look hjob
  have hshown := (Shown.single hlook).snoc (.answer hlooked hanswer)
  rwa [State.setJob_setJob] at hshown

/-! ## Programs with one section -/

/-- How far a task is with its section, and what it stands on. -/
inductive Stage (μ σ : Type) where
  | before
  | reading (m : μ)
  | after (m : μ)
  | writing (m : μ) (detached : Bool) (w : σ)

namespace Stage

variable (rep : μ → σ → Prop)

/-- The worlds that the task can find at this stage. -/
def Finds : Stage μ σ → σ → Prop
  | .reading m, w => rep m w
  | .writing _ _ w₀, w => w = w₀
  | _, _ => True

/-- The task may go away at this stage. -/
def Droppable : Stage μ σ → Prop
  | .writing m detached w => detached = false → rep m w
  | _ => True

/-- What an operation has to do at this stage. -/
def Next (P : Stage μ σ → Prop) : Stage μ σ → OpKind → σ → σ → Prop
  | .before, .free, w, w' => w' = w ∧ P .before
  | .before, .lockRead, w, w' => ∀ m, rep m w → w' = w ∧ P (.reading m)
  | .before, .lockWrite, w, w' => ∀ m, rep m w → w' = w ∧ P (.writing m false w)
  | .reading m, .free, _, w' => rep m w' ∧ P (.reading m)
  | .reading m, .shared, _, w' => rep m w' ∧ P (.reading m)
  | .reading m, .unlock, w, w' => w' = w ∧ P (.after m)
  | .after m, .free, w, w' => w' = w ∧ P (.after m)
  | .writing m detached _, .free, _, w' => P (.writing m detached w')
  | .writing m detached _, .shared, _, w' => P (.writing m detached w')
  | .writing m _ _, .detach, _, w' => P (.writing m true w')
  | _, _, _, _ => False

/-- The result is an answer to the call. -/
def Ends (answer : κ → μ → α → μ → Prop) (c : κ) (r : α) : Stage μ σ → Prop
  | .before => ∀ m, answer c m r m
  | .reading m => answer c m r m
  | .after m => answer c m r m
  | .writing m detached w =>
      (detached = false → rep m w) ∧ ∃ m', answer c m r m' ∧ rep m' w

def guard : Stage μ σ → Guard
  | .before => .none
  | .reading _ => .read
  | .after _ => .none
  | .writing _ _ _ => .write

def seen : Stage μ σ → Option μ
  | .after m => some m
  | _ => none

/-- The task stands on the value and on the world that there are now. -/
def Now (m : μ) (detached : Bool) (w : σ) : Stage μ σ → Prop
  | .before => detached = false
  | .reading m' => m' = m
  | .after _ => True
  | .writing m' detached' w' => m' = m ∧ detached' = detached ∧ w' = w

variable {rep} {P P' : Stage μ σ → Prop} {st : Stage μ σ} {w w' : σ}

theorem Next.mono {kind : OpKind} (h : st.Next rep P kind w w')
    (hP : ∀ st, P st → P' st) : st.Next rep P' kind w w' := by
  cases st with
  | before =>
      cases kind with
      | free => exact ⟨h.1, hP _ h.2⟩
      | lockRead => exact fun m hm => ⟨(h m hm).1, hP _ (h m hm).2⟩
      | lockWrite => exact fun m hm => ⟨(h m hm).1, hP _ (h m hm).2⟩
      | _ => exact h.elim
  | reading m =>
      cases kind with
      | free => exact ⟨h.1, hP _ h.2⟩
      | shared => exact ⟨h.1, hP _ h.2⟩
      | unlock => exact ⟨h.1, hP _ h.2⟩
      | _ => exact h.elim
  | after m =>
      cases kind with
      | free => exact ⟨h.1, hP _ h.2⟩
      | _ => exact h.elim
  | writing m detached w₀ =>
      cases kind with
      | free => exact hP _ h
      | shared => exact hP _ h
      | detach => exact hP _ h
      | _ => exact h.elim

/-- The stage after an operation. -/
structure Follows (rep : μ → σ → Prop) (m : μ) (kind : OpKind)
    (detached : Bool) (w w' : σ)
    (st st' : Stage μ σ) : Prop where
  guard : st'.guard = kind.next st.guard
  now : st'.Now m (detached || decide (kind = .detach)) w'
  /-- The call looks at the value when the lock is given back. -/
  seen : st'.seen = st.seen ∨ st.seen = none ∧ st'.seen = some m
  world : st.guard = .none → w' = w
  writing : st.guard = .write → st'.guard = .write
  value : st'.guard ≠ .write → rep m w → rep m w'

/-- The lock shows a world that stands for the value. -/
theorem Now.finds {m : μ} {detached : Bool} {kind : OpKind} (h : st.Now m detached w)
    (hrep : st.guard ≠ .write → st.guard = .read ∨ kind.locks → rep m w) :
    st.Finds rep w := by
  cases st with
  | before => trivial
  | reading m' =>
      obtain rfl : m' = m := h
      exact hrep (by simp [guard]) (Or.inl rfl)
  | after m' => trivial
  | writing m' detached' w₀ => exact h.2.2.symm

theorem Next.exists_follows {m : μ} {detached : Bool} {kind : OpKind}
    (h : st.Next rep P kind w w') (hnow : st.Now m detached w)
    (hrep : st.guard ≠ .write → st.guard = .read ∨ kind.locks → rep m w) :
    ∃ st', P st' ∧ Follows rep m kind detached w w' st st' := by
  cases st with
  | before =>
      obtain rfl : detached = false := hnow
      cases kind with
      | free =>
          obtain ⟨rfl, hP⟩ := h
          exact ⟨_, hP, rfl, rfl, Or.inl rfl, fun _ => rfl, nofun, fun _ hw => hw⟩
      | lockRead =>
          obtain ⟨rfl, hP⟩ := h m (hrep (by simp [guard]) (Or.inr (Or.inl rfl)))
          exact ⟨_, hP, rfl, rfl, Or.inl rfl, fun _ => rfl, nofun, fun _ hw => hw⟩
      | lockWrite =>
          obtain ⟨rfl, hP⟩ := h m (hrep (by simp [guard]) (Or.inr (Or.inr rfl)))
          exact ⟨_, hP, rfl, ⟨rfl, rfl, rfl⟩, Or.inl rfl, fun _ => rfl, nofun,
            fun _ hw => hw⟩
      | _ => exact h.elim
  | reading m' =>
      obtain rfl : m' = m := hnow
      cases kind with
      | free => exact ⟨_, h.2, rfl, rfl, Or.inl rfl, nofun, nofun, fun _ _ => h.1⟩
      | shared => exact ⟨_, h.2, rfl, rfl, Or.inl rfl, nofun, nofun, fun _ _ => h.1⟩
      | unlock =>
          obtain ⟨rfl, hP⟩ := h
          exact ⟨_, hP, rfl, trivial, Or.inr ⟨rfl, rfl⟩, fun _ => rfl, nofun,
            fun _ hw => hw⟩
      | _ => exact h.elim
  | after m' =>
      cases kind with
      | free =>
          obtain ⟨rfl, hP⟩ := h
          exact ⟨_, hP, rfl, trivial, Or.inl rfl, fun _ => rfl, nofun, fun _ hw => hw⟩
      | _ => exact h.elim
  | writing m' detached' w₀ =>
      obtain ⟨rfl, rfl, rfl⟩ := hnow
      have hwriting : ∀ detached, (writing m' detached w').guard ≠ .write →
          rep m' w₀ → rep m' w' := fun detached hnot => absurd rfl hnot
      cases kind with
      | free =>
          exact ⟨_, h, rfl, ⟨rfl, (Bool.or_false _).symm, rfl⟩, Or.inl rfl, nofun,
            fun _ => rfl, hwriting _⟩
      | shared =>
          exact ⟨_, h, rfl, ⟨rfl, (Bool.or_false _).symm, rfl⟩, Or.inl rfl, nofun,
            fun _ => rfl, hwriting _⟩
      | detach =>
          exact ⟨_, h, rfl, ⟨rfl, (Bool.or_true _).symm, rfl⟩, Or.inl rfl, nofun,
            fun _ => rfl, hwriting _⟩
      | _ => exact h.elim

end Stage

variable {M : Machine Op R σ} {kind : Op → OpKind} {rep : μ → σ → Prop}

/-- The program keeps to one section, and `Q` holds at its end. -/
def Proceeds (M : Machine Op R σ) (kind : Op → OpKind) (rep : μ → σ → Prop)
    (Q : α → Stage μ σ → Prop) : Prog Op R α → Stage μ σ → Prop
  | .done a, st => Q a st
  | .call o k, st => st.Droppable rep ∧ ∀ w r w', st.Finds rep w → M.step o w r w' →
      st.Next rep (Proceeds M kind rep Q (k r)) (kind o) w w'

variable {Q : α → Stage μ σ → Prop} {st : Stage μ σ}

theorem Proceeds.mono {Q' : α → Stage μ σ → Prop} {p : Prog Op R α}
    (h : Proceeds M kind rep Q p st) (hQ : ∀ a st, Q a st → Q' a st) :
    Proceeds M kind rep Q' p st := by
  induction p generalizing st with
  | done a => exact hQ a st h
  | call o k ih =>
      exact ⟨h.1, fun w r w' hw hstep => (h.2 w r w' hw hstep).mono fun _ => ih r⟩

theorem Proceeds.bind {p : Prog Op R α} {f : α → Prog Op R β}
    {Q : β → Stage μ σ → Prop}
    (h : Proceeds M kind rep (fun a st => Proceeds M kind rep Q (f a) st) p st) :
    Proceeds M kind rep Q (p >>= f) st := by
  induction p generalizing st with
  | done a => exact h
  | call o k ih =>
      exact ⟨h.1, fun w r w' hw hstep => (h.2 w r w' hw hstep).mono fun _ => ih r⟩

/-- Sequencing: an error ends the program. -/
theorem Proceeds.bindExcept {x : ExceptT ε (Prog Op R) α}
    {f : α → ExceptT ε (Prog Op R) β} {P : β → Stage μ σ → Prop}
    {E : ε → Stage μ σ → Prop}
    (h : Proceeds M kind rep
      (Machine.Yields (fun a st => Proceeds M kind rep (Machine.Yields P E) (f a).run st)
        E) x.run st) :
    Proceeds M kind rep (Machine.Yields P E) (x >>= f).run st := by
  refine Proceeds.bind (h.mono ?_)
  intro r st hr
  cases r with
  | ok a => exact hr
  | error e => exact hr

theorem proceeds_op {o : Op} {Q : R o → Stage μ σ → Prop} (hst : st.Droppable rep)
    (h : ∀ w r w', st.Finds rep w → M.step o w r w' →
      st.Next rep (Q r) (kind o) w w') :
    Proceeds M kind rep Q (Prog.op o) st :=
  ⟨hst, h⟩

/-- The same with another value. -/
theorem Proceeds.mapExcept {x : ExceptT ε (Prog Op R) α} {f : α → β}
    {Q : Except ε β → Stage μ σ → Prop}
    (h : Proceeds M kind rep (fun r st => Q (r.map f) st) x.run st) :
    Proceeds M kind rep Q (do return f (← x) : ExceptT ε (Prog Op R) β).run st := by
  refine Proceeds.bind (h.mono ?_)
  intro r st hr
  cases r with
  | ok a => exact hr
  | error e => exact hr

/-! ## Looking at the value -/

/-- The task has taken the lock this way, and the world stands for `m`. -/
def Stage.Holds (rep : μ → σ → Prop) (m : μ) (guard : Guard) : Stage μ σ → Prop
  | .reading m' => guard = .read ∧ m' = m
  | .writing m' detached w => guard = .write ∧ m' = m ∧ detached = false ∧ rep m w
  | _ => False

/-- The task writes, and the world stands for `m'` instead of `m`. -/
def Stage.Leaves (rep : μ → σ → Prop) (m m' : μ) : Stage μ σ → Prop
  | .writing m₀ detached w => m₀ = m ∧ (detached = false → rep m w) ∧ rep m' w
  | _ => False

variable {m m' : μ} {guard : Guard}

theorem Stage.Holds.droppable (h : st.Holds rep m guard) : st.Droppable rep := by
  cases st with
  | writing m' detached w =>
      obtain ⟨-, rfl, -, hw⟩ := h
      exact fun _ => hw
  | _ => trivial

theorem Stage.Holds.leaves (h : st.Holds rep m .write) : st.Leaves rep m m := by
  cases st with
  | writing m' detached w =>
      obtain ⟨-, rfl, -, hw⟩ := h
      exact ⟨rfl, fun _ => hw, hw⟩
  | reading m' => cases h.1
  | _ => exact h.elim

theorem Stage.Leaves.ends {answer : κ → μ → α → μ → Prop} {c : κ} {r : α}
    (h : st.Leaves rep m m') (hanswer : answer c m r m') : st.Ends rep answer c r := by
  cases st with
  | writing m₀ detached w =>
      obtain ⟨rfl, hdrop, hw⟩ := h
      exact ⟨hdrop, m', hanswer, hw⟩
  | _ => exact h.elim

theorem Stage.Holds.ends {answer : κ → μ → α → μ → Prop} {c : κ} {r : α}
    (h : st.Holds rep m guard) (hanswer : answer c m r m) : st.Ends rep answer c r := by
  cases st with
  | reading m' =>
      obtain ⟨-, rfl⟩ := h
      exact hanswer
  | writing m' detached w =>
      obtain ⟨-, rfl, -, hw⟩ := h
      exact ⟨fun _ => hw, m', hanswer, hw⟩
  | _ => exact h.elim

/-- An operation that leaves the value alone, by its replies. -/
theorem proceeds_look {o : Op} {Q : R o → Prop}
    (hkind : kind o = .shared ∨ kind o = .free) (hst : st.Holds rep m guard)
    (h : ∀ w r w', rep m w → M.step o w r w' → rep m w' ∧ Q r) :
    Proceeds M kind rep (fun r st => st.Holds rep m guard ∧ Q r) (Prog.op o) st := by
  refine proceeds_op hst.droppable fun w r w' hw hstep => ?_
  cases st with
  | reading m' =>
      obtain ⟨rfl, rfl⟩ := hst
      obtain ⟨hrep, hr⟩ := h w r w' hw hstep
      rcases hkind with hkind | hkind
      · rw [hkind]
        exact ⟨hrep, ⟨rfl, rfl⟩, hr⟩
      · rw [hkind]
        exact ⟨hrep, ⟨rfl, rfl⟩, hr⟩
  | writing m' detached w₀ =>
      obtain ⟨rfl, rfl, rfl, hrep⟩ := hst
      obtain rfl : w = w₀ := hw
      obtain ⟨hrep, hr⟩ := h w r w' hrep hstep
      rcases hkind with hkind | hkind
      · rw [hkind]
        exact ⟨⟨rfl, rfl, rfl, hrep⟩, hr⟩
      · rw [hkind]
        exact ⟨⟨rfl, rfl, rfl, hrep⟩, hr⟩
  | _ => exact hst.elim

/-- A program that looks at the value under the lock, by its result. -/
def Looks (M : Machine Op R σ) (kind : Op → OpKind) (rep : μ → σ → Prop) (m : μ)
    (x : ExceptT ε (Prog Op R) α) (P : α → Prop) (E : ε → Prop) : Prop :=
  ∀ guard (st : Stage μ σ), st.Holds rep m guard →
    Proceeds M kind rep (Machine.Yields (fun a st => st.Holds rep m guard ∧ P a)
      fun e st => st.Holds rep m guard ∧ E e) x.run st

section Looks

variable {x : ExceptT ε (Prog Op R) α} {P : α → Prop} {E : ε → Prop}

theorem looks_pure {a : α} (h : P a) :
    Looks M kind rep m (pure a : ExceptT ε (Prog Op R) α) P E :=
  fun _ _ hst => ⟨hst, h⟩

theorem looks_throw {e : ε} (h : E e) :
    Looks M kind rep m (throw e : ExceptT ε (Prog Op R) α) P E :=
  fun _ _ hst => ⟨hst, h⟩

theorem Looks.bind {f : α → ExceptT ε (Prog Op R) β} {P' : β → Prop}
    (hx : Looks M kind rep m x P E) (hf : ∀ a, P a → Looks M kind rep m (f a) P' E) :
    Looks M kind rep m (x >>= f) P' E := by
  intro guard st hst
  refine Proceeds.bindExcept ((hx guard st hst).mono ?_)
  rintro (e | a) st ⟨hst, h⟩
  · exact ⟨hst, h⟩
  · exact hf a h guard st hst

theorem Looks.mono {P' : α → Prop} {E' : ε → Prop} (hx : Looks M kind rep m x P E)
    (hP : ∀ a, P a → P' a) (hE : ∀ e, E e → E' e) : Looks M kind rep m x P' E' := by
  intro guard st hst
  refine (hx guard st hst).mono ?_
  rintro (e | a) st ⟨hst, h⟩
  · exact ⟨hst, hE e h⟩
  · exact ⟨hst, hP a h⟩

/-- What comes after the look. -/
theorem Looks.proceeds {f : α → ExceptT ε (Prog Op R) β}
    {Q : Except ε β → Stage μ σ → Prop} (hx : Looks M kind rep m x P E)
    (hst : st.Holds rep m guard)
    (hf : ∀ a st, st.Holds rep m guard → P a → Proceeds M kind rep Q (f a).run st)
    (he : ∀ e st, st.Holds rep m guard → E e → Q (.error e) st) :
    Proceeds M kind rep Q (x >>= f).run st := by
  refine Proceeds.bind ((hx guard st hst).mono ?_)
  rintro (e | a) st ⟨hst, h⟩
  · exact he e st hst h
  · exact hf a st hst h

end Looks

/-! ## The simulation -/

/-- A task and a call to the object that has come as far. -/
inductive SameJob (M : Machine Op R σ) (kind : Op → OpKind) (rep : μ → σ → Prop)
    (answer : κ → μ → α → μ → Prop) (m : μ) (w : σ) :
    Option (Task Op R κ α σ) → Option (Job κ μ) → Prop where
  | idle : SameJob M kind rep answer m w none none
  | same {task : Task Op R κ α σ} (st : Stage μ σ) (hguard : st.guard = task.guard)
      (hnow : st.Now m task.detached w)
      (h : Proceeds M kind rep (fun r st => st.Ends rep answer task.call r)
        task.prog st) :
      SameJob M kind rep answer m w (some task)
        (some ⟨task.call, st.seen, task.awaited⟩)

/-- The tasks, which are reached from `w₀`, have come as far as the calls. -/
structure Sim (M : Machine Op R σ) (kind : Op → OpKind) (program : κ → Prog Op R α)
    (rep : μ → σ → Prop) (answer : κ → μ → α → μ → Prop) (w₀ : σ)
    (s : System Op R κ α σ) (a : State κ μ) : Prop where
  reachable : System.Reachable M kind program none w₀ s
  value : (∀ i task, s.tasks i = some task → task.guard ≠ .write) → rep a.value s.world
  jobs : ∀ i, SameJob M kind rep answer a.value s.world (s.tasks i) (a.jobs i)

section Simulation

variable {program : κ → Prog Op R α} {answer : κ → μ → α → μ → Prop} {w₀ w w' : σ}
  {s s' : System Op R κ α σ} {a : State κ μ} {i : ℕ} {task : Task Op R κ α σ} {m m' : μ}

theorem Stage.Ends.droppable {c : κ} {r : α} (h : st.Ends rep answer c r) :
    st.Droppable rep := by
  cases st with
  | writing m detached w => exact h.1
  | _ => trivial

theorem Proceeds.droppable {c : κ} {p : Prog Op R α}
    (h : Proceeds M kind rep (fun r st => st.Ends rep answer c r) p st) :
    st.Droppable rep := by
  cases p with
  | done r => exact Stage.Ends.droppable h
  | call o k => exact h.1

/-- The task without the lock does not notice what the others do. -/
theorem SameJob.unlocked {job : Option (Job κ μ)}
    (h : SameJob M kind rep answer m w (some task) job) (hguard : task.guard = .none)
    (m' : μ) (w' : σ) : SameJob M kind rep answer m' w' (some task) job := by
  cases h with
  | same st hst hnow h =>
      refine .same st hst ?_ h
      rw [hguard] at hst
      cases st with
      | before => exact hnow
      | reading m => cases hst
      | after m => trivial
      | writing m detached w => cases hst

/-- A reader does not notice what leaves the value alone. -/
theorem SameJob.unwritten {x : Option (Task Op R κ α σ)} {job : Option (Job κ μ)}
    (h : SameJob M kind rep answer m w x job)
    (hguard : ∀ task, x = some task → task.guard ≠ .write) (w' : σ) :
    SameJob M kind rep answer m w' x job := by
  cases h with
  | idle => exact .idle
  | same st hst hnow h =>
      refine .same st hst ?_ h
      cases st with
      | writing m detached w => exact absurd hst.symm (hguard _ rfl)
      | _ => exact hnow

/-- All tasks but `i` have come as far as before. -/
theorem Sim.setJobs (h : Sim M kind program rep answer w₀ s a) {s' : System Op R κ α σ}
    (x : Option (Task Op R κ α σ)) (job : Option (Job κ μ)) {a' : State κ μ}
    (htasks : s'.tasks = fun j => if j = i then x else s.tasks j)
    (hjobs : a'.jobs = fun j => if j = i then job else a.jobs j)
    (hself : SameJob M kind rep answer a'.value s'.world x job)
    (hothers : ∀ j other, j ≠ i → s.tasks j = some other →
      SameJob M kind rep answer a.value s.world (some other) (a.jobs j) →
      SameJob M kind rep answer a'.value s'.world (some other) (a.jobs j)) (j : ℕ) :
    SameJob M kind rep answer a'.value s'.world (s'.tasks j) (a'.jobs j) := by
  rw [htasks, hjobs]
  by_cases hj : j = i
  · simp only [hj, if_true]
    exact hself
  · simp only [hj, if_false]
    have hold := h.jobs j
    cases hother : s.tasks j with
    | none =>
        rw [hother] at hold
        generalize a.jobs j = job at hold
        cases hold
        exact .idle
    | some other =>
        rw [hother] at hold
        exact hothers j other hj hother hold

/-- The job of a task. -/
theorem Sim.job (h : Sim M kind program rep answer w₀ s a)
    (htask : s.tasks i = some task) :
    ∃ st, st.guard = task.guard ∧ st.Now a.value task.detached s.world ∧
      Proceeds M kind rep (fun r st => st.Ends rep answer task.call r) task.prog st ∧
      a.jobs i = some ⟨task.call, st.seen, task.awaited⟩ := by
  have hjob := h.jobs i
  rw [htask] at hjob
  generalize heq : a.jobs i = job at hjob
  cases hjob with
  | same st hguard hnow h => exact ⟨st, hguard, hnow, h, rfl⟩

/-- Nobody writes where a task reads. -/
theorem Sim.unwritten (h : Sim M kind program rep answer w₀ s a)
    (htask : s.tasks i = some task) (hguard : task.guard = .read) :
    ∀ j other, s.tasks j = some other → other.guard ≠ .write := by
  intro j other hother hwrite
  by_cases hj : i = j
  · subst hj
    rw [htask] at hother
    cases hother
    rw [hguard] at hwrite
    cases hwrite
  · have hnone := h.reachable.exclusive hother htask hj hwrite
    rw [hguard] at hnone
    cases hnone

/-- Nobody writes if the task does not and nobody else does. -/
theorem Sim.represents (h : Sim M kind program rep answer w₀ s a)
    (htask : ∀ task, s.tasks i = some task → task.guard ≠ .write)
    (hothers : ∀ j other, j ≠ i → s.tasks j = some other → other.guard ≠ .write) :
    rep a.value s.world := by
  refine h.value fun j other hother => ?_
  by_cases hj : j = i
  · exact htask other (hj ▸ hother)
  · exact hothers j other hj hother

theorem Sim.start (h : Sim M kind program rep answer w₀ s a)
    (hprogram : ∀ call, Proceeds M kind rep (fun r st => st.Ends rep answer call r)
      (program call) .before) (call : κ) (hfree : s.tasks i = none) :
    ∃ a', Shown (Step answer) a [.called i call] a' ∧
      Sim M kind program rep answer w₀ (s.setTask i (some (.new program call s.world)))
        a' := by
  have hidle : a.jobs i = none := by
    have hjob := h.jobs i
    rw [hfree] at hjob
    generalize a.jobs i = job at hjob
    cases hjob
    rfl
  refine ⟨_, .single (.call i call hidle), h.reachable.step (.start i call hfree), ?_, ?_⟩
  · intro hnobody
    have hrep : rep a.value s.world := by
      refine h.value fun j other hother => hnobody j other ?_
      rw [System.tasks_setTask, if_neg]
      · exact hother
      · rintro rfl
        rw [hfree] at hother
        cases hother
    exact hrep
  · exact h.setJobs _ _ rfl rfl (.same .before rfl rfl (hprogram call))
      fun _ _ _ _ hold => hold

theorem Sim.run (h : Sim M kind program rep answer w₀ s a) {o : Op}
    {k : R o → Prog Op R α} {r : R o} (htask : s.tasks i = some task)
    (hprog : task.prog = .call o k) (hgrants : s.Grants (kind o))
    (hstep : M.step o s.world r w) :
    ∃ a', Shown (Step answer) a [] a' ∧ Sim M kind program rep answer w₀
      ({ s with world := w }.setTask i (some (task.advance kind o (k r)))) a' := by
  obtain ⟨st, hguard, hnow, hproceeds, hjob⟩ := h.job htask
  rw [hprog] at hproceeds
  have hlocked : st.guard ≠ .write → st.guard = .read ∨ (kind o).locks →
      rep a.value s.world := by
    rintro - (hread | hlock)
    · exact h.value (h.unwritten htask (hguard ▸ hread))
    · exact h.value (hgrants.unwritten hlock)
  obtain ⟨st', hrest, hfollows⟩ :=
    (hproceeds.2 s.world r w (hnow.finds hlocked) hstep).exists_follows hnow hlocked
  -- the object does nothing, or it lets the call look at its value
  obtain ⟨a', hshown, hvalue, hjobs⟩ : ∃ a', Shown (Step answer) a [] a' ∧
      a'.value = a.value ∧ a'.jobs = fun j =>
        if j = i then some ⟨task.call, st'.seen, task.awaited⟩ else a.jobs j := by
    rcases hfollows.seen with hseen | ⟨hnone, hseen⟩
    · refine ⟨a, .refl, rfl, ?_⟩
      funext j
      split
      · next hj => rw [hj, hjob, hseen]
      · rfl
    · rw [hnone] at hjob
      rw [hseen]
      exact ⟨_, .single (.look hjob), rfl, rfl⟩
  have hnext : st'.guard = (task.advance kind o (k r)).guard := by
    rw [hfollows.guard, hguard]
    rfl
  refine ⟨a', hshown, h.reachable.step (.run htask hprog hgrants hstep), ?_, ?_⟩
  · intro hnobody
    rw [hvalue]
    have hself : st'.guard ≠ .write := by
      rw [hnext]
      exact hnobody i _ (by rw [System.tasks_setTask, if_pos rfl])
    refine hfollows.value hself (h.represents (i := i) (fun other hother => ?_)
      fun j other hj hother => ?_)
    · rw [htask] at hother
      cases hother
      exact fun hwrite => hself (hfollows.writing (hguard.trans hwrite))
    · exact hnobody j other (by rw [System.tasks_setTask, if_neg hj]; exact hother)
  · refine h.setJobs _ _ rfl hjobs (.same st' hnext (hvalue ▸ hfollows.now) hrest) ?_
    intro j other hj hother hold
    rw [hvalue]
    cases htaken : task.guard with
    | none =>
        obtain rfl := hfollows.world (hguard.trans htaken)
        exact hold
    | read =>
        refine hold.unwritten ?_ w
        rintro _ ⟨⟩
        exact h.unwritten htask htaken j other hother
    | write => exact hold.unlocked (h.reachable.exclusive htask hother hj htaken) _ w

/-- A task has gone away. -/
theorem Sim.remove (h : Sim M kind program rep answer w₀ s a)
    (htask : s.tasks i = some task) {returned : List (Return κ α σ)} {value : μ}
    (hreachable : System.Reachable M kind program none w₀
      ({ s with returned := returned }.setTask i none))
    (hwriter : task.guard = .write → rep value s.world)
    (hother : task.guard ≠ .write → value = a.value) :
    Sim M kind program rep answer w₀ ({ s with returned := returned }.setTask i none)
      ({ a with value := value }.setJob i none) := by
  refine ⟨hreachable, fun hnobody => ?_, ?_⟩
  · by_cases hwrite : task.guard = .write
    · exact hwriter hwrite
    · have hvalue : value = a.value := hother hwrite
      subst hvalue
      have hrep : rep a.value s.world := by
        refine h.represents (i := i) (fun other hself => ?_) fun j other hj hj' => ?_
        · rw [htask] at hself
          cases hself
          exact hwrite
        · exact hnobody j other (by rw [System.tasks_setTask, if_neg hj]; exact hj')
      exact hrep
  · refine h.setJobs none none rfl rfl .idle fun j other hj hj' hold => ?_
    by_cases hwrite : task.guard = .write
    · exact hold.unlocked (h.reachable.exclusive htask hj' hj hwrite) _ _
    · have hvalue : value = a.value := hother hwrite
      subst hvalue
      exact hold

theorem Sim.finish (h : Sim M kind program rep answer w₀ s a) {r : α}
    (htask : s.tasks i = some task) (hprog : task.prog = .done r) :
    ∃ a', Shown (Step answer) a (returnEvents task.awaited i task.call r) a' ∧
      Sim M kind program rep answer w₀
        ({ s with returned := s.returned ++ task.returns r }.setTask i none) a' := by
  obtain ⟨st, hguard, hnow, hproceeds, hjob⟩ := h.job htask
  rw [hprog] at hproceeds
  have hends : st.Ends rep answer task.call r := hproceeds
  -- a writer changes the value now; any other call may look at it before its answer
  obtain ⟨m, hshown, hvalue⟩ : ∃ m, Shown (Step answer) a
      (returnEvents task.awaited i task.call r) ({ a with value := m }.setJob i none) ∧
      (task.guard = .write ∧ rep m s.world ∨ task.guard ≠ .write ∧ m = a.value) := by
    cases st with
    | before =>
        refine ⟨a.value, shown_answer hjob (hends a.value), Or.inr ⟨?_, rfl⟩⟩
        simp [← hguard, Stage.guard]
    | reading m =>
        obtain rfl : m = a.value := hnow
        refine ⟨a.value, shown_answer hjob hends, Or.inr ⟨?_, rfl⟩⟩
        simp [← hguard, Stage.guard]
    | after m =>
        refine ⟨a.value, .single (.answer hjob hends), Or.inr ⟨?_, rfl⟩⟩
        simp [← hguard, Stage.guard]
    | writing m detached w =>
        obtain ⟨rfl, -, rfl⟩ := hnow
        obtain ⟨-, m', hanswer, hrep⟩ := hends
        exact ⟨m', .single (.change hjob hanswer), Or.inl ⟨hguard.symm, hrep⟩⟩
  exact ⟨_, hshown, h.remove htask (h.reachable.step (.finish htask hprog))
    (fun hwrite => (hvalue.resolve_right fun hnot => hnot.1 hwrite).2)
    fun hnot => (hvalue.resolve_left fun hwrite => hnot hwrite.1).2⟩

theorem Sim.step (h : Sim M kind program rep answer w₀ s a)
    (hprogram : ∀ call, Proceeds M kind rep (fun r st => st.Ends rep answer call r)
      (program call) .before) {events : List (CallEvent κ α)}
    (hstep : System.Shows M kind program s events s') :
    ∃ a', Shown (Step answer) a events a' ∧ Sim M kind program rep answer w₀ s' a' := by
  cases hstep with
  | start i call hfree => exact h.start hprogram call hfree
  | run htask hprog hgrants hstep => exact h.run htask hprog hgrants hstep
  | finish htask hprog => exact h.finish htask hprog
  | @drop i task htask hdetached =>
      obtain ⟨st, hguard, hnow, hproceeds, hjob⟩ := h.job htask
      refine ⟨_, .single (.drop hjob), h.remove htask (h.reachable.step
        (.drop htask hdetached)) (fun hwrite => ?_) fun _ => rfl⟩
      -- a writer that has not detached leaves the value as it was
      rw [hwrite] at hguard
      cases st with
      | writing m detached w =>
          obtain ⟨rfl, rfl, rfl⟩ := hnow
          exact hproceeds.droppable hdetached
      | _ => cases hguard
  | @leave i task htask hdetached =>
      obtain ⟨st, hguard, hnow, hproceeds, hjob⟩ := h.job htask
      refine ⟨_, .single (.leave hjob), h.reachable.step (.leave htask hdetached), ?_, ?_⟩
      · intro hnobody
        have hrep : rep a.value s.world := by
          refine h.represents (i := i) (fun other hself => ?_) fun j other hj hj' => ?_
          · rw [htask] at hself
            cases hself
            exact hnobody i { task with awaited := false } (if_pos rfl)
          · exact hnobody j other (by rw [System.tasks_setTask, if_neg hj]; exact hj')
        exact hrep
      · exact h.setJobs _ _ rfl rfl (.same st hguard hnow hproceeds)
          fun _ _ _ _ hold => hold

/-- Every history of the tasks is one of the object, and whenever nobody writes, the
world stands for its value. -/
theorem shown_of_shows (hprogram : ∀ call, Proceeds M kind rep
      (fun r st => st.Ends rep answer call r) (program call) .before)
    (hrep : rep m w) {history : List (CallEvent κ α)}
    (hrun : Shown (System.Shows M kind program) ⟨w, fun _ => none, []⟩ history s) :
    ∃ a, Shown (Step answer) (initial m) history a ∧
      ((∀ i task, s.tasks i = some task → task.guard ≠ .write) →
        rep a.value s.world) := by
  have hinit : Sim M kind program rep answer w ⟨w, fun _ => none, []⟩ (initial m) :=
    ⟨.init, fun _ => hrep, fun _ => .idle⟩
  obtain ⟨a, hshown, hsim⟩ := hrun.simulate
    (fun _ _ _ _ h hstep => h.step hprogram hstep) hinit
  exact ⟨a, hshown, hsim.value⟩

end Simulation

/-! ## Calls on their own -/

section Alone

variable {program : κ → Prog Op R α} {exec : (o : Op) → σ → R o × σ} {can : Op → Bool}
  {s : System Op R κ α σ}

/-- The operations can be run, and a task that is alone gets the lock for them. -/
def runsAlone (kind : Op → OpKind) (can : Op → Bool) :
    List (Exchange Op R) → Guard → Bool
  | [], _ => true
  | x :: rest, guard =>
      can x.1 &&
        (match kind x.1 with
          | .lockRead => decide (guard ≠ .write)
          | .lockWrite => decide (guard = .none)
          | _ => true) &&
        runsAlone kind can rest ((kind x.1).next guard)

/-- Only the task `i` is there, with this call and what is left of its program. -/
def Alone (s : System Op R κ α σ) (i : ℕ) (c : κ) (p : Prog Op R α) (guard : Guard) :
    Prop :=
  ∃ task, s.tasks i = some task ∧ task.call = c ∧ task.prog = p ∧ task.guard = guard ∧
    task.awaited = true ∧ ∀ j, j ≠ i → s.tasks j = none

theorem shown_of_alone (hexec : ∀ o w, can o = true →
    M.step o w (exec o w).1 (exec o w).2)
    {i : ℕ} {c : κ} {p : Prog Op R α} {guard : Guard} (hs : Alone s i c p guard)
    (hruns : runsAlone kind can (p.record exec s.world).1 guard = true) :
    ∃ s' guard', Shown (System.Shows M kind program) s [] s' ∧
      Alone s' i c (.done (p.record exec s.world).2.1) guard' ∧
      s'.world = (p.record exec s.world).2.2 := by
  induction p generalizing s guard with
  | done a => exact ⟨s, guard, .refl, hs, rfl⟩
  | call o k ih =>
      obtain ⟨task, htask, rfl, hprog, rfl, hawaited, hothers⟩ := hs
      obtain ⟨⟨hcan, hlock⟩, hrest⟩ :
          (can o = true ∧ (match kind o with
            | .lockRead => decide (task.guard ≠ .write)
            | .lockWrite => decide (task.guard = .none)
            | _ => true) = true) ∧
            runsAlone kind can ((k (exec o s.world).1).record exec (exec o s.world).2).1
              ((kind o).next task.guard) = true := by
        simpa only [Prog.record, runsAlone, Bool.and_eq_true] using hruns
      have honly : ∀ j other, s.tasks j = some other → other = task := by
        intro j other hother
        by_cases hj : j = i
        · subst hj
          rw [htask] at hother
          exact (Option.some.inj hother).symm
        · rw [hothers j hj] at hother
          cases hother
      have hgrants : s.Grants (kind o) := by
        cases hkind : kind o with
        | lockRead =>
            rw [hkind] at hlock
            intro j other hother
            rw [honly j other hother]
            exact of_decide_eq_true hlock
        | lockWrite =>
            rw [hkind] at hlock
            intro j other hother
            rw [honly j other hother]
            exact of_decide_eq_true hlock
        | _ => trivial
      have hstep : System.Shows M kind program s [] ({ s with world := _ }.setTask i _) :=
        .run htask hprog hgrants (hexec o s.world hcan)
      have hnext : Alone ({ s with world := (exec o s.world).2 }.setTask i
          (some (task.advance kind o (k (exec o s.world).1)))) i task.call
          (k (exec o s.world).1) ((kind o).next task.guard) :=
        ⟨task.advance kind o (k (exec o s.world).1), if_pos rfl, rfl, rfl, rfl, hawaited,
          fun j hj => (if_neg hj).trans (hothers j hj)⟩
      obtain ⟨s', guard', hshown, halone, hworld⟩ := ih _ hnext hrest
      exact ⟨s', guard', (Shown.single hstep).trans hshown, halone, hworld⟩

/-- A call without any other returns. -/
theorem shown_call (hexec : ∀ o w, can o = true → M.step o w (exec o w).1 (exec o w).2)
    (hnobody : ∀ j, s.tasks j = none) (c : κ) {a : α} {w : σ}
    (hresult : ((program c).record exec s.world).2 = (a, w))
    (hruns : runsAlone kind can ((program c).record exec s.world).1 .none = true) :
    ∃ s', Shown (System.Shows M kind program) s [.called 0 c, .returned 0 c a] s' ∧
      (∀ j, s'.tasks j = none) ∧ s'.world = w := by
  have hstart : System.Shows M kind program s [.called 0 c]
      (s.setTask 0 (some (.new program c s.world))) := .start 0 c (hnobody 0)
  have hnew : Alone (s.setTask 0 (some (.new program c s.world))) 0 c (program c) .none :=
    ⟨.new program c s.world, rfl, rfl, rfl, rfl, rfl,
      fun j hj => (if_neg hj).trans (hnobody j)⟩
  obtain ⟨s₁, guard, hshown, ⟨task, htask, rfl, hprog, -, hawaited, hothers⟩, hworld⟩ :=
    shown_of_alone hexec hnew hruns
  rw [show (s.setTask 0 _).world = s.world from rfl, hresult] at hprog hworld
  have hfinish : System.Shows M kind program s₁
      (returnEvents task.awaited 0 task.call a)
        ({ s₁ with returned := _ }.setTask 0 none) :=
    .finish htask hprog
  rw [hawaited] at hfinish
  refine ⟨_, ((Shown.single hstart).trans hshown).snoc hfinish, fun j => ?_, hworld⟩
  by_cases hj : j = 0
  · exact if_pos hj
  · exact (if_neg hj).trans (hothers j hj)

end Alone

end Sections

end Connexa
