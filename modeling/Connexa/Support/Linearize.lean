import Connexa.Support.Program
import Mathlib.Data.List.Forall2
import Mathlib.Logic.Function.Basic
import Mathlib.Logic.Relation

/-!
# Jobs that look atomic

Any number of jobs run programs over a shared world, one operation at a time and
in any order.  Some operations take the lock, which the job keeps until its
program has ended.  An `Object` answers each call in a single step somewhere
between the call and its return.  A `Linearization` says what makes the jobs
look like such an object: callers see the same calls and returns.
-/

namespace Connexa

/-- What the callers of numbered jobs see. -/
inductive JobEvent (κ : Type) (Res : κ → Type) where
  | called (i : ℕ) (c : κ)
  | returned (i : ℕ) (c : κ) (r : Res c)

variable {Op : Type} {R : Op → Type} {κ : Type} {Res : κ → Type} {σ μ : Type}

/-- The same event, but for results that are the same to callers. -/
inductive JobEvent.Same (same : (c : κ) → Res c → Res c → Prop) :
    JobEvent κ Res → JobEvent κ Res → Prop where
  | called (i : ℕ) (c : κ) : Same same (.called i c) (.called i c)
  | returned (i : ℕ) {c : κ} {x r : Res c} (h : same c x r) :
      Same same (.returned i c x) (.returned i c r)

/-! ## Jobs -/

/-- The programs of the calls, and which operations take the lock. -/
structure JobSystem (Op : Type) (R : Op → Type) (κ : Type) (Res : κ → Type)
    (σ : Type) where
  machine : Machine Op R σ
  locks : Op → Bool
  program : (c : κ) → Prog Op R (Res c)
  /-- The calls that are made. -/
  allowed : κ → Prop

namespace JobSystem

/-- The world, who holds the lock, and what is left of the jobs. -/
structure State (S : JobSystem Op R κ Res σ) where
  world : σ
  holder : Option ℕ
  jobs : ℕ → Option (Σ c, Prog Op R (Res c))
  history : List (JobEvent κ Res)

variable (S : JobSystem Op R κ Res σ)

/-- No job yet. -/
def initial (w : σ) : S.State :=
  ⟨w, none, fun _ => none, []⟩

inductive Step : S.State → S.State → Prop where
  | call {s : S.State} (i : ℕ) (c : κ) (hfree : s.jobs i = none)
      (hallowed : S.allowed c) :
      Step s { s with
        jobs := Function.update s.jobs i (some ⟨c, S.program c⟩)
        history := s.history ++ [.called i c] }
  | run {s : S.State} {i : ℕ} {c : κ} {o : Op} {k : R o → Prog Op R (Res c)}
      {r : R o} {w : σ} (hjob : s.jobs i = some ⟨c, .call o k⟩)
      (hlock : S.locks o = true → s.holder = none)
      (hstep : S.machine.step o s.world r w) :
      Step s { s with
        world := w
        holder := if S.locks o then some i else s.holder
        jobs := Function.update s.jobs i (some ⟨c, k r⟩) }
  | release {s : S.State} {i : ℕ} {c : κ} {r : Res c}
      (hjob : s.jobs i = some ⟨c, .done r⟩) (hholder : s.holder = some i) :
      Step s { s with holder := none }
  | finish {s : S.State} {i : ℕ} {c : κ} {r : Res c}
      (hjob : s.jobs i = some ⟨c, .done r⟩) (hholder : s.holder ≠ some i) :
      Step s { s with
        jobs := Function.update s.jobs i none
        history := s.history ++ [.returned i c r] }

/-- The states that runs from a world reach. -/
def Reachable (w : σ) (s : S.State) : Prop :=
  Relation.ReflTransGen S.Step (S.initial w) s

end JobSystem

/-! ## Objects -/

/-- An object that answers calls one at a time. -/
structure Object (κ : Type) (Res : κ → Type) (μ : Type) where
  answer : (c : κ) → μ → Res c × μ
  allowed : κ → Prop

namespace Object

/-- The value of the object, and the calls that have not returned, with their
answers once they have one. -/
structure State (O : Object κ Res μ) where
  value : μ
  jobs : ℕ → Option (Σ c, Option (Res c))
  history : List (JobEvent κ Res)

variable (O : Object κ Res μ)

def initial (m : μ) : O.State :=
  ⟨m, fun _ => none, []⟩

inductive Step : O.State → O.State → Prop where
  | call {a : O.State} (i : ℕ) (c : κ) (hfree : a.jobs i = none)
      (hallowed : O.allowed c) :
      Step a { a with
        jobs := Function.update a.jobs i (some ⟨c, none⟩)
        history := a.history ++ [.called i c] }
  | act {a : O.State} {i : ℕ} {c : κ} (hjob : a.jobs i = some ⟨c, none⟩) :
      Step a { a with
        value := (O.answer c a.value).2
        jobs := Function.update a.jobs i (some ⟨c, some (O.answer c a.value).1⟩) }
  | finish {a : O.State} {i : ℕ} {c : κ} {r : Res c}
      (hjob : a.jobs i = some ⟨c, some r⟩) :
      Step a { a with
        jobs := Function.update a.jobs i none
        history := a.history ++ [.returned i c r] }

def Reachable (m : μ) (a : O.State) : Prop :=
  Relation.ReflTransGen O.Step (O.initial m) a

end Object

/-! ## What makes jobs look atomic -/

/-- Until it holds the lock a job only makes the world grow; as long as somebody
holds it, what the others do cannot be told. -/
structure Linearization (S : JobSystem Op R κ Res σ) (O : Object κ Res μ) where
  /-- The results that callers do not tell apart. -/
  same : (c : κ) → Res c → Res c → Prop
  /-- With the lock free, the world stands for this value. -/
  rep : μ → σ → Prop
  /-- What holds of the world while the lock is held. -/
  busy : σ → Prop
  /-- What always holds of the world. -/
  sound : σ → Prop
  grows : σ → σ → Prop
  /-- The holder of the lock cannot tell these worlds apart. -/
  still : σ → σ → Prop
  /-- The operations of jobs that do not have the lock yet. -/
  opens : Op → Prop
  allowed : ∀ c, S.allowed c → O.allowed c
  sound_of_rep : ∀ {m w}, rep m w → sound w
  sound_of_busy : ∀ {w}, busy w → sound w
  grows_refl : ∀ w, grows w w
  grows_trans : ∀ {u v w}, grows u v → grows v w → grows u w
  grows_of_busy : ∀ {u w}, busy u → busy w → grows u w
  busy_of_still : ∀ {u w}, still u w → busy u → busy w
  rep_of_still : ∀ {m u w}, still u w → rep m u → rep m w
  step_of_still : ∀ {o r u w w'}, still u w → S.machine.step o w r w' →
    ∃ u', S.machine.step o u r u' ∧ still u' w'
  opens_rep : ∀ {o r m w w'}, opens o → rep m w → S.machine.step o w r w' →
    rep m w' ∧ grows w w'
  opens_busy : ∀ {o r w w'}, opens o → busy w → S.machine.step o w r w' →
    still w w' ∧ grows w w'

namespace Linearization

variable {S : JobSystem Op R κ Res σ} {O : Object κ Res μ}
  (L : Linearization S O)

/-- The end of a job that has taken the lock over the value `m`. -/
def Post (c : κ) (r : Res c) (m : μ) (x : Res c) (w : σ) : Prop :=
  L.same c x r ∧ L.rep m w

/-- A job on its way to the lock, which it takes once.  It may also end before,
if it can tell its answer from the world without the lock. -/
def Approach (c : κ) : Prog Op R (Res c) → σ → Prop
  | .done _, _ => False
  | .call o k, w => ∀ w₁, L.grows w w₁ → L.sound w₁ →
      (S.locks o = true → L.busy w₁ ∧ ∀ m r w₂, L.rep m w₁ →
        S.machine.step o w₁ r w₂ →
          S.machine.Safe L.busy
            (L.Post c (O.answer c m).1 (O.answer c m).2) (k r) w₂ ∧
          (k r).Calls fun o => S.locks o = false) ∧
      (S.locks o = false → L.opens o ∧ ∀ r w₂, S.machine.step o w₁ r w₂ →
        Approach c (k r) w₂ ∨
          ¬L.busy w₁ ∧ ∃ x, k r = .done x ∧ ∀ m, L.rep m w₁ →
            L.same c x (O.answer c m).1 ∧ (O.answer c m).2 = m)

theorem Approach.grows {c : κ} {p : Prog Op R (Res c)} {w w' : σ}
    (h : L.Approach c p w) (hgrows : L.grows w w') : L.Approach c p w' := by
  cases p with
  | done x => exact h
  | call o k => exact fun w₁ hw₁ => h w₁ (L.grows_trans hgrows hw₁)

/-- The holder of the lock goes on as before when others have moved. -/
theorem safe_of_still {α : Type} {Q : α → σ → Prop}
    (hQ : ∀ a u w, L.still u w → Q a u → Q a w) {p : Prog Op R α} {u w : σ}
    (h : S.machine.Safe L.busy Q p u) (hstill : L.still u w) :
    S.machine.Safe L.busy Q p w := by
  induction p generalizing u w with
  | done a => exact ⟨L.busy_of_still hstill h.1, hQ a u w hstill h.2⟩
  | call o k ih =>
      refine ⟨L.busy_of_still hstill h.1, fun r w' hw' => ?_⟩
      obtain ⟨u', hu', hstill'⟩ := L.step_of_still hstill hw'
      exact ih r (h.2 r u' hu') hstill'

/-- A program without the lock, by what it finds at its end. -/
def Outside {α : Type} (Q : α → σ → Prop) : Prog Op R α → σ → Prop
  | .done a, w => Q a w
  | .call o k, w => ∀ w₁, L.grows w w₁ → L.sound w₁ →
      S.locks o = false ∧ L.opens o ∧
        ∀ r w₂, S.machine.step o w₁ r w₂ → Outside Q (k r) w₂

section Rules

variable {L} {α β ε : Type} {w : σ}

theorem Outside.bind {p : Prog Op R α} {f : α → Prog Op R β} {Q : β → σ → Prop}
    (h : L.Outside (fun a w => L.Outside Q (f a) w) p w) :
    L.Outside Q (p >>= f) w := by
  induction p generalizing w with
  | done a => exact h
  | call o k ih =>
      intro w₁ hgrows hsound
      obtain ⟨hlock, hopens, hnext⟩ := h w₁ hgrows hsound
      exact ⟨hlock, hopens, fun r w₂ hw₂ => ih r (hnext r w₂ hw₂)⟩

theorem Outside.mono {p : Prog Op R α} {Q Q' : α → σ → Prop}
    (h : L.Outside Q p w) (hQ : ∀ a w, Q a w → Q' a w) : L.Outside Q' p w := by
  induction p generalizing w with
  | done a => exact hQ a w h
  | call o k ih =>
      intro w₁ hgrows hsound
      obtain ⟨hlock, hopens, hnext⟩ := h w₁ hgrows hsound
      exact ⟨hlock, hopens, fun r w₂ hw₂ => ih r (hnext r w₂ hw₂)⟩

/-- Sequencing without errors. -/
theorem Outside.bindExcept {x : ExceptT ε (Prog Op R) α}
    {f : α → ExceptT ε (Prog Op R) β} {P : α → σ → Prop}
    {Q : Except ε β → σ → Prop}
    (h : L.Outside (Machine.Yields P fun _ _ => False) x.run w)
    (hf : ∀ a w, P a w → L.Outside Q (f a).run w) :
    L.Outside Q (x >>= f).run w := by
  refine Outside.bind (h.mono ?_)
  intro r w hr
  cases r with
  | ok a => exact hf a w hr
  | error e => exact hr.elim

/-- The way to the lock leads on from the end of the program. -/
theorem Outside.approach {c : κ} {p : Prog Op R α} {f : α → Prog Op R (Res c)}
    {Q : α → σ → Prop} (h : L.Outside Q p w)
    (hf : ∀ a w, Q a w → L.Approach c (f a) w) : L.Approach c (p >>= f) w := by
  induction p generalizing w with
  | done a => exact hf a w h
  | call o k ih =>
      intro w₁ hgrows hsound
      obtain ⟨hlock, hopens, hnext⟩ := h w₁ hgrows hsound
      refine ⟨fun hlocks => ?_, fun _ => ⟨hopens, fun r w₂ hw₂ => ?_⟩⟩
      · rw [hlock] at hlocks
        cases hlocks
      · exact Or.inl (ih r (hnext r w₂ hw₂))

end Rules

theorem post_of_still {c : κ} {r : Res c} {m : μ} (x : Res c) (u w : σ)
    (hstill : L.still u w) (h : L.Post c r m x u) : L.Post c r m x w :=
  ⟨h.1, L.rep_of_still hstill h.2⟩

/-! ## The simulation -/

/-- A job and a call to the object that has come as far. -/
inductive SameJob (held : Prop) (w : σ) (m : μ) :
    Option (Σ c, Prog Op R (Res c)) → Option (Σ c, Option (Res c)) → Prop where
  | idle (hheld : ¬held) : SameJob held w m none none
  | before {c : κ} {p : Prog Op R (Res c)} (hheld : ¬held)
      (h : L.Approach c p w) : SameJob held w m (some ⟨c, p⟩) (some ⟨c, none⟩)
  | inside {c : κ} {p : Prog Op R (Res c)} {r : Res c} (hheld : held)
      (h : S.machine.Safe L.busy (L.Post c r m) p w)
      (hcalls : p.Calls fun o => S.locks o = false) :
      SameJob held w m (some ⟨c, p⟩) (some ⟨c, some r⟩)
  | after {c : κ} {x r : Res c} (hheld : ¬held) (h : L.same c x r) :
      SameJob held w m (some ⟨c, .done x⟩) (some ⟨c, some r⟩)

structure Sim (s : S.State) (a : O.State) : Prop where
  history : List.Forall₂ (JobEvent.Same L.same) s.history a.history
  free : s.holder = none → L.rep a.value s.world
  busy : ∀ i, s.holder = some i → L.busy s.world
  jobs : ∀ i, L.SameJob (s.holder = some i) s.world a.value (s.jobs i) (a.jobs i)

section Step

variable {L} {s : S.State} {a : O.State}

theorem Sim.sound (h : L.Sim s a) : L.sound s.world := by
  cases hholder : s.holder with
  | none => exact L.sound_of_rep (h.free hholder)
  | some i => exact L.sound_of_busy (h.busy i hholder)

/-- A job that does not hold the lock, seen from the steps of the others. -/
theorem SameJob.others {held held' : Prop} {w w' : σ} {m m' : μ}
    {x : Option (Σ c, Prog Op R (Res c))} {y : Option (Σ c, Option (Res c))}
    (h : L.SameJob held w m x y) (hheld : ¬held) (hheld' : ¬held')
    (hgrows : L.grows w w') : L.SameJob held' w' m' x y := by
  cases h with
  | idle _ => exact .idle hheld'
  | before _ h => exact .before hheld' (h.grows L hgrows)
  | inside hin _ _ => exact absurd hin hheld
  | after _ h => exact .after hheld' h

/-- The holder of the lock, seen from the steps of the others. -/
theorem SameJob.holder {held : Prop} {w w' : σ} {m : μ}
    {x : Option (Σ c, Prog Op R (Res c))} {y : Option (Σ c, Option (Res c))}
    (h : L.SameJob held w m x y) (hheld : held) (hstill : L.still w w') :
    L.SameJob held w' m x y := by
  cases h with
  | idle hnot => exact absurd hheld hnot
  | before hnot _ => exact absurd hheld hnot
  | inside _ h hcalls =>
      exact .inside hheld (L.safe_of_still L.post_of_still h hstill) hcalls
  | after hnot _ => exact absurd hheld hnot

theorem Sim.call (h : L.Sim s a) {i : ℕ} {c : κ} (hfree : s.jobs i = none)
    (hallowed : S.allowed c) (happroach : L.Approach c (S.program c) s.world) :
    ∃ a', Relation.ReflTransGen O.Step a a' ∧
      L.Sim { s with
        jobs := Function.update s.jobs i (some ⟨c, S.program c⟩)
        history := s.history ++ [.called i c] } a' := by
  have hjob := h.jobs i
  rw [hfree] at hjob
  generalize hidle : a.jobs i = y at hjob
  cases hjob with
  | idle hheld =>
      refine ⟨_, .single (.call i c hidle (L.allowed c hallowed)), ?_, h.free,
        h.busy, ?_⟩
      · exact List.rel_append h.history (.cons (.called i c) .nil)
      · intro j
        by_cases hj : j = i
        · subst hj
          simp only [Function.update_self]
          exact .before hheld happroach
        · simp only [Function.update_of_ne hj]
          exact h.jobs j

/-- A step of a job that does not hold the lock and does not take it. -/
theorem Sim.open (h : L.Sim s a) {i : ℕ} {c : κ} {o : Op}
    {k : R o → Prog Op R (Res c)} {r : R o} {w : σ}
    (hheld : s.holder ≠ some i) (hjob : a.jobs i = some ⟨c, none⟩)
    (happroach : L.Approach c (.call o k) s.world) (hlock : S.locks o = false)
    (hstep : S.machine.step o s.world r w) :
    ∃ a', Relation.ReflTransGen O.Step a a' ∧
      L.Sim { s with
        world := w
        jobs := Function.update s.jobs i (some ⟨c, k r⟩) } a' := by
  obtain ⟨hopens, hnext⟩ := (happroach _ (L.grows_refl _) h.sound).2 hlock
  -- what the step does to the world and to the others
  have hgrows : L.grows s.world w := by
    cases hholder : s.holder with
    | none => exact (L.opens_rep hopens (h.free hholder) hstep).2
    | some j => exact (L.opens_busy hopens (h.busy j hholder) hstep).2
  have hfree : s.holder = none → L.rep a.value w := fun hholder =>
    (L.opens_rep hopens (h.free hholder) hstep).1
  have hbusy : ∀ j, s.holder = some j → L.busy w := fun j hholder =>
    L.busy_of_still (L.opens_busy hopens (h.busy j hholder) hstep).1
      (h.busy j hholder)
  have hothers : ∀ j, j ≠ i →
      L.SameJob (s.holder = some j) w a.value (s.jobs j) (a.jobs j) := by
    intro j _
    by_cases hj : s.holder = some j
    · exact (h.jobs j).holder hj (L.opens_busy hopens (h.busy j hj) hstep).1
    · exact (h.jobs j).others hj hj hgrows
  rcases hnext r w hstep with happroach' | ⟨hnot, x, hdone, hanswer⟩
  · refine ⟨a, .refl, h.history, hfree, hbusy, ?_⟩
    intro j
    by_cases hj : j = i
    · subst hj
      simp only [Function.update_self]
      rw [hjob]
      exact .before hheld happroach'
    · simp only [Function.update_of_ne hj]
      exact hothers j hj
  · have hnone : s.holder = none := by
      cases hholder : s.holder with
      | none => rfl
      | some j => exact absurd (h.busy j hholder) hnot
    obtain ⟨hsame, hvalue⟩ := hanswer a.value (h.free hnone)
    refine ⟨_, .single (.act hjob), h.history, ?_, hbusy, ?_⟩
    · intro hholder
      rw [hvalue]
      exact hfree hholder
    · intro j
      by_cases hj : j = i
      · subst hj
        simp only [Function.update_self, hdone]
        exact .after hheld hsame
      · simp only [Function.update_of_ne hj]
        rw [hvalue]
        exact hothers j hj

/-- A job takes the lock, and the object acts. -/
theorem Sim.lock (h : L.Sim s a) {i : ℕ} {c : κ} {o : Op}
    {k : R o → Prog Op R (Res c)} {r : R o} {w : σ}
    (hnone : s.holder = none) (hjob : a.jobs i = some ⟨c, none⟩)
    (happroach : L.Approach c (.call o k) s.world) (hlock : S.locks o = true)
    (hstep : S.machine.step o s.world r w) :
    ∃ a', Relation.ReflTransGen O.Step a a' ∧
      L.Sim { s with
        world := w
        holder := some i
        jobs := Function.update s.jobs i (some ⟨c, k r⟩) } a' := by
  obtain ⟨hbusy, hnext⟩ := (happroach _ (L.grows_refl _) h.sound).1 hlock
  obtain ⟨hsafe, hcalls⟩ := hnext a.value r w (h.free hnone) hstep
  have hgrows : L.grows s.world w := L.grows_of_busy hbusy hsafe.here
  refine ⟨_, .single (.act hjob), h.history, nofun, fun _ _ => hsafe.here, ?_⟩
  intro j
  by_cases hj : j = i
  · subst hj
    simp only [Function.update_self]
    exact .inside trivial hsafe hcalls
  · simp only [Function.update_of_ne hj]
    have hheld : s.holder ≠ some j := by simp [hnone]
    have hheld' : some i ≠ some j := by simpa using Ne.symm hj
    exact (h.jobs j).others hheld hheld' hgrows

/-- A step of the holder of the lock. -/
theorem Sim.holderStep (h : L.Sim s a) {i : ℕ} {c : κ} {o : Op}
    {k : R o → Prog Op R (Res c)} {r : R o} {w : σ} {x : Res c}
    (hheld : s.holder = some i) (hjob : a.jobs i = some ⟨c, some x⟩)
    (hsafe : S.machine.Safe L.busy (L.Post c x a.value) (.call o k) s.world)
    (hcalls : (Prog.call o k).Calls fun o => S.locks o = false)
    (hstep : S.machine.step o s.world r w) :
    L.Sim { s with
      world := w
      jobs := Function.update s.jobs i (some ⟨c, k r⟩) } a := by
  have hnext := hsafe.2 r w hstep
  have hgrows : L.grows s.world w := L.grows_of_busy hsafe.1 hnext.here
  refine ⟨h.history, ?_, fun _ _ => hnext.here, ?_⟩
  · intro hnone
    rw [hheld] at hnone
    cases hnone
  · intro j
    by_cases hj : j = i
    · subst hj
      simp only [Function.update_self]
      rw [hjob]
      exact .inside hheld hnext (hcalls.2 r)
    · simp only [Function.update_of_ne hj]
      have hother : s.holder ≠ some j := by
        rw [hheld]
        simpa using Ne.symm hj
      exact (h.jobs j).others hother hother hgrows

theorem Sim.release (h : L.Sim s a) {i : ℕ} {c : κ} {x : Res c}
    (hjob : s.jobs i = some ⟨c, .done x⟩) (hheld : s.holder = some i) :
    L.Sim { s with holder := none } a := by
  have hsame := h.jobs i
  rw [hjob] at hsame
  generalize hy : a.jobs i = y at hsame
  cases hsame with
  | before hnot _ => exact absurd hheld hnot
  | after hnot _ => exact absurd hheld hnot
  | inside _ hsafe _ =>
      refine ⟨h.history, fun _ => hsafe.2.2, nofun, ?_⟩
      intro j
      by_cases hj : j = i
      · subst hj
        change L.SameJob _ _ _ (s.jobs j) _
        rw [hjob, hy]
        exact .after nofun hsafe.2.1
      · have hother : s.holder ≠ some j := by
          rw [hheld]
          simpa using Ne.symm hj
        exact (h.jobs j).others hother nofun (L.grows_refl _)

theorem Sim.finish (h : L.Sim s a) {i : ℕ} {c : κ} {x : Res c}
    (hjob : s.jobs i = some ⟨c, .done x⟩) (hheld : s.holder ≠ some i) :
    ∃ a', Relation.ReflTransGen O.Step a a' ∧
      L.Sim { s with
        jobs := Function.update s.jobs i none
        history := s.history ++ [.returned i c x] } a' := by
  have hsame := h.jobs i
  rw [hjob] at hsame
  generalize hy : a.jobs i = y at hsame
  cases hsame with
  | before _ happroach => exact happroach.elim
  | inside hin _ _ => exact absurd hin hheld
  | after _ hsame =>
      refine ⟨_, .single (.finish hy), ?_, h.free, h.busy, ?_⟩
      · exact List.rel_append h.history (.cons (.returned i hsame) .nil)
      · intro j
        by_cases hj : j = i
        · subst hj
          simp only [Function.update_self]
          exact .idle hheld
        · simp only [Function.update_of_ne hj]
          exact h.jobs j

theorem Sim.run (h : L.Sim s a) {i : ℕ} {c : κ} {o : Op}
    {k : R o → Prog Op R (Res c)} {r : R o} {w : σ}
    (hjob : s.jobs i = some ⟨c, .call o k⟩)
    (hlock : S.locks o = true → s.holder = none)
    (hstep : S.machine.step o s.world r w) :
    ∃ a', Relation.ReflTransGen O.Step a a' ∧
      L.Sim { s with
        world := w
        holder := if S.locks o then some i else s.holder
        jobs := Function.update s.jobs i (some ⟨c, k r⟩) } a' := by
  have hsame := h.jobs i
  rw [hjob] at hsame
  generalize hy : a.jobs i = y at hsame
  cases hsame with
  | before hheld happroach =>
      cases hlocks : S.locks o with
      | true =>
          simp only [if_true]
          exact h.lock (hlock hlocks) hy happroach hlocks hstep
      | false =>
          simp only [Bool.false_eq_true, if_false]
          exact h.open hheld hy happroach hlocks hstep
  | inside hheld hsafe hcalls =>
      simp only [hcalls.1, Bool.false_eq_true, if_false]
      exact ⟨a, .refl, h.holderStep hheld hy hsafe hcalls hstep⟩

end Step

/-- What callers of the jobs see, callers of the object may see. -/
theorem refines (hprogram : ∀ c, S.allowed c → ∀ w, L.sound w →
      L.Approach c (S.program c) w) {m : μ} {w : σ} (hw : L.rep m w)
    {s : S.State} (hs : S.Reachable w s) :
    ∃ a, O.Reachable m a ∧ L.Sim s a := by
  induction hs with
  | refl =>
      exact ⟨O.initial m, .refl, .nil, fun _ => hw, nofun, fun i => .idle nofun⟩
  | @tail _ t _ hstep ih =>
      obtain ⟨a, ha, hsim⟩ := ih
      have hnext : ∃ a', Relation.ReflTransGen O.Step a a' ∧ L.Sim t a' := by
        cases hstep with
        | call i c hfree hallowed =>
            exact hsim.call hfree hallowed (hprogram c hallowed _ hsim.sound)
        | run hjob hlock hstep => exact hsim.run hjob hlock hstep
        | release hjob hheld => exact ⟨a, .refl, hsim.release hjob hheld⟩
        | finish hjob hheld => exact hsim.finish hjob hheld
      obtain ⟨a', hsteps, hsim'⟩ := hnext
      exact ⟨a', ha.trans hsteps, hsim'⟩

/-! ## Every call can return -/

section Returns

variable {L} {s : S.State} {a : O.State}

/-- The holder of the lock, left alone, ends and gives it back. -/
theorem Sim.holder_returns (htotal : ∀ o w, ∃ r w', S.machine.step o w r w')
    (h : L.Sim s a) {i : ℕ} (hheld : s.holder = some i) {c : κ}
    {p : Prog Op R (Res c)} (hjob : s.jobs i = some ⟨c, p⟩) :
    ∃ t a', Relation.ReflTransGen S.Step s t ∧ L.Sim t a' ∧ t.holder = none ∧
      t.jobs i = none := by
  induction p generalizing s a with
  | done x =>
      have hreleased := h.release hjob hheld
      obtain ⟨a', -, hsim⟩ := hreleased.finish hjob nofun
      exact ⟨_, a', .tail (.single (.release hjob hheld)) (.finish hjob nofun),
        hsim, rfl, Function.update_self ..⟩
  | call o k ih =>
      have hlocks : S.locks o = false := by
        have hsame := h.jobs i
        rw [hjob] at hsame
        generalize a.jobs i = y at hsame
        cases hsame with
        | before hnot _ => exact absurd hheld hnot
        | inside _ _ hcalls => exact hcalls.1
      have hlock : S.locks o = true → s.holder = none := by simp [hlocks]
      obtain ⟨r, w, hstep⟩ := htotal o s.world
      obtain ⟨a', -, hsim⟩ := h.run hjob hlock hstep
      obtain ⟨t, a'', hsteps, ht⟩ := ih r hsim (by simp [hlocks, hheld])
        (Function.update_self ..)
      exact ⟨t, a'', .head (.run hjob hlock hstep) hsteps, ht⟩

/-- With the lock free, every job ends when it is left alone. -/
theorem Sim.free_returns (htotal : ∀ o w, ∃ r w', S.machine.step o w r w')
    (h : L.Sim s a) (hfree : s.holder = none) {i : ℕ} {c : κ}
    {p : Prog Op R (Res c)} (hjob : s.jobs i = some ⟨c, p⟩) :
    ∃ t, Relation.ReflTransGen S.Step s t ∧ t.jobs i = none := by
  induction p generalizing s a with
  | done x =>
      refine ⟨_, .single (.finish hjob ?_), Function.update_self ..⟩
      simp [hfree]
  | call o k ih =>
      obtain ⟨r, w, hstep⟩ := htotal o s.world
      obtain ⟨a', -, hsim⟩ := h.run hjob (fun _ => hfree) hstep
      have hrun := JobSystem.Step.run hjob (fun _ => hfree) hstep
      cases hlocks : S.locks o with
      | true =>
          obtain ⟨t, -, hsteps, -, -, ht⟩ := hsim.holder_returns htotal
            (by simp [hlocks]) (Function.update_self ..)
          exact ⟨t, .head hrun hsteps, ht⟩
      | false =>
          obtain ⟨t, hsteps, ht⟩ := ih r hsim (by simp [hlocks, hfree])
            (Function.update_self ..)
          exact ⟨t, .head hrun hsteps, ht⟩

/-- Whatever has happened so far, every call can still return. -/
theorem Sim.returns (htotal : ∀ o w, ∃ r w', S.machine.step o w r w')
    (h : L.Sim s a) (i : ℕ) :
    ∃ t, Relation.ReflTransGen S.Step s t ∧ t.jobs i = none := by
  have hfree : ∀ (t : S.State) (b : O.State), L.Sim t b → t.holder = none →
      ∃ u, Relation.ReflTransGen S.Step t u ∧ u.jobs i = none := by
    intro t b ht hnone
    cases hjob : t.jobs i with
    | none => exact ⟨t, .refl, hjob⟩
    | some job => exact ht.free_returns htotal hnone hjob
  cases hholder : s.holder with
  | none => exact hfree s a h hholder
  | some j =>
      obtain ⟨job, hjob⟩ : ∃ job, s.jobs j = some job := by
        have hsame := h.jobs j
        generalize s.jobs j = x, a.jobs j = y at hsame
        cases hsame with
        | idle hnot => exact absurd hholder hnot
        | before _ _ => exact ⟨_, rfl⟩
        | inside _ _ _ => exact ⟨_, rfl⟩
        | after _ _ => exact ⟨_, rfl⟩
      obtain ⟨t, b, hsteps, ht, hnone, -⟩ := h.holder_returns htotal hholder hjob
      obtain ⟨u, hsteps', hu⟩ := hfree t b ht hnone
      exact ⟨u, hsteps.trans hsteps', hu⟩

end Returns

end Linearization

end Connexa
