import Connexa.Support.Tasks

/-!
# Disciplines of tasks

A `Discipline` says what holds whenever nobody writes, what readers may do and
what writers may do.  `Ok` is the condition under which a program keeps to it,
whatever the other tasks do in the meantime.  It is checked for one program at
a time; `sound_of_reachable` puts the tasks together.
-/

namespace Connexa

structure Discipline (σ : Type) where
  /-- Holds whenever nobody writes. -/
  Inv : σ → Prop
  /-- What a reader may do. -/
  Reads : σ → σ → Prop
  /-- What any task may do. -/
  Moves : σ → σ → Prop
  reads_refl : ∀ w, Reads w w
  reads_trans : ∀ {u v w}, Reads u v → Reads v w → Reads u w
  moves_refl : ∀ w, Moves w w
  moves_trans : ∀ {u v w}, Moves u v → Moves v w → Moves u w
  moves_of_reads : ∀ {v w}, Reads v w → Moves v w
  inv_of_reads : ∀ {v w}, Inv v → Reads v w → Inv w

/-- A task's view of the system. -/
structure View (σ : Type) where
  guard : Guard
  detached : Bool
  world : σ

/-- The view has these guards and its world satisfies `A`. -/
structure View.Has {σ : Type} (guard : Guard) (detached : Bool) (A : σ → Prop)
    (v : View σ) : Prop where
  guard_eq : v.guard = guard
  detached_eq : v.detached = detached
  holds : A v.world

theorem View.Has.mono {σ : Type} {guard : Guard} {detached : Bool}
    {A B : σ → Prop} {v : View σ} (h : v.Has guard detached A)
    (hAB : ∀ w, A w → B w) : v.Has guard detached B :=
  ⟨h.guard_eq, h.detached_eq, hAB _ h.holds⟩

namespace Discipline

variable {Op : Type} {R : Op → Type} {κ α β ε σ : Type} (D : Discipline σ)
  (M : Machine Op R σ) (kind : Op → OpKind) (stops : Bool)

/-- What the others may do while a task holds the guard. -/
def Rely : Guard → σ → σ → Prop
  | .none => D.Moves
  | .read => D.Reads
  | .write => Eq

/-- What a task may do itself under the guard. -/
def May : Guard → σ → σ → Prop
  | .none => fun _ _ => False
  | .read => D.Reads
  | .write => D.Moves

/-- The task may end here. -/
def MayEnd (v : View σ) : Prop :=
  v.guard = .write → (v.detached = false ∨ stops = true) → D.Inv v.world

/-- The program keeps to the discipline, and `Q` holds at its end. -/
def Ok (Q : α → View σ → Prop) : Prog Op R α → View σ → Prop
  | .done a, v =>
      ∀ w, D.Rely v.guard v.world w → Q a { v with world := w }
  | .call o k, v =>
      ∀ w, D.Rely v.guard v.world w → D.MayEnd stops { v with world := w } ∧
        match kind o with
        | .free => ∀ r w', M.step o w r w' →
            w' = w ∧ Ok Q (k r) { v with world := w }
        | .shared => ∀ r w', M.step o w r w' →
            D.May v.guard w w' ∧ Ok Q (k r) { v with world := w' }
        | .lockRead => v.guard = .none ∧ (D.Inv w → ∀ r w', M.step o w r w' →
            w' = w ∧ Ok Q (k r) ⟨.read, v.detached, w⟩)
        | .lockWrite => v.guard = .none ∧ (D.Inv w → ∀ r w', M.step o w r w' →
            w' = w ∧ Ok Q (k r) ⟨.write, v.detached, w⟩)
        | .unlock => (v.guard = .write → D.Inv w) ∧ ∀ r w', M.step o w r w' →
            w' = w ∧ Ok Q (k r) ⟨.none, v.detached, w⟩
        | .detach => v.guard = .write ∧ ∀ r w', M.step o w r w' →
            D.Moves w w' ∧ Ok Q (k r) ⟨.write, true, w'⟩

variable {D M kind stops} {Q : α → View σ → Prop} {guard : Guard}
  {detached : Bool} {u w w' : σ} {v : View σ}

theorem rely_refl (guard : Guard) (w : σ) : D.Rely guard w w := by
  cases guard with
  | none => exact D.moves_refl w
  | read => exact D.reads_refl w
  | write => rfl

theorem rely_trans (h₁ : D.Rely guard u w) (h₂ : D.Rely guard w w') :
    D.Rely guard u w' := by
  cases guard with
  | none => exact D.moves_trans h₁ h₂
  | read => exact D.reads_trans h₁ h₂
  | write => exact Eq.trans h₁ h₂

/-- What the others do keeps the condition. -/
theorem Ok.rely {p : Prog Op R α} (h : D.Ok M kind stops Q p v)
    (hrely : D.Rely v.guard v.world w) :
    D.Ok M kind stops Q p { v with world := w } := by
  cases p with
  | done a => exact fun w' hw' => h w' (rely_trans hrely hw')
  | call o k => exact fun w' hw' => h w' (rely_trans hrely hw')

/-! ## Rules -/

/-- Go on differently after an operation. -/
theorem Ok.call {o : Op} {k : R o → Prog Op R α} {k' : R o → Prog Op R β}
    {Q' : β → View σ → Prop} (h : D.Ok M kind stops Q (.call o k) v)
    (hk : ∀ r v, D.Ok M kind stops Q (k r) v → D.Ok M kind stops Q' (k' r) v) :
    D.Ok M kind stops Q' (.call o k') v := by
  intro w hw
  obtain ⟨hend, hcase⟩ := h w hw
  refine ⟨hend, ?_⟩
  cases hkind : kind o with
  | free =>
      rw [hkind] at hcase
      exact fun r w' hstep => ⟨(hcase r w' hstep).1, hk _ _ (hcase r w' hstep).2⟩
  | shared =>
      rw [hkind] at hcase
      exact fun r w' hstep => ⟨(hcase r w' hstep).1, hk _ _ (hcase r w' hstep).2⟩
  | lockRead =>
      rw [hkind] at hcase
      exact ⟨hcase.1, fun hinv r w' hstep =>
        ⟨(hcase.2 hinv r w' hstep).1, hk _ _ (hcase.2 hinv r w' hstep).2⟩⟩
  | lockWrite =>
      rw [hkind] at hcase
      exact ⟨hcase.1, fun hinv r w' hstep =>
        ⟨(hcase.2 hinv r w' hstep).1, hk _ _ (hcase.2 hinv r w' hstep).2⟩⟩
  | unlock =>
      rw [hkind] at hcase
      exact ⟨hcase.1, fun r w' hstep =>
        ⟨(hcase.2 r w' hstep).1, hk _ _ (hcase.2 r w' hstep).2⟩⟩
  | detach =>
      rw [hkind] at hcase
      exact ⟨hcase.1, fun r w' hstep =>
        ⟨(hcase.2 r w' hstep).1, hk _ _ (hcase.2 r w' hstep).2⟩⟩

theorem Ok.mono {p : Prog Op R α} {Q' : α → View σ → Prop}
    (h : D.Ok M kind stops Q p v) (hQ : ∀ a v, Q a v → Q' a v) :
    D.Ok M kind stops Q' p v := by
  induction p generalizing v with
  | done a => exact fun w hw => hQ a _ (h w hw)
  | call o k ih => exact h.call fun r v hr => ih r hr

theorem Ok.bind {p : Prog Op R α} {f : α → Prog Op R β}
    {Q : β → View σ → Prop}
    (h : D.Ok M kind stops (fun a v => D.Ok M kind stops Q (f a) v) p v) :
    D.Ok M kind stops Q (p >>= f) v := by
  induction p generalizing v with
  | done a => exact h v.world (rely_refl _ _)
  | call o k ih => exact h.call fun r v hr => ih r hr

section Except

open Machine (Yields)

variable {P : α → View σ → Prop} {E : ε → View σ → Prop}

/-- Sequencing: an error ends the program. -/
theorem Ok.bindExcept {x : ExceptT ε (Prog Op R) α}
    {f : α → ExceptT ε (Prog Op R) β} {P : β → View σ → Prop}
    (h : D.Ok M kind stops
      (Yields (fun a v => D.Ok M kind stops (Yields P E) (f a).run v) E)
      x.run v) :
    D.Ok M kind stops (Yields P E) (x >>= f).run v := by
  change D.Ok M kind stops (Yields P E) (x.run >>= ExceptT.bindCont f) v
  generalize x.run = p at h
  induction p generalizing v with
  | done r =>
      cases r with
      | ok a => exact h v.world (rely_refl _ _)
      | error e => exact h
  | call o k ih => exact h.call fun r v hr => ih r hr

theorem Ok.liftExcept {p : Prog Op R α} (h : D.Ok M kind stops P p v) :
    D.Ok M kind stops (Yields P E)
      (ExceptT.lift p : ExceptT ε (Prog Op R) α).run v := by
  apply Ok.bind
  induction p generalizing v with
  | done a => exact fun w hw w' hw' => h w' (rely_trans hw hw')
  | call o k ih => exact h.call fun r v hr => ih r hr

/-- Weaken the two postconditions of a fallible program. -/
theorem Ok.monoExcept {x : ExceptT ε (Prog Op R) α} {P' : α → View σ → Prop}
    {E' : ε → View σ → Prop} (h : D.Ok M kind stops (Yields P E) x.run v)
    (hP : ∀ a v, P a v → P' a v) (hE : ∀ e v, E e v → E' e v) :
    D.Ok M kind stops (Yields P' E') x.run v := by
  refine h.mono ?_
  intro r v hr
  cases r with
  | ok a => exact hP a v hr
  | error e => exact hE e v hr

end Except

/-! ## Single operations -/

/-- What the others do under the guard keeps `A`. -/
def Stable (D : Discipline σ) (guard : Guard) (A : σ → Prop) : Prop :=
  ∀ w w', D.Rely guard w w' → A w → A w'

theorem stable_write (A : σ → Prop) : D.Stable .write A := by
  rintro w w' rfl h
  exact h

theorem Stable.and {A B : σ → Prop} (hA : D.Stable guard A)
    (hB : D.Stable guard B) : D.Stable guard fun w => A w ∧ B w :=
  fun w w' hrely h => ⟨hA w w' hrely h.1, hB w w' hrely h.2⟩

/-- What holds whatever the others do holds among readers. -/
theorem Stable.read {A : σ → Prop} (hA : D.Stable .none A) : D.Stable .read A :=
  fun w w' hrely h => hA w w' (D.moves_of_reads hrely) h

theorem stable_inv : D.Stable .read D.Inv :=
  fun _ _ hrely h => D.inv_of_reads h hrely

/-- A writer that holds `A` may end. -/
def Leaves (D : Discipline σ) (stops : Bool) (guard : Guard) (detached : Bool)
    (A : σ → Prop) : Prop :=
  guard = .write → (detached = false ∨ stops = true) → ∀ w, A w → D.Inv w

section Single

variable {A : σ → Prop} {o : Op} {B : R o → σ → Prop}

theorem ok_done {a : α} (hA : D.Stable guard A) (h : v.Has guard detached A) :
    D.Ok M kind stops (fun _ v => v.Has guard detached A) (.done a) v := by
  obtain ⟨rfl, rfl, hw⟩ := h
  exact fun w hrely => ⟨rfl, rfl, hA _ _ hrely hw⟩

theorem ok_free (hkind : kind o = .free) (h : v.Has guard detached A)
    (hA : D.Stable guard A) (hB : ∀ r, D.Stable guard (B r))
    (hend : D.Leaves stops guard detached A)
    (hstep : ∀ w r w', A w → M.step o w r w' → w' = w ∧ B r w) :
    D.Ok M kind stops (fun r v => v.Has guard detached (B r)) (Prog.op o) v := by
  obtain ⟨rfl, rfl, hw⟩ := h
  intro w hrely
  have hAw := hA _ _ hrely hw
  refine ⟨fun hguard hends => hend hguard hends w hAw, ?_⟩
  rw [hkind]
  intro r w' hs
  obtain ⟨rfl, hBw⟩ := hstep w r w' hAw hs
  exact ⟨rfl, fun u hu => ⟨rfl, rfl, hB r _ _ hu hBw⟩⟩

theorem ok_shared (hkind : kind o = .shared) (h : v.Has guard detached A)
    (hA : D.Stable guard A) (hB : ∀ r, D.Stable guard (B r))
    (hend : D.Leaves stops guard detached A)
    (hstep : ∀ w r w', A w → M.step o w r w' → D.May guard w w' ∧ B r w') :
    D.Ok M kind stops (fun r v => v.Has guard detached (B r)) (Prog.op o) v := by
  obtain ⟨rfl, rfl, hw⟩ := h
  intro w hrely
  have hAw := hA _ _ hrely hw
  refine ⟨fun hguard hends => hend hguard hends w hAw, ?_⟩
  rw [hkind]
  intro r w' hs
  obtain ⟨hmay, hBw⟩ := hstep w r w' hAw hs
  exact ⟨hmay, fun u hu => ⟨rfl, rfl, hB r _ _ hu hBw⟩⟩

theorem ok_lockRead (hkind : kind o = .lockRead) (h : v.Has .none detached A)
    (hA : D.Stable .none A) (hB : ∀ r, D.Stable .read (B r))
    (hstep : ∀ w r w', A w → D.Inv w → M.step o w r w' → w' = w ∧ B r w) :
    D.Ok M kind stops (fun r v => v.Has .read detached (B r)) (Prog.op o) v := by
  obtain ⟨hguard, rfl, hw⟩ := h
  intro w hrely
  rw [hguard] at hrely
  have hAw := hA _ _ hrely hw
  refine ⟨fun hwrite => by simp [hguard] at hwrite, ?_⟩
  rw [hkind]
  refine ⟨hguard, fun hinv r w' hs => ?_⟩
  obtain ⟨rfl, hBw⟩ := hstep w r w' hAw hinv hs
  exact ⟨rfl, fun u hu => ⟨rfl, rfl, hB r _ _ hu hBw⟩⟩

theorem ok_lockWrite (hkind : kind o = .lockWrite) (h : v.Has .none detached A)
    (hA : D.Stable .none A)
    (hstep : ∀ w r w', A w → D.Inv w → M.step o w r w' → w' = w ∧ B r w) :
    D.Ok M kind stops (fun r v => v.Has .write detached (B r)) (Prog.op o) v := by
  obtain ⟨hguard, rfl, hw⟩ := h
  intro w hrely
  rw [hguard] at hrely
  have hAw := hA _ _ hrely hw
  refine ⟨fun hwrite => by simp [hguard] at hwrite, ?_⟩
  rw [hkind]
  refine ⟨hguard, fun hinv r w' hs => ?_⟩
  obtain ⟨rfl, hBw⟩ := hstep w r w' hAw hinv hs
  exact ⟨rfl, fun u hu => ⟨rfl, rfl, stable_write (B r) _ _ hu hBw⟩⟩

theorem ok_unlock (hkind : kind o = .unlock) (h : v.Has guard detached A)
    (hA : D.Stable guard A) (hB : ∀ r, D.Stable .none (B r))
    (hinv : guard = .write → ∀ w, A w → D.Inv w)
    (hstep : ∀ w r w', A w → M.step o w r w' → w' = w ∧ B r w) :
    D.Ok M kind stops (fun r v => v.Has .none detached (B r)) (Prog.op o) v := by
  obtain ⟨rfl, rfl, hw⟩ := h
  intro w hrely
  have hAw := hA _ _ hrely hw
  refine ⟨fun hguard _ => hinv hguard w hAw, ?_⟩
  rw [hkind]
  refine ⟨fun hguard => hinv hguard w hAw, fun r w' hs => ?_⟩
  obtain ⟨rfl, hBw⟩ := hstep w r w' hAw hs
  exact ⟨rfl, fun u hu => ⟨rfl, rfl, hB r _ _ hu hBw⟩⟩

theorem ok_detach (hkind : kind o = .detach) (h : v.Has .write detached A)
    (hinv : ∀ w, A w → D.Inv w)
    (hstep : ∀ w r w', A w → M.step o w r w' → D.Moves w w' ∧ B r w') :
    D.Ok M kind stops (fun r v => v.Has .write true (B r)) (Prog.op o) v := by
  obtain ⟨hguard, rfl, hw⟩ := h
  intro w hrely
  rw [hguard] at hrely
  have hAw := stable_write A _ _ hrely hw
  refine ⟨fun _ _ => hinv w hAw, ?_⟩
  rw [hkind]
  refine ⟨hguard, fun r w' hs => ?_⟩
  obtain ⟨hmoves, hBw⟩ := hstep w r w' hAw hs
  exact ⟨hmoves, fun u hu => ⟨rfl, rfl, stable_write (B r) _ _ hu hBw⟩⟩

/-- A writer keeps what each of its operations keeps. -/
theorem ok_of_calls {P : Op → Prop} {p : Prog Op R α}
    (hkind : ∀ o, P o → kind o = .shared)
    (hend : D.Leaves stops .write detached A)
    (hstep : ∀ o w r w', P o → A w → M.step o w r w' → D.Moves w w' ∧ A w')
    (hp : p.Calls P) (h : v.Has .write detached A) :
    D.Ok M kind stops (fun _ v => v.Has .write detached A) p v := by
  induction p generalizing v with
  | done a => exact ok_done (stable_write A) h
  | call o k ih =>
      obtain ⟨hguard, rfl, hw⟩ := h
      intro w hrely
      rw [hguard] at hrely
      obtain rfl : v.world = w := hrely
      refine ⟨fun _ hends => hend rfl hends _ hw, ?_⟩
      rw [hkind o hp.1]
      intro r w' hs
      obtain ⟨hmoves, hw'⟩ := hstep o _ r w' hp.1 hw hs
      refine ⟨?_, ih r (hp.2 r) ⟨hguard, rfl, hw'⟩⟩
      rw [hguard]
      exact hmoves

end Single

/-! ## Triples

Fallible programs by what holds before them, after a result and after an
error.
-/

/-- The writer has left everything in order. -/
def Settled (D : Discipline σ) (v : View σ) : Prop :=
  v.guard = .write → D.Inv v.world

/-- What the others do keeps the view's condition. -/
def Lasting (D : Discipline σ) (A : View σ → Prop) : Prop :=
  ∀ v w, D.Rely v.guard v.world w → A v → A { v with world := w }

theorem Stable.lasting {A : σ → Prop} (hA : D.Stable guard A) :
    D.Lasting (View.Has guard detached A) := by
  rintro v w hrely ⟨rfl, rfl, h⟩
  exact ⟨rfl, rfl, hA _ _ hrely h⟩

section Triple

open Machine (Yields)

def Triple (D : Discipline σ) (M : Machine Op R σ) (kind : Op → OpKind)
    (stops : Bool) (A : View σ → Prop) (x : ExceptT ε (Prog Op R) α)
    (B : α → View σ → Prop) (E : ε → View σ → Prop) : Prop :=
  ∀ v, A v → D.Ok M kind stops (Yields B E) x.run v

variable {A A' : View σ → Prop} {x : ExceptT ε (Prog Op R) α}
  {B B' : α → View σ → Prop} {E E' : ε → View σ → Prop}

theorem Triple.bind {f : α → ExceptT ε (Prog Op R) β} {C : β → View σ → Prop}
    (hx : D.Triple M kind stops A x B E)
    (hf : ∀ a, D.Triple M kind stops (B a) (f a) C E) :
    D.Triple M kind stops A (x >>= f) C E :=
  fun v hv => Ok.bindExcept ((hx v hv).monoExcept (fun a v ha => hf a v ha)
    fun _ _ he => he)

theorem Triple.mono (hx : D.Triple M kind stops A x B E)
    (hA : ∀ v, A' v → A v) (hB : ∀ a v, B a v → B' a v)
    (hE : ∀ e v, E e v → E' e v) : D.Triple M kind stops A' x B' E' :=
  fun v hv => (hx v (hA v hv)).monoExcept hB hE

theorem triple_pure {a : α} (hA : D.Lasting A) (hB : ∀ v, A v → B a v) :
    D.Triple M kind stops A (pure a : ExceptT ε (Prog Op R) α) B E :=
  fun v hv w hw => hB _ (hA v w hw hv)

theorem triple_throw {e : ε} (hA : D.Lasting A) (hE : ∀ v, A v → E e v) :
    D.Triple M kind stops A (throw e : ExceptT ε (Prog Op R) α) B E :=
  fun v hv w hw => hE _ (hA v w hw hv)

theorem triple_lift {p : Prog Op R α} {C : α → View σ → Prop}
    (hp : ∀ v, A v → D.Ok M kind stops C p v) (hC : ∀ a v, C a v → B a v) :
    D.Triple M kind stops A (ExceptT.lift p : ExceptT ε (Prog Op R) α) B E :=
  fun v hv => Ok.liftExcept ((hp v hv).mono hC)

end Triple

/-! ## Putting the tasks together -/

/-- What holds when a task ends with a result. -/
def End (D : Discipline σ) (Post : κ → σ → α → σ → Prop) (call : κ)
    (started : σ) (a : α) (v : View σ) : Prop :=
  (v.guard = .write → D.Inv v.world) ∧ Post call started a v.world

/-- All tasks keep to the discipline. -/
structure Sound (D : Discipline σ) (M : Machine Op R σ) (kind : Op → OpKind)
    (stops : Bool) (Post : κ → σ → α → σ → Prop) (s : System Op R κ α σ) :
    Prop where
  tasks : ∀ i task, s.tasks i = some task →
    D.Ok M kind stops (D.End Post task.call task.started) task.prog
      ⟨task.guard, task.detached, s.world⟩
  inv : (∀ i task, s.tasks i = some task → task.guard ≠ .write) → D.Inv s.world
  exclusive : ∀ i j task other, s.tasks i = some task → s.tasks j = some other →
    task.guard = .write → other.guard ≠ .none → i = j
  returned : ∀ e ∈ s.returned, Post e.call e.started e.result s.world

section Sound

variable {Post : κ → σ → α → σ → Prop} {s : System Op R κ α σ} {i : ℕ}
  {task : Task Op R κ α σ}

/-- A task that may be dropped or stopped leaves the invariant behind. -/
theorem Ok.inv {p : Prog Op R α} {call : κ} {started : σ}
    (h : D.Ok M kind stops (D.End Post call started) p v)
    (hguard : v.guard = .write) (hends : v.detached = false ∨ stops = true) :
    D.Inv v.world := by
  cases p with
  | done a => exact (h v.world (rely_refl _ _)).1 hguard
  | call o k => exact (h v.world (rely_refl _ _)).1 hguard hends

/-- What one operation of a task does. -/
structure Stepped (D : Discipline σ) (kind : OpKind) (guard : Guard) (w w' : σ) :
    Prop where
  moved : w' = w ∨ D.May guard w w'
  locked : kind = .lockRead ∨ kind = .lockWrite → guard = .none ∧ w' = w
  unlocked : kind = .unlock → w' = w ∧ (guard = .write → D.Inv w)
  detached : kind = .detach → guard = .write

theorem Ok.stepped {o : Op} {k : R o → Prog Op R α} {r : R o}
    (h : D.Ok M kind stops Q (.call o k) v)
    (hinv : kind o = .lockRead ∨ kind o = .lockWrite → D.Inv v.world)
    (hstep : M.step o v.world r w) :
    D.Ok M kind stops Q (k r) ⟨(kind o).next v.guard,
        v.detached || decide (kind o = .detach), w⟩ ∧
      Stepped D (kind o) v.guard v.world w := by
  obtain ⟨-, hcase⟩ := h v.world (rely_refl _ _)
  cases hkind : kind o with
  | free =>
      rw [hkind] at hcase
      obtain ⟨rfl, hok⟩ := hcase r w hstep
      exact ⟨by simpa [OpKind.next] using hok,
        ⟨Or.inl rfl, by simp, by simp, by simp⟩⟩
  | shared =>
      rw [hkind] at hcase
      obtain ⟨hmay, hok⟩ := hcase r w hstep
      exact ⟨by simpa [OpKind.next] using hok,
        ⟨Or.inr hmay, by simp, by simp, by simp⟩⟩
  | lockRead =>
      rw [hkind] at hcase
      obtain ⟨rfl, hok⟩ := hcase.2 (hinv (Or.inl hkind)) r w hstep
      exact ⟨by simpa [OpKind.next] using hok,
        ⟨Or.inl rfl, fun _ => ⟨hcase.1, rfl⟩, by simp, by simp⟩⟩
  | lockWrite =>
      rw [hkind] at hcase
      obtain ⟨rfl, hok⟩ := hcase.2 (hinv (Or.inr hkind)) r w hstep
      exact ⟨by simpa [OpKind.next] using hok,
        ⟨Or.inl rfl, fun _ => ⟨hcase.1, rfl⟩, by simp, by simp⟩⟩
  | unlock =>
      rw [hkind] at hcase
      obtain ⟨rfl, hok⟩ := hcase.2 r w hstep
      exact ⟨by simpa [OpKind.next] using hok,
        ⟨Or.inl rfl, by simp, fun _ => ⟨rfl, hcase.1⟩, by simp⟩⟩
  | detach =>
      rw [hkind] at hcase
      obtain ⟨hguard, hcase⟩ := hcase
      obtain ⟨hmoves, hok⟩ := hcase r w hstep
      refine ⟨by simpa [OpKind.next, hguard] using hok,
        ⟨Or.inr ?_, by simp, by simp, fun _ => hguard⟩⟩
      rw [hguard]
      exact hmoves

theorem Stepped.moves {kind : OpKind} (h : Stepped D kind guard w w') :
    D.Moves w w' := by
  rcases h.moved with rfl | hmay
  · exact D.moves_refl w'
  · cases guard with
    | none => exact hmay.elim
    | read => exact D.moves_of_reads hmay
    | write => exact hmay

/-- The step of one task is covered by what the others rely on. -/
theorem Sound.rely {kind' : OpKind} (h : Sound D M kind stops Post s)
    (htask : s.tasks i = some task)
    (hstepped : Stepped D kind' task.guard s.world w) {j : ℕ}
    {other : Task Op R κ α σ} (hother : s.tasks j = some other) (hne : j ≠ i) :
    D.Rely other.guard s.world w := by
  rcases hstepped.moved with rfl | hmay
  · exact rely_refl _ _
  · cases hguard : task.guard with
    | none =>
        rw [hguard] at hmay
        exact hmay.elim
    | read =>
        rw [hguard] at hmay
        cases hother' : other.guard with
        | none => exact D.moves_of_reads hmay
        | read => exact hmay
        | write =>
            exact absurd (h.exclusive j i other task hother htask hother'
              (by simp [hguard])) hne
    | write =>
        rw [hguard] at hmay
        have hnone : other.guard = .none := by
          by_contra hsome
          exact hne (h.exclusive i j task other htask hother hguard hsome).symm
        rw [hnone]
        exact hmay

/-- Ending a task that is not in the middle of something. -/
theorem Sound.remove (h : Sound D M kind stops Post s)
    (htask : s.tasks i = some task) (hinv : task.guard = .write → D.Inv s.world)
    {returned : List (Return κ α σ)}
    (hreturned : ∀ e ∈ returned, Post e.call e.started e.result s.world) :
    Sound D M kind stops Post
      ({ s with returned := returned }.setTask i none) where
  tasks := by
    intro j other hother
    rw [System.tasks_setTask] at hother
    split at hother
    · cases hother
    · exact h.tasks j other hother
  inv := by
    intro hnone
    by_cases hguard : task.guard = .write
    · exact hinv hguard
    · apply h.inv
      intro j other hother
      by_cases hj : j = i
      · subst hj
        rw [htask] at hother
        cases hother
        exact hguard
      · exact hnone j other (by rw [System.tasks_setTask, if_neg hj]; exact hother)
  exclusive := by
    intro j k tj tk hj hk
    rw [System.tasks_setTask] at hj hk
    split at hj
    · cases hj
    · split at hk
      · cases hk
      · exact h.exclusive j k tj tk hj hk
  returned := hreturned

/-- Where tasks may be stopped at any time, the invariant always holds. -/
theorem Sound.always (h : Sound D M kind true Post s) : D.Inv s.world := by
  by_cases hwriter : ∃ i task, s.tasks i = some task ∧ task.guard = .write
  · obtain ⟨i, task, htask, hguard⟩ := hwriter
    exact (h.tasks i task htask).inv hguard (Or.inr rfl)
  · apply h.inv
    intro i task htask hguard
    exact hwriter ⟨i, task, htask, hguard⟩

theorem Sound.returns (h : Sound D M kind stops Post s) {a : α}
    (hresult : Post task.call task.started a s.world) :
    ∀ e ∈ s.returned ++ task.returns a, Post e.call e.started e.result s.world := by
  intro e he
  rcases List.mem_append.mp he with he | he
  · exact h.returned e he
  · simp only [Task.returns] at he
    split at he
    · rw [List.mem_singleton.mp he]
      exact hresult
    · cases he

/-- Replacing a task while the world stays as it is. -/
theorem Sound.replace (h : Sound D M kind stops Post s) {task' : Task Op R κ α σ}
    (hok : D.Ok M kind stops (D.End Post task'.call task'.started) task'.prog
      ⟨task'.guard, task'.detached, s.world⟩)
    (hguard : ∀ task, s.tasks i = some task → task'.guard = task.guard)
    (hnew : s.tasks i = none → task'.guard = .none) :
    Sound D M kind stops Post (s.setTask i (some task')) where
  tasks := by
    intro j other hother
    rw [System.tasks_setTask] at hother
    split at hother
    · cases hother
      exact hok
    · exact h.tasks j other hother
  inv := by
    intro hnone
    apply h.inv
    intro j other hother
    by_cases hj : j = i
    · subst hj
      rw [← hguard other hother]
      exact hnone j task' (by rw [System.tasks_setTask, if_pos rfl])
    · exact hnone j other (by rw [System.tasks_setTask, if_neg hj]; exact hother)
  exclusive := by
    -- the old task, if there was one, had the same guard
    have hold : ∀ j other, (s.setTask i (some task')).tasks j = some other →
        other.guard ≠ .none →
        ∃ other', s.tasks j = some other' ∧ other'.guard = other.guard := by
      intro j other hother hsome
      rw [System.tasks_setTask] at hother
      split at hother
      · next hj =>
        subst hj
        cases hother
        cases htask : s.tasks j with
        | none => exact absurd (hnew htask) hsome
        | some task => exact ⟨task, rfl, (hguard task htask).symm⟩
      · exact ⟨other, hother, rfl⟩
    intro j k tj tk hj hk hwrite hsome
    obtain ⟨tj', hj', hguardj⟩ := hold j tj hj (by simp [hwrite])
    obtain ⟨tk', hk', hguardk⟩ := hold k tk hk hsome
    exact h.exclusive j k tj' tk' hj' hk' (hguardj.trans hwrite)
      (by rwa [hguardk])
  returned := h.returned

/-- The step of a task that holds what the lock grants. -/
theorem Sound.stepped (h : Sound D M kind stops Post s)
    {o : Op} {k : R o → Prog Op R α} {r : R o}
    (htask : s.tasks i = some task) (hprog : task.prog = .call o k)
    (hgrants : s.Grants (kind o)) (hstep : M.step o s.world r w) :
    D.Ok M kind stops (D.End Post task.call task.started) (k r)
        ⟨(kind o).next task.guard,
          task.detached || decide (kind o = .detach), w⟩ ∧
      Stepped D (kind o) task.guard s.world w := by
  have hlock : kind o = .lockRead ∨ kind o = .lockWrite → D.Inv s.world := by
    intro hkind
    apply h.inv
    intro j other hother
    rcases hkind with hkind | hkind
    · rw [hkind] at hgrants
      exact hgrants j other hother
    · rw [hkind] at hgrants
      simp [hgrants j other hother]
  have hok := h.tasks i task htask
  rw [hprog] at hok
  exact hok.stepped hlock hstep

theorem Sound.run (h : Sound D M kind stops Post s)
    (hpost : ∀ call u a w w', Post call u a w → D.Moves w w' → Post call u a w')
    {o : Op} {k : R o → Prog Op R α} {r : R o}
    (htask : s.tasks i = some task) (hprog : task.prog = .call o k)
    (hgrants : s.Grants (kind o)) (hstep : M.step o s.world r w) :
    Sound D M kind stops Post
      ({ s with world := w }.setTask i (some (task.advance kind o (k r)))) := by
  obtain ⟨hnext, hstepped⟩ := h.stepped htask hprog hgrants hstep
  constructor
  · intro j other hother
    rw [System.tasks_setTask] at hother
    split at hother
    · cases hother
      exact hnext
    · next hj =>
      exact (h.tasks j other hother).rely (h.rely htask hstepped hother hj)
  · intro hnone
    have hself := hnone i _ (by rw [System.tasks_setTask, if_pos rfl])
    by_cases hwrite : task.guard = .write
    · -- the writer has given up its guard
      have hunlock : kind o = .unlock := by
        cases hkind : kind o <;>
          simp [Task.advance, hkind, OpKind.next, hwrite] at hself ⊢
        exact absurd ((hstepped.locked (Or.inl hkind)).1) (by simp [hwrite])
      obtain ⟨rfl, hinv⟩ := hstepped.unlocked hunlock
      exact hinv hwrite
    · have hinv : D.Inv s.world := by
        apply h.inv
        intro j other hother
        by_cases hj : j = i
        · subst hj
          rw [htask] at hother
          cases hother
          exact hwrite
        · exact hnone j other
            (by rw [System.tasks_setTask, if_neg hj]; exact hother)
      rcases hstepped.moved with rfl | hmay
      · exact hinv
      · cases hguard : task.guard with
        | none =>
            rw [hguard] at hmay
            exact hmay.elim
        | read =>
            rw [hguard] at hmay
            exact D.inv_of_reads hinv hmay
        | write => exact absurd hguard hwrite
  · intro j l tj tl hj hl hwrite hsome
    rw [System.tasks_setTask] at hj hl
    split at hj
    · next hji =>
      cases hj
      split at hl
      · next hli => exact hji.trans hli.symm
      · -- a new writer is alone, an old one stays alone
        rcases (kind o).next_cases task.guard with
          ⟨-, hnext⟩ | ⟨hkind, -⟩ | ⟨-, hnext⟩ | hnext
        · simp [Task.advance, hnext] at hwrite
        · rw [hkind] at hgrants
          exact absurd (hgrants l tl hl) hsome
        · simp [Task.advance, hnext] at hwrite
        · rw [hji]
          exact h.exclusive i l task tl htask hl (hnext.symm.trans hwrite) hsome
    · split at hl
      · next hli =>
        cases hl
        rcases (kind o).next_cases task.guard with
          ⟨hkind, -⟩ | ⟨hkind, -⟩ | ⟨-, hnext⟩ | hnext
        · rw [hkind] at hgrants
          exact absurd hwrite (hgrants j tj hj)
        · rw [hkind] at hgrants
          exact absurd (hgrants j tj hj) (by simp [hwrite])
        · exact absurd hnext hsome
        · rw [hli]
          refine h.exclusive j i tj task hj htask hwrite ?_
          rwa [← hnext]
      · exact h.exclusive j l tj tl hj hl hwrite hsome
  · exact fun e he => hpost _ _ _ _ _ (h.returned e he) hstepped.moves

theorem Sound.step {program : κ → Prog Op R α} {lost : Option α}
    {s' : System Op R κ α σ} (h : Sound D M kind lost.isSome Post s)
    (hprogram : ∀ call w, D.Ok M kind lost.isSome (D.End Post call w)
      (program call) ⟨.none, false, w⟩)
    (hpost : ∀ call u a w w', Post call u a w → D.Moves w w' → Post call u a w')
    (hlost : ∀ call u a w, lost = some a → Post call u a w)
    (hstep : System.Step M kind program lost s s') :
    Sound D M kind lost.isSome Post s' := by
  cases hstep with
  | start i call hfree =>
      refine h.replace (hprogram call s.world) ?_ fun _ => rfl
      intro task htask
      rw [hfree] at htask
      cases htask
  | run htask hprog hgrants hstep => exact h.run hpost htask hprog hgrants hstep
  | @finish i task a htask hprog =>
      have hok := h.tasks i task htask
      rw [hprog] at hok
      obtain ⟨hinv, hresult⟩ := hok s.world (rely_refl _ _)
      exact h.remove htask hinv (h.returns hresult)
  | @drop i task htask hdetached =>
      exact h.remove htask
        (fun hguard => (h.tasks i task htask).inv hguard (Or.inl hdetached))
        h.returned
  | @leave i task htask hdetached =>
      refine h.replace (h.tasks i task htask) ?_ ?_
      · intro other hother
        rw [htask] at hother
        cases hother
        rfl
      · intro hnone
        rw [htask] at hnone
        cases hnone
  | @stop i task a htask hdetached hsome =>
      refine h.remove htask ?_ (h.returns (hlost _ _ _ _ hsome))
      intro hguard
      exact (h.tasks i task htask).inv hguard (Or.inr (by simp [hsome]))

/-- If every program keeps to the discipline, so does every system of tasks. -/
theorem sound_of_reachable {program : κ → Prog Op R α} {lost : Option α} {w₀ : σ}
    (hprogram : ∀ call w, D.Ok M kind lost.isSome (D.End Post call w)
      (program call) ⟨.none, false, w⟩)
    (hpost : ∀ call u a w w', Post call u a w → D.Moves w w' → Post call u a w')
    (hlost : ∀ call u a w, lost = some a → Post call u a w)
    (hinit : D.Inv w₀) (hs : System.Reachable M kind program lost w₀ s) :
    Sound D M kind lost.isSome Post s := by
  induction hs with
  | init => exact ⟨nofun, fun _ => hinit, nofun, nofun⟩
  | step _ hstep ih => exact ih.step hprogram hpost hlost hstep

/-- The steps of the tasks are moves of the world. -/
theorem Sound.moves {program : κ → Prog Op R α} {lost : Option α}
    {s' : System Op R κ α σ} (h : Sound D M kind stops Post s)
    (hstep : System.Step M kind program lost s s') :
    D.Moves s.world s'.world := by
  cases hstep with
  | run htask hprog hgrants hstep =>
      exact (h.stepped htask hprog hgrants hstep).2.moves
  | start => exact D.moves_refl _
  | finish => exact D.moves_refl _
  | drop => exact D.moves_refl _
  | leave => exact D.moves_refl _
  | stop => exact D.moves_refl _

/-- Whatever has happened is a move of the world. -/
theorem moves_of_reachable {program : κ → Prog Op R α} {lost : Option α} {w₀ : σ}
    (hsound : ∀ s, System.Reachable M kind program lost w₀ s →
      Sound D M kind stops Post s)
    (hs : System.Reachable M kind program lost w₀ s) : D.Moves w₀ s.world := by
  induction hs with
  | init => exact D.moves_refl w₀
  | step hs hstep ih => exact D.moves_trans ih ((hsound _ hs).moves hstep)

end Sound

end Discipline

end Connexa
