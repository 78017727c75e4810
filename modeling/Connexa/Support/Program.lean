import Mathlib.Data.Nat.Basic

/-!
# Programs over primitive operations

A program calls primitive operations and goes on with their replies.  A
`Machine` says which replies a primitive may give in a state and where it
leads.  `Safe` is the precondition under which a condition holds after every
primitive step and a postcondition holds at the end, whatever the replies are.
-/

namespace Connexa

/-- A program with result `α` over operations `Op` that reply in `R`. -/
inductive Prog (Op : Type) (R : Op → Type) (α : Type) : Type where
  | done (a : α)
  | call (o : Op) (k : R o → Prog Op R α)

namespace Prog

variable {Op : Type} {R : Op → Type} {α β : Type}

def bind (p : Prog Op R α) (f : α → Prog Op R β) : Prog Op R β :=
  match p with
  | .done a => f a
  | .call o k => .call o fun r => (k r).bind f

instance : Monad (Prog Op R) where
  pure := .done
  bind := bind

theorem bind_done (p : Prog Op R α) : p.bind .done = p := by
  induction p with
  | done a => rfl
  | call o k ih => exact congrArg (Prog.call o) (funext ih)

theorem bind_bind {γ : Type} (p : Prog Op R α) (f : α → Prog Op R β)
    (g : β → Prog Op R γ) : (p.bind f).bind g = p.bind fun a => (f a).bind g := by
  induction p with
  | done a => rfl
  | call o k ih => exact congrArg (Prog.call o) (funext ih)

instance : LawfulMonad (Prog Op R) :=
  LawfulMonad.mk' (Prog Op R) bind_done (fun _ _ => rfl) bind_bind

/-- A single operation as a program. -/
def op (o : Op) : Prog Op R (R o) :=
  .call o .done

/-- The program calls operations with `P` only. -/
def Calls (P : Op → Prop) : Prog Op R α → Prop
  | .done _ => True
  | .call o k => P o ∧ ∀ r, (k r).Calls P

variable {P : Op → Prop} {ε : Type}

theorem calls_op {o : Op} (h : P o) : (op o : Prog Op R (R o)).Calls P :=
  ⟨h, fun _ => trivial⟩

theorem Calls.mono {P' : Op → Prop} {p : Prog Op R α} (hp : p.Calls P)
    (h : ∀ o, P o → P' o) : p.Calls P' := by
  induction p with
  | done a => trivial
  | call o k ih => exact ⟨h o hp.1, fun r => ih r (hp.2 r)⟩

theorem Calls.bind {p : Prog Op R α} {f : α → Prog Op R β} (hp : p.Calls P)
    (hf : ∀ a, (f a).Calls P) : (p >>= f).Calls P := by
  induction p with
  | done a => exact hf a
  | call o k ih => exact ⟨hp.1, fun r => ih r (hp.2 r)⟩

theorem Calls.bindExcept {x : ExceptT ε (Prog Op R) α}
    {f : α → ExceptT ε (Prog Op R) β} (hx : x.run.Calls P)
    (hf : ∀ a, (f a).run.Calls P) : (x >>= f).run.Calls P := by
  apply Calls.bind hx
  intro r
  cases r with
  | ok a => exact hf a
  | error e => trivial

end Prog

/-- What the operations may reply and do to a state of type `σ`. -/
structure Machine (Op : Type) (R : Op → Type) (σ : Type) where
  step : (o : Op) → σ → R o → σ → Prop

namespace Machine

variable {Op : Type} {R : Op → Type} {σ : Type} (M : Machine Op R σ)
  {α β ε : Type}

/-- Running the program from `s` visits `t`: before the first operation, or
after one of them. -/
inductive Visits : Prog Op R α → σ → σ → Prop where
  | here (p : Prog Op R α) (s : σ) : Visits p s s
  | step {o : Op} {k : R o → Prog Op R α} {r : R o} {s u t : σ}
      (hstep : M.step o s r u) (hrest : Visits (k r) u t) :
      Visits (.call o k) s t

/-- Running the program from `s` ends in `t` with result `a`. -/
inductive Finishes : Prog Op R α → σ → α → σ → Prop where
  | done (a : α) (s : σ) : Finishes (.done a) s a s
  | step {o : Op} {k : R o → Prog Op R α} {r : R o} {s u t : σ} {a : α}
      (hstep : M.step o s r u) (hrest : Finishes (k r) u a t) :
      Finishes (.call o k) s a t

/-- `C` holds in every visited state and `Q` at the end. -/
def Safe (C : σ → Prop) (Q : α → σ → Prop) : Prog Op R α → σ → Prop
  | .done a, s => C s ∧ Q a s
  | .call o k, s => C s ∧ ∀ r t, M.step o s r t → Safe C Q (k r) t

variable {M} {C : σ → Prop} {Q : α → σ → Prop} {s t : σ}

theorem Safe.visits {p : Prog Op R α} (h : M.Safe C Q p s)
    (hv : M.Visits p s t) : C t := by
  induction hv with
  | here p s =>
      cases p with
      | done a => exact h.1
      | call o k => exact h.1
  | step hstep _ ih => exact ih (h.2 _ _ hstep)

theorem Safe.finishes {p : Prog Op R α} {a : α} (h : M.Safe C Q p s)
    (hf : M.Finishes p s a t) : C t ∧ Q a t := by
  induction hf with
  | done a s => exact h
  | step hstep _ ih => exact ih (h.2 _ _ hstep)

theorem Safe.here {p : Prog Op R α} (h : M.Safe C Q p s) : C s :=
  h.visits (.here p s)

/-! ## Rules -/

theorem safe_done {a : α} (hC : C s) (hQ : Q a s) : M.Safe C Q (.done a) s :=
  ⟨hC, hQ⟩

theorem safe_op {o : Op} {Q : R o → σ → Prop} (hC : C s)
    (h : ∀ r t, M.step o s r t → C t ∧ Q r t) :
    M.Safe C Q (Prog.op o) s :=
  ⟨hC, h⟩

theorem Safe.mono {p : Prog Op R α} {C' : σ → Prop} {Q' : α → σ → Prop}
    (h : M.Safe C Q p s) (hC : ∀ t, C t → C' t)
    (hQ : ∀ a t, C t → Q a t → Q' a t) : M.Safe C' Q' p s := by
  induction p generalizing s with
  | done a => exact ⟨hC s h.1, hQ a s h.1 h.2⟩
  | call o k ih => exact ⟨hC s h.1, fun r t ht => ih r (h.2 r t ht)⟩

theorem Safe.bind {p : Prog Op R α} {f : α → Prog Op R β}
    {Q : β → σ → Prop} (h : M.Safe C (fun a t => M.Safe C Q (f a) t) p s) :
    M.Safe C Q (p >>= f) s := by
  induction p generalizing s with
  | done a => exact h.2
  | call o k ih => exact ⟨h.1, fun r t ht => ih r (h.2 r t ht)⟩

theorem Safe.and {p : Prog Op R α} {C' : σ → Prop} {Q' : α → σ → Prop}
    (h : M.Safe C Q p s) (h' : M.Safe C' Q' p s) :
    M.Safe (fun t => C t ∧ C' t) (fun a t => Q a t ∧ Q' a t) p s := by
  induction p generalizing s with
  | done a => exact ⟨⟨h.1, h'.1⟩, h.2, h'.2⟩
  | call o k ih =>
      exact ⟨⟨h.1, h'.1⟩, fun r t ht => ih r (h.2 r t ht) (h'.2 r t ht)⟩

/-- A program keeps what each of its operations keeps. -/
theorem safe_of_calls {P : Op → Prop} {p : Prog Op R α}
    (hstep : ∀ o s r t, P o → C s → M.step o s r t → C t)
    (hp : p.Calls P) (hs : C s) : M.Safe C (fun _ _ => True) p s := by
  induction p generalizing s with
  | done a => exact ⟨hs, trivial⟩
  | call o k ih =>
      exact ⟨hs, fun r t ht => ih r (hp.2 r) (hstep o s r t hp.1 hs ht)⟩

/-! ## Fallible programs -/

/-- A postcondition by the kind of the result. -/
def Yields (P : α → σ → Prop) (E : ε → σ → Prop) : Except ε α → σ → Prop
  | .ok a, s => P a s
  | .error e, s => E e s

variable {P : α → σ → Prop} {E : ε → σ → Prop}

@[simp] theorem yields_ok (a : α) (s : σ) : Yields P E (.ok a) s ↔ P a s :=
  Iff.rfl

@[simp] theorem yields_error (e : ε) (s : σ) :
    Yields P E (.error e) s ↔ E e s :=
  Iff.rfl

theorem safe_pure {a : α} (hC : C s) (hP : P a s) :
    M.Safe C (Yields P E) (pure a : ExceptT ε (Prog Op R) α).run s :=
  safe_done hC hP

theorem safe_throw {e : ε} (hC : C s) (hE : E e s) :
    M.Safe C (Yields P E) (throw e : ExceptT ε (Prog Op R) α).run s :=
  safe_done hC hE

/-- Sequencing: an error ends the program. -/
theorem Safe.bindExcept {x : ExceptT ε (Prog Op R) α}
    {f : α → ExceptT ε (Prog Op R) β} {P : β → σ → Prop}
    (h : M.Safe C (Yields (fun a t => M.Safe C (Yields P E) (f a).run t) E)
      x.run s) :
    M.Safe C (Yields P E) (x >>= f).run s := by
  apply Safe.bind
  refine h.mono (fun _ hC => hC) ?_
  intro r t hC hr
  cases r with
  | ok a => exact hr
  | error e => exact ⟨hC, hr⟩

theorem Safe.discardExcept {x : ExceptT ε (Prog Op R) α} {P : Unit → σ → Prop}
    (h : M.Safe C (Yields (fun _ t => P () t) E) x.run s) :
    M.Safe C (Yields P E) (discard x).run s := by
  apply Safe.bind
  refine h.mono (fun _ hC => hC) ?_
  intro r t hC hr
  cases r with
  | ok a => exact ⟨hC, hr⟩
  | error e => exact ⟨hC, hr⟩

theorem Safe.liftExcept {p : Prog Op R α}
    (h : M.Safe C P p s) :
    M.Safe C (Yields P E) (ExceptT.lift p : ExceptT ε (Prog Op R) α).run s := by
  apply Safe.bind
  exact h.mono (fun _ hC => hC) fun a t hC ha => ⟨hC, ha⟩

/-- Weaken the three conditions of a fallible program. -/
theorem Safe.monoExcept {x : ExceptT ε (Prog Op R) α} {C' : σ → Prop}
    {P' : α → σ → Prop} {E' : ε → σ → Prop}
    (h : M.Safe C (Yields P E) x.run s) (hC : ∀ t, C t → C' t)
    (hP : ∀ a t, C t → P a t → P' a t) (hE : ∀ e t, C t → E e t → E' e t) :
    M.Safe C' (Yields P' E') x.run s := by
  refine h.mono hC ?_
  intro r t ht hr
  cases r with
  | ok a => exact hP a t ht hr
  | error e => exact hE e t ht hr

/-! ## Programs on an abstract state

Where the result and the state after a program are determined by an abstraction
of the state before, it is enough to compute with the abstraction. -/

section Ends

variable {τ : Type} {A : σ → τ → Prop} {T T' T'' : τ} {a : α} {b : β}

/-- From every state that stands for `T` the program ends with the result `a`, in
a state that stands for `T'`. -/
def Ends (M : Machine Op R σ) (A : σ → τ → Prop) (p : Prog Op R α) (T : τ)
    (a : α) (T' : τ) : Prop :=
  ∀ s, A s T → M.Safe (fun _ => True) (fun r t => r = a ∧ A t T') p s

theorem ends_done (a : α) (T : τ) : M.Ends A (.done a) T a T :=
  fun _ hs => ⟨trivial, rfl, hs⟩

/-- An operation by what it does on every state that stands for `T`. -/
theorem ends_op {o : Op} {r : R o}
    (h : ∀ s, A s T → ∀ r' t, M.step o s r' t → r' = r ∧ A t T') :
    M.Ends A (Prog.op o) T r T' :=
  fun s hs => safe_op trivial fun r' t ht => ⟨trivial, h s hs r' t ht⟩

theorem Ends.bind {p : Prog Op R α} {f : α → Prog Op R β}
    (h : M.Ends A p T a T') (hf : M.Ends A (f a) T' b T'') :
    M.Ends A (p >>= f) T b T'' := by
  intro s hs
  apply Safe.bind
  refine (h s hs).mono (fun _ h => h) ?_
  rintro _ t - ⟨rfl, ht⟩
  exact hf t ht

theorem Ends.bindExcept {x : ExceptT ε (Prog Op R) α}
    {f : α → ExceptT ε (Prog Op R) β} {r : Except ε β}
    (h : M.Ends A x.run T (.ok a) T') (hf : M.Ends A (f a).run T' r T'') :
    M.Ends A (x >>= f).run T r T'' :=
  Ends.bind h hf

theorem Ends.bindError {x : ExceptT ε (Prog Op R) α}
    {f : α → ExceptT ε (Prog Op R) β} {e : ε}
    (h : M.Ends A x.run T (.error e) T') :
    M.Ends A (x >>= f).run T (.error e) T' :=
  Ends.bind h (ends_done _ T')

theorem Ends.discardExcept {x : ExceptT ε (Prog Op R) α}
    (h : M.Ends A x.run T (.ok a) T') :
    M.Ends A (discard x).run T (.ok ()) T' :=
  Ends.bind h (ends_done _ T')

theorem Ends.liftExcept {p : Prog Op R α} (h : M.Ends A p T a T') :
    M.Ends A (ExceptT.lift p : ExceptT ε (Prog Op R) α).run T (.ok a) T' :=
  Ends.bind h (ends_done _ T')

theorem Ends.finishes {p : Prog Op R α} {r : α} (h : M.Ends A p T a T')
    (hs : A s T) (hf : M.Finishes p s r t) : r = a ∧ A t T' :=
  ((h s hs).finishes hf).2

end Ends

/-! ## Runs of composed programs -/

theorem finishes_bind {p : Prog Op R α} {f : α → Prog Op R β} {b : β} :
    M.Finishes (p >>= f) s b t ↔
      ∃ a u, M.Finishes p s a u ∧ M.Finishes (f a) u b t := by
  constructor
  · intro h
    induction p generalizing s with
    | done a => exact ⟨a, s, .done a s, h⟩
    | call o k ih =>
        cases h with
        | step hstep hrest =>
            obtain ⟨a, u, hp, hf⟩ := ih _ hrest
            exact ⟨a, u, .step hstep hp, hf⟩
  · rintro ⟨a, u, hp, hf⟩
    induction hp with
    | done a s => exact hf
    | step hstep _ ih => exact .step hstep (ih hf)

theorem finishes_bindExcept {x : ExceptT ε (Prog Op R) α}
    {f : α → ExceptT ε (Prog Op R) β} {r : Except ε β} :
    M.Finishes (x >>= f).run s r t ↔
      (∃ a u, M.Finishes x.run s (.ok a) u ∧ M.Finishes (f a).run u r t) ∨
        ∃ e, r = .error e ∧ M.Finishes x.run s (.error e) t := by
  change M.Finishes (x.run >>= _) s r t ↔ _
  rw [finishes_bind]
  constructor
  · rintro ⟨a | a, u, hx, hf⟩
    · cases hf
      exact Or.inr ⟨a, rfl, hx⟩
    · exact Or.inl ⟨a, u, hx, hf⟩
  · rintro (⟨a, u, hx, hf⟩ | ⟨e, rfl, hx⟩)
    · exact ⟨.ok a, u, hx, hf⟩
    · exact ⟨.error e, t, hx, .done _ t⟩

/-! ## Machines that can be run -/

/-- A machine whose operations are determined by a choice that is not in the
program's hands. -/
structure Exec (Op : Type) (R : Op → Type) (σ : Type) where
  Choice : Type
  allowed : Choice → Prop
  exec : (o : Op) → Choice → σ → R o × σ

namespace Exec

variable (X : Exec Op R σ)

/-- The machine under all allowed choices. -/
def machine : Machine Op R σ where
  step := fun o s r t => ∃ c, X.allowed c ∧ X.exec o c s = (r, t)

/-- Run with the given choices, the last one repeated for ever. -/
def run : Prog Op R α → List X.Choice → X.Choice → σ → α × σ
  | .done a, _, _, s => (a, s)
  | .call o k, [], last, s =>
      run (k (X.exec o last s).1) [] last (X.exec o last s).2
  | .call o k, c :: cs, last, s =>
      run (k (X.exec o c s).1) cs last (X.exec o c s).2

/-- The state after at most `n` operations. -/
def runFor : ℕ → Prog Op R α → X.Choice → σ → σ
  | 0, _, _, s => s
  | _ + 1, .done _, _, s => s
  | n + 1, .call o k, c, s =>
      runFor n (k (X.exec o c s).1) c (X.exec o c s).2

variable {X}

theorem step_exec {c : X.Choice} (hc : X.allowed c) (o : Op) (s : σ) :
    X.machine.step o s (X.exec o c s).1 (X.exec o c s).2 :=
  ⟨c, hc, rfl⟩

theorem finishes_run (p : Prog Op R α) (cs : List X.Choice) {last : X.Choice}
    (hcs : ∀ c ∈ cs, X.allowed c) (hlast : X.allowed last) (s : σ) :
    X.machine.Finishes p s (X.run p cs last s).1 (X.run p cs last s).2 := by
  induction p generalizing cs s with
  | done a => exact .done a s
  | call o k ih =>
      cases cs with
      | nil => exact .step (step_exec hlast o s) (ih _ [] hcs _)
      | cons c cs =>
          exact .step (step_exec (hcs c List.mem_cons_self) o s)
            (ih _ cs (fun c' hc' => hcs c' (List.mem_cons_of_mem _ hc')) _)

theorem visits_runFor (n : ℕ) (p : Prog Op R α) {c : X.Choice}
    (hc : X.allowed c) (s : σ) :
    X.machine.Visits p s (X.runFor n p c s) := by
  induction n generalizing p s with
  | zero => exact .here p s
  | succ n ih =>
      cases p with
      | done a => exact .here _ s
      | call o k => exact .step (step_exec hc o s) (ih _ _)

end Exec

end Machine

end Connexa
