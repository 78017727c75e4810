import Mathlib.Data.List.Basic
import Connexa.Support.Program

/-!
# Traces of programs

What a program asks for and what it is told, in order.  A trace is played by a
program and replayed by a machine, and the two can be looked at apart: a program
among others plays the same trace while the world is moved by all of them.  A
monitor reads a trace and never the world.
-/

namespace Connexa

/-- An operation and its reply. -/
abbrev Exchange (Op : Type) (R : Op → Type) := Σ o : Op, R o

variable {Op : Type} {R : Op → Type} {α β ε σ τ : Type}

/-- The program ends with the result `a` when it is told the replies of the
trace. -/
inductive Prog.Plays : Prog Op R α → List (Exchange Op R) → α → Prop where
  | done (a : α) : Plays (.done a) [] a
  | step {o : Op} {k : R o → Prog Op R α} {r : R o}
      {trace : List (Exchange Op R)} {a : α} (hrest : Plays (k r) trace a) :
      Plays (.call o k) (⟨o, r⟩ :: trace) a

section Plays

variable {trace : List (Exchange Op R)}

theorem Prog.Calls.plays {P : Op → Prop} {p : Prog Op R α} {a : α} (hp : p.Calls P)
    (h : p.Plays trace a) : ∀ x ∈ trace, P x.1 := by
  induction h with
  | done a => exact nofun
  | step _ ih =>
      intro x hx
      rcases List.mem_cons.mp hx with rfl | hx
      · exact hp.1
      · exact ih (hp.2 _) x hx

theorem Prog.plays_bind {p : Prog Op R α} {f : α → Prog Op R β} {b : β}
    (h : (p >>= f).Plays trace b) :
    ∃ a first second, trace = first ++ second ∧ p.Plays first a ∧
      (f a).Plays second b := by
  induction p generalizing trace with
  | done a => exact ⟨a, [], trace, rfl, .done a, h⟩
  | call o k ih =>
      cases h with
      | @step _ _ r rest _ hrest =>
          obtain ⟨a, first, second, rfl, hp, hf⟩ := ih r hrest
          exact ⟨a, ⟨o, r⟩ :: first, second, rfl, .step hp, hf⟩

/-- A sequence of fallible programs plays both parts, or an error ends it. -/
theorem Prog.plays_bindExcept {x : ExceptT ε (Prog Op R) α}
    {f : α → ExceptT ε (Prog Op R) β} {r : Except ε β}
    (h : (x >>= f).run.Plays trace r) :
    (∃ a first second, trace = first ++ second ∧ x.run.Plays first (.ok a) ∧
      (f a).run.Plays second r) ∨
    ∃ e, r = .error e ∧ x.run.Plays trace (.error e) := by
  obtain ⟨a | a, first, second, rfl, hx, hf⟩ := Prog.plays_bind h
  · cases hf
    rw [List.append_nil]
    exact Or.inr ⟨a, rfl, hx⟩
  · exact Or.inl ⟨a, first, second, rfl, hx, hf⟩

/-- A sequence that ends well plays both parts. -/
theorem Prog.plays_bindOk {x : ExceptT ε (Prog Op R) α}
    {f : α → ExceptT ε (Prog Op R) β} {b : β} (h : (x >>= f).run.Plays trace (.ok b)) :
    ∃ a first second, trace = first ++ second ∧ x.run.Plays first (.ok a) ∧
      (f a).run.Plays second (.ok b) := by
  rcases Prog.plays_bindExcept h with hboth | ⟨e, he, -⟩
  · exact hboth
  · cases he

end Plays

/-- Run the program and record its trace. -/
def Prog.record (exec : (o : Op) → σ → R o × σ) :
    Prog Op R α → σ → List (Exchange Op R) × α × σ
  | .done a, s => ([], a, s)
  | .call o k, s =>
      let (r, t) := exec o s
      let (trace, a, u) := (k r).record exec t
      (⟨o, r⟩ :: trace, a, u)

theorem Prog.plays_record (exec : (o : Op) → σ → R o × σ) (p : Prog Op R α) (s : σ) :
    p.Plays (p.record exec s).1 (p.record exec s).2.1 := by
  induction p generalizing s with
  | done a => exact .done a
  | call o k ih => exact .step (ih _ _)

namespace Machine

/-- The machine goes from `s` to `t` along the trace. -/
inductive Replays (M : Machine Op R σ) : σ → List (Exchange Op R) → σ → Prop where
  | refl (s : σ) : Replays M s [] s
  | step {o : Op} {r : R o} {s u t : σ} {trace : List (Exchange Op R)}
      (hstep : M.step o s r u) (hrest : Replays M u trace t) :
      Replays M s (⟨o, r⟩ :: trace) t

variable {M : Machine Op R σ} {s t : σ} {trace : List (Exchange Op R)}

theorem replays_append {first second : List (Exchange Op R)} :
    M.Replays s (first ++ second) t ↔
      ∃ u, M.Replays s first u ∧ M.Replays u second t := by
  constructor
  · intro h
    induction first generalizing s with
    | nil => exact ⟨s, .refl s, h⟩
    | cons x rest ih =>
        cases h with
        | step hstep hrest =>
            obtain ⟨u, hu, ht⟩ := ih hrest
            exact ⟨u, .step hstep hu, ht⟩
  · rintro ⟨u, hu, ht⟩
    induction hu with
    | refl s => exact ht
    | step hstep _ ih => exact .step hstep (ih ht)

theorem finishes_of_plays {p : Prog Op R α} {a : α} (hplays : p.Plays trace a)
    (hreplays : M.Replays s trace t) : M.Finishes p s a t := by
  induction hplays generalizing s with
  | done a =>
      cases hreplays
      exact .done a _
  | step _ ih =>
      cases hreplays with
      | step hstep hrest => exact .step hstep (ih hrest)

/-- A condition that every step of the trace keeps holds at its end. -/
theorem Replays.keeps {C : σ → Prop} (h : M.Replays s trace t)
    (hstep : ∀ x ∈ trace, ∀ u v, C u → M.step x.1 u x.2 v → C v) (hs : C s) : C t := by
  induction h with
  | refl s => exact hs
  | step hfirst _ ih =>
      apply ih
      · exact fun x hx => hstep x (List.mem_cons_of_mem _ hx)
      · exact hstep _ List.mem_cons_self _ _ hs hfirst

/-- States that cannot be told apart replay the same traces. -/
theorem Replays.transfer {E : σ → σ → Prop}
    (hstep : ∀ o u v r u', E u v → M.step o u r u' → ∃ v', M.step o v r v' ∧ E u' v')
    (h : M.Replays s trace t) {s' : σ} (hs : E s s') :
    ∃ t', M.Replays s' trace t' ∧ E t t' := by
  induction h generalizing s' with
  | refl s => exact ⟨s', .refl s', hs⟩
  | step hfirst _ ih =>
      obtain ⟨u', hfirst', hu⟩ := hstep _ _ _ _ _ hs hfirst
      obtain ⟨t', hrest, ht⟩ := ih hu
      exact ⟨t', .step hfirst' hrest, ht⟩

theorem replays_record {exec : (o : Op) → σ → R o × σ}
    (hexec : ∀ o s, M.step o s (exec o s).1 (exec o s).2) (p : Prog Op R α) (s : σ) :
    M.Replays s (p.record exec s).1 (p.record exec s).2.2 := by
  induction p generalizing s with
  | done a => exact .refl s
  | call o k ih => exact .step (hexec o s) (ih _ _)

/-! ## Monitors -/

/-- The machine that follows a trace from state to state. -/
def monitor (next : τ → Exchange Op R → τ) : Machine Op R τ where
  step o q r q' := q' = next q ⟨o, r⟩

variable {next : τ → Exchange Op R → τ} {C : τ → Prop} {q : τ}

/-- What a program keeps of a monitor, whatever it is told. -/
theorem Safe.plays {Q : α → τ → Prop} {p : Prog Op R α} {a : α}
    (h : (monitor next).Safe C Q p q) (hplays : p.Plays trace a) :
    Q a (trace.foldl next q) := by
  induction hplays generalizing q with
  | done a => exact h.2
  | step _ ih => exact ih (h.2 _ _ rfl)

end Machine

end Connexa
