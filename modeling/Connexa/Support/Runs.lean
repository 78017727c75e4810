import Mathlib.Logic.Basic
import Mathlib.Data.Option.Basic

/-!
# Runs under a contract

A service handles inputs one after another.  What its surroundings promise about
the next input is a contract, a relation between the state and the input.
-/

namespace Connexa

/-- Where runs start, and what an input does to the state. -/
structure Service (W I : Type) where
  init : W → Prop
  step : I → W → W

namespace Service

variable {W I : Type} {S : Service W I} {contract : W → I → Prop}

/-- The states that runs reach under a contract. -/
inductive Reachable (S : Service W I) (contract : W → I → Prop) : W → Prop where
  | init {w : W} (h : S.init w) : Reachable S contract w
  | step {w : W} {i : I} (hw : Reachable S contract w) (hi : contract w i) :
      Reachable S contract (S.step i w)

namespace Reachable

/-- What holds at the start and is kept by every step holds in every state. -/
theorem invariant {Inv : W → Prop} (hinit : ∀ w, S.init w → Inv w)
    (hstep : ∀ w i, Inv w → contract w i → Inv (S.step i w)) {w : W}
    (hw : Reachable S contract w) : Inv w := by
  induction hw with
  | init h => exact hinit _ h
  | step _ hi ih => exact hstep _ _ ih hi

end Reachable

/-! ## Traces of runs -/

/-- Runs under a contract, with their traces: each input with the state it met. -/
inductive Traced (S : Service W I) (contract : W → I → Prop) :
    List (W × I) → W → Prop where
  | init {w : W} (h : S.init w) : Traced S contract [] w
  | step {trace : List (W × I)} {w : W} {i : I} (hw : Traced S contract trace w)
      (hi : contract w i) : Traced S contract (trace ++ [(w, i)]) (S.step i w)

/-! ## Concrete runs -/

/-- Serve a list of inputs, each of which has to pass the check. -/
def runAll (S : Service W I) (check : W → I → Bool) : List I → W → Option W
  | [], w => some w
  | i :: rest, w => if check w i then runAll S check rest (S.step i w) else none

theorem Reachable.runAll {check : W → I → Bool} {inputs : List I} {w w' : W}
    (hcheck : ∀ w i, check w i = true → contract w i)
    (hw : Reachable S contract w) (h : S.runAll check inputs w = some w') :
    Reachable S contract w' := by
  induction inputs generalizing w with
  | nil =>
      cases h
      exact hw
  | cons i rest ih =>
      rw [Service.runAll] at h
      split at h
      · next hpassed => exact ih (hw.step (hcheck w i hpassed)) h
      · cases h

theorem Traced.runAll {check : W → I → Bool} {inputs : List I} {w w' : W}
    {trace : List (W × I)} (hcheck : ∀ w i, check w i = true → contract w i)
    (hw : Traced S contract trace w) (h : S.runAll check inputs w = some w') :
    ∃ more, more.map Prod.snd = inputs ∧ Traced S contract (trace ++ more) w' := by
  induction inputs generalizing w trace with
  | nil =>
      cases h
      exact ⟨[], rfl, by rwa [List.append_nil]⟩
  | cons i rest ih =>
      rw [Service.runAll] at h
      split at h
      · next hpassed =>
        obtain ⟨more, hmore, hrun⟩ := ih (hw.step (hcheck w i hpassed)) h
        refine ⟨(w, i) :: more, by rw [List.map_cons, hmore], ?_⟩
        rwa [List.append_assoc, List.singleton_append] at hrun
      · cases h

/-- What holds at the end of a concrete run holds in a reachable state. -/
theorem exists_reachable_of_run {check : W → I → Bool}
    (hcheck : ∀ w i, check w i = true → contract w i) (w : W) (hw : S.init w)
    (inputs : List I) (P : W → Prop) [DecidablePred P]
    (h : (S.runAll check inputs w).any (fun w => decide (P w)) = true) :
    ∃ w, Reachable S contract w ∧ P w := by
  obtain ⟨w', hrun, hw'⟩ := (Option.any_eq_true _ _).mp h
  exact ⟨w', Reachable.runAll hcheck (.init hw) hrun, of_decide_eq_true hw'⟩

theorem exists_traced_of_run {check : W → I → Bool}
    (hcheck : ∀ w i, check w i = true → contract w i) (w : W) (hw : S.init w)
    (inputs : List I) (P : W → Prop) [DecidablePred P]
    (h : (S.runAll check inputs w).any (fun w => decide (P w)) = true) :
    ∃ trace w, trace.map Prod.snd = inputs ∧ Traced S contract trace w ∧ P w := by
  obtain ⟨w', hrun, hw'⟩ := (Option.any_eq_true _ _).mp h
  obtain ⟨trace, hinputs, htrace⟩ := Traced.runAll hcheck (.init hw) hrun
  exact ⟨trace, w', hinputs, htrace, of_decide_eq_true hw'⟩

end Service

end Connexa
