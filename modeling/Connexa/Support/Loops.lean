import Mathlib.Order.Basic

/-!
# Loops

A loop runs its body until a pass ends it.  Every pass that does not end it comes closer
to the end, in the sense of a well-founded relation on the states, so the loop is a total
function; what one pass keeps, the whole loop keeps.
-/

namespace Connexa

/-- How one pass of a loop ends. -/
inductive Pass (S R : Type) where
  | again (s : S)
  | done (r : R)

/-- The body of a loop, and why the loop ends. -/
structure Loop (S R : Type) where
  body : S → Pass S R
  Closer : S → S → Prop
  wf : WellFounded Closer
  closer : ∀ s s', body s = .again s' → Closer s' s

namespace Loop

variable {S R : Type}

/-- Run the body until it ends the loop. -/
def run (L : Loop S R) (s : S) : R :=
  match _h : L.body s with
  | .done r => r
  | .again s' => L.run s'
termination_by L.wf.wrap s
decreasing_by exact L.closer s s' _h

theorem run_of_again (L : Loop S R) {s s' : S} (h : L.body s = .again s') :
    L.run s = L.run s' := by
  rw [run]
  split
  · next r hr =>
    rw [h] at hr
    cases hr
  · next s'' hs'' =>
    rw [h] at hs''
    cases hs''
    rfl

theorem run_of_done (L : Loop S R) {s : S} {r : R} (h : L.body s = .done r) :
    L.run s = r := by
  rw [run]
  split
  · next r' hr =>
    rw [h] at hr
    cases hr
    rfl
  · next s' hs' =>
    rw [h] at hs'
    cases hs'

/-- Run the body at most `n` times. -/
def runFor (L : Loop S R) : ℕ → S → Option R
  | 0, _ => none
  | n + 1, s =>
      match L.body s with
      | .done r => some r
      | .again s' => runFor L n s'

/-- A loop that ends soon enough, seen by running it. -/
theorem run_of_runFor (L : Loop S R) {n : ℕ} {s : S} {r : R}
    (h : L.runFor n s = some r) : L.run s = r := by
  induction n generalizing s with
  | zero => cases h
  | succ n ih =>
      unfold runFor at h
      split at h
      · next r' hbody =>
        cases h
        exact L.run_of_done hbody
      · next s' hbody => exact (L.run_of_again hbody).trans (ih h)

/-- The rule of invariants: what holds before the loop and is kept by every pass holds
before the last pass. -/
theorem run_induct (L : Loop S R) {P : S → Prop} {Q : R → Prop}
    (hagain : ∀ s s', P s → L.body s = .again s' → P s')
    (hdone : ∀ s r, P s → L.body s = .done r → Q r) {s : S} (hs : P s) :
    Q (L.run s) := by
  induction s using L.wf.induction with
  | _ s ih =>
      rw [run]
      split
      · next r hr => exact hdone s r hs hr
      · next s' hs' => exact ih s' (L.closer s s' hs') (hagain s s' hs hs')

end Loop

end Connexa
