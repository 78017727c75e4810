import Connexa.Support.History

/-!
# What stands

A table into which steps put entries, and out of which they take entries, holds
what was put and not taken out since.  A board says what a step puts and takes,
a register does so in view of the steps before it.  What stands after a trace
can be read off the trace, without the table.
-/

namespace Connexa

variable {S X : Type}

/-- What a step takes down of what is there, and what it then puts up. -/
structure Board (S X : Type) where
  puts : S → List X
  takes : S → X → Bool

namespace Board

variable (board : Board S X) {trace : List S} {s : S} {x : X}

/-- What was put up and not taken down since, in the order of the trace. -/
def standing : List S → List X
  | [] => []
  | s :: rest =>
      (board.puts s).filter (fun x => rest.all fun t => !board.takes t x) ++
        standing rest

/-- One more step. -/
theorem standing_snoc :
    board.standing (trace ++ [s]) =
      (board.standing trace).filter (fun x => !board.takes s x) ++ board.puts s := by
  induction trace with
  | nil => simp [standing]
  | cons t rest ih =>
      rw [List.cons_append, standing, standing, ih, List.filter_append,
        List.filter_filter,
        List.append_assoc]
      congr 1
      refine List.filter_congr fun x _ => ?_
      rw [List.all_append, Bool.and_comm]
      simp

end Board

/-- Which entries a step after the given ones puts in, and which it takes out. -/
structure Register (S X : Type) where
  enters : List S → S → X → Prop
  leaves : List S → S → X → Prop

namespace Register

variable (register : Register S X) {trace : List S} {s : S} {x : X}

/-- A step put the entry in, and no later step took it out. -/
def Holds (trace : List S) (x : X) : Prop :=
  ∃ before s after, trace = before ++ s :: after ∧ register.enters before s x ∧
    ∀ pre t post, after = pre ++ t :: post →
      ¬register.leaves (before ++ s :: pre) t x

/-- One more step puts the entry in, or leaves it in. -/
theorem holds_snoc :
    register.Holds (trace ++ [s]) x ↔
      register.enters trace s x ∨
        register.Holds trace x ∧ ¬register.leaves trace s x := by
  constructor
  · rintro ⟨before, t, after, heq, henters, hkept⟩
    rcases snoc_eq_append_cons_iff.mp heq with ⟨rest, rfl, rfl⟩ | ⟨rfl, rfl, rfl⟩
    · refine Or.inr ⟨⟨before, t, rest, rfl, henters, ?_⟩, hkept rest s [] rfl⟩
      rintro pre u post rfl
      exact hkept pre u (post ++ [s]) (by simp)
    · exact Or.inl henters
  · rintro (henters | ⟨⟨before, t, after, rfl, henters, hkept⟩, hleaves⟩)
    · exact ⟨trace, s, [], rfl, henters, by simp⟩
    · refine ⟨before, t, after ++ [s], by simp, henters, ?_⟩
      intro pre u post heq
      rcases snoc_eq_append_cons_iff.mp heq with ⟨rest, -, rfl⟩ | ⟨-, rfl, rfl⟩
      · exact hkept pre u rest rfl
      · exact hleaves

@[simp] theorem not_holds_nil : ¬register.Holds [] x := by
  rintro ⟨before, s, after, heq, -⟩
  simp at heq

end Register

end Connexa
