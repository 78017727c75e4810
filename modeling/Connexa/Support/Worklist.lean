import Mathlib.Logic.Relation

/-!
# Worklists

A search keeps a stack of what it has still to look at.  What is final is done, and
everything else is replaced by what it leads to.  `Sound` says that the search finds
nothing else than what its origin leads to, and `Covers` that it misses nothing.
-/

namespace Connexa.Worklist

open Relation

variable {α : Type} {R : α → α → Prop} {Final : α → Prop} {origin u : α}
  {stack rest new : List α} {Done Done' : α → Prop}

/-- The origin leads to all that is on the stack, and to all that is done. -/
structure Sound (R : α → α → Prop) (Final : α → Prop) (origin : α) (stack : List α)
    (Done : α → Prop) : Prop where
  stack : ∀ u ∈ stack, ReflTransGen R origin u
  done : ∀ a, Done a → ReflTransGen R origin a ∧ Final a

/-- All that is final and that the origin leads to is done, or the stack leads to it. -/
def Covers (R : α → α → Prop) (Final : α → Prop) (origin : α) (stack : List α)
    (Done : α → Prop) : Prop :=
  ∀ a, ReflTransGen R origin a → Final a → Done a ∨ ∃ u ∈ stack, ReflTransGen R u a

theorem Sound.init (hdone : ∀ a, ¬Done a) : Sound R Final origin [origin] Done where
  stack := by
    intro u hu
    rw [List.mem_singleton.mp hu]
  done := fun a ha => (hdone a ha).elim

theorem Covers.init : Covers R Final origin [origin] Done :=
  fun _ ha _ => Or.inr ⟨origin, List.mem_singleton_self _, ha⟩

theorem Sound.top (h : Sound R Final origin (u :: rest) Done) : ReflTransGen R origin u :=
  h.stack u List.mem_cons_self

theorem Sound.pop (h : Sound R Final origin (u :: rest) Done)
    (hdone : ∀ a, Done' a → Done a) : Sound R Final origin rest Done' where
  stack := fun v hv => h.stack v (List.mem_cons_of_mem _ hv)
  done := fun a ha => h.done a (hdone a ha)

/-- The top of the stack is done. -/
theorem Sound.finish (h : Sound R Final origin (u :: rest) Done) (hu : Final u)
    (hdone : ∀ a, Done' a → Done a ∨ a = u) : Sound R Final origin rest Done' where
  stack := fun v hv => h.stack v (List.mem_cons_of_mem _ hv)
  done := by
    intro a ha
    rcases hdone a ha with ha | rfl
    · exact h.done a ha
    · exact ⟨h.top, hu⟩

/-- The top of the stack is replaced by some of what it leads to. -/
theorem Sound.expand (h : Sound R Final origin (u :: rest) Done)
    (hnew : ∀ b ∈ new, R u b) (hdone : ∀ a, Done' a → Done a) :
    Sound R Final origin (new ++ rest) Done' where
  stack := by
    intro v hv
    rcases List.mem_append.mp hv with hv | hv
    · exact h.top.tail (hnew v hv)
    · exact h.stack v (List.mem_cons_of_mem _ hv)
  done := fun a ha => h.done a (hdone a ha)

/-- The top of the stack leads nowhere, and is done. -/
theorem Covers.finish (h : Covers R Final origin (u :: rest) Done)
    (hu : ∀ b, ¬R u b) (hdone : ∀ a, Done a ∨ a = u → Done' a) :
    Covers R Final origin rest Done' := by
  intro a ha hfinal
  rcases h a ha hfinal with hold | ⟨v, hv, hlead⟩
  · exact Or.inl (hdone a (Or.inl hold))
  · rcases List.mem_cons.mp hv with rfl | hv
    · rcases hlead.cases_head with heq | ⟨b, hb, -⟩
      · exact Or.inl (hdone a (Or.inr heq.symm))
      · exact (hu b hb).elim
    · exact Or.inr ⟨v, hv, hlead⟩

/-- The top of the stack is replaced by all that it leads to. -/
theorem Covers.expand (h : Covers R Final origin (u :: rest) Done) (hu : ¬Final u)
    (hnew : ∀ b, R u b → b ∈ new) (hdone : ∀ a, Done a → Done' a) :
    Covers R Final origin (new ++ rest) Done' := by
  intro a ha hfinal
  rcases h a ha hfinal with hold | ⟨v, hv, hlead⟩
  · exact Or.inl (hdone a hold)
  · rcases List.mem_cons.mp hv with rfl | hv
    · rcases hlead.cases_head with rfl | ⟨b, hb, hlead⟩
      · exact (hu hfinal).elim
      · exact Or.inr ⟨b, List.mem_append_left _ (hnew b hb), hlead⟩
    · exact Or.inr ⟨v, List.mem_append_right _ hv, hlead⟩

/-- With an empty stack, all is done. -/
theorem Covers.complete (h : Covers R Final origin [] Done) {a : α}
    (ha : ReflTransGen R origin a) (hfinal : Final a) : Done a := by
  rcases h a ha hfinal with hdone | ⟨u, hu, -⟩
  · exact hdone
  · cases hu

end Connexa.Worklist
