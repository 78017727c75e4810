import Mathlib.Data.List.Chain
import Mathlib.Data.List.Infix

/-!
# Properties of growing histories

A history only grows at its end.  `Chronicle P l` says that every entry of `l`
satisfies `P` relative to the entries recorded before it, so a safety property
of a run is a `Chronicle` of its history.  `Reports` relates a register that
reports its changes to the reports made so far.
-/

namespace Connexa

variable {α : Type}

/-- The splits of a list at an entry, after one more entry was appended. -/
theorem snoc_eq_append_cons_iff {l pre post : List α} {x y : α} :
    l ++ [y] = pre ++ x :: post ↔
      (∃ rest, post = rest ++ [y] ∧ l = pre ++ x :: rest) ∨
        (post = [] ∧ x = y ∧ l = pre) := by
  constructor
  · intro h
    rcases List.eq_nil_or_concat post with rfl | ⟨rest, z, rfl⟩
    · obtain ⟨rfl, hyx⟩ := List.append_inj' h rfl
      exact Or.inr ⟨rfl, (List.singleton_inj.mp hyx).symm, rfl⟩
    · rw [List.concat_eq_append, ← List.cons_append, ← List.append_assoc] at h
      obtain ⟨rfl, hyz⟩ := List.append_inj' h rfl
      rw [List.singleton_inj.mp hyz, List.concat_eq_append]
      exact Or.inl ⟨rest, rfl, rfl⟩
  · rintro (⟨rest, rfl, rfl⟩ | ⟨rfl, rfl, rfl⟩)
    · simp
    · rfl

/-- Every entry satisfies `P` relative to the entries before it. -/
def Chronicle (P : List α → α → Prop) (l : List α) : Prop :=
  ∀ pre x post, l = pre ++ x :: post → P pre x

namespace Chronicle

variable {P : List α → α → Prop}

theorem nil : Chronicle P [] := by
  intro pre x post h
  simp at h

/-- Appending one entry asks for that entry only. -/
theorem snoc_iff {l : List α} {x : α} :
    Chronicle P (l ++ [x]) ↔ Chronicle P l ∧ P l x := by
  constructor
  · intro h
    refine ⟨?_, h l x [] rfl⟩
    rintro pre y post rfl
    exact h pre y (post ++ [x]) (by simp)
  · rintro ⟨hl, hx⟩ pre y post heq
    rcases snoc_eq_append_cons_iff.mp heq with ⟨rest, -, rfl⟩ | ⟨-, rfl, rfl⟩
    · exact hl pre y rest rfl
    · exact hx

theorem snoc {l : List α} {x : α} (h : Chronicle P l) (hx : P l x) :
    Chronicle P (l ++ [x]) :=
  snoc_iff.mpr ⟨h, hx⟩

/-- Appending entries that satisfy `P` whatever comes between. -/
theorem append {l es : List α} (h : Chronicle P l)
    (hes : ∀ between, ∀ x ∈ es, P (l ++ between) x) : Chronicle P (l ++ es) := by
  induction es using List.reverseRecOn with
  | nil => simpa using h
  | append_singleton es x ih =>
      rw [← List.append_assoc]
      refine (ih fun between y hy => hes between y ?_).snoc (hes es x ?_)
      · exact List.mem_append_left _ hy
      · exact List.mem_append_right _ (List.mem_singleton_self _)

end Chronicle

/-- The reports of a register: `start` is its value before any report, every
report carries a new value, and `now` is the value of the last one. -/
structure Reports (start : α) (reports : List α) (now : α) : Prop where
  chain : (start :: reports).IsChain (· ≠ ·)
  last : (start :: reports).getLast? = some now

namespace Reports

variable {start now : α} {reports : List α}

theorem nil : Reports start [] start :=
  ⟨List.isChain_singleton start, rfl⟩

/-- The register changes and reports it. -/
theorem snoc (h : Reports start reports now) {next : α} (hne : next ≠ now) :
    Reports start (reports ++ [next]) next := by
  constructor
  · rw [← List.cons_append, List.isChain_append]
    refine ⟨h.chain, List.isChain_singleton next, ?_⟩
    intro x hx y hy
    rw [h.last, Option.mem_some_iff] at hx
    rw [List.head?_cons, Option.mem_some_iff] at hy
    rw [← hx, ← hy]
    exact hne.symm
  · rw [← List.cons_append]
    exact List.getLast?_concat

/-- Consecutive reports carry different values. -/
theorem isChain (h : Reports start reports now) : reports.IsChain (· ≠ ·) :=
  h.chain.tail

/-- The first report carries another value than the start. -/
theorem head_ne (h : Reports start reports now) {first : α}
    (hfirst : reports.head? = some first) : first ≠ start := by
  obtain ⟨rest, rfl⟩ := List.head?_eq_some_iff.mp hfirst
  exact (List.isChain_cons_cons.mp h.chain).1.symm

/-- The register holds the value of the last report. -/
theorem now_eq (h : Reports start reports now) :
    now = reports.getLast?.getD start := by
  have hlast := h.last
  rw [List.getLast?_cons, Option.some_inj] at hlast
  exact hlast.symm

end Reports

/-- Two entries of one list: if `x` does not come after `y`, then `y` comes
after `x`. -/
theorem mem_after_of_notMem_after {x y : α} {pre mid before after : List α}
    (h : pre ++ x :: mid = before ++ y :: after) (hne : x ≠ y)
    (hx : x ∉ after) : y ∈ mid := by
  rcases List.append_eq_append_iff.mp h with ⟨l, hbefore, hmid⟩ | ⟨l, hpre, hafter⟩
  · cases l with
    | nil =>
        cases hmid
        exact absurd rfl hne
    | cons z l =>
        obtain ⟨rfl, rfl⟩ := List.cons.inj hmid
        exact List.mem_append_right _ List.mem_cons_self
  · cases l with
    | nil =>
        cases hafter
        exact absurd rfl hne
    | cons z l =>
        obtain ⟨rfl, rfl⟩ := List.cons.inj hafter
        exact absurd (List.mem_append_right _ List.mem_cons_self) hx

end Connexa
