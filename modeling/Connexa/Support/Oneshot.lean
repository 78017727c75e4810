import Mathlib.Data.List.Nodup
import Mathlib.Data.List.Perm.Basic
import Mathlib.Data.Nat.Basic
import Mathlib.Logic.Function.Basic

/-!
# One-shot channels

The channels are numbered.  A channel has one sender, which sends one value or
is dropped, and one receiver, which waits until either has happened and is then
used up.  `Balanced` keeps the account of a set of channels: every value that
was sent has been taken by its receiver or waits there.
-/

namespace Connexa.Oneshot

variable {R : Type}

/-- What the receiver of a channel will find. -/
inductive Outcome (R : Type) where
  | pending
  | sent (value : R)
  | cancelled
  deriving DecidableEq

/-- The value that waits in a channel. -/
def Outcome.value : Outcome R → Option R
  | .sent value => some value
  | _ => none

/-- The values that wait at the receivers. -/
def waiting (state : ℕ → Outcome R) (receivers : List ℕ) : List R :=
  receivers.filterMap fun ch => (state ch).value

theorem filterMap_cons_toList {α β : Type} (f : α → Option β) (a : α)
    (rest : List α) :
    (a :: rest).filterMap f = (f a).toList ++ rest.filterMap f := by
  cases h : f a with
  | none => simp [h]
  | some b => simp [h]

theorem waiting_cons (state : ℕ → Outcome R) (ch : ℕ) (receivers : List ℕ) :
    waiting state (ch :: receivers) =
      (state ch).value.toList ++ waiting state receivers :=
  filterMap_cons_toList _ ch receivers

/-- The channels below `next` are in use.  The senders still at hand have not been
used, and their receivers wait; what was given to a sender was taken from its
receiver or waits there. -/
structure Balanced (next : ℕ) (state : ℕ → Outcome R)
    (senders receivers : List ℕ) (given taken : List R) : Prop where
  senders_nodup : senders.Nodup
  receivers_nodup : receivers.Nodup
  unused : ∀ ch ∈ senders, state ch = .pending
  waits : ∀ ch ∈ senders, ch ∈ receivers
  inUse : ∀ ch ∈ receivers, ch < next
  fresh : ∀ ch, next ≤ ch → state ch = .pending
  balance : given.Perm (taken ++ waiting state receivers)

namespace Balanced

variable {next ch : ℕ} {state : ℕ → Outcome R}
  {senders senders' receivers receivers' : List ℕ} {given taken : List R}

theorem perm (h : Balanced next state senders receivers given taken)
    (hsenders : senders.Perm senders') (hreceivers : receivers.Perm receivers') :
    Balanced next state senders' receivers' given taken where
  senders_nodup := hsenders.nodup_iff.mp h.senders_nodup
  receivers_nodup := hreceivers.nodup_iff.mp h.receivers_nodup
  unused := fun ch hch => h.unused ch (hsenders.mem_iff.mpr hch)
  waits := fun ch hch => hreceivers.mem_iff.mp
    (h.waits ch (hsenders.mem_iff.mpr hch))
  inUse := fun ch hch => h.inUse ch (hreceivers.mem_iff.mpr hch)
  fresh := h.fresh
  balance := h.balance.trans
    (List.Perm.append_left taken (hreceivers.filterMap _))

/-- A channel of another kind. -/
theorem skip (h : Balanced next state senders receivers given taken) :
    Balanced (next + 1) state senders receivers given taken :=
  { h with
    inUse := fun ch hch => Nat.lt_succ_of_lt (h.inUse ch hch)
    fresh := fun ch hch => h.fresh ch (Nat.le_of_succ_le hch) }

/-- A new channel. -/
theorem create (h : Balanced next state senders receivers given taken) :
    Balanced (next + 1) state (next :: senders) (next :: receivers) given
      taken where
  senders_nodup := by
    rw [List.nodup_cons]
    exact ⟨fun hmem => lt_irrefl _ (h.inUse _ (h.waits _ hmem)), h.senders_nodup⟩
  receivers_nodup := by
    rw [List.nodup_cons]
    exact ⟨fun hmem => lt_irrefl _ (h.inUse _ hmem), h.receivers_nodup⟩
  unused := by
    intro ch hch
    rcases List.mem_cons.mp hch with rfl | hch
    · exact h.fresh _ le_rfl
    · exact h.unused ch hch
  waits := by
    intro ch hch
    rcases List.mem_cons.mp hch with rfl | hch
    · exact List.mem_cons_self
    · exact List.mem_cons_of_mem _ (h.waits ch hch)
  inUse := by
    intro ch hch
    rcases List.mem_cons.mp hch with rfl | hch
    · exact Nat.lt_succ_self _
    · exact h.skip.inUse ch hch
  fresh := h.skip.fresh
  balance := by
    rw [waiting_cons, h.fresh next le_rfl]
    exact h.balance

/-- Elsewhere the channels stay as they are. -/
theorem waiting_update (outcome : Outcome R) (hch : ch ∉ receivers) :
    waiting (Function.update state ch outcome) receivers =
      waiting state receivers := by
  refine List.filterMap_congr fun other hother => ?_
  have hne : other ≠ ch := fun heq => hch (heq ▸ hother)
  rw [Function.update_of_ne hne]

/-- What a sender does, seen from the others. -/
theorem used (h : Balanced next state (ch :: senders) receivers given taken)
    (outcome : Outcome R) {given' : List R}
    (hbalance : given'.Perm (taken ++
      waiting (Function.update state ch outcome) receivers)) :
    Balanced next (Function.update state ch outcome) senders receivers given'
      taken where
  senders_nodup := (List.nodup_cons.mp h.senders_nodup).2
  receivers_nodup := h.receivers_nodup
  unused := by
    intro other hother
    have hne : other ≠ ch := by
      rintro rfl
      exact (List.nodup_cons.mp h.senders_nodup).1 hother
    rw [Function.update_of_ne hne]
    exact h.unused other (List.mem_cons_of_mem _ hother)
  waits := fun other hother => h.waits other (List.mem_cons_of_mem _ hother)
  inUse := h.inUse
  fresh := by
    intro other hother
    have hlt := h.inUse ch (h.waits ch List.mem_cons_self)
    rw [Function.update_of_ne (Nat.ne_of_gt (Nat.lt_of_lt_of_le hlt hother))]
    exact h.fresh other hother
  balance := hbalance

/-- The receivers with the one of the channel in front. -/
theorem receivers_perm
    (h : Balanced next state (ch :: senders) receivers given taken) :
    receivers.Perm (ch :: receivers.erase ch) :=
  List.perm_cons_erase (h.waits ch List.mem_cons_self)

theorem not_mem_erase
    (h : Balanced next state (ch :: senders) receivers given taken) :
    ch ∉ receivers.erase ch :=
  h.receivers_nodup.not_mem_erase

/-- A sender sends its value. -/
theorem send (h : Balanced next state (ch :: senders) receivers given taken)
    (value : R) :
    Balanced next (Function.update state ch (.sent value)) senders receivers
      (given ++ [value]) taken := by
  have hperm := h.receivers_perm
  refine h.used _ ?_
  calc given ++ [value]
    _ |>.Perm (taken ++ waiting state receivers ++ [value]) :=
        h.balance.append_right _
    _ |>.Perm (taken ++ waiting state (ch :: receivers.erase ch) ++ [value]) :=
        ((hperm.filterMap _).append_left taken).append_right _
    _ |>.Perm (taken ++ (value :: waiting state (receivers.erase ch))) := by
        rw [waiting_cons, h.unused ch List.mem_cons_self, List.append_assoc]
        exact (List.perm_append_singleton _ _).append_left taken
    _ |>.Perm (taken ++ waiting (Function.update state ch (.sent value))
          (ch :: receivers.erase ch)) := by
        rw [waiting_cons, Function.update_self, waiting_update _ h.not_mem_erase]
        rfl
    _ |>.Perm (taken ++ waiting (Function.update state ch (.sent value))
          receivers) :=
        (hperm.symm.filterMap _).append_left taken

/-- A sender is dropped. -/
theorem cancel (h : Balanced next state (ch :: senders) receivers given taken) :
    Balanced next (Function.update state ch .cancelled) senders receivers given
      taken := by
  refine h.used _ ?_
  have hsame : waiting (Function.update state ch .cancelled) receivers =
      waiting state receivers := by
    refine List.filterMap_congr fun other _ => ?_
    by_cases heq : other = ch
    · subst heq
      rw [Function.update_self, h.unused other List.mem_cons_self]
      rfl
    · rw [Function.update_of_ne heq]
  rw [hsame]
  exact h.balance

/-- A receiver whose sender is used is taken out with what it has found. -/
theorem take (h : Balanced next state senders (ch :: receivers) given taken)
    (hready : state ch ≠ .pending) :
    Balanced next state senders receivers given
      (taken ++ (state ch).value.toList) where
  senders_nodup := h.senders_nodup
  receivers_nodup := (List.nodup_cons.mp h.receivers_nodup).2
  unused := h.unused
  waits := by
    intro other hother
    rcases List.mem_cons.mp (h.waits other hother) with rfl | hmem
    · exact absurd (h.unused _ hother) hready
    · exact hmem
  inUse := fun other hother => h.inUse other (List.mem_cons_of_mem _ hother)
  fresh := h.fresh
  balance := by
    have hbalance := h.balance
    rwa [waiting_cons, ← List.append_assoc] at hbalance

/-- At the start there are no channels. -/
theorem nil (next : ℕ) :
    Balanced next (fun _ => (.pending : Outcome R)) [] [] [] [] :=
  ⟨List.nodup_nil, List.nodup_nil, nofun, nofun, nofun, fun _ _ => rfl, .nil⟩

end Balanced

end Connexa.Oneshot
