import Mathlib.Data.List.Nodup
import Mathlib.Logic.Function.Basic

/-!
# Replies to commands

Commands have numbered responders.  A command is answered at once, or it opens a
ticket, and is answered by the first report on the ticket.  A `Desk` keeps the
responders by their tickets; `replyTo` says what the responder of a command is
sent, by what happens after the command.
-/

namespace Connexa

variable {I A : Type}

/-- What happens at a desk. -/
inductive DeskEvent (I A : Type) where
  | answered (resp : ℕ) (a : A)
  | opened (resp : ℕ) (ticket : I)
  | reported (ticket : I) (a : A)

namespace DeskEvent

/-- The responder of a command. -/
def resp : DeskEvent I A → Option ℕ
  | .answered resp _ => some resp
  | .opened resp _ => some resp
  | .reported _ _ => none

/-- The ticket that is opened. -/
def opens : DeskEvent I A → Option I
  | .opened _ ticket => some ticket
  | _ => none

end DeskEvent

/-- The responders that wait, by their tickets, and what was sent. -/
structure Desk (I A : Type) where
  waiting : I → Option ℕ
  sent : List (ℕ × A)

namespace Desk

def empty : Desk I A :=
  ⟨fun _ => none, []⟩

/-- What the responder was sent. -/
def sentTo (resp : ℕ) (d : Desk I A) : List A :=
  (d.sent.filter fun s => s.1 = resp).map Prod.snd

variable [DecidableEq I]

def step (d : Desk I A) : DeskEvent I A → Desk I A
  | .answered resp a => { d with sent := d.sent ++ [(resp, a)] }
  | .opened resp ticket =>
      { d with waiting := Function.update d.waiting ticket (some resp) }
  | .reported ticket a =>
      match d.waiting ticket with
      | none => d
      | some resp =>
          ⟨Function.update d.waiting ticket none, d.sent ++ [(resp, a)]⟩

def run (d : Desk I A) (events : List (DeskEvent I A)) : Desk I A :=
  events.foldl step d

/-- The first report on the ticket. -/
def firstReport (ticket : I) : List (DeskEvent I A) → Option A
  | [] => none
  | .reported ticket' a :: rest =>
      if ticket' = ticket then some a else firstReport ticket rest
  | _ :: rest => firstReport ticket rest

variable {d : Desk I A} {events : List (DeskEvent I A)} {resp : ℕ} {ticket : I}

omit [DecidableEq I] in
theorem sentTo_append_self (a : A) :
    ({ d with sent := d.sent ++ [(resp, a)] } : Desk I A).sentTo resp =
      d.sentTo resp ++ [a] := by
  simp [sentTo]

omit [DecidableEq I] in
theorem sentTo_append_of_ne {resp' : ℕ} (hne : resp' ≠ resp) (a : A) :
    ({ d with sent := d.sent ++ [(resp', a)] } : Desk I A).sentTo resp =
      d.sentTo resp := by
  simp [sentTo, hne]

/-- A responder that neither asks nor waits is left alone. -/
theorem run_of_idle (hwaiting : ∀ t, d.waiting t ≠ some resp)
    (hasked : ∀ e ∈ events, e.resp ≠ some resp) :
    (∀ t, (d.run events).waiting t ≠ some resp) ∧
      (d.run events).sentTo resp = d.sentTo resp := by
  induction events generalizing d with
  | nil => exact ⟨hwaiting, rfl⟩
  | cons e rest ih =>
      have hrest : ∀ e' ∈ rest, e'.resp ≠ some resp :=
        fun e' he' => hasked e' (List.mem_cons_of_mem _ he')
      have hne : e.resp ≠ some resp := hasked e List.mem_cons_self
      have hstep : (∀ t, (d.step e).waiting t ≠ some resp) ∧
          (d.step e).sentTo resp = d.sentTo resp := by
        cases e with
        | answered resp' a =>
            exact ⟨hwaiting, sentTo_append_of_ne (fun h => hne (congrArg some h)) a⟩
        | opened resp' ticket =>
            refine ⟨fun t => ?_, rfl⟩
            simp only [step, Function.update_apply]
            split
            · exact hne
            · exact hwaiting t
        | reported ticket a =>
            simp only [step]
            split
            · exact ⟨hwaiting, rfl⟩
            · next resp' hresp =>
              have hother : resp' ≠ resp := by
                rintro rfl
                exact hwaiting ticket hresp
              refine ⟨fun t => ?_, sentTo_append_of_ne hother a⟩
              simp only [Function.update_apply]
              split
              · exact nofun
              · exact hwaiting t
      obtain ⟨hrun, hsent⟩ := ih hstep.1 hrest
      exact ⟨hrun, hsent.trans hstep.2⟩

/-- The responder waits for a report on this ticket. -/
def Waits (d : Desk I A) (resp : ℕ) (ticket : I) : Prop :=
  ∀ t, d.waiting t = some resp ↔ t = ticket

/-- Events of others leave it waiting. -/
theorem Waits.step (h : d.Waits resp ticket) {e : DeskEvent I A}
    (hresp : e.resp ≠ some resp) (hopens : e.opens ≠ some ticket)
    (hreport : ∀ a, e ≠ .reported ticket a) :
    (d.step e).Waits resp ticket ∧ (d.step e).sentTo resp = d.sentTo resp := by
  cases e with
  | answered resp' a =>
      exact ⟨h, sentTo_append_of_ne (fun heq => hresp (congrArg some heq)) a⟩
  | opened resp' ticket' =>
      have hne : ticket ≠ ticket' := fun heq => hopens (congrArg some heq.symm)
      refine ⟨fun t => ?_, rfl⟩
      simp only [Desk.step, Function.update_apply]
      split
      · next ht => exact ⟨fun heq => absurd heq hresp, fun heq => absurd (heq ▸ ht) hne⟩
      · exact h t
  | reported ticket' a =>
      have hne : ticket' ≠ ticket := fun heq => hreport a (heq ▸ rfl)
      simp only [Desk.step]
      split
      · exact ⟨h, rfl⟩
      · next resp' hresp' =>
        have hother : resp' ≠ resp := by
          rintro rfl
          exact hne ((h ticket').mp hresp')
        refine ⟨fun t => ?_, sentTo_append_of_ne hother a⟩
        simp only [Function.update_apply]
        split
        · next ht => exact ⟨nofun, fun heq => absurd (ht.symm.trans heq) hne⟩
        · exact h t

/-- The report it has waited for. -/
theorem Waits.reported (h : d.Waits resp ticket) (a : A) :
    (∀ t, (d.step (.reported ticket a)).waiting t ≠ some resp) ∧
      (d.step (.reported ticket a)).sentTo resp = d.sentTo resp ++ [a] := by
  have hwaits : d.waiting ticket = some resp := (h ticket).mpr rfl
  have hstep : d.step (.reported ticket a) =
      ⟨Function.update d.waiting ticket none, d.sent ++ [(resp, a)]⟩ := by
    simp only [Desk.step, hwaits]
  rw [hstep]
  refine ⟨fun t ht => ?_, sentTo_append_self a⟩
  simp only [Function.update_apply] at ht
  split at ht
  · cases ht
  · next hne => exact hne ((h t).mp ht)

theorem firstReport_of_ne {e : DeskEvent I A} (he : ∀ a, e ≠ .reported ticket a) :
    firstReport ticket (e :: events) = firstReport ticket events := by
  cases e with
  | reported ticket' a =>
      have hne : ticket' ≠ ticket := fun heq => he a (heq ▸ rfl)
      exact if_neg hne
  | _ => rfl

/-- A responder that waits is sent the first report on its ticket. -/
theorem run_of_waits (h : d.Waits resp ticket)
    (hasked : ∀ e ∈ events, e.resp ≠ some resp)
    (hopens : ∀ e ∈ events, e.opens ≠ some ticket) :
    (d.run events).sentTo resp =
        d.sentTo resp ++ (firstReport ticket events).toList ∧
      ∀ t, (d.run events).waiting t = some resp ↔
        t = ticket ∧ firstReport ticket events = none := by
  induction events generalizing d with
  | nil => exact ⟨(List.append_nil _).symm, fun t => (h t).trans (and_iff_left rfl).symm⟩
  | cons e rest ih =>
      have hrest : ∀ e' ∈ rest, e'.resp ≠ some resp :=
        fun e' he' => hasked e' (List.mem_cons_of_mem _ he')
      have hopens' : ∀ e' ∈ rest, e'.opens ≠ some ticket :=
        fun e' he' => hopens e' (List.mem_cons_of_mem _ he')
      by_cases hreport : ∃ a, e = .reported ticket a
      · obtain ⟨a, rfl⟩ := hreport
        obtain ⟨hgone, hsent⟩ := h.reported a
        obtain ⟨hrun, hsame⟩ := run_of_idle hgone hrest
        have hfirst : firstReport ticket (.reported ticket a :: rest) = some a :=
          if_pos rfl
        rw [hfirst]
        refine ⟨hsame.trans hsent, fun t => ⟨fun ht => absurd ht (hrun t), ?_⟩⟩
        rintro ⟨-, hnone⟩
        cases hnone
      · push Not at hreport
        obtain ⟨hwaits, hsame⟩ := h.step (hasked e List.mem_cons_self)
          (hopens e List.mem_cons_self) hreport
        rw [firstReport_of_ne hreport, ← hsame]
        exact ih hwaits hrest hopens'

/-- The reply to a command, by what happens after it. -/
def replyTo (after : List (DeskEvent I A)) : DeskEvent I A → Option A
  | .answered _ a => some a
  | .opened _ ticket => firstReport ticket after
  | .reported _ _ => none

/-- Responders and tickets are used once. -/
structure Orderly (events : List (DeskEvent I A)) : Prop where
  responders : (events.filterMap DeskEvent.resp).Nodup
  tickets : (events.filterMap DeskEvent.opens).Nodup

omit [DecidableEq I] in
theorem not_mem_of_nodup {B : Type} {f : DeskEvent I A → Option B}
    {before after : List (DeskEvent I A)} {e : DeskEvent I A} {b : B}
    (h : ((before ++ e :: after).filterMap f).Nodup) (he : f e = some b) :
    (∀ e' ∈ before, f e' ≠ some b) ∧ ∀ e' ∈ after, f e' ≠ some b := by
  rw [List.filterMap_append, List.filterMap_cons_some he,
    List.nodup_middle, List.nodup_cons] at h
  constructor
  · intro e' he' hb
    exact h.1 (List.mem_append_left _ (List.mem_filterMap.mpr ⟨e', he', hb⟩))
  · intro e' he' hb
    exact h.1 (List.mem_append_right _ (List.mem_filterMap.mpr ⟨e', he', hb⟩))

/-- Every command is sent its reply and nothing else, and waits for it until
then. -/
theorem run_reply {before after : List (DeskEvent I A)} {e : DeskEvent I A}
    (h : Orderly (before ++ e :: after)) (he : e.resp = some resp) :
    (empty.run (before ++ e :: after)).sentTo resp = (replyTo after e).toList ∧
      ∀ t, (empty.run (before ++ e :: after)).waiting t = some resp ↔
        e.opens = some t ∧ replyTo after e = none := by
  obtain ⟨hbefore, hafter⟩ := not_mem_of_nodup h.responders he
  obtain ⟨hidle, hnothing⟩ := run_of_idle (d := (empty : Desk I A)) nofun hbefore
  have hrun : (empty : Desk I A).run (before ++ e :: after) =
      ((empty.run before).step e).run after := by
    rw [run, List.foldl_append]
    rfl
  rw [hrun]
  cases e with
  | answered resp' a =>
      cases he
      obtain ⟨hidle', hsent⟩ := run_of_idle
        (d := (empty.run before).step (.answered resp a)) hidle hafter
      refine ⟨hsent.trans ?_, fun t => ⟨fun ht => absurd ht (hidle' t), nofun⟩⟩
      rw [step, sentTo_append_self, hnothing]
      rfl
  | opened resp' ticket =>
      cases he
      obtain ⟨-, hopens⟩ := not_mem_of_nodup h.tickets
        (show (DeskEvent.opened resp ticket : DeskEvent I A).opens = some ticket from rfl)
      have hopened : ((empty.run before).step (.opened resp ticket)).Waits resp
          ticket := by
        intro t
        simp only [step, Function.update_apply]
        split
        · next ht => exact iff_of_true rfl ht
        · next ht => exact iff_of_false (hidle t) ht
      obtain ⟨hsent, hwaits⟩ := run_of_waits hopened hafter hopens
      refine ⟨hsent.trans ?_, fun t => ?_⟩
      · change (empty.run before).sentTo resp ++ _ = _
        rw [hnothing]
        rfl
      · rw [hwaits t]
        exact and_congr_left' ⟨fun h => congrArg some h.symm, fun h => by cases h; rfl⟩
  | reported ticket a => cases he

end Desk

end Connexa
