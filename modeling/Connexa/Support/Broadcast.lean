import Connexa.Support.Mpsc

/-!
# Broadcasting over bounded channels

A `Hub` keeps the senders of its listeners by topic, and now and then forgets those
whose channel is closed.  By `run_joined` a listener is alone with its channel: what
others do, and what others are told, makes no difference to it.
-/

namespace Connexa

open Mpsc

variable {K E : Type}

/-- What happens to one listener. -/
inductive Hearing (E : Type) where
  | told (e : E)
  | read
  | dropped
  deriving DecidableEq

/-- The event that the listener is told. -/
def Hearing.event : Hearing E → Option E
  | .told e => some e
  | _ => none

namespace Mpsc.Reader

def hear (r : Reader E) : Hearing E → Reader E
  | .told e => r.atSender fun ch => (ch.trySend e).2
  | .read => r.read
  | .dropped => r.drop

def hearAll (r : Reader E) (hearings : List (Hearing E)) : Reader E :=
  hearings.foldl hear r

/-- Whenever an event comes, fewer messages are unread than the channel holds. -/
def KeepsUp : Reader E → List (Hearing E) → Prop
  | _, [] => True
  | r, .told e :: rest =>
      r.channel.waiting.length ≤ r.channel.buffer ∧ KeepsUp (r.hear (.told e)) rest
  | r, .read :: rest => KeepsUp r.read rest
  | _, .dropped :: _ => False

variable {r : Reader E} {hearings : List (Hearing E)}

theorem isOpen_hear_of_closed (hopen : r.channel.isOpen = false) (h : Hearing E) :
    (r.hear h).channel.isOpen = false := by
  cases h with
  | told e => exact (Channel.isOpen_trySend e r.channel).trans hopen
  | read => exact r.isOpen_read.trans hopen
  | dropped => rfl

theorem hear_told_of_closed (hopen : r.channel.isOpen = false) (e : E) :
    r.hear (.told e) = r := by
  rw [hear, atSender, Channel.trySend_of_closed e hopen]

/-- One hearing adds at most its event. -/
theorem messages_hear_sublist (r : Reader E) (h : Hearing E) :
    (r.hear h).messages.Sublist (r.messages ++ h.event.toList) := by
  cases h with
  | told e =>
      rw [hear, atSender, messages, messages]
      rcases r.channel.trySend_cases e with heq | ⟨-, heq⟩
      · rw [heq]
        exact List.sublist_append_left _ _
      · rw [heq, ← List.append_assoc]
        exact List.Sublist.refl _
  | read =>
      rw [hear, r.messages_read]
      exact List.sublist_append_left _ _
  | dropped =>
      rw [hear, drop, messages, messages, List.append_assoc]
      exact (List.Sublist.refl _).append (List.nil_sublist _)

/-- A listener gets events that it was told, in order, and none twice. -/
theorem messages_hearAll_sublist (r : Reader E) (hearings : List (Hearing E)) :
    (r.hearAll hearings).messages.Sublist
      (r.messages ++ hearings.filterMap Hearing.event) := by
  induction hearings generalizing r with
  | nil => exact List.sublist_append_left _ _
  | cons h rest ih =>
      have hfirst : (h :: rest).filterMap Hearing.event =
          h.event.toList ++ rest.filterMap Hearing.event := by
        cases h with
        | _ => rfl
      rw [hfirst, ← List.append_assoc]
      exact (ih (r.hear h)).trans
        ((r.messages_hear_sublist h).append (List.Sublist.refl _))

/-- A listener that keeps up gets every event that it is told. -/
theorem messages_hearAll (hopen : r.channel.isOpen = true)
    (hkeeps : r.KeepsUp hearings) :
    (r.hearAll hearings).messages =
      r.messages ++ hearings.filterMap Hearing.event := by
  induction hearings generalizing r with
  | nil => exact (List.append_nil _).symm
  | cons h rest ih =>
      cases h with
      | told e =>
          have hopen' : (r.hear (.told e)).channel.isOpen = true :=
            (Channel.isOpen_trySend e r.channel).trans hopen
          have hfirst : (r.hear (.told e)).messages = r.messages ++ [e] := by
            rw [hear, atSender, messages, messages,
              Channel.trySend_of_room e hopen hkeeps.1, List.append_assoc]
          have hrest := ih hopen' hkeeps.2
          rw [hfirst, List.append_assoc] at hrest
          exact hrest
      | read =>
          have hrest := ih (r.isOpen_read.trans hopen) hkeeps
          rw [r.messages_read] at hrest
          exact hrest
      | dropped => exact hkeeps.elim

end Mpsc.Reader

/-! ## Hubs -/

/-- The senders by topic, and the listeners by number. -/
structure Hub (K E : Type) where
  senders : K → List ℕ
  readers : List (Reader E)

inductive HubEvent (K E : Type) where
  | joined (key : K) (buffer : ℕ)
  | told (key : K) (e : E)
  /-- The closed channels are forgotten. -/
  | swept
  | read (i : ℕ)
  | dropped (i : ℕ)

namespace Hub

def empty : Hub K E :=
  ⟨fun _ => [], []⟩

/-- The channel of the listener is open. -/
def isOpen (readers : List (Reader E)) (i : ℕ) : Bool :=
  readers[i]?.any fun r => r.channel.isOpen

/-- `try_send` to every sender of a list. -/
def tell (e : E) (senders : List ℕ) (readers : List (Reader E)) : List (Reader E) :=
  senders.foldl (fun readers i => readers.modify i fun r => r.hear (.told e)) readers

/-- What an event is to the listener on this topic. -/
def hearing [DecidableEq K] (key : K) (i : ℕ) : HubEvent K E → Option (Hearing E)
  | .told key' e => if key' = key then some (.told e) else none
  | .read j => if j = i then some .read else none
  | .dropped j => if j = i then some .dropped else none
  | _ => none

variable [DecidableEq K]

def step (hub : Hub K E) : HubEvent K E → Hub K E
  | .joined key buffer =>
      ⟨Function.update hub.senders key (hub.senders key ++ [hub.readers.length]),
        hub.readers ++ [Reader.new buffer]⟩
  | .told key e => { hub with readers := tell e (hub.senders key) hub.readers }
  | .swept =>
      { hub with senders := fun key => (hub.senders key).filter (isOpen hub.readers) }
  | .read i => { hub with readers := hub.readers.modify i Reader.read }
  | .dropped i => { hub with readers := hub.readers.modify i Reader.drop }

def run (hub : Hub K E) (events : List (HubEvent K E)) : Hub K E :=
  events.foldl step hub

variable {hub : Hub K E} {key : K} {i : ℕ} {r : Reader E}

/-! ## One listener -/

omit [DecidableEq K] in
theorem length_tell (e : E) (senders : List ℕ) (readers : List (Reader E)) :
    (tell e senders readers).length = readers.length := by
  induction senders generalizing readers with
  | nil => rfl
  | cons j rest ih => exact (ih _).trans (List.length_modify _ _ _)

/-- A listener is told the event as often as its sender is in the list. -/
theorem getElem?_tell (e : E) (senders : List ℕ) (readers : List (Reader E)) (i : ℕ) :
    (tell e senders readers)[i]? =
      readers[i]?.map (fun r => r.hear (.told e))^[senders.count i] := by
  induction senders generalizing readers with
  | nil => exact Option.map_id'.symm
  | cons j rest ih =>
      have hstep := ih (readers.modify j fun r => r.hear (.told e))
      refine hstep.trans ?_
      rw [List.getElem?_modify, List.count_cons]
      by_cases hj : j = i
      · cases readers[i]? with
        | _ => simp [hj]
      · cases readers[i]? with
        | _ => simp [hj]

/-- How often the sender of a listener is listed: an event does not change it, but
for closed channels, which may be forgotten. -/
theorem count_senders_step (hi : i < hub.readers.length) (event : HubEvent K E)
    (k : K) :
    ((hub.step event).senders k).count i = (hub.senders k).count i ∨
      isOpen hub.readers i = false ∧ ((hub.step event).senders k).count i = 0 := by
  cases event with
  | joined key' buffer =>
      refine Or.inl ?_
      simp only [step, Function.update_apply]
      split
      · next heq =>
        have hnew : [hub.readers.length].count i = 0 :=
          List.count_eq_zero_of_not_mem fun h =>
            Nat.ne_of_lt hi (List.mem_singleton.mp h)
        rw [List.count_append, hnew, heq]
        rfl
      · rfl
  | swept =>
      simp only [step]
      cases hopen : isOpen hub.readers i with
      | true => exact Or.inl (List.count_filter hopen)
      | false =>
          refine Or.inr ⟨rfl, List.count_eq_zero_of_not_mem fun h => ?_⟩
          rw [List.mem_filter, hopen] at h
          cases h.2
  | told key' e => exact Or.inl rfl
  | read j => exact Or.inl rfl
  | dropped j => exact Or.inl rfl

omit [DecidableEq K] in
/-- The senders of a hub are those of its listeners. -/
def Numbered (hub : Hub K E) : Prop :=
  ∀ k, ∀ j ∈ hub.senders k, j < hub.readers.length

theorem Numbered.step (h : hub.Numbered) (event : HubEvent K E) :
    (hub.step event).Numbered := by
  intro k j hj
  cases event with
  | joined key' buffer =>
      simp only [Hub.step, Function.update_apply, List.length_append] at hj ⊢
      split at hj
      · next heq =>
        rcases List.mem_append.mp hj with hj | hj
        · exact Nat.lt_succ_of_lt (h key' j hj)
        · exact List.mem_singleton.mp hj ▸ Nat.lt_succ_self _
      · exact Nat.lt_succ_of_lt (h k j hj)
  | told key' e => exact (length_tell e _ _).symm ▸ h k j hj
  | swept => exact h k j (List.mem_of_mem_filter hj)
  | read j' => exact (List.length_modify _ _ _).symm ▸ h k j hj
  | dropped j' => exact (List.length_modify _ _ _).symm ▸ h k j hj

theorem numbered_run (h : hub.Numbered) (events : List (HubEvent K E)) :
    (hub.run events).Numbered := by
  induction events generalizing hub with
  | nil => exact h
  | cons event rest ih => exact ih (h.step event)

/-- The listener is registered once and for its topic only, or it is closed and
forgotten. -/
structure Registered (key : K) (i : ℕ) (r : Reader E) (hub : Hub K E) : Prop where
  reader : hub.readers[i]? = some r
  others : ∀ k, k ≠ key → (hub.senders k).count i = 0
  own : (hub.senders key).count i = 1 ∨
    r.channel.isOpen = false ∧ (hub.senders key).count i = 0

/-- A new listener is registered for its topic. -/
theorem Numbered.registered (h : hub.Numbered) (key : K) (buffer : ℕ) :
    Registered key hub.readers.length (Reader.new buffer)
      (hub.step (.joined key buffer)) := by
  have hnew : ∀ k, (hub.senders k).count hub.readers.length = 0 :=
    fun k => List.count_eq_zero_of_not_mem fun hmem => Nat.lt_irrefl _ (h k _ hmem)
  refine ⟨List.getElem?_concat_length, fun k hk => ?_, Or.inl ?_⟩
  · simp only [Hub.step, Function.update_of_ne hk]
    exact hnew k
  · simp only [Hub.step, Function.update_self, List.count_append, hnew key,
      List.count_singleton_self]

/-- An event is to a registered listener what it is to its channel alone. -/
theorem Registered.step (h : Registered key i r hub) (event : HubEvent K E) :
    Registered key i (r.hearAll (hearing key i event).toList) (hub.step event) := by
  have hi : i < hub.readers.length := (List.getElem?_eq_some_iff.mp h.reader).1
  have hreader : (hub.step event).readers[i]? =
      some (r.hearAll (hearing key i event).toList) := by
    cases event with
    | joined key' buffer => exact (List.getElem?_append_left hi).trans h.reader
    | told key' e =>
        simp only [Hub.step, hearing, getElem?_tell, h.reader, Option.map_some]
        by_cases hkey : key' = key
        · rw [if_pos hkey, hkey]
          rcases h.own with hcount | ⟨hopen, hcount⟩
          · rw [hcount]
            rfl
          · rw [hcount]
            exact congrArg some (Reader.hear_told_of_closed hopen e).symm
        · rw [if_neg hkey, h.others key' hkey]
          rfl
    | swept => exact h.reader
    | read j =>
        simp only [Hub.step, hearing, List.getElem?_modify, h.reader]
        split <;> rfl
    | dropped j =>
        simp only [Hub.step, hearing, List.getElem?_modify, h.reader]
        split <;> rfl
  have hclosed : r.channel.isOpen = false →
      (r.hearAll (hearing key i event).toList).channel.isOpen = false := by
    intro hopen
    cases hearing key i event with
    | none => exact hopen
    | some heard => exact Reader.isOpen_hear_of_closed hopen heard
  refine ⟨hreader, fun k hk => ?_, ?_⟩
  · rcases count_senders_step hi event k with hcount | ⟨-, hcount⟩
    · exact hcount.trans (h.others k hk)
    · exact hcount
  · rcases count_senders_step hi event key with hcount | ⟨hopen, hcount⟩
    · rw [hcount]
      exact h.own.imp_right (And.imp_left hclosed)
    · rw [isOpen, h.reader] at hopen
      exact Or.inr ⟨hclosed hopen, hcount⟩

/-- What the events are to the listener on this topic. -/
def heard (key : K) (i : ℕ) (events : List (HubEvent K E)) : List (Hearing E) :=
  events.filterMap (hearing key i)

theorem Registered.run (h : Registered key i r hub) (events : List (HubEvent K E)) :
    Registered key i (r.hearAll (heard key i events)) (hub.run events) := by
  induction events generalizing hub r with
  | nil => exact h
  | cons event rest ih =>
      have hrest := ih (h.step event)
      have hheard : heard key i (event :: rest) =
          (hearing key i event).toList ++ heard key i rest := by
        rw [heard, List.filterMap_cons]
        cases hearing key i event with
        | _ => rfl
      rw [hheard, Reader.hearAll, List.foldl_append]
      exact hrest

/-- A listener gets what its channel gets from the events of its topic since it has
joined, whatever becomes of the others. -/
theorem run_joined (before after : List (HubEvent K E)) (key : K) (buffer : ℕ) :
    (empty.run (before ++ .joined key buffer :: after)).readers[
        (empty.run before).readers.length]? =
      some ((Reader.new buffer).hearAll
        (heard key (empty.run before).readers.length after)) := by
  have hnumbered : ((empty : Hub K E).run before).Numbered :=
    numbered_run (fun k j hj => absurd hj List.not_mem_nil) before
  have hrun : (empty : Hub K E).run (before ++ .joined key buffer :: after) =
      ((empty.run before).step (.joined key buffer)).run after := by
    rw [run, List.foldl_append]
    rfl
  rw [hrun]
  exact ((hnumbered.registered key buffer).run after).reader

end Hub

end Connexa
