import Connexa.Autorelay.Reservations

/-!
# The listeners behind the reservations

A listener opened by the behaviour stays in the reservation map until it is
reported closed, also after its removal was requested.  So the map holds
exactly the open listeners, as long as none of them reports an error: an error
drops the entry while the listener stays open.
-/

namespace Connexa.Autorelay

open HashMap

/-- The listeners reported closed. -/
def closedListeners (history : List Record) : List ListenerId :=
  history.filterMap fun
    | .input (.swarm (.listenerClosed id _) _ _) => some id
    | _ => none

/-- The listeners whose removal was queued. -/
def removedListeners (history : List Record) : List ListenerId :=
  history.filterMap fun
    | .queued (.removeListener id) _ _ => some id
    | _ => none

/-- The behaviour opened the listener, and it was not reported closed. -/
def StillOpen (history : List Record) (id : ListenerId) : Prop :=
  listensOf id history ≠ [] ∧ id ∉ closedListeners history

/-- The listener that the event of the input names. -/
def Input.listener? (i : Input) : Option ListenerId :=
  match i with
  | .swarm (.newListenAddr id _) _ _ => some id
  | .swarm (.listenerError id) _ _ => some id
  | .swarm (.listenerClosed id _) _ _ => some id
  | _ => none

/-- Events name listeners that were handed out. -/
def Contract.issued : Contract := fun w i =>
  ∀ id, i.listener? = some id → id < w.nextListener

/-- Moreover no listener of the behaviour reports an error. -/
def Contract.noErrors : Contract := fun w i =>
  Contract.issued w i ∧
    ∀ id, i.event? = some (.listenerError id) → listensOf id w.history = []

theorem closedListeners_append (l l' : List Record) :
    closedListeners (l ++ l') = closedListeners l ++ closedListeners l' :=
  List.filterMap_append

theorem mem_closedListeners {history : List Record} {id : ListenerId} :
    id ∈ closedListeners history ↔ ∃ i reasonIsErr,
      Record.input i ∈ history ∧
        i.event? = some (.listenerClosed id reasonIsErr) := by
  unfold closedListeners
  rw [List.mem_filterMap]
  constructor
  · rintro ⟨r, hr, hid⟩
    split at hid
    · next reasonIsErr _ _ =>
      cases hid
      exact ⟨_, reasonIsErr, hr, rfl⟩
    · cases hid
  · rintro ⟨i, reasonIsErr, hi, hevent⟩
    refine ⟨_, hi, ?_⟩
    obtain ⟨addresses, change, rfl⟩ := Input.eq_swarm hevent
    rfl

theorem Act.mem_closedListeners {c : Clock} {i : Input} {w w' : World}
    (h : Act c i w w') {id : ListenerId} :
    id ∈ closedListeners w'.history ↔ id ∈ closedListeners w.history := by
  rw [Autorelay.mem_closedListeners, Autorelay.mem_closedListeners]
  constructor
  · rintro ⟨j, reasonIsErr, hj, hevent⟩
    exact ⟨j, reasonIsErr, h.input_mem hj, hevent⟩
  · rintro ⟨j, reasonIsErr, hj, hevent⟩
    exact ⟨j, reasonIsErr, h.mem_history hj, hevent⟩

/-- A request opens the next listener, and the reservation is tracked. -/
theorem Act.listensOf_eq_or {c : Clock} {i : Input} {w w' : World}
    (h : Act c i w w') (id : ListenerId) :
    listensOf id w'.history = listensOf id w.history ∨
      id = w.nextListener ∧ id ∈ w'.reservations := by
  cases h with
  | reserve peerId connectionId info full _ _ _ _ _ _ _ =>
      by_cases hid : w.nextListener = id
      · exact Or.inr ⟨hid.symm, (AList.mem_insert _).mpr (Or.inl hid.symm)⟩
      · left
        simp only [openReservation, World.queue, listensOf_append,
          listensOf_listenOn]
        rw [if_neg hid, List.append_nil]
  | _ =>
      left
      first
      | rfl
      | exact (listensOf_append _ _ _).trans (List.append_nil _)

theorem Act.nextListener_le {c : Clock} {i : Input} {w w' : World}
    (h : Act c i w w') : w.nextListener ≤ w'.nextListener := by
  cases h <;>
    first
    | exact le_refl _
    | exact Nat.le_add_right _ _

theorem Acts.nextListener_le {c : Clock} {i : Input} {w w' : World}
    (h : Acts c i w w') : w.nextListener ≤ w'.nextListener := by
  induction h with
  | refl => exact le_refl _
  | tail _ hact ih => exact ih.trans hact.nextListener_le

/-- A change of the reservations either adds the next listener or drops one
that the input reports as failed or closed. -/
theorem Act.reservations_cases {c : Clock} {i : Input} {w w' : World}
    (h : Act c i w w') :
    (∀ id, id ∈ w'.reservations ↔ id ∈ w.reservations) ∨
    (w.nextListener < w'.nextListener ∧
      ∀ id, id ∈ w'.reservations ↔
        id = w.nextListener ∨ id ∈ w.reservations) ∨
    ∃ dropped, i.Disables dropped ∧
      w.externalReservations.lookup dropped = none ∧
      ∀ id, id ∈ w'.reservations ↔ id ≠ dropped ∧ id ∈ w.reservations := by
  cases h with
  | reserve peerId connectionId info full _ _ _ _ _ _ _ =>
      exact Or.inr (Or.inl ⟨Nat.lt_succ_self _, fun id => AList.mem_insert _⟩)
  | failReservation dropped _ _ hi hexternal _ _ =>
      exact Or.inr (Or.inr ⟨dropped, hi, hexternal, fun id => AList.mem_erase⟩)
  | removeReservation dropped hi hexternal =>
      exact Or.inr (Or.inr ⟨dropped, hi, hexternal, fun id => AList.mem_erase⟩)
  | activate id _ reservation _ _ hlookup _ =>
      refine Or.inl fun id' => (AList.mem_insert _).trans ?_
      constructor
      · rintro (rfl | h)
        · exact mem_of_lookup hlookup
        · exact h
      · exact Or.inr
  | _ => exact Or.inl fun id => Iff.rfl

/-! ## The map knows every open listener -/

structure ListenerInv (w : World) : Prop where
  reservations : ReservationInv w
  externalIssued : ∀ id, id ∈ w.externalReservations → id < w.nextListener
  disjoint : ∀ id, id ∈ w.externalReservations → id ∉ w.reservations
  closedIssued : ∀ id, id ∈ closedListeners w.history → id < w.nextListener
  tracked : ∀ id, StillOpen w.history id → id ∈ w.reservations

/-- The promise about the input still holds while it is served. -/
theorem Contract.noErrors.act {c : Clock} {i j : Input} {w w' : World}
    (h : Contract.noErrors w i) (hact : Act c j w w') :
    Contract.noErrors w' i := by
  refine ⟨fun id hid => lt_of_lt_of_le (h.1 id hid) hact.nextListener_le, ?_⟩
  intro id hid
  have hissued : id < w.nextListener := by
    apply h.1 id
    obtain ⟨addresses, change, rfl⟩ := Input.eq_swarm hid
    rfl
  rcases hact.listensOf_eq_or id with heq | ⟨heq, -⟩
  · rw [heq]
    exact h.2 id hid
  · exact absurd heq hissued.ne

theorem Contract.noErrors.acts {c : Clock} {i j : Input} {w w' : World}
    (h : Contract.noErrors w i) (hacts : Acts c j w w') :
    Contract.noErrors w' i := by
  induction hacts with
  | refl => exact h
  | tail _ hact ih => exact ih.act hact

theorem Contract.noErrors.record {i : Input} {w : World}
    (h : Contract.noErrors w i) :
    Contract.noErrors (w.record (.input i)) i := by
  refine ⟨h.1, fun id hid => ?_⟩
  simp only [World.record, listensOf_append, listensOf_input, List.append_nil]
  exact h.2 id hid

theorem noErrors_setStatus (w : World) (status : Option Status) :
    Contract.noErrors w (.setStatus status) :=
  ⟨(fun _ h => by cases h), fun _ h => by cases h⟩

theorem noErrors_addStaticRelay (w : World) (p : PeerId) (a : Multiaddr) :
    Contract.noErrors w (.addStaticRelay p a) :=
  ⟨(fun _ h => by cases h), fun _ h => by cases h⟩

theorem Act.mem_externalReservations {c : Clock} {i : Input} {w w' : World}
    (h : Act c i w w') {id : ListenerId} (hid : id ∈ w'.externalReservations) :
    id ∈ w.externalReservations ∨
      i.listener? = some id ∧ id ∉ w.reservations := by
  cases h with
  | addExternal id' addr q hevent _ hown _ =>
      rcases (AList.mem_insert _).mp hid with rfl | hid
      · right
        refine ⟨?_, AList.lookup_eq_none.mp hown⟩
        obtain ⟨addresses, change, rfl⟩ := Input.eq_swarm hevent
        rfl
      · exact Or.inl hid
  | removeExternal id' q _ _ => exact Or.inl (AList.mem_erase.mp hid).2
  | _ => exact Or.inl hid

theorem Act.externalIssued {c : Clock} {i : Input} {w w' : World} (h : Act c i w w')
    (hcontract : Contract.issued w i)
    (hw : ∀ id, id ∈ w.externalReservations → id < w.nextListener) :
    ∀ id, id ∈ w'.externalReservations → id < w'.nextListener := by
  intro id hid
  rcases h.mem_externalReservations hid with hid | ⟨hid, -⟩
  · exact lt_of_lt_of_le (hw id hid) h.nextListener_le
  · exact lt_of_lt_of_le (hcontract id hid) h.nextListener_le

/-- An external listener has been handed out, so no reservation is opened under its
id. -/
theorem Act.disjoint {c : Clock} {i : Input} {w w' : World} (h : Act c i w w')
    (hcontract : Contract.issued w i)
    (hissued : ∀ id, id ∈ w.externalReservations → id < w.nextListener)
    (hw : ∀ id, id ∈ w.externalReservations → id ∉ w.reservations) :
    ∀ id, id ∈ w'.externalReservations → id ∉ w'.reservations := by
  intro id hid hmem
  have hissued : id < w.nextListener := by
    rcases h.mem_externalReservations hid with hid | ⟨hid, -⟩
    · exact hissued id hid
    · exact hcontract id hid
  have hold : id ∉ w.reservations := by
    rcases h.mem_externalReservations hid with hid | ⟨-, hid⟩
    · exact hw id hid
    · exact hid
  rcases h.reservations_cases with hsame | ⟨-, hadd⟩ | ⟨_, -, -, hdrop⟩
  · exact hold ((hsame id).mp hmem)
  · rcases (hadd id).mp hmem with heq | hmem
    · exact absurd heq hissued.ne
    · exact hold hmem
  · exact hold ((hdrop id).mp hmem).2

theorem ListenerInv.act {c : Clock} {i : Input} {w w' : World}
    (h : ListenerInv w) (hi : InCharge i w) (hcontract : Contract.noErrors w i)
    (hact : Act c i w w') : ListenerInv w' where
  reservations := h.reservations.act hact
  externalIssued := hact.externalIssued hcontract.1 h.externalIssued
  disjoint := hact.disjoint hcontract.1 h.externalIssued h.disjoint
  closedIssued := by
    intro id hid
    exact lt_of_lt_of_le (h.closedIssued id (hact.mem_closedListeners.mp hid))
      hact.nextListener_le
  tracked := by
    rintro id ⟨hopened, hclosed⟩
    rw [hact.mem_closedListeners] at hclosed
    rcases hact.listensOf_eq_or id with heq | ⟨-, hmem⟩
    · rw [heq] at hopened
      have hold := h.tracked id ⟨hopened, hclosed⟩
      rcases hact.reservations_cases with
        hsame | ⟨-, hadd⟩ | ⟨dropped, hdis, -, hdrop⟩
      · exact (hsame id).mpr hold
      · exact (hadd id).mpr (Or.inr hold)
      · refine (hdrop id).mpr ⟨?_, hold⟩
        rintro rfl
        rcases hdis with herror | ⟨reasonIsErr, hclose⟩
        · exact hopened (hcontract.2 id herror)
        · refine hclosed (mem_closedListeners.mpr ⟨i, reasonIsErr, ?_, hclose⟩)
          rcases hi with ⟨_, rfl⟩ | ⟨_, _, rfl⟩ | hi
          · cases hclose
          · cases hclose
          · exact hi.mem_history
    · exact hmem

theorem ListenerInv.acts {c : Clock} {i : Input} {w w' : World}
    (h : ListenerInv w) (hi : InCharge i w) (hcontract : Contract.noErrors w i)
    (hacts : Acts c i w w') : ListenerInv w' := by
  refine (hacts.invariant
    (P := fun w => ListenerInv w ∧ Contract.noErrors w i) ?_ hi
    ⟨h, hcontract⟩).1.1
  intro v v' hi hv hact
  exact ⟨hv.1.act hi hv.2 hact, hv.2.act hact⟩

theorem ListenerInv.record {w : World} (h : ListenerInv w) {i : Input}
    (hcontract : Contract.noErrors w i) :
    ListenerInv (w.record (.input i)) where
  reservations := h.reservations.record i
  externalIssued := h.externalIssued
  disjoint := h.disjoint
  closedIssued := by
    intro id hid
    obtain ⟨j, reasonIsErr, hj, hevent⟩ := mem_closedListeners.mp hid
    rcases List.mem_append.mp hj with hj | hj
    · exact h.closedIssued id
        (mem_closedListeners.mpr ⟨j, reasonIsErr, hj, hevent⟩)
    · cases List.mem_singleton.mp hj
      apply hcontract.1 id
      obtain ⟨addresses, change, rfl⟩ := Input.eq_swarm hevent
      rfl
  tracked := by
    rintro id ⟨hopened, hclosed⟩
    apply h.tracked id
    simp only [World.record, listensOf_append, listensOf_input,
      List.append_nil] at hopened
    refine ⟨hopened, fun hid => hclosed ?_⟩
    simp only [World.record, closedListeners_append]
    exact List.mem_append_left _ hid

/-! ## Closed listeners leave the map -/

/-- The listener was handed out and has no reservation. -/
def Gone (id : ListenerId) (w : World) : Prop :=
  id < w.nextListener ∧ id ∉ w.reservations

theorem Gone.act {c : Clock} {i : Input} {id : ListenerId} {w w' : World}
    (h : Gone id w) (hact : Act c i w w') : Gone id w' := by
  refine ⟨lt_of_lt_of_le h.1 hact.nextListener_le, fun hmem => ?_⟩
  rcases hact.reservations_cases with hsame | ⟨-, hadd⟩ | ⟨_, -, -, hdrop⟩
  · exact h.2 ((hsame id).mp hmem)
  · rcases (hadd id).mp hmem with heq | hmem
    · exact absurd heq h.1.ne
    · exact h.2 hmem
  · exact h.2 ((hdrop id).mp hmem).2

theorem Gone.acts {c : Clock} {i : Input} {id : ListenerId} {w w' : World}
    (h : Gone id w) (hacts : Acts c i w w') : Gone id w' := by
  induction hacts with
  | refl => exact h
  | tail _ hact ih => exact ih.act hact

theorem chargeFailure_gone
    (c : Clock) (failed : Bool) (peerId : PeerId) {id : ListenerId} {w : World}
    (h : Gone id w) : Ensures (chargeFailure c failed peerId w) (Gone id) := by
  unfold chargeFailure
  split
  · rcases startReservationCooldown_cases c peerId w with
      hstart | ⟨deadline, -, hstart⟩
    · rw [hstart]
      rfl
    · rw [hstart]
      exact h
  · exact h

theorem disableReservation_gone
    (c : Clock) (id : ListenerId) (failed : Bool) {w : World}
    (hissued : id < w.nextListener)
    (hdisjoint : id ∈ w.externalReservations → id ∉ w.reservations) :
    Ensures (disableReservation c id failed w) (Gone id) := by
  have hremoved : Gone id (removeReservation id w).2 :=
    ⟨hissued, fun hmem => (AList.mem_erase.mp hmem).1 rfl⟩
  unfold disableReservation
  split
  · next peerId hexternal =>
    have hgone : Gone id { w with
        externalReservations := w.externalReservations.erase id } :=
      ⟨hissued, hdisjoint (mem_of_lookup hexternal)⟩
    exact (meetReservationTarget_ensures c .removeAllReservations _).mono
      fun _ hacts => hgone.acts hacts
  · split
    · next v hfound =>
      rw [hfound] at hremoved
      exact hremoved
    · next reservation v hfound =>
      rw [hfound] at hremoved
      apply (chargeFailure_gone c failed reservation.peerId hremoved).bind
      intro u hu
      exact ((meetReservationTarget_ensures c .removeAllReservations _).after
        (recordPreviousRelay_acts c _ _ _ u)).mono fun _ hacts => hu.acts hacts

theorem serve_closed_gone
    {c : Clock} {i : Input} {id : ListenerId} {reasonIsErr : Bool}
    {w w' : World} (hevent : i.event? = some (.listenerClosed id reasonIsErr))
    (hinv : ListenerInv w) (hcontract : Contract.noErrors w i)
    (hserve : serve c i w = .ok w') : Gone id w' := by
  cases i with
  | swarm event addresses change =>
      cases hevent
      have hcall : Ensures (onExternalAddresses c addresses change w) fun u =>
          id < u.nextListener ∧ ListenerInv u := by
        apply (onExternalAddresses_ensures c addresses change w).mono
        intro u hacts
        exact ⟨lt_of_lt_of_le (hcontract.1 id rfl) hacts.nextListener_le,
          hinv.acts (Or.inl ⟨none, rfl⟩) (noErrors_setStatus w none) hacts⟩
      refine (hcall.bind fun u hu => ?_).of_eq_ok hserve
      exact disableReservation_gone c id reasonIsErr hu.1 (hu.2.disjoint id)
  | _ => cases hevent

/-! ## Every reachable state -/

/-- Between two calls, no tracked reservation has a closed listener. -/
def ClosedGone (w : World) : Prop :=
  ∀ id, id ∈ w.reservations → id ∉ closedListeners w.history

theorem ClosedGone.step {c : Clock} {i : Input} {w w' : World}
    (h : ClosedGone w) (hinv : ListenerInv w)
    (hcontract : Contract.noErrors w i) (hstep : step c i w = .ok w') :
    ClosedGone w' := by
  have hrecord := hinv.record hcontract
  obtain ⟨u, himplied, hown⟩ := (serve_acts c i _).of_eq_ok hstep
  intro id hmem hclosed
  obtain ⟨j, reasonIsErr, hj, hevent⟩ := mem_closedListeners.mp hclosed
  have hj : Record.input j ∈ (w.record (.input i)).history :=
    himplied.input_mem (hown.input_mem hj)
  rcases List.mem_append.mp hj with hj | hj
  · have hold : id ∈ closedListeners w.history :=
      mem_closedListeners.mpr ⟨j, reasonIsErr, hj, hevent⟩
    have hgone : Gone id (w.record (.input i)) :=
      ⟨hinv.closedIssued id hold, fun hmem => h id hmem hold⟩
    exact ((hgone.acts himplied).acts hown).2 hmem
  · cases List.mem_singleton.mp hj
    exact (serve_closed_gone hevent hrecord hcontract.record hstep).2 hmem

theorem ListenerInv.fresh (config : Config) (reads : ℕ)
    (nextListener : ListenerId) (nextConnection : ConnectionId) :
    ListenerInv (World.fresh config reads nextListener nextConnection) where
  reservations := ReservationInv.fresh config reads nextListener nextConnection
  externalIssued := fun id h => absurd h (AList.notMem_empty id)
  disjoint := fun id h => absurd h (AList.notMem_empty id)
  closedIssued := fun id h => by cases h
  tracked := fun id h => absurd rfl h.1

theorem ListenerInv.shuffle {w w' : World} (h : ListenerInv w)
    (hshuffle : Shuffled w w') : ListenerInv w' where
  reservations := h.reservations.shuffle hshuffle
  externalIssued := by
    intro id hid
    rw [mem_of_sameEntries hshuffle.externalReservations] at hid
    rw [hshuffle.nextListener_eq]
    exact h.externalIssued id hid
  disjoint := by
    intro id hid
    rw [mem_of_sameEntries hshuffle.externalReservations] at hid
    rw [mem_of_sameEntries hshuffle.reservations]
    exact h.disjoint id hid
  closedIssued := by
    intro id hid
    rw [hshuffle.history_eq] at hid
    rw [hshuffle.nextListener_eq]
    exact h.closedIssued id hid
  tracked := by
    intro id hid
    rw [hshuffle.history_eq] at hid
    rw [mem_of_sameEntries hshuffle.reservations]
    exact h.tracked id hid

theorem Reachable.listenerInv {c : Clock} {config : Config} {w : World}
    (h : Reachable c config .noErrors w) : ListenerInv w ∧ ClosedGone w := by
  refine h.of_calls (P := fun w => ListenerInv w ∧ ClosedGone w) ?_ ?_ ?_ ?_
  · intro reads nextListener nextConnection
    exact ⟨ListenerInv.fresh config reads nextListener nextConnection,
      fun id hid => absurd hid (AList.notMem_empty id)⟩
  · intro peerId address w hw
    apply (addStaticRelay_ensures c peerId address w).mono
    intro w' hacts
    refine ⟨hw.1.acts (Or.inr (Or.inl ⟨_, _, rfl⟩))
      (noErrors_addStaticRelay w peerId address) hacts, ?_⟩
    intro id hmem hclosed
    obtain ⟨j, reasonIsErr, hj, hevent⟩ := mem_closedListeners.mp hclosed
    have hold : id ∈ closedListeners w.history :=
      mem_closedListeners.mpr ⟨j, reasonIsErr, hacts.input_mem hj, hevent⟩
    have hgone : Gone id w :=
      ⟨hw.1.closedIssued id hold, fun hmem => hw.2 id hmem hold⟩
    exact (hgone.acts hacts).2 hmem
  · intro i w w' _ hw hcontract hstep
    refine ⟨?_, hw.2.step hw.1 hcontract hstep⟩
    obtain ⟨u, himplied, hown⟩ := (serve_acts c i _).of_eq_ok hstep
    have hu := (hw.1.record hcontract).acts (Or.inl ⟨none, rfl⟩)
      (noErrors_setStatus _ none) himplied
    exact hu.acts ((inCharge_record i w).implied himplied)
      (hcontract.record.acts himplied) hown
  · intro w w' hw hshuffle
    refine ⟨hw.1.shuffle hshuffle, ?_⟩
    intro id hmem
    rw [mem_of_sameEntries hshuffle.reservations] at hmem
    rw [hshuffle.history_eq]
    exact hw.2 id hmem

/-- While no listener of the behaviour reports an error, the listeners it
opened that were not reported closed are exactly the keys of the reservation
map, so at most the configured maximum of them is open. -/
theorem open_listeners_are_tracked {c : Clock} {config : Config} {w : World}
    (h : Reachable c config .noErrors w) :
    (∀ id, id ∈ w.reservations ↔ StillOpen w.history id) ∧
    ∀ s : Finset ListenerId, (∀ id ∈ s, StillOpen w.history id) →
      s.card ≤ config.maxReservations.get := by
  obtain ⟨hinv, hclosed⟩ := h.listenerInv
  have hiff : ∀ id, id ∈ w.reservations ↔ StillOpen w.history id := by
    intro id
    refine ⟨fun hmem => ⟨?_, hclosed id hmem⟩, hinv.tracked id⟩
    obtain ⟨r, hr⟩ := mem_iff_exists_lookup.mp hmem
    obtain ⟨full, -, hlistens⟩ := hinv.reservations.requested id r hr
    rw [hlistens]
    exact List.cons_ne_nil _ _
  refine ⟨hiff, fun s hs => ?_⟩
  calc
    s.card ≤ w.reservations.keys.toFinset.card := by
      apply Finset.card_le_card
      intro id hid
      exact List.mem_toFinset.mpr (AList.mem_keys.mp ((hiff id).mpr (hs id hid)))
    _ ≤ w.reservations.keys.length := List.toFinset_card_le _
    _ = len w.reservations := by simp [len, AList.keys, List.keys]
    _ ≤ w.config.maxReservations.get := hinv.reservations.bounded
    _ = config.maxReservations.get := by rw [h.maxReservations_eq]

theorem open_listeners_are_tracked_relayConnects :
    ∃ w, Reachable steadyClock Config.default .noErrors w ∧
      StillOpen w.history 0 ∧ StillOpen w.history 1 ∧
      0 ∈ w.reservations ∧ 1 ∈ w.reservations := by
  obtain ⟨w, hw, hrun⟩ := exists_reachable_of_runNew
    (c := steadyClock) (f := fun w => w.reservations.keys) (a := [1, 0])
    (show ∀ i ∈ relayConnects 7 0 ++ relayConnects 8 1, ∀ w,
        anyInput w i = true → Contract.noErrors w i by
      intro i hi w _
      simp only [relayConnects, List.cons_append, List.nil_append,
        List.mem_cons, List.not_mem_nil, or_false] at hi
      rcases hi with rfl | rfl | rfl | rfl <;>
        exact ⟨(fun _ h => by cases h), fun _ h => by cases h⟩)
    (show (runNew steadyClock Config.default anyInput
      (relayConnects 7 0 ++ relayConnects 8 1)).map _ = _ by decide)
  have hmem : ∀ id, id ∈ w.reservations ↔ id ∈ [1, 0] := by
    intro id
    rw [AList.mem_keys, hrun]
  have hiff := (open_listeners_are_tracked hw).1
  exact ⟨w, hw, (hiff 0).mp ((hmem 0).mpr (by decide)),
    (hiff 1).mp ((hmem 1).mpr (by decide)), (hmem 0).mpr (by decide),
    (hmem 1).mpr (by decide)⟩

/-! ## What the map does not show -/

/-- The listener was opened, not reported closed, and no removal was queued. -/
def Untouched (history : List Record) (id : ListenerId) : Prop :=
  StillOpen history id ∧ id ∉ removedListeners history

/-- One reservation at a time. -/
def Config.single : Config :=
  { Config.default with maxReservations := ⟨1, by decide, by decide⟩ }

/-- Check that a listener named by the input was handed out. -/
def namesIssued (w : World) (i : Input) : Bool :=
  match i.listener? with
  | some id => decide (id < w.nextListener)
  | none => true

theorem issued_of_namesIssued (i : Input) (w : World)
    (h : namesIssued w i = true) : Contract.issued w i := by
  intro id hid
  unfold namesIssued at h
  rw [hid] at h
  exact of_decide_eq_true h

/-- The key stays after the removal was queued, and an error report leaves a
listener open that the map no longer knows, so that two listeners are open
where one reservation is allowed. -/
theorem untouched_listeners_not_tracked :
    (∃ w, Reachable steadyClock Config.single .issued w ∧
      0 ∈ w.reservations ∧ ¬Untouched w.history 0) ∧
    ∃ w, Reachable steadyClock Config.single .issued w ∧
      Untouched w.history 0 ∧ Untouched w.history 1 ∧ 0 ∉ w.reservations ∧
      Config.single.maxReservations.get = 1 := by
  constructor
  · obtain ⟨w, hw, hrun⟩ := exists_reachable_of_runNew
      (c := steadyClock)
      (f := fun w => (w.reservations.keys, removedListeners w.history))
      (a := ([0], [0]))
      (fun i _ w => issued_of_namesIssued i w)
      (show (runNew steadyClock Config.single namesIssued
        (relayConnects 7 0 ++ [.removeAllReservations])).map _ = _ by decide)
    simp only [Prod.mk.injEq] at hrun
    refine ⟨w, hw, ?_, fun h => h.2 ?_⟩
    · rw [AList.mem_keys, hrun.1]
      decide
    · rw [hrun.2]
      decide
  · obtain ⟨w, hw, hrun⟩ := exists_reachable_of_runNew
      (c := steadyClock)
      (f := fun w => (w.reservations.keys, (listensOf 0 w.history).length,
        (listensOf 1 w.history).length, closedListeners w.history,
        removedListeners w.history))
      (a := ([1], 1, 1, [], []))
      (fun i _ w => issued_of_namesIssued i w)
      (show (runNew steadyClock Config.single namesIssued
        (relayConnects 7 0 ++ relayConnects 8 1 ++
          [.swarm (.listenerError 0) [] false])).map _ = _ by decide)
    simp only [Prod.mk.injEq] at hrun
    obtain ⟨hkeys, hlistens₀, hlistens₁, hclosed, hremoved⟩ := hrun
    have huntouched : ∀ id, (listensOf id w.history).length = 1 →
        Untouched w.history id := by
      intro id hid
      refine ⟨⟨fun hnil => ?_, ?_⟩, ?_⟩
      · rw [hnil] at hid
        cases hid
      · rw [hclosed]
        exact List.not_mem_nil
      · rw [hremoved]
        exact List.not_mem_nil
    refine ⟨w, hw, huntouched 0 hlistens₀, huntouched 1 hlistens₁, ?_, rfl⟩
    rw [AList.mem_keys, hkeys]
    decide

end Connexa.Autorelay
