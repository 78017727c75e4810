import Connexa.Autorelay.Counters
import Connexa.Autorelay.Listeners
import Connexa.Autorelay.Selection

/-!
# The eviction that is under way

`pending_eviction` names a listener whose removal was queued to make room for a static
relay.  It is set only where it is empty and emptied only together with the reservation,
so it neither outlives the reservation nor is replaced by another one.
-/

namespace Connexa.Autorelay

open HashMap

/-! ## What a change does to the eviction -/

/-- The removal of the listener was queued after the one request that opened it. -/
def RemovalQueued (id : ListenerId) (history : List Record) : Prop :=
  ∃ before reads b after,
    history = before ++ .queued (.removeListener id) reads b :: after ∧
    (listensOf id before).length = 1 ∧ listensOf id after = []

theorem RemovalQueued.append {id : ListenerId} {history new : List Record}
    (h : RemovalQueued id history) (hnew : listensOf id new = []) :
    RemovalQueued id (history ++ new) := by
  obtain ⟨before, reads, b, after, rfl, hbefore, hafter⟩ := h
  refine ⟨before, reads, b, after ++ new, ?_, hbefore, ?_⟩
  · rw [List.append_assoc, List.cons_append]
  · rw [listensOf_append, hafter, hnew, List.append_nil]

theorem removeReservation_pendingEviction (id : ListenerId) (w : World) :
    ((removeReservation id w).2.pendingEviction = w.pendingEviction ∧
      ∀ j ∈ w.reservations, w.pendingEviction = some j →
        j ∈ (removeReservation id w).2.reservations) ∨
    w.pendingEviction = some id ∧ (removeReservation id w).2.pendingEviction = none := by
  by_cases hpending : w.pendingEviction = some id
  · exact Or.inr ⟨hpending, if_pos hpending⟩
  · refine Or.inl ⟨if_neg hpending, fun j hmem hj => AList.mem_erase.mpr ⟨?_, hmem⟩⟩
    rintro rfl
    exact hpending hj

/-- The eviction is kept with its reservation, it begins, or it ends with a report on
its listener. -/
theorem Act.pendingEviction_cases {c : Clock} {i : Input} {w w' : World}
    (h : Act c i w w') :
    (w'.pendingEviction = w.pendingEviction ∧
      ∀ id ∈ w.reservations, w.pendingEviction = some id → id ∈ w'.reservations) ∨
    (∃ id ∈ w.reservations, w.pendingEviction = none ∧ w'.pendingEviction = some id ∧
      w'.reservations = w.reservations ∧
        ∃ reads b, w'.history = w.history ++ [.queued (.removeListener id) reads b]) ∨
    ∃ id, i.Disables id ∧ w.pendingEviction = some id ∧ w'.pendingEviction = none := by
  cases h with
  | evict id hevictable hnone =>
      obtain ⟨r, hr, -⟩ := evictable_eq_some hevictable
      exact Or.inr (Or.inl ⟨id, mem_of_lookup hr, hnone, rfl, rfl, _, _, rfl⟩)
  | failReservation id _ _ hi =>
      rcases removeReservation_pendingEviction id w with ⟨hsame, hkept⟩ |
        ⟨hpending, hended⟩
      · exact Or.inl ⟨hsame, hkept⟩
      · exact Or.inr (Or.inr ⟨id, hi, hpending, hended⟩)
  | removeReservation id hi =>
      rcases removeReservation_pendingEviction id w with hkept | ⟨hpending, hended⟩
      · exact Or.inl hkept
      · exact Or.inr (Or.inr ⟨id, hi, hpending, hended⟩)
  | reserve => exact Or.inl ⟨rfl, fun id hmem _ => (AList.mem_insert _).mpr (Or.inr hmem)⟩
  | activate =>
      exact Or.inl ⟨rfl, fun id hmem _ => (AList.mem_insert _).mpr (Or.inr hmem)⟩
  | _ => exact Or.inl ⟨rfl, fun id hmem _ => hmem⟩

theorem Input.Disables.unique {i : Input} {id id' : ListenerId} (h : i.Disables id)
    (h' : i.Disables id') : id = id' := by
  rcases h with h | ⟨_, h⟩ <;> rcases h' with h' | ⟨_, h'⟩ <;>
    cases h.symm.trans h' <;> rfl

/-- A report on a listener that is not external leaves the external ones alone. -/
theorem Act.externalReservations_eq {c : Clock} {i : Input} {w w' : World}
    (h : Act c i w w') {id : ListenerId} (hi : i.Disables id)
    (hnone : id ∉ w.externalReservations) :
    w'.externalReservations = w.externalReservations := by
  cases h with
  | addExternal _ _ _ hevent =>
      rcases hi with hi | ⟨_, hi⟩ <;> cases hevent.symm.trans hi
  | removeExternal id' _ hi' hlookup =>
      obtain rfl := hi.unique hi'
      exact absurd (mem_of_lookup hlookup) hnone
  | _ => rfl

theorem Acts.externalReservations_eq {c : Clock} {i : Input} {w w' : World}
    (h : Acts c i w w') {id : ListenerId} (hi : i.Disables id)
    (hnone : id ∉ w.externalReservations) :
    w'.externalReservations = w.externalReservations := by
  induction h with
  | refl => rfl
  | tail _ hact ih =>
      rw [← ih] at hnone ⊢
      exact hact.externalReservations_eq hi hnone

/-! ## The eviction over a run -/

structure EvictionInv (w : World) : Prop where
  reservations : ReservationInv w
  externalIssued : ∀ id, id ∈ w.externalReservations → id < w.nextListener
  disjoint : ∀ id, id ∈ w.externalReservations → id ∉ w.reservations
  pending : ∀ id, w.pendingEviction = some id →
    id ∈ w.reservations ∧ RemovalQueued id w.history

theorem EvictionInv.act {c : Clock} {i : Input} {w w' : World} (h : EvictionInv w)
    (hcontract : Contract.issued w i) (hact : Act c i w w') : EvictionInv w' where
  reservations := h.reservations.act hact
  externalIssued := hact.externalIssued hcontract h.externalIssued
  disjoint := hact.disjoint hcontract h.externalIssued h.disjoint
  pending := by
    intro id hid
    rcases hact.pendingEviction_cases with ⟨hsame, hkept⟩ |
      ⟨id', hmem, -, hnew, hreservations, reads, b, hqueued⟩ | ⟨_, -, -, hended⟩
    · rw [hsame] at hid
      obtain ⟨hmem, hremoval⟩ := h.pending id hid
      refine ⟨hkept id hmem hid, ?_⟩
      rcases hact.history_eq with heq | ⟨r, -, heq⟩
      · rwa [heq]
      · rw [heq]
        refine hremoval.append ?_
        -- a request would be for a listener that has not been handed out
        rcases hact.listensOf_eq_or id with hlistens | ⟨hfresh, -⟩
        · rw [heq, listensOf_append] at hlistens
          exact List.append_right_eq_self.mp hlistens
        · exact absurd hfresh (h.reservations.issued id hmem).ne
    · obtain rfl := Option.some_inj.mp (hnew.symm.trans hid)
      obtain ⟨r, hr⟩ := mem_iff_exists_lookup.mp hmem
      obtain ⟨full, -, hrequested⟩ := h.reservations.requested id' r hr
      refine ⟨by rwa [hreservations], w.history, reads, b, [], hqueued, ?_, rfl⟩
      rw [hrequested, List.length_singleton]
    · rw [hended] at hid
      cases hid

theorem Contract.issued.act {c : Clock} {i j : Input} {w w' : World}
    (h : Contract.issued w i) (hact : Act c j w w') : Contract.issued w' i :=
  fun id hid => lt_of_lt_of_le (h id hid) hact.nextListener_le

theorem EvictionInv.acts {c : Clock} {i : Input} {w w' : World} (h : EvictionInv w)
    (hcontract : Contract.issued w i) (hacts : Acts c i w w') : EvictionInv w' := by
  suffices hboth : EvictionInv w' ∧ Contract.issued w' i from hboth.1
  induction hacts with
  | refl => exact ⟨h, hcontract⟩
  | tail _ hact ih => exact ⟨ih.1.act ih.2 hact, ih.2.act hact⟩

theorem EvictionInv.record {w : World} (h : EvictionInv w) (i : Input) :
    EvictionInv (w.record (.input i)) where
  reservations := h.reservations.record i
  externalIssued := h.externalIssued
  disjoint := h.disjoint
  pending := fun id hid => ⟨(h.pending id hid).1, (h.pending id hid).2.append rfl⟩

theorem EvictionInv.shuffle {w w' : World} (h : EvictionInv w)
    (hshuffle : Shuffled w w') :
    EvictionInv w' where
  reservations := h.reservations.shuffle hshuffle
  externalIssued := by
    intro id hid
    rw [mem_of_sameEntries hshuffle.externalReservations] at hid
    rw [hshuffle.nextListener_eq]
    exact h.externalIssued id hid
  disjoint := by
    intro id hid
    rw [mem_of_sameEntries hshuffle.externalReservations] at hid
    rw [mem_of_sameEntries hshuffle.reservations]
    exact h.disjoint id hid
  pending := by
    intro id hid
    rw [hshuffle.pendingEviction_eq] at hid
    rw [mem_of_sameEntries hshuffle.reservations, hshuffle.history_eq]
    exact h.pending id hid

theorem Reachable.evictionInv {c : Clock} {config : Config} {w : World}
    (h : Reachable c config .issued w) : EvictionInv w := by
  refine h.of_calls (P := EvictionInv) ?_ ?_ ?_ fun w w' hw hshuffle =>
    hw.shuffle hshuffle
  · intro reads nextListener nextConnection
    refine ⟨ReservationInv.fresh config reads nextListener nextConnection, ?_, ?_, ?_⟩
    · exact fun id hid => absurd hid (AList.notMem_empty id)
    · exact fun id hid => absurd hid (AList.notMem_empty id)
    · exact fun id hid => by cases hid
  · intro peerId address w hw
    exact (addStaticRelay_ensures c peerId address w).mono fun w' hacts =>
      hw.acts (fun id hid => by cases hid) hacts
  · intro i w w' _ hw hcontract hstep
    obtain ⟨u, himplied, hown⟩ := (serve_acts c i _).of_eq_ok hstep
    have hu :=
      (hw.record i).acts (i := .setStatus none) (fun id hid => by cases hid) himplied
    refine hu.acts ?_ hown
    exact fun id hid => lt_of_lt_of_le (hcontract id hid) himplied.nextListener_le

/-! ## Until the listener is reported -/

/-- A run has led from `w` to the state, the middle of a call included, without a report
that the listener failed or closed. -/
inductive Unreported (c : Clock) (id : ListenerId) (w : World) : World → Prop where
  | refl : Unreported c id w w
  | call {u v : World} {i : Input} (hu : Unreported c id w u) (hi : ¬i.Disables id)
      (h : step c i u = .ok v) : Unreported c id w v
  | during {u v v' : World} {i : Input} (hu : Unreported c id w u) (hi : ¬i.Disables id)
      (himplied : Acts c (.setStatus none) (u.record (.input i)) v)
        (hown : Acts c i v v') :
      Unreported c id w v'
  | shuffle {u v : World} (hu : Unreported c id w u) (h : Shuffled u v) :
      Unreported c id w v

theorem Acts.pendingEviction_eq {c : Clock} {i : Input} {w w' : World} (h : Acts c i w w')
    {id : ListenerId} (hi : ¬i.Disables id) (hid : w.pendingEviction = some id) :
    w'.pendingEviction = some id := by
  induction h with
  | refl => exact hid
  | tail _ hact ih =>
      rcases hact.pendingEviction_cases with ⟨hsame, -⟩ | ⟨_, -, hnone, -⟩ |
        ⟨id', hi', hpending, -⟩
      · exact hsame.trans ih
      · cases ih.symm.trans hnone
      · obtain rfl := Option.some_inj.mp (ih.symm.trans hpending)
        exact absurd hi' hi

theorem Unreported.pendingEviction_eq {c : Clock} {id : ListenerId} {w u : World}
    (h : Unreported c id w u) (hid : w.pendingEviction = some id) :
    u.pendingEviction = some id := by
  have hstatus : ¬(Input.setStatus none).Disables id := by
    simp [Input.Disables, Input.event?]
  induction h with
  | refl => exact hid
  | call _ hi h ih =>
      obtain ⟨v, himplied, hown⟩ := (serve_acts c _ _).of_eq_ok h
      exact hown.pendingEviction_eq hi (himplied.pendingEviction_eq hstatus ih)
  | during _ hi himplied hown ih =>
      exact hown.pendingEviction_eq hi (himplied.pendingEviction_eq hstatus ih)
  | shuffle _ h ih =>
      rw [h.pendingEviction_eq]
      exact ih

/-- A report on a listener of the behaviour takes its reservation. -/
theorem EvictionInv.own_report {c : Clock} {i : Input} {id : ListenerId} {w w' : World}
    (h : EvictionInv w) (hi : i.Disables id) (hmem : id ∈ w.reservations)
    (hstep : step c i w = .ok w') :
    id ∉ w'.reservations ∧ w'.externalReservations = w.externalReservations := by
  obtain ⟨r, hr⟩ := mem_iff_exists_lookup.mp hmem
  have hexternal : id ∉ w.externalReservations := fun hid => h.disjoint id hid hmem
  obtain ⟨event, failed, hevent, hdisable⟩ : ∃ event failed, i.event? = some event ∧
      ∀ u, dispatchSwarmEvent c event u = disableReservation c id failed u := by
    rcases hi with hi | ⟨failed, hi⟩
    · exact ⟨_, true, hi, fun _ => rfl⟩
    · exact ⟨_, failed, hi, fun _ => rfl⟩
  obtain ⟨addresses, change, rfl⟩ := Input.eq_swarm hevent
  obtain ⟨u, himplied, hdispatch⟩ := step_swarm_cases hstep
  have hstart : Undisturbed id r w (w.record (.input (.swarm event addresses change))) :=
    ⟨h.reservations.issued, hr, rfl, rfl, rfl⟩
  have hu := hstart.acts himplied
  rw [← hu.external] at hexternal ⊢
  constructor
  · rw [hdisable] at hdispatch
    exact ((disableReservation_gone c id failed
      (hu.issued id (mem_of_lookup hu.reservation))
      fun hid => absurd hid hexternal).of_eq_ok hdispatch).2
  · exact ((dispatchSwarmEvent_ensures c rfl u).of_eq_ok
      hdispatch).externalReservations_eq
      hi hexternal

/-- A pending eviction belongs to a reservation and its removal was queued; until the
listener is reported no eviction is queued; and own and external listeners are kept
apart, so that a report on an own one takes its reservation and no external one. -/
theorem eviction_bookkeeping {c : Clock} {config : Config} {w : World}
    (h : Reachable c config .issued w) :
    (∀ id, w.pendingEviction = some id →
      id ∈ w.reservations ∧ RemovalQueued id w.history ∧
        ∀ u, Unreported c id w u → u.pendingEviction = some id ∧
          ∀ needed, makeRoomForStaticRelays needed u = u) ∧
    (∀ id ∈ w.reservations, id ∉ w.externalReservations) ∧
    ∀ i id w', i.Disables id → id ∈ w.reservations → step c i w = .ok w' →
      id ∉ w'.reservations ∧ w'.externalReservations = w.externalReservations := by
  have hinv := h.evictionInv
  refine ⟨?_, fun id hmem hid => hinv.disjoint id hid hmem,
    fun i id w' hi hmem hstep => hinv.own_report hi hmem hstep⟩
  intro id hid
  obtain ⟨hmem, hremoval⟩ := hinv.pending id hid
  refine ⟨hmem, hremoval, fun u hu => ?_⟩
  have hpending := hu.pendingEviction_eq hid
  refine ⟨hpending, fun needed => ?_⟩
  unfold makeRoomForStaticRelays
  rw [hpending]
  exact if_pos (Or.inr rfl)

/-- The only reservation has to give way to the static relay `8`. -/
def staticRelayConnects : List Input :=
  relayConnects 7 0 ++ .addStaticRelay 8 [.tcp 4001] :: relayConnects 8 1

theorem eviction_bookkeeping_staticRelayConnects :
    ∃ w, Reachable steadyClock Config.single .issued w ∧ w.pendingEviction = some 0 ∧
      0 ∈ w.reservations ∧ RemovalQueued 0 w.history ∧ 0 ∉ w.externalReservations := by
  obtain ⟨w, hw, hpending⟩ := exists_reachable_of_runNew
    (c := steadyClock) (f := fun w => w.pendingEviction) (a := some 0)
    (fun i _ w => issued_of_namesIssued i w)
    (show (runNew steadyClock Config.single namesIssued staticRelayConnects).map _ = _ by
      rfl)
  obtain ⟨heviction, hapart, -⟩ := eviction_bookkeeping hw
  obtain ⟨hmem, hremoval, -⟩ := heviction 0 hpending
  exact ⟨w, hw, hpending, hmem, hremoval, hapart 0 hmem⟩

end Connexa.Autorelay
