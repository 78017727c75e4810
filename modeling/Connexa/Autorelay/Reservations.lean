import Connexa.Autorelay.Runs

/-!
# The reservation map

In every reachable state the tracked reservations stay within the configured
maximum, belong to distinct peers, and each was requested by exactly one
`ListenOn`.
-/

namespace Connexa.Autorelay

open HashMap

/-- The `ListenOn` requests queued with this listener id. -/
def listensOf (id : ListenerId) (history : List Record) : List ListenOpts :=
  history.filterMap fun
    | .queued (.listenOn opts) _ _ =>
        if opts.listenerId = id then some opts else none
    | _ => none

@[simp] theorem listensOf_append (id : ListenerId) (l l' : List Record) :
    listensOf id (l ++ l') = listensOf id l ++ listensOf id l' :=
  List.filterMap_append

@[simp] theorem listensOf_input (id : ListenerId) (i : Input) :
    listensOf id [.input i] = [] := rfl

@[simp] theorem listensOf_reservationFailed
    (id : ListenerId) (p : PeerId) (t : Instant) (d : Duration) :
    listensOf id [.reservationFailed p t d] = [] := rfl

theorem listensOf_listenOn (id : ListenerId) (opts : ListenOpts) (n : ℕ)
    (b : Behaviour) :
    listensOf id [.queued (.listenOn opts) n b] =
      if opts.listenerId = id then [opts] else [] := by
  by_cases h : opts.listenerId = id <;> simp [listensOf, h]

/-- The request that opens a reservation. -/
def Requested (history : List Record) (id : ListenerId) (r : Reservation) :
    Prop :=
  ∃ full, r.address.withP2p r.peerId = .ok full ∧
    listensOf id history = [⟨id, full ++ [.p2pCircuit]⟩]

/-- The invariant of the reservation map. -/
structure ReservationInv (w : World) : Prop where
  issued : ListenersIssued w
  distinct : ∀ id id' r r', w.reservations.lookup id = some r →
    w.reservations.lookup id' = some r' → r.peerId = r'.peerId → id = id'
  bounded : len w.reservations ≤ w.config.maxReservations.get
  requested : ∀ id r, w.reservations.lookup id = some r →
    Requested w.history id r
  unused : ∀ id, w.nextListener ≤ id → listensOf id w.history = []

/-- Reservations may go or change their status. -/
theorem ReservationInv.of_sub {w w' : World} (h : ReservationInv w)
    (hsub : ∀ id r', w'.reservations.lookup id = some r' →
      ∃ r, w.reservations.lookup id = some r ∧ r.peerId = r'.peerId ∧
        r.address = r'.address)
    (hlen : len w'.reservations ≤ len w.reservations)
    (hconfig : w'.config = w.config)
    (hnext : w.nextListener ≤ w'.nextListener)
    (hlistens : ∀ id, listensOf id w'.history = listensOf id w.history) :
    ReservationInv w' where
  issued := by
    intro id hid
    obtain ⟨r', hr'⟩ := mem_iff_exists_lookup.mp hid
    obtain ⟨r, hr, -⟩ := hsub id r' hr'
    exact lt_of_lt_of_le (h.issued id (mem_of_lookup hr)) hnext
  distinct := by
    intro id id' r r' hr hr' hpeer
    obtain ⟨s, hs, hsr, -⟩ := hsub id r hr
    obtain ⟨s', hs', hsr', -⟩ := hsub id' r' hr'
    exact h.distinct id id' s s' hs hs' (by rw [hsr, hsr', hpeer])
  bounded := by
    rw [hconfig]
    exact hlen.trans h.bounded
  requested := by
    intro id r' hr'
    obtain ⟨r, hr, hpeer, haddress⟩ := hsub id r' hr'
    unfold Requested
    rw [hlistens, ← hpeer, ← haddress]
    exact h.requested id r hr
  unused := by
    intro id hid
    rw [hlistens]
    exact h.unused id (hnext.trans hid)

/-- The reservations are the same and no further listener was requested. -/
theorem ReservationInv.of_same {w w' : World} (h : ReservationInv w)
    (hsame : w'.reservations = w.reservations)
    (hconfig : w'.config = w.config)
    (hnext : w.nextListener ≤ w'.nextListener)
    (hlistens : ∀ id, listensOf id w'.history = listensOf id w.history) :
    ReservationInv w' := by
  refine h.of_sub ?_ (by rw [hsame]) hconfig hnext hlistens
  intro id r hr
  rw [hsame] at hr
  exact ⟨r, hr, rfl, rfl⟩

/-- Distinct peers: there are at most as many reservations as covered peers. -/
theorem len_reservations_le_card_coveredPeers {w : World}
    (h : ReservationInv w) :
    len w.reservations ≤ (coveredPeers w.toBehaviour).card := by
  have hnodup : ((values w.reservations).map Reservation.peerId).Nodup := by
    rw [values, List.map_map]
    apply List.Nodup.map_on ?_ (List.Nodup.of_map _ w.reservations.nodupKeys)
    rintro ⟨id, r⟩ hr ⟨id', r'⟩ hr' hpeer
    have hid := h.distinct id id' r r' (lookup_eq_some_iff.mpr hr)
      (lookup_eq_some_iff.mpr hr') hpeer
    subst hid
    have heq : some r = some r' := by
      rw [← lookup_eq_some_iff.mpr hr, ← lookup_eq_some_iff.mpr hr']
    cases heq
    rfl
  calc
    len w.reservations =
        ((values w.reservations).map Reservation.peerId).length := by
      simp [len, values]
    _ = ((values w.reservations).map Reservation.peerId).toFinset.card :=
      (List.toFinset_card_of_nodup hnodup).symm
    _ ≤ (coveredPeers w.toBehaviour).card := by
      apply Finset.card_le_card
      intro p hp
      rw [coveredPeers, List.mem_toFinset]
      exact List.mem_append_left _ (List.mem_toFinset.mp hp)

theorem ReservationInv.openReservation {w : World} (h : ReservationInv w)
    {peerId : PeerId} (connectionId : ConnectionId) {info : Connection}
    {full : Multiaddr} (hfree : peerId ∉ coveredPeers w.toBehaviour)
    (hroom : (coveredPeers w.toBehaviour).card <
      w.config.maxReservations.get)
    (hfull : info.addr.withP2p peerId = .ok full) :
    ReservationInv (openReservation w peerId connectionId info full) where
  issued := listenersIssued_openReservation h.issued _ _ _ _
  distinct := by
    intro id id' r r' hr hr' hpeer
    have hnew : ∀ j s, w.reservations.lookup j = some s → s.peerId ≠ peerId :=
      fun j s hs heq => hfree (mem_coveredPeers.mpr (Or.inl ⟨j, s, hs, heq⟩))
    simp only [Autorelay.openReservation, World.queue, HashMap.lookup_insert]
      at hr hr'
    split at hr <;> split at hr'
    · next hid hid' => rw [hid, hid']
    · cases hr
      exact absurd hpeer.symm (hnew _ _ hr')
    · cases hr'
      exact absurd hpeer (hnew _ _ hr)
    · exact h.distinct id id' r r' hr hr' hpeer
  bounded := by
    have hfresh : w.nextListener ∉ w.reservations :=
      fun hmem => lt_irrefl _ (h.issued _ hmem)
    have hlen := len_reservations_le_card_coveredPeers h
    change len (w.reservations.insert w.nextListener _) ≤
      w.config.maxReservations.get
    rw [len_insert_of_notMem hfresh]
    omega
  requested := by
    intro id r hr
    simp only [Autorelay.openReservation, World.queue, HashMap.lookup_insert]
      at hr
    unfold Requested
    simp only [Autorelay.openReservation, World.queue, listensOf_append,
      listensOf_listenOn]
    split at hr
    · next hid =>
      cases hr
      subst hid
      refine ⟨full, hfull, ?_⟩
      rw [h.unused _ le_rfl, if_pos rfl]
      rfl
    · next hid =>
      rw [if_neg (Ne.symm hid), List.append_nil]
      exact h.requested id r hr
  unused := by
    intro id hid
    have hlt : w.nextListener < id := hid
    simp only [Autorelay.openReservation, World.queue, listensOf_append,
      listensOf_listenOn]
    rw [h.unused id hlt.le, if_neg hlt.ne]
    rfl

theorem ReservationInv.erase {w : World} (h : ReservationInv w)
    (id : ListenerId) : ReservationInv (removeReservation id w).2 := by
  refine h.of_sub ?_ (len_erase_le _ _) rfl le_rfl fun _ => rfl
  intro j r hr
  exact ⟨r, (lookup_erase_some.mp hr).2, rfl, rfl⟩

theorem ReservationInv.act {c : Clock} {i : Input} {w w' : World}
    (h : ReservationInv w) (hact : Act c i w w') : ReservationInv w' := by
  cases hact with
  | reserve peerId connectionId info full _ hfree hroom _ _ _ hfull =>
      exact h.openReservation connectionId hfree hroom hfull
  | failReservation id reservation deadline hi hexternal hlookup hdeadline =>
      exact (h.erase id).of_same rfl rfl le_rfl
        fun j => by simp [cooledDown, World.record, World.tick]; rfl
  | removeReservation id => exact h.erase id
  | activate id addr reservation hi hrelayed hlookup hpending =>
      refine h.of_sub ?_ ?_ rfl le_rfl fun _ => rfl
      · intro j r hr
        simp only [clearFailure, HashMap.lookup_insert] at hr
        split at hr
        · next hj =>
          cases hr
          subst hj
          exact ⟨reservation, hlookup, rfl, rfl⟩
        · exact ⟨r, hr, rfl, rfl⟩
      · exact (len_insert_of_mem (mem_of_lookup hlookup) _).le
  | allocate listeners connections =>
      exact h.of_same rfl rfl (Nat.le_add_right _ _) fun _ => rfl
  | _ =>
      -- the remaining changes queue no `ListenOn`
      refine h.of_same rfl rfl le_rfl fun j => ?_
      first
      | rfl
      | exact (listensOf_append _ _ _).trans (List.append_nil _)

theorem ReservationInv.fresh
    (config : Config) (reads : ℕ) (nextListener : ListenerId)
    (nextConnection : ConnectionId) :
    ReservationInv (World.fresh config reads nextListener nextConnection) where
  issued := fun id hid => absurd hid (AList.notMem_empty id)
  distinct := fun id id' r r' hr => by
    simp [World.fresh, Behaviour.default] at hr
  bounded := Nat.zero_le _
  requested := fun id r hr => by simp [World.fresh, Behaviour.default] at hr
  unused := fun id _ => rfl

theorem ReservationInv.record {w : World} (h : ReservationInv w) (i : Input) :
    ReservationInv (w.record (.input i)) :=
  h.of_same rfl rfl le_rfl fun id => by simp [World.record]

theorem ReservationInv.shuffle {w w' : World} (h : ReservationInv w)
    (hshuffle : Shuffled w w') : ReservationInv w' := by
  refine h.of_sub ?_ (len_of_sameEntries hshuffle.reservations).le
    hshuffle.config_eq hshuffle.nextListener_eq.ge ?_
  · intro id r hr
    rw [lookup_of_sameEntries hshuffle.reservations] at hr
    exact ⟨r, hr, rfl, rfl⟩
  · intro id
    rw [hshuffle.history_eq]

theorem Reachable.reservationInv
    {c : Clock} {config : Config} {contract : Contract} {w : World}
    (h : Reachable c config contract w) : ReservationInv w := by
  exact h.of_acts (ReservationInv.fresh config)
    (fun i w hw _ => hw.record i) (fun i w w' _ hw hact => hw.act hact)
    fun w w' hw hshuffle => hw.shuffle hshuffle

theorem Reachable.maxReservations_eq
    {c : Clock} {config : Config} {contract : Contract} {w : World}
    (h : Reachable c config contract w) :
    w.config.maxReservations = config.maxReservations := by
  rw [h.config_eq]

theorem Ensures.ne_error {x : Except Panic World} {Q : World → Prop}
    (h : Ensures x Q) {e : Panic} (he : e ≠ .instantOverflow) :
    x ≠ .error e := by
  rintro rfl
  exact he h

/-- Creating the behaviour fails only where a deadline overflows. -/
theorem newWithConfig_ensures
    (c : Clock) (config : Config) (reads : ℕ) (nextListener : ListenerId)
    (nextConnection : ConnectionId) :
    Ensures (newWithConfig c config reads nextListener nextConnection)
      fun _ => True :=
  addStaticRelays_ensures
    (fun peerId address w _ =>
      (addStaticRelay_ensures c peerId address w).mono fun _ _ => trivial)
    _ trivial

/-- The reservations never exceed the maximum, belong to distinct peers and
were each requested by exactly one `ListenOn`; neither the `expect` nor the
debug assertion of `meet_reservation_target` fails, whatever comes in. -/
theorem reservations_within_maximum (c : Clock) (config : Config) :
    (∀ w, Reachable c config .none w →
      len w.reservations ≤ config.maxReservations.get ∧
      (∀ id id' r r', w.reservations.lookup id = some r →
        w.reservations.lookup id' = some r' → r.peerId = r'.peerId →
          id = id') ∧
      (∀ id r, w.reservations.lookup id = some r →
        Requested w.history id r) ∧
      ∀ i, step c i w ≠ .error .connectionNotPresent ∧
        step c i w ≠ .error .reservationTargetExceeded) ∧
    ∀ reads nextListener nextConnection,
      newWithConfig c config reads nextListener nextConnection ≠
        .error .connectionNotPresent ∧
      newWithConfig c config reads nextListener nextConnection ≠
        .error .reservationTargetExceeded := by
  constructor
  · intro w hw
    have hinv := hw.reservationInv
    refine ⟨?_, hinv.distinct, hinv.requested, ?_⟩
    · rw [← hw.maxReservations_eq]
      exact hinv.bounded
    · intro i
      have hserve := serve_acts c i (w.record (.input i))
      exact ⟨hserve.ne_error (by decide), hserve.ne_error (by decide)⟩
  · intro reads nextListener nextConnection
    have hnew :=
      newWithConfig_ensures c config reads nextListener nextConnection
    exact ⟨hnew.ne_error (by decide), hnew.ne_error (by decide)⟩

/-- A relay connects and turns out to support the HOP protocol. -/
def relayConnects (p : PeerId) (k : ConnectionId) : List Input :=
  [.swarm (.connectionEstablished p k (.dialer [.tcp 4001])) [] false,
    .handler p k .supported]

theorem reservations_within_maximum_relayConnects :
    ∃ w, Reachable steadyClock Config.default .none w ∧
      w.reservations.keys = [1, 0] ∧
      len w.reservations ≤ Config.default.maxReservations.get := by
  obtain ⟨w, hw, hkeys⟩ := exists_reachable_of_runNew
    (c := steadyClock) (f := fun w => w.reservations.keys) (a := [1, 0])
    (fun i _ w _ => trivial)
    (show (runNew steadyClock Config.default anyInput
      (relayConnects 7 0 ++ relayConnects 8 1 ++
        relayConnects 9 2)).map _ = _ by decide)
  exact ⟨w, hw, hkeys,
    ((reservations_within_maximum steadyClock Config.default).1 w hw).1⟩

end Connexa.Autorelay
