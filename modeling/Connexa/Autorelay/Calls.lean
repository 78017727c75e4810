import Connexa.Autorelay.Target

/-!
# Every call is a sequence of elementary changes

`serve_acts` decomposes each call into the changes listed in `Act`.  The only
way a call can fail is an overflowing deadline.
-/

namespace Connexa.Autorelay

open HashMap

theorem meetReservationTarget_ensures (c : Clock) (i : Input) (w : World) :
    Ensures (meetReservationTarget c w) (Acts c i w) := by
  obtain ⟨w', hw', hacts⟩ := meetReservationTarget_acts c i w
  rw [hw']
  exact hacts

theorem meetReservationTargetIf_ensures
    (c : Clock) (i : Input) (condition : Bool) (w : World) :
    Ensures (meetReservationTargetIf c condition w) (Acts c i w) := by
  unfold meetReservationTargetIf
  split
  · exact meetReservationTarget_ensures c i w
  · exact Relation.ReflTransGen.refl

/-- Changes made before a call that only performs changes. -/
theorem Ensures.after {c : Clock} {i : Input} {w v : World}
    {x : Except Panic World} (h : Acts c i w v) (hx : Ensures x (Acts c i v)) :
    Ensures x (Acts c i w) :=
  hx.mono fun _ hacts => h.trans hacts

/-! ## Static relays -/

theorem staticDialInCooldown_eq (c : Clock) (peerId : PeerId) (w : World) :
    (staticDialInCooldown c peerId w).2 = w ∨
      (staticDialInCooldown c peerId w).2 = w.tick := by
  unfold staticDialInCooldown
  split
  · exact Or.inl rfl
  · exact Or.inr rfl

theorem staticDialInCooldown_acts
    (c : Clock) (i : Input) (peerId : PeerId) (w : World) :
    Acts c i w (staticDialInCooldown c peerId w).2 := by
  rcases staticDialInCooldown_eq c peerId w with h | h
  · rw [h]
  · rw [h]
    exact Acts.single (.tick w)

theorem staticDialInCooldown_behaviour
    (c : Clock) (peerId : PeerId) (w : World) :
    (staticDialInCooldown c peerId w).2.toBehaviour = w.toBehaviour := by
  rcases staticDialInCooldown_eq c peerId w with h | h <;> rw [h]
  rfl

theorem dialRested_of_not_cooling
    {c : Clock} {peerId : PeerId} {w : World}
    (h : (staticDialInCooldown c peerId w).1 = false) :
    DialRested c (staticDialInCooldown c peerId w).2 peerId := by
  unfold staticDialInCooldown at h ⊢
  split at h
  · next hnone =>
    intro deadline hdeadline
    rw [hnone] at hdeadline
    cases hdeadline
  · next deadline hsome =>
    intro other hother
    have heq : other = deadline := by
      have hlookup : w.staticDialCooldowns.lookup peerId = some other := hother
      rw [hsome] at hlookup
      exact (Option.some.inj hlookup).symm
    subst heq
    exact ⟨Nat.succ_pos _, by simpa [World.lastInstant, World.tick] using h⟩

theorem queueStaticDial_acts
    (c : Clock) {i : Input} {peerId : PeerId} (hi : i.Dials peerId)
    {addresses : List Multiaddr} {w : World}
    (hstatic : w.staticRelays.lookup peerId = some addresses) :
    Acts c i w (queueStaticDial c peerId addresses w).2 := by
  have hread := staticDialInCooldown_acts c i peerId w
  have hsame := staticDialInCooldown_behaviour c peerId w
  unfold queueStaticDial
  split
  · exact Relation.ReflTransGen.refl
  · next hguard =>
    push Not at hguard
    dsimp only
    split
    · exact hread
    · next hfree =>
      push Not at hfree
      refine hread.tail (.queueDial _ peerId addresses hi ?_ hguard.2.1 ?_ ?_
        hfree.2)
      · rw [hsame]
        exact hstatic
      · rw [hsame]
        exact Bool.eq_false_of_not_eq_true hguard.2.2
      · exact dialRested_of_not_cooling (Bool.eq_false_of_not_eq_true hfree.1)

theorem redialStaticRelay_acts
    (c : Clock) {i : Input} {peerId : PeerId} (hi : i.Dials peerId)
    (w : World) :
    Acts c i w (redialStaticRelay c peerId w) := by
  unfold redialStaticRelay
  split
  · next addresses hlookup => exact queueStaticDial_acts c hi hlookup
  · exact Relation.ReflTransGen.refl

theorem addStaticRelay_ensures
    (c : Clock) (peerId : PeerId) (address : Multiaddr) (w : World) :
    Ensures (Prod.snd <$> addStaticRelay c peerId address w)
      (Acts c (.addStaticRelay peerId address) w) := by
  unfold addStaticRelay
  split
  · exact Relation.ReflTransGen.refl
  · next hrelayed =>
    have hadd : Act c (.addStaticRelay peerId address) w _ :=
      .addStaticRelay w peerId address rfl
        (Bool.eq_false_of_not_eq_true hrelayed)
    have hregistered :
        (w.staticRelays.insert peerId
          (addressesWith w.toBehaviour peerId address)).lookup peerId =
          some (addressesWith w.toBehaviour peerId address) :=
      lookup_insert_self _ _ _
    have hdials : (Input.addStaticRelay peerId address).Dials peerId :=
      Or.inl ⟨address, rfl⟩
    have hqueue := queueStaticDial_acts c hdials
      (w := { w with
        staticRelays := w.staticRelays.insert peerId
          (addressesWith w.toBehaviour peerId address) }) hregistered
    dsimp only
    generalize queueStaticDial c peerId
      (addressesWith w.toBehaviour peerId address) _ = r at hqueue ⊢
    obtain ⟨queued, v⟩ := r
    have hmeet := (meetReservationTargetIf_ensures c
      (.addStaticRelay peerId address) (!queued) v).after
      (Relation.ReflTransGen.head hadd hqueue)
    change Ensures (Prod.snd <$> do
      let u ← meetReservationTargetIf c (!queued) v
      return (true, { u with waker := false })) _
    generalize meetReservationTargetIf c (!queued) v = x at hmeet ⊢
    cases x with
    | error e => exact hmeet
    | ok u => exact hmeet.tail (.setWaker u false)

/-! ## Failures and reservations -/

theorem recordPreviousRelay_acts
    (c : Clock) (i : Input) (peerId : PeerId) (address : Multiaddr)
    (w : World) : Acts c i w (recordPreviousRelay c peerId address w) := by
  unfold recordPreviousRelay
  dsimp only
  split
  · exact Relation.ReflTransGen.refl
  · exact (Acts.single (.setPreviousRelays w _)).tail (.tick _)

theorem startReservationCooldown_cases
    (c : Clock) (peerId : PeerId) (w : World) :
    startReservationCooldown c peerId w = .error .instantOverflow ∨
      ∃ deadline, (c.instant w.reads).checkedAdd
          (recordFailure peerId w).1 = some deadline ∧
        startReservationCooldown c peerId w =
          .ok (cooledDown c peerId deadline w) := by
  unfold startReservationCooldown
  dsimp only
  split
  · exact Or.inl rfl
  · next deadline hdeadline => exact Or.inr ⟨deadline, hdeadline, rfl⟩

theorem chargeFailure_ensures
    (c : Clock) {i : Input} {id : ListenerId} (hi : i.Disables id)
    (failed : Bool) {w : World} {reservation : Reservation}
    (hexternal : w.externalReservations.lookup id = none)
    (hlookup : w.reservations.lookup id = some reservation) :
    Ensures
      (chargeFailure c failed reservation.peerId (removeReservation id w).2)
      (Acts c i w) := by
  unfold chargeFailure
  split
  · rcases startReservationCooldown_cases c reservation.peerId
      (removeReservation id w).2 with h | ⟨deadline, hdeadline, h⟩
    · rw [h]
      rfl
    · rw [h]
      exact Acts.single (.failReservation w id reservation deadline hi
        hexternal hlookup hdeadline)
  · exact Acts.single (.removeReservation w id hi hexternal)

theorem disableReservation_ensures
    (c : Clock) {i : Input} {id : ListenerId} (hi : i.Disables id)
    (failed : Bool) (w : World) :
    Ensures (disableReservation c id failed w) (Acts c i w) := by
  unfold disableReservation
  split
  · next peerId hexternal =>
    exact (meetReservationTarget_ensures c i _).after
      (Acts.single (.removeExternal w id peerId hi hexternal))
  · next hexternal =>
    have hremove : Act c i w (removeReservation id w).2 :=
      .removeReservation w id hi hexternal
    split
    · next v hfound =>
      rw [hfound] at hremove
      exact Acts.single hremove
    · next reservation v hfound =>
      have hlookup : w.reservations.lookup id = some reservation :=
        congrArg Prod.fst hfound
      have hcharge := chargeFailure_ensures c hi failed hexternal hlookup
      rw [hfound] at hcharge
      apply hcharge.bind
      intro u hu
      exact (meetReservationTarget_ensures c i _).after
        (hu.trans (recordPreviousRelay_acts c i _ _ u))

theorem queueRemoveListeners_frame (ids : List ListenerId) (w : World) :
    ∃ events history, queueRemoveListeners ids w =
      { w with events := events, history := history } := by
  induction ids generalizing w with
  | nil => exact ⟨w.events, w.history, rfl⟩
  | cons id rest ih =>
      obtain ⟨events, history, h⟩ := ih (w.queue (.removeListener id))
      exact ⟨events, history, h⟩

theorem queueRemoveListeners_acts
    (c : Clock) (i : Input) {ids : List ListenerId} {w : World}
    (hids : ∀ id ∈ ids, id ∈ w.reservations) :
    Acts c i w (queueRemoveListeners ids w) := by
  induction ids generalizing w with
  | nil => exact Relation.ReflTransGen.refl
  | cons id rest ih =>
      refine Relation.ReflTransGen.head
        (.queueRemoveListener w id (hids id List.mem_cons_self)) ?_
      exact ih fun j hj => hids j (List.mem_cons_of_mem _ hj)

theorem removeAllReservations_acts (c : Clock) (i : Input) (w : World) :
    Acts c i w (removeAllReservations w) :=
  queueRemoveListeners_acts c i fun _ hid => AList.mem_keys.mpr hid

/-! ## Status and availability -/

theorem determineStatusFromExternalAddresses_ensures
    (c : Clock) (requested : Option Status) (w : World) :
    Ensures (determineStatusFromExternalAddresses c w)
      (Acts c (.setStatus requested) w) := by
  unfold determineStatusFromExternalAddresses
  dsimp only
  generalize (if (w.externalAddresses.any fun addr => !addr.isRelayed) = true
    then Status.disable else Status.enable) = status
  split
  · next hne =>
    have hchange := Acts.single (c := c) (i := .setStatus requested)
      (.changeStatus w status ⟨requested, rfl⟩ hne)
    cases status with
    | enable => exact (meetReservationTarget_ensures c _ _).after hchange
    | disable => exact hchange.trans (removeAllReservations_acts c _ _)
  · exact Relation.ReflTransGen.refl

theorem updateRelayAvailability_cases (w : World) :
    (hasHopPeer w.toBehaviour = w.relaysAvailable ∧
      updateRelayAvailability w = w) ∨
    ∃ available, hasHopPeer w.toBehaviour = available ∧
      w.relaysAvailable = !available ∧
      updateRelayAvailability w =
        { w with relaysAvailable := available }.queue
          (.generateEvent
            (if available then .relaysAvailable else .noRelaysAvailable)) := by
  unfold updateRelayAvailability
  cases hhop : hasHopPeer w.toBehaviour <;>
    cases hrel : w.relaysAvailable
  · exact Or.inl ⟨rfl, rfl⟩
  · exact Or.inr ⟨false, rfl, rfl, rfl⟩
  · exact Or.inr ⟨true, rfl, rfl, rfl⟩
  · exact Or.inl ⟨rfl, rfl⟩

theorem updateRelayAvailability_acts (c : Clock) (i : Input) (w : World) :
    Acts c i w (updateRelayAvailability w) := by
  rcases updateRelayAvailability_cases w with ⟨-, h⟩ | ⟨b, hnew, hold, h⟩
  · rw [h]
  · rw [h]
    exact Acts.single (.setRelaysAvailable w b hnew hold)

theorem applyStatus_ensures
    (c : Clock) (status : Option Status) (w : World) :
    Ensures (applyStatus c status w) (Acts c (.setStatus status) w) := by
  unfold applyStatus
  split
  · next status =>
    have hauto := Acts.single (c := c) (i := .setStatus (some status))
      (.setAuto w false ⟨_, rfl⟩)
    dsimp only
    split
    · next hne =>
      exact (meetReservationTargetIf_ensures c _ _ _).after
        (hauto.tail (.changeStatus _ status ⟨_, rfl⟩ (Ne.symm hne)))
    · exact hauto
  · exact (determineStatusFromExternalAddresses_ensures c _ _).after
      (Acts.single (.setAuto w true ⟨_, rfl⟩))

theorem setStatus_ensures
    (c : Clock) (status : Option Status) (w : World) :
    Ensures (setStatus c status w) (Acts c (.setStatus status) w) := by
  apply (applyStatus_ensures c status w).bind
  intro u hu
  exact hu.tail (.setWaker u false)

/-! ## Swarm events -/

theorem onConnectionEstablished_acts
    (c : Clock) {i : Input} {peerId : PeerId} {connectionId : ConnectionId}
    {endpoint : ConnectedPoint}
    (hi : i.event? =
      some (.connectionEstablished peerId connectionId endpoint))
    (w : World) :
    Acts c i w (onConnectionEstablished peerId connectionId endpoint w) := by
  have hinsert := Acts.single (c := c)
    (.insertConnection w peerId connectionId endpoint hi)
  unfold onConnectionEstablished
  dsimp only
  split
  · next hpending =>
    have hend := hinsert.tail
      (.endDial _ peerId connectionId (Or.inl ⟨endpoint, hi⟩) hpending)
    split
    · next hdirect => exact hend.tail (.clearDialCooldown _ peerId (Or.inl hdirect))
    · exact hend
  · split
    · next hdirect =>
      exact hinsert.tail (.clearDialCooldown _ peerId (Or.inl hdirect))
    · exact hinsert

theorem clearFailureIfGone_acts
    (c : Clock) {i : Input} {peerId : PeerId} {connectionId : ConnectionId}
    (hi : i.event? = some (.connectionClosed peerId connectionId))
    (w : World) : Acts c i w (clearFailureIfGone c peerId w) := by
  have hread := reservationInCooldown_acts c i peerId w
  unfold clearFailureIfGone
  split
  · exact Relation.ReflTransGen.refl
  · next hgone =>
    dsimp only
    split
    · exact hread
    · next hcooling =>
      refine hread.tail (.clearFailure _ peerId ⟨connectionId, hi⟩ ?_ ?_)
      · rw [reservationInCooldown_behaviour]
        exact Bool.eq_false_of_not_eq_true hgone
      · exact rested_of_not_cooling (Bool.eq_false_of_not_eq_true hcooling)

theorem recordClosedRelay_acts
    (c : Clock) (i : Input) (peerId : PeerId) (connection : Connection)
    (w : World) : Acts c i w (recordClosedRelay c peerId connection w) := by
  unfold recordClosedRelay
  split
  · split
    · exact recordPreviousRelay_acts c i _ _ w
    · exact Relation.ReflTransGen.refl
  · exact Relation.ReflTransGen.refl

theorem onConnectionClosed_acts
    (c : Clock) {i : Input} {peerId : PeerId} {connectionId : ConnectionId}
    (hi : i.event? = some (.connectionClosed peerId connectionId))
    (w : World) :
    Acts c i w (onConnectionClosed c peerId connectionId w) := by
  unfold onConnectionClosed
  split
  · exact Relation.ReflTransGen.refl
  · have herase := Acts.single (c := c)
      (.eraseConnection w peerId connectionId hi)
    exact (((herase.trans (clearFailureIfGone_acts c hi _)).trans
      (recordClosedRelay_acts c i _ _ _)).trans
        (redialStaticRelay_acts c (Or.inr (Or.inl ⟨_, hi⟩)) _)).trans
          (updateRelayAvailability_acts c i _)

theorem onNewListenAddr_acts
    (c : Clock) {i : Input} {listenerId : ListenerId} {addr : Multiaddr}
    (hi : i.event? = some (.newListenAddr listenerId addr)) (w : World) :
    Acts c i w (onNewListenAddr listenerId addr w) := by
  unfold onNewListenAddr
  split
  · exact Relation.ReflTransGen.refl
  · next hrelayed =>
    have hrelayed : addr.isRelayed = true := by simpa using hrelayed
    split
    · next reservation hlookup =>
      split
      · next hpending =>
        exact (Acts.single (.activate w listenerId addr reservation hi
          hrelayed hlookup hpending)).tail (.setPreviousRelays _ _)
      · exact Relation.ReflTransGen.refl
    · next hown =>
      split
      · next relayPeerId hpeer =>
        exact Acts.single
          (.addExternal w listenerId addr relayPeerId hi hrelayed hown hpeer)
      · exact Relation.ReflTransGen.refl

theorem onDialFailure_ensures
    (c : Clock) {i : Input} {peerId : PeerId} {connectionId : ConnectionId}
    (hi : i.event? = some (.dialFailure (some peerId) connectionId))
    (w : World) :
    Ensures (onDialFailure c peerId connectionId w) (Acts c i w) := by
  unfold onDialFailure
  split
  · next hpending =>
    have hend := Acts.single (c := c)
      (.endDial w peerId connectionId (Or.inr hi) hpending)
    dsimp only
    split
    · next hstatic =>
      split
      · rfl
      · next deadline hdeadline =>
        exact hend.tail
          (.startDialCooldown _ peerId deadline hstatic.1 hdeadline)
    · exact hend
  · exact Relation.ReflTransGen.refl

theorem dispatchSwarmEvent_ensures
    (c : Clock) {i : Input} {event : FromSwarm} (hi : i.event? = some event)
    (w : World) : Ensures (dispatchSwarmEvent c event w) (Acts c i w) := by
  cases event with
  | connectionEstablished peerId connectionId endpoint =>
      exact onConnectionEstablished_acts c hi w
  | connectionClosed peerId connectionId =>
      exact onConnectionClosed_acts c hi w
  | addressChange peerId connectionId new =>
      change Acts c i w (onAddressChange peerId connectionId new w)
      unfold onAddressChange
      split
      · exact Relation.ReflTransGen.refl
      · next connection hlookup =>
        exact Acts.single (.setEndpoint w _ _ connection new hi hlookup)
  | newListenAddr listenerId addr => exact onNewListenAddr_acts c hi w
  | listenerError listenerId =>
      exact disableReservation_ensures c (Or.inl hi) true w
  | listenerClosed listenerId reasonIsErr =>
      exact disableReservation_ensures c (Or.inr ⟨_, hi⟩) reasonIsErr w
  | dialFailure peerId connectionId =>
      cases peerId with
      | none => exact Relation.ReflTransGen.refl
      | some peerId => exact onDialFailure_ensures c hi w
  | other => exact Relation.ReflTransGen.refl

theorem onExternalAddresses_ensures
    (c : Clock) (addresses : List Multiaddr) (change : Bool) (w : World) :
    Ensures (onExternalAddresses c addresses change w)
      (Acts c (.setStatus none) w) := by
  have hset := Acts.single (c := c) (i := .setStatus none)
    (.setExternalAddresses w addresses ⟨_, rfl⟩)
  unfold onExternalAddresses
  dsimp only
  split
  · exact (determineStatusFromExternalAddresses_ensures c _ _).after hset
  · exact hset

theorem onSwarmEvent_ensures
    (c : Clock) (event : FromSwarm) (addresses : List Multiaddr)
    (change : Bool) (w : World) :
    Ensures (onSwarmEvent c event addresses change w)
      (Served c (.swarm event addresses change) w) := by
  apply (onExternalAddresses_ensures c addresses change w).bind
  intro u hu
  exact (dispatchSwarmEvent_ensures c rfl u).mono fun _ h => ⟨u, hu, h⟩

theorem mem_listenersOf {b : Behaviour} {peerId : PeerId} {id : ListenerId} :
    id ∈ listenersOf b peerId ↔
      ∃ r, b.reservations.lookup id = some r ∧ r.peerId = peerId := by
  simp only [listenersOf, List.mem_filterMap, lookup_eq_some_iff]
  constructor
  · rintro ⟨⟨id', r⟩, hmem, hid⟩
    split at hid
    · next hpeer =>
      cases hid
      exact ⟨r, hmem, hpeer⟩
    · cases hid
  · rintro ⟨r, hmem, hpeer⟩
    exact ⟨⟨id, r⟩, hmem, if_pos hpeer⟩

theorem onConnectionHandlerEvent_ensures
    (c : Clock) (peerId : PeerId) (connectionId : ConnectionId)
    (out : HandlerOut) (w : World) :
    Ensures (onConnectionHandlerEvent c peerId connectionId out w)
      (Acts c (.handler peerId connectionId out) w) := by
  unfold onConnectionHandlerEvent
  split
  · exact Relation.ReflTransGen.refl
  · next connection hlookup =>
    have hset := fun status => Acts.single (c := c)
      (i := .handler peerId connectionId out)
      (.setRelayStatus w peerId connectionId connection status ⟨out, rfl⟩
        hlookup)
    split
    · split
      · exact Relation.ReflTransGen.refl
      · apply ((meetReservationTarget_ensures c _ _).after
          (hset .supported)).bind
        intro u hu
        exact hu.trans (updateRelayAvailability_acts c _ u)
    · dsimp only
      split
      · exact (hset .notSupported).trans (updateRelayAvailability_acts c _ _)
      · refine ((hset .notSupported).trans
          (queueRemoveListeners_acts c _ ?_)).trans
            (updateRelayAvailability_acts c _ _)
        intro id hid
        obtain ⟨r, hr, -⟩ := mem_listenersOf.mp hid
        exact mem_of_lookup hr

/-! ## Polling -/

theorem retryDials_acts
    (c : Clock) (timerReady : Bool) (due : List PeerId) (w : World) :
    Acts c (.poll timerReady) w (retryDials c due w) := by
  induction due generalizing w with
  | nil => exact Relation.ReflTransGen.refl
  | cons peerId rest ih =>
      exact ((Acts.single
        (.clearDialCooldown w peerId (Or.inr ⟨timerReady, rfl⟩))).trans
          (redialStaticRelay_acts c (Or.inr (Or.inr ⟨timerReady, rfl⟩))
            _)).trans (ih _)

theorem pollCooldowns_ensures
    (c : Clock) (timerReady : Bool) (w : World) :
    Ensures (Prod.snd <$> pollCooldowns c timerReady w)
      (Acts c (.poll timerReady) w) := by
  have htick := Acts.single (c := c) (i := .poll timerReady) (.tick w)
  unfold pollCooldowns
  dsimp only
  split
  · have hsweep : Act c (.poll timerReady) w.tick
        (sweepCooldowns (c.instant w.reads) w.tick) :=
      .sweep w.tick _ ⟨timerReady, rfl⟩ (Nat.succ_pos _) rfl
    have hmeet := (meetReservationTargetIf_ensures c (.poll timerReady)
      ((values w.tick.reservationCooldowns).any
        fun deadline => decide (deadline ≤ c.instant w.reads)) _).after
        ((htick.tail hsweep).trans (retryDials_acts c timerReady
          (dueDials w.tick.toBehaviour (c.instant w.reads)) _))
    generalize meetReservationTargetIf c _ _ = x at hmeet ⊢
    cases x with
    | error e => exact hmeet
    | ok u => exact hmeet
  · split
    · exact htick.tail (.setWakeup _ none)
    · next deadline _ => exact htick.tail (.setWakeup _ (some deadline))

theorem pollPass_ensures
    (c : Clock) (timerReady : Bool) (w : World) :
    Ensures (Prod.snd <$> pollPass c timerReady w)
      (Acts c (.poll timerReady) w) := by
  unfold pollPass
  split
  · next event rest hevents =>
    exact Acts.single (.popEvent w event rest hevents)
  · have hpoll := pollCooldowns_ensures c timerReady w
    generalize pollCooldowns c timerReady w = x at hpoll ⊢
    cases x with
    | error e => exact hpoll
    | ok r =>
        obtain ⟨again, u⟩ := r
        cases again with
        | true => exact hpoll
        | false => exact hpoll.tail (.setWaker u true)

/-! ## Whole calls -/

/-- Without a swarm event the addresses imply nothing. -/
theorem serve_acts_of_event_eq_none (c : Clock) {i : Input}
    (hi : i.event? = none) (w : World) : Ensures (serve c i w) (Acts c i w) := by
  cases i with
  | setStatus status => exact setStatus_ensures c status w
  | addStaticRelay peerId address =>
      exact addStaticRelay_ensures c peerId address w
  | removeStaticRelay peerId =>
      exact Acts.single (.removeStaticRelay w peerId rfl)
  | removeAllReservations => exact removeAllReservations_acts c _ w
  | swarm event addresses change => cases hi
  | handler peerId connectionId out =>
      exact onConnectionHandlerEvent_ensures c peerId connectionId out w
  | poll timerReady => exact pollPass_ensures c timerReady w
  | allocate listeners connections =>
      exact Acts.single (.allocate w listeners connections)

/-- Serving an input is a sequence of elementary changes for that input, and
the only way it can fail is an overflowing deadline. -/
theorem serve_acts (c : Clock) (i : Input) (w : World) :
    Ensures (serve c i w) (Served c i w) := by
  cases hi : i.event? with
  | some event =>
      obtain ⟨addresses, change, rfl⟩ := Input.eq_swarm hi
      exact onSwarmEvent_ensures c _ _ _ w
  | none =>
      exact (serve_acts_of_event_eq_none c hi w).mono
        fun _ hacts => ⟨w, Relation.ReflTransGen.refl, hacts⟩

/-- A swarm event is served after what was heard about the external addresses. -/
theorem step_swarm_cases {c : Clock} {event : FromSwarm} {addresses : List Multiaddr}
    {change : Bool} {w w' : World}
    (h : step c (.swarm event addresses change) w = .ok w') :
    ∃ u, Acts c (.setStatus none) (w.record (.input (.swarm event addresses change))) u ∧
      dispatchSwarmEvent c event u = .ok w' := by
  have haddresses := onExternalAddresses_ensures c addresses change
    (w.record (.input (.swarm event addresses change)))
  change (onExternalAddresses c addresses change _ >>=
    fun u => dispatchSwarmEvent c event u) = .ok w' at h
  generalize onExternalAddresses c addresses change _ = x at h haddresses
  cases x with
  | error e => cases h
  | ok u => exact ⟨u, haddresses, h⟩

end Connexa.Autorelay
