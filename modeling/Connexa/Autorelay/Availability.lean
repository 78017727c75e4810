import Connexa.Autorelay.Status

/-!
# Whether relays are available

`relays_available` is recomputed when a handler event arrives and when a
connection closes.  The selection of `meet_reservation_target` disqualifies
connections as well: those whose address ends in another peer.  After a handler
event the flag is recomputed behind it; the other calls that run the selection
leave the flag as it is.
-/

namespace Connexa.Autorelay

open HashMap

theorem hasHopPeer_iff (b : Behaviour) :
    hasHopPeer b = true ↔ ∃ p k info,
      b.connections.lookup (p, k) = some info ∧ info.relayStatus = .supported := by
  rw [hasHopPeer, any_entries_iff]
  simp only [decide_eq_true_eq, Prod.exists]

/-- The pairs that `meet_reservation_target` selects. -/
def selected (c : Clock) (w : World) : List (PeerId × ConnectionId) :=
  if w.status = .disable then []
  else selection (candidatesOf c w) (budget w.toBehaviour)

/-- The selection takes every supported connection, and each of them ends in
another peer. -/
def Forfeits (c : Clock) (w : World) : Prop :=
  hasHopPeer w.toBehaviour = true ∧
    ∀ p k info, w.connections.lookup (p, k) = some info →
      info.relayStatus = .supported →
        (p, k) ∈ selected c w ∧ info.addr.EndsInOtherPeer p

/-! ## What the selection does to the connections -/

/-- Serving a selection takes the support of those that end in another peer. -/
theorem selectAll_supported
    {c : Clock} {sel : List (PeerId × ConnectionId)} {w w' : World}
    (h : Selectable c sel w) (hw' : selectAll sel w = .ok w') :
    w'.relaysAvailable = w.relaysAvailable ∧
    ∀ p k info, (w'.connections.lookup (p, k) = some info ∧
        info.relayStatus = .supported) ↔
      (w.connections.lookup (p, k) = some info ∧
        info.relayStatus = .supported ∧
          ¬((p, k) ∈ sel ∧ info.addr.EndsInOtherPeer p)) := by
  induction sel generalizing w with
  | nil =>
      cases hw'
      simp
  | cons s rest ih =>
      obtain ⟨peerId, connectionId⟩ := s
      obtain ⟨info₀, hlookup, hsupported⟩ := h.supported _ List.mem_cons_self
      have hnotMem : (peerId, connectionId) ∉ rest := fun hmem =>
        (List.nodup_cons.mp h.nodup).1 (List.mem_map_of_mem hmem)
      rcases selectConnectionForReservation_cases hlookup hsupported with
        ⟨hends, hstep⟩ | ⟨full, hfull, hstep⟩
      · rw [selectAll, hstep] at hw'
        obtain ⟨havailable, hrest⟩ := ih (h.disqualify _) hw'
        refine ⟨havailable, ?_⟩
        intro p k info
        rw [hrest, HashMap.lookup_insert]
        by_cases hkey : (p, k) = (peerId, connectionId)
        · cases hkey
          rw [if_pos rfl, hlookup]
          constructor
          · rintro ⟨hinfo, hsup, -⟩
            cases hinfo
            cases hsup
          · rintro ⟨hinfo, -, hkeep⟩
            cases hinfo
            exact absurd ⟨List.mem_cons_self, hends⟩ hkeep
        · rw [if_neg hkey, List.mem_cons, or_iff_right hkey]
      · rw [selectAll, hstep] at hw'
        obtain ⟨havailable, hrest⟩ := ih (h.opened info₀ full) hw'
        refine ⟨havailable, ?_⟩
        intro p k info
        rw [hrest]
        by_cases hkey : (p, k) = (peerId, connectionId)
        · cases hkey
          have hown := Multiaddr.not_endsInOtherPeer_of_withP2p hfull
          change w.connections.lookup _ = _ ∧ _ ↔ _
          rw [hlookup]
          constructor
          · rintro ⟨hinfo, hsup, -⟩
            cases hinfo
            exact ⟨rfl, hsup, fun hboth => hown hboth.2⟩
          · rintro ⟨hinfo, hsup, -⟩
            cases hinfo
            exact ⟨rfl, hsup, fun hboth => hown hboth.2⟩
        · rw [List.mem_cons, or_iff_right hkey]
          rfl

/-- After `meet_reservation_target` a connection supports the protocol if it
did before and was not disqualified. -/
theorem meetReservationTarget_supported
    {c : Clock} {w w' : World} (hw' : meetReservationTarget c w = .ok w') :
    w'.relaysAvailable = w.relaysAvailable ∧
    ∀ p k info, (w'.connections.lookup (p, k) = some info ∧
        info.relayStatus = .supported) ↔
      (w.connections.lookup (p, k) = some info ∧
        info.relayStatus = .supported ∧
          ¬((p, k) ∈ selected c w ∧ info.addr.EndsInOtherPeer p)) := by
  rcases meetReservationTarget_cases c w with
    ⟨hdisabled, h⟩ | ⟨henabled, v, hprep, havailable, h⟩
  · rw [h] at hw'
    cases hw'
    simp [selected, hdisabled]
  · have hselected : selected c w =
        selection (candidatesOf c w) (budget w.toBehaviour) := by
      simp [selected, henabled]
    rw [h] at hw'
    split at hw'
    · next hbudget =>
      cases hw'
      simp [hselected, hbudget, selection, hprep.connections, havailable]
    · next hbudget =>
      have hselectable := hprep.selectable henabled hbudget
      obtain ⟨u, hu, -, hcard⟩ := selectAll_acts .removeAllReservations hselectable
      rw [hprep.config] at hcard
      rw [hu] at hw'
      change (if _ then Except.ok u else _) = _ at hw'
      rw [if_pos hcard] at hw'
      cases hw'
      obtain ⟨hsame, hsupported⟩ := selectAll_supported hselectable hu
      rw [hprep.connections, ← hselected] at hsupported
      exact ⟨hsame.trans havailable, hsupported⟩

/-- The selection loses all supported connections only if it forfeits them. -/
theorem meetReservationTarget_hasHopPeer (c : Clock) (w : World) :
    Ensures (meetReservationTarget c w) fun w' =>
      w'.relaysAvailable = w.relaysAvailable ∧
        (hasHopPeer w'.toBehaviour = true ↔
          hasHopPeer w.toBehaviour = true ∧ ¬Forfeits c w) := by
  obtain ⟨w', hw', -⟩ := meetReservationTarget_acts c .removeAllReservations w
  obtain ⟨havailable, hsupported⟩ := meetReservationTarget_supported hw'
  rw [hw']
  refine ⟨havailable, ?_⟩
  simp only [hasHopPeer_iff, hsupported]
  constructor
  · rintro ⟨p, k, info, hinfo, hsup, hkeep⟩
    exact ⟨⟨p, k, info, hinfo, hsup⟩,
      fun hforfeits => hkeep (hforfeits.2 p k info hinfo hsup)⟩
  · rintro ⟨hhop, hnot⟩
    by_contra hnone
    push Not at hnone
    exact hnot ⟨(hasHopPeer_iff _).mpr hhop, hnone⟩

/-! ## Calls that run the selection -/

/-- The listener that the event reports as gone, and whether it failed. -/
def FromSwarm.disabled? : FromSwarm → Option (ListenerId × Bool)
  | .listenerError id => some (id, true)
  | .listenerClosed id reasonIsErr => some (id, reasonIsErr)
  | _ => none

/-- The state in which `add_static_relay` has stored the address. -/
def storeStaticRelay
    (peerId : PeerId) (address : Multiaddr) (w : World) : World :=
  { w with
    staticRelays := w.staticRelays.insert peerId
      (addressesWith w.toBehaviour peerId address) }

/-- Serving the input in `w` runs `meet_reservation_target` in `u`, and does
not recompute the flag behind it. -/
inductive Retargets (c : Clock) : Input → World → World → Prop where
  | enable {w : World} (hdisabled : w.status = .disable) :
      Retargets c (.setStatus (some .enable)) w
        (changeStatus .enable { w with autoStatusChange := false })
  | resume {w : World} (hdisabled : w.status = .disable)
      (hprivate : isPublic w.toBehaviour = false) :
      Retargets c (.setStatus none) w
        (changeStatus .enable { w with autoStatusChange := true })
  | addresses {w : World} {event : FromSwarm} {addresses : List Multiaddr}
      (hauto : w.autoStatusChange = true) (hdisabled : w.status = .disable)
      (hprivate : (addresses.any fun addr => !addr.isRelayed) = false) :
      Retargets c (.swarm event addresses true) w
        (changeStatus .enable { w with externalAddresses := addresses })
  | staticRelay {w : World} {peerId : PeerId} {address : Multiaddr}
      (hdirect : address.isRelayed = false)
      (hqueued : (queueStaticDial c peerId
        (addressesWith w.toBehaviour peerId address)
        (storeStaticRelay peerId address w)).1 = false) :
      Retargets c (.addStaticRelay peerId address) w
        (queueStaticDial c peerId (addressesWith w.toBehaviour peerId address)
          (storeStaticRelay peerId address w)).2
  | externalGone {w v : World} {event : FromSwarm}
      {addresses : List Multiaddr} {change failed : Bool} {id : ListenerId}
      {peerId : PeerId} (hevent : event.disabled? = some (id, failed))
      (himplied : onExternalAddresses c addresses change w = .ok v)
      (hlookup : v.externalReservations.lookup id = some peerId) :
      Retargets c (.swarm event addresses change) w
        { v with externalReservations := v.externalReservations.erase id }
  | reservationGone {w v v' : World} {event : FromSwarm}
      {addresses : List Multiaddr} {change failed : Bool} {id : ListenerId}
      {reservation : Reservation}
      (hevent : event.disabled? = some (id, failed))
      (himplied : onExternalAddresses c addresses change w = .ok v)
      (hexternal : v.externalReservations.lookup id = none)
      (hlookup : v.reservations.lookup id = some reservation)
      (hcharge : chargeFailure c failed reservation.peerId
        (removeReservation id v).2 = .ok v') :
      Retargets c (.swarm event addresses change) w
        (recordPreviousRelay c reservation.peerId reservation.address v')
  | cooldowns {w : World} {timerReady : Bool} (hevents : w.events = [])
      (hexpired : (values w.reservationCooldowns).any
        (fun deadline => decide (deadline ≤ c.instant w.reads)) = true) :
      Retargets c (.poll timerReady) w
        (retryDials c (dueDials w.toBehaviour (c.instant w.reads))
          (sweepCooldowns (c.instant w.reads) w.tick))

/-- No call that leaves the flag as it is runs the selection where it forfeits
every supported connection. -/
def Keeps (c : Clock) (w : World) (i : Input) : Prop :=
  ∀ u, Retargets c i (w.record (.input i)) u → ¬Forfeits c u

/-- Connection ids are unique: a connection is established once. -/
def Contract.newConnections : Contract := fun w i =>
  ∀ p k endpoint, i.event? = some (.connectionEstablished p k endpoint) →
    (p, k) ∉ w.connections

/-! ## Calls that leave the connections alone -/

/-- The connections and the flag are the same. -/
def SameRelays (w w' : World) : Prop :=
  w'.connections = w.connections ∧ w'.relaysAvailable = w.relaysAvailable

theorem SameRelays.trans {w w' w'' : World} (h : SameRelays w w')
    (h' : SameRelays w' w'') : SameRelays w w'' :=
  ⟨h'.1.trans h.1, h'.2.trans h.2⟩

theorem queueStaticDial_sameRelays (c : Clock) (peerId : PeerId)
    (addresses : List Multiaddr) (w : World) :
    SameRelays w (queueStaticDial c peerId addresses w).2 := by
  have hcooling : SameRelays w (staticDialInCooldown c peerId w).2 := by
    rcases staticDialInCooldown_eq c peerId w with h | h <;> rw [h]
    · exact ⟨rfl, rfl⟩
    · exact ⟨rfl, rfl⟩
  unfold queueStaticDial
  split
  · exact ⟨rfl, rfl⟩
  · dsimp only
    split
    · exact hcooling
    · exact hcooling

theorem redialStaticRelay_sameRelays (c : Clock) (peerId : PeerId) (w : World) :
    SameRelays w (redialStaticRelay c peerId w) := by
  unfold redialStaticRelay
  split
  · exact queueStaticDial_sameRelays c peerId _ w
  · exact ⟨rfl, rfl⟩

theorem retryDials_sameRelays (c : Clock) (due : List PeerId) (w : World) :
    SameRelays w (retryDials c due w) := by
  induction due generalizing w with
  | nil => exact ⟨rfl, rfl⟩
  | cons peerId rest ih =>
      have hredial : SameRelays w (redialStaticRelay c peerId { w with
          staticDialCooldowns := w.staticDialCooldowns.erase peerId }) :=
        redialStaticRelay_sameRelays c peerId _
      exact hredial.trans (ih _)

theorem recordPreviousRelay_sameRelays (c : Clock) (peerId : PeerId)
    (address : Multiaddr) (w : World) :
    SameRelays w (recordPreviousRelay c peerId address w) := by
  unfold recordPreviousRelay
  dsimp only
  split <;> exact ⟨rfl, rfl⟩

theorem chargeFailure_sameRelays (c : Clock) (failed : Bool) (peerId : PeerId)
    (w : World) : Ensures (chargeFailure c failed peerId w) (SameRelays w) := by
  unfold chargeFailure
  split
  · unfold startReservationCooldown
    dsimp only
    split
    · rfl
    · exact ⟨rfl, rfl⟩
  · exact ⟨rfl, rfl⟩

theorem removeAllReservations_sameRelays (w : World) :
    SameRelays w (removeAllReservations w) := by
  obtain ⟨events, history, hframe⟩ :=
    queueRemoveListeners_frame w.reservations.keys w
  rw [removeAllReservations, hframe]
  exact ⟨rfl, rfl⟩

theorem onNewListenAddr_sameRelays (id : ListenerId) (addr : Multiaddr)
    (w : World) : SameRelays w (onNewListenAddr id addr w) := by
  unfold onNewListenAddr
  split
  · exact ⟨rfl, rfl⟩
  · split
    · split <;> exact ⟨rfl, rfl⟩
    · split <;> exact ⟨rfl, rfl⟩

theorem onDialFailure_sameRelays (c : Clock) (peerId : PeerId)
    (connectionId : ConnectionId) (w : World) :
    Ensures (onDialFailure c peerId connectionId w) (SameRelays w) := by
  unfold onDialFailure
  split
  · dsimp only
    split
    · split
      · rfl
      · exact ⟨rfl, rfl⟩
    · exact ⟨rfl, rfl⟩
  · exact ⟨rfl, rfl⟩

/-! ## The flag -/

/-- The flag tells whether a connection supports the protocol. -/
def FlagRight (w : World) : Prop :=
  w.relaysAvailable = hasHopPeer w.toBehaviour

/-- The flag is as before, and so is what it should be. -/
def Steady (w w' : World) : Prop :=
  w'.relaysAvailable = w.relaysAvailable ∧
    hasHopPeer w'.toBehaviour = hasHopPeer w.toBehaviour

theorem Steady.trans {w w' w'' : World} (h : Steady w w')
    (h' : Steady w' w'') : Steady w w'' :=
  ⟨h'.1.trans h.1, h'.2.trans h.2⟩

theorem Steady.flagRight {w w' : World} (h : Steady w w')
    (hw : FlagRight w) : FlagRight w' := by
  rw [FlagRight, h.1, h.2]
  exact hw

theorem SameRelays.steady {w w' : World} (h : SameRelays w w') : Steady w w' :=
  ⟨h.2, by rw [hasHopPeer, hasHopPeer, h.1]⟩

theorem Ensures.steady_of {x : Except Panic World} {u w : World}
    (h : Ensures x (Steady w)) (hu : Steady u w) : Ensures x (Steady u) :=
  h.mono fun _ hsteady => hu.trans hsteady

theorem meetReservationTarget_steady {c : Clock} {w : World}
    (h : ¬Forfeits c w) : Ensures (meetReservationTarget c w) (Steady w) := by
  apply (meetReservationTarget_hasHopPeer c w).mono
  rintro w' ⟨havailable, hhop⟩
  refine ⟨havailable, ?_⟩
  rw [Bool.eq_iff_iff, hhop]
  exact and_iff_left h

theorem determineStatusFromExternalAddresses_steady {c : Clock} {w : World}
    (h : w.status = .disable → isPublic w.toBehaviour = false →
      ¬Forfeits c (changeStatus .enable w)) :
    Ensures (determineStatusFromExternalAddresses c w) (Steady w) := by
  unfold determineStatusFromExternalAddresses
  dsimp only
  rw [← isPublic]
  cases hpublic : isPublic w.toBehaviour with
  | true =>
      simp only [if_true]
      split
      · exact (removeAllReservations_sameRelays (changeStatus .disable w)).steady
      · exact ⟨rfl, rfl⟩
  | false =>
      simp only [Bool.false_eq_true, if_false]
      split
      · next hne =>
        have hdisabled : w.status = .disable := by
          cases hstatus : w.status with
          | enable => exact absurd hstatus.symm hne
          | disable => rfl
        exact meetReservationTarget_steady (h hdisabled hpublic)
      · exact ⟨rfl, rfl⟩

theorem setStatus_steady {c : Clock} {status : Option Status} {w : World}
    (h : ∀ u, Retargets c (.setStatus status) w u → ¬Forfeits c u) :
    Ensures (setStatus c status w) (Steady w) := by
  have happly : Ensures (applyStatus c status w) (Steady w) := by
    unfold applyStatus
    split
    · next status =>
      dsimp only
      split
      · next hne =>
        unfold meetReservationTargetIf
        cases status with
        | enable =>
            have hdisabled : w.status = .disable := by
              cases hstatus : w.status with
              | enable => exact absurd hstatus hne
              | disable => rfl
            exact meetReservationTarget_steady (h _ (.enable hdisabled))
        | disable => exact ⟨rfl, rfl⟩
      · exact ⟨rfl, rfl⟩
    · exact determineStatusFromExternalAddresses_steady
        fun hdisabled hprivate => h _ (.resume hdisabled hprivate)
  apply happly.bind
  intro u hu
  exact hu

theorem onExternalAddresses_steady {c : Clock} {event : FromSwarm}
    {addresses : List Multiaddr} {change : Bool} {w : World}
    (h : ∀ u, Retargets c (.swarm event addresses change) w u →
      ¬Forfeits c u) :
    Ensures (onExternalAddresses c addresses change w) (Steady w) := by
  unfold onExternalAddresses
  dsimp only
  split
  · next hcondition =>
    obtain ⟨hauto, rfl⟩ := (Bool.and_eq_true_iff.mp hcondition)
    exact determineStatusFromExternalAddresses_steady
      fun hdisabled hprivate => h _ (.addresses hauto hdisabled hprivate)
  · exact ⟨rfl, rfl⟩

theorem addStaticRelay_steady {c : Clock} {peerId : PeerId}
    {address : Multiaddr} {w : World}
    (h : ∀ u, Retargets c (.addStaticRelay peerId address) w u →
      ¬Forfeits c u) :
    Ensures (Prod.snd <$> addStaticRelay c peerId address w) (Steady w) := by
  unfold addStaticRelay
  split
  · exact ⟨rfl, rfl⟩
  · next hrelayed =>
    have hdirect := Bool.eq_false_of_not_eq_true hrelayed
    have hqueue := queueStaticDial_sameRelays c peerId
      (addressesWith w.toBehaviour peerId address)
      (storeStaticRelay peerId address w)
    have hretargets := fun hqueued => h _ (.staticRelay hdirect hqueued)
    change Ensures (Prod.snd <$> do
      let q := queueStaticDial c peerId
        (addressesWith w.toBehaviour peerId address)
        (storeStaticRelay peerId address w)
      let u ← meetReservationTargetIf c (!q.1) q.2
      return (true, { u with waker := false })) _
    generalize queueStaticDial c peerId
      (addressesWith w.toBehaviour peerId address)
      (storeStaticRelay peerId address w) = q at hqueue hretargets ⊢
    have hmeet : Ensures (meetReservationTargetIf c (!q.1) q.2) (Steady q.2) := by
      unfold meetReservationTargetIf
      split
      · next hqueued =>
        exact meetReservationTarget_steady
          (hretargets (Bool.not_eq_true' _ ▸ hqueued))
      · exact ⟨rfl, rfl⟩
    have hmeet := hmeet.steady_of (u := w) hqueue.steady
    dsimp only
    generalize meetReservationTargetIf c (!q.1) q.2 = x at hmeet ⊢
    cases x with
    | error e => exact hmeet
    | ok u => exact hmeet

theorem disableReservation_steady {c : Clock} {event : FromSwarm}
    {addresses : List Multiaddr} {change failed : Bool} {id : ListenerId}
    {w v : World} (hevent : event.disabled? = some (id, failed))
    (himplied : onExternalAddresses c addresses change w = .ok v)
    (h : ∀ u, Retargets c (.swarm event addresses change) w u →
      ¬Forfeits c u) :
    Ensures (disableReservation c id failed v) (Steady v) := by
  unfold disableReservation
  split
  · next peerId hlookup =>
    exact meetReservationTarget_steady
      (h _ (.externalGone hevent himplied hlookup))
  · next hexternal =>
    have hremove : SameRelays v (removeReservation id v).2 := ⟨rfl, rfl⟩
    split
    · next v' hfound =>
      rw [hfound] at hremove
      exact hremove.steady
    · next reservation v' hfound =>
      have hlookup : v.reservations.lookup id = some reservation :=
        congrArg Prod.fst hfound
      have hremoved : (removeReservation id v).2 = v' :=
        congrArg Prod.snd hfound
      have hcharge := chargeFailure_sameRelays c failed reservation.peerId v'
      rw [hremoved] at hremove
      cases hresult : chargeFailure c failed reservation.peerId v' with
      | error e =>
          rw [hresult] at hcharge
          exact hcharge
      | ok u =>
          rw [hresult] at hcharge
          rw [← hremoved] at hresult
          have hkeeps := h _ (.reservationGone hevent himplied hexternal hlookup
            hresult)
          exact (meetReservationTarget_steady hkeeps).steady_of
            ((hremove.trans hcharge).trans
              (recordPreviousRelay_sameRelays c _ _ u)).steady

theorem onConnectionEstablished_steady {peerId : PeerId}
    {connectionId : ConnectionId} {w : World} (endpoint : ConnectedPoint)
    (hnew : (peerId, connectionId) ∉ w.connections) :
    Steady w (onConnectionEstablished peerId connectionId endpoint w) := by
  have hinsert : Steady w { w with
      connections := w.connections.insert (peerId, connectionId)
        (Connection.disqualifyConnectionIfRelayed ⟨endpoint, .pending⟩) } := by
    refine ⟨rfl, ?_⟩
    rw [Bool.eq_iff_iff, hasHopPeer_iff, hasHopPeer_iff]
    constructor
    · rintro ⟨p, k, info, hinfo, hsupported⟩
      rw [HashMap.lookup_insert] at hinfo
      split at hinfo
      · cases hinfo
        unfold Connection.disqualifyConnectionIfRelayed at hsupported
        split at hsupported <;> cases hsupported
      · exact ⟨p, k, info, hinfo, hsupported⟩
    · rintro ⟨p, k, info, hinfo, hsupported⟩
      refine ⟨p, k, info, ?_, hsupported⟩
      have hne : (p, k) ≠ (peerId, connectionId) := by
        intro heq
        rw [heq] at hinfo
        exact hnew (mem_of_lookup hinfo)
      rw [HashMap.lookup_insert, if_neg hne]
      exact hinfo
  refine hinsert.trans (SameRelays.steady ?_)
  unfold onConnectionEstablished
  dsimp only
  split <;> split <;> exact ⟨rfl, rfl⟩

theorem onAddressChange_steady (peerId : PeerId) (connectionId : ConnectionId)
    (new : ConnectedPoint) (w : World) :
    Steady w (onAddressChange peerId connectionId new w) := by
  unfold onAddressChange
  split
  · exact ⟨rfl, rfl⟩
  · next connection hlookup =>
    refine ⟨rfl, ?_⟩
    rw [Bool.eq_iff_iff, hasHopPeer_iff, hasHopPeer_iff]
    constructor
    · rintro ⟨p, k, info, hinfo, hsupported⟩
      rw [HashMap.lookup_insert] at hinfo
      split at hinfo
      · cases hinfo
        exact ⟨_, _, connection, hlookup, hsupported⟩
      · exact ⟨p, k, info, hinfo, hsupported⟩
    · rintro ⟨p, k, info, hinfo, hsupported⟩
      by_cases hkey : (p, k) = (peerId, connectionId)
      · rw [hkey, hlookup, Option.some_inj] at hinfo
        rw [← hinfo] at hsupported
        exact ⟨peerId, connectionId, { connection with endpoint := new },
          lookup_insert_self _ _ _, hsupported⟩
      · refine ⟨p, k, info, ?_, hsupported⟩
        rw [HashMap.lookup_insert, if_neg hkey]
        exact hinfo

/-- Recomputing the flag makes it right. -/
theorem updateRelayAvailability_flagRight (w : World) :
    FlagRight (updateRelayAvailability w) := by
  rw [updateRelayAvailability]
  split
  · next hhop _ => exact hhop.symm
  · next hhop _ => exact hhop.symm
  · next hup hdown =>
    cases hhop : hasHopPeer w.toBehaviour <;>
      cases havailable : w.relaysAvailable
    · exact havailable.trans hhop.symm
    · exact absurd havailable (hdown hhop)
    · exact absurd havailable (hup hhop)
    · exact havailable.trans hhop.symm

theorem onConnectionClosed_flagRight (c : Clock) (peerId : PeerId)
    (connectionId : ConnectionId) {w : World} (hw : FlagRight w) :
    FlagRight (onConnectionClosed c peerId connectionId w) := by
  unfold onConnectionClosed
  split
  · exact hw
  · exact updateRelayAvailability_flagRight _

theorem onConnectionHandlerEvent_flagRight (c : Clock) (peerId : PeerId)
    (connectionId : ConnectionId) (out : HandlerOut) {w : World}
    (hw : FlagRight w) :
    Ensures (onConnectionHandlerEvent c peerId connectionId out w) FlagRight := by
  unfold onConnectionHandlerEvent
  split
  · exact hw
  · next connection _ =>
    cases out with
    | supported =>
        dsimp only
        split
        · exact hw
        · apply (meetReservationTarget_hasHopPeer c _).bind
          exact fun u _ => updateRelayAvailability_flagRight u
    | unsupported => exact updateRelayAvailability_flagRight _

theorem pollPass_steady {c : Clock} {timerReady : Bool} {w : World}
    (h : ∀ u, Retargets c (.poll timerReady) w u → ¬Forfeits c u) :
    Ensures (Prod.snd <$> pollPass c timerReady w) (Steady w) := by
  unfold pollPass
  split
  · exact ⟨rfl, rfl⟩
  · next hevents =>
    have hpoll : Ensures (Prod.snd <$> pollCooldowns c timerReady w)
        (Steady w) := by
      unfold pollCooldowns
      dsimp only
      split
      · have hretry : Steady w (retryDials c
            (dueDials w.tick.toBehaviour (c.instant w.reads))
            (sweepCooldowns (c.instant w.reads) w.tick)) :=
          (retryDials_sameRelays c _ _).steady
        have hmeet : Ensures (meetReservationTargetIf c
            ((values w.tick.reservationCooldowns).any
              fun deadline => decide (deadline ≤ c.instant w.reads))
            (retryDials c (dueDials w.tick.toBehaviour (c.instant w.reads))
              (sweepCooldowns (c.instant w.reads) w.tick))) (Steady w) := by
          unfold meetReservationTargetIf
          split
          · next hexpired =>
            exact (meetReservationTarget_steady
              (h _ (.cooldowns hevents hexpired))).steady_of hretry
          · exact hretry
        generalize meetReservationTargetIf c _ _ = x at hmeet ⊢
        cases x with
        | error e => exact hmeet
        | ok u => exact hmeet
      · split <;> exact ⟨rfl, rfl⟩
    generalize pollCooldowns c timerReady w = x at hpoll ⊢
    cases x with
    | error e => exact hpoll
    | ok r =>
        obtain ⟨again, u⟩ := r
        cases again with
        | true => exact hpoll
        | false => exact hpoll

/-- Without a swarm event no connection comes to be tracked. -/
theorem Acts.tracked_of_event_eq_none {c : Clock} {i : Input} {w w' : World}
    (h : Acts c i w w') (hi : i.event? = none) {p : PeerId} {k : ConnectionId}
    (hmem : (p, k) ∈ w'.connections) : (p, k) ∈ w.connections := by
  induction h with
  | refl => exact hmem
  | tail _ hact ih =>
      obtain ⟨info', hinfo'⟩ := mem_iff_exists_lookup.mp hmem
      rcases hact.lookup_connections hinfo' with
        hold | ⟨endpoint, hevent, -⟩ | ⟨info, hold, -⟩
      · exact ih (mem_of_lookup hold)
      · rw [hi] at hevent
        cases hevent
      · exact ih (mem_of_lookup hold)

/-- The events that do not close a connection leave the flag and what it should
be as they are. -/
theorem dispatchSwarmEvent_steady {c : Clock} {event : FromSwarm}
    {addresses : List Multiaddr} {change : Bool} {w v : World}
    (himplied : onExternalAddresses c addresses change w = .ok v)
    (hnew : ∀ p k endpoint, event = .connectionEstablished p k endpoint →
      (p, k) ∉ v.connections)
    (hopen : ∀ p k, event ≠ .connectionClosed p k)
    (h : ∀ u, Retargets c (.swarm event addresses change) w u →
      ¬Forfeits c u) :
    Ensures (dispatchSwarmEvent c event v) (Steady v) := by
  cases event with
  | connectionEstablished p k endpoint =>
      exact onConnectionEstablished_steady endpoint (hnew p k endpoint rfl)
  | connectionClosed p k => exact absurd rfl (hopen p k)
  | addressChange p k new => exact onAddressChange_steady p k new v
  | newListenAddr id addr => exact (onNewListenAddr_sameRelays id addr v).steady
  | listenerError id => exact disableReservation_steady rfl himplied h
  | listenerClosed id reasonIsErr => exact disableReservation_steady rfl himplied h
  | dialFailure peerId connectionId =>
      cases peerId with
      | none => exact ⟨rfl, rfl⟩
      | some peerId =>
          exact (onDialFailure_sameRelays c peerId connectionId v).mono
            fun _ hsame => hsame.steady
  | other => exact ⟨rfl, rfl⟩

theorem onSwarmEvent_flagRight {c : Clock} {event : FromSwarm}
    {addresses : List Multiaddr} {change : Bool} {w : World}
    (hw : FlagRight w)
    (hnew : Contract.newConnections w (.swarm event addresses change))
    (h : ∀ u, Retargets c (.swarm event addresses change) w u →
      ¬Forfeits c u) :
    Ensures (onSwarmEvent c event addresses change w) FlagRight := by
  have himplied := (onExternalAddresses_steady h).and
    (onExternalAddresses_ensures c addresses change w)
  rw [onSwarmEvent]
  cases hresult : onExternalAddresses c addresses change w with
  | error e =>
      rw [hresult] at himplied
      exact himplied
  | ok v =>
      rw [hresult] at himplied
      obtain ⟨hsteady, hacts⟩ := himplied
      have hv := hsteady.flagRight hw
      by_cases hclosed : ∃ p k, event = .connectionClosed p k
      · obtain ⟨p, k, rfl⟩ := hclosed
        exact onConnectionClosed_flagRight c p k hv
      · apply (dispatchSwarmEvent_steady hresult ?_ ?_ h).mono
        · exact fun _ hdispatch => hdispatch.flagRight hv
        · rintro p k endpoint rfl hmem
          exact hnew p k endpoint rfl (hacts.tracked_of_event_eq_none rfl hmem)
        · exact fun p k hevent => hclosed ⟨p, k, hevent⟩

theorem serve_flagRight {c : Clock} {i : Input} {w : World} (hw : FlagRight w)
    (hnew : Contract.newConnections w i)
    (h : ∀ u, Retargets c i w u → ¬Forfeits c u) :
    Ensures (serve c i w) FlagRight := by
  cases i with
  | setStatus status =>
      exact (setStatus_steady h).mono fun _ hsteady => hsteady.flagRight hw
  | addStaticRelay peerId address =>
      exact (addStaticRelay_steady h).mono fun _ hsteady => hsteady.flagRight hw
  | removeStaticRelay peerId => exact hw
  | removeAllReservations =>
      exact (removeAllReservations_sameRelays w).steady.flagRight hw
  | swarm event addresses change => exact onSwarmEvent_flagRight hw hnew h
  | handler peerId connectionId out =>
      exact onConnectionHandlerEvent_flagRight c peerId connectionId out hw
  | poll timerReady =>
      exact (pollPass_steady h).mono fun _ hsteady => hsteady.flagRight hw
  | allocate listeners connections => exact hw

/-! ## Where the flag goes wrong -/

/-- `ExternalAddresses` reports a change only for events about external
addresses, which the behaviour does not look at otherwise. -/
def Contract.addressEvents : Contract := fun _ i =>
  ∀ event addresses, i = .swarm event addresses true → event = .other

/-- The flag claims relays where none is left. -/
def Lost (w : World) : Prop :=
  w.relaysAvailable = true ∧ hasHopPeer w.toBehaviour = false

theorem Lost.not_flagRight {w : World} (h : Lost w) : ¬FlagRight w := by
  intro hright
  rw [FlagRight, h.1, h.2] at hright
  cases hright

/-- A selection that forfeits everything leaves a wrong flag behind. -/
theorem meetReservationTarget_lost {c : Clock} {w u : World}
    (hw : FlagRight w) (hsame : SameRelays w u) (h : Forfeits c u) :
    ∃ w', meetReservationTarget c u = .ok w' ∧ Lost w' := by
  have hright := hsame.steady.flagRight hw
  obtain ⟨w', hw', -⟩ := meetReservationTarget_acts c .removeAllReservations u
  obtain ⟨havailable, hhop⟩ :=
    (meetReservationTarget_hasHopPeer c u).of_eq_ok hw'
  refine ⟨w', hw', ?_, ?_⟩
  · rw [havailable, hright, h.1]
  · rw [← Bool.not_eq_true, hhop]
    exact fun hkept => hkept.2 h

theorem disableReservation_lost {c : Clock} {failed : Bool} {id : ListenerId}
    {v : World} (hv : FlagRight v) :
    (∀ peerId, v.externalReservations.lookup id = some peerId →
      Forfeits c { v with
        externalReservations := v.externalReservations.erase id } →
      ∃ w', disableReservation c id failed v = .ok w' ∧ Lost w') ∧
    ∀ reservation v', v.externalReservations.lookup id = none →
      v.reservations.lookup id = some reservation →
      chargeFailure c failed reservation.peerId (removeReservation id v).2 =
        .ok v' →
      Forfeits c (recordPreviousRelay c reservation.peerId
        reservation.address v') →
      ∃ w', disableReservation c id failed v = .ok w' ∧ Lost w' := by
  constructor
  · intro peerId hlookup hforfeits
    rw [disableReservation, hlookup]
    exact meetReservationTarget_lost hv ⟨rfl, rfl⟩ hforfeits
  · intro reservation v' hexternal hlookup hresult hforfeits
    have hcharge := chargeFailure_sameRelays c failed reservation.peerId
      (removeReservation id v).2
    rw [hresult] at hcharge
    have hremove : SameRelays v (removeReservation id v).2 := ⟨rfl, rfl⟩
    have hfound : removeReservation id v =
        (some reservation, (removeReservation id v).2) := by
      rw [← hlookup]
      rfl
    rw [disableReservation, hexternal]
    dsimp only
    rw [hfound]
    change ∃ w', (chargeFailure c failed reservation.peerId
      (removeReservation id v).2 >>= fun u => meetReservationTarget c
        (recordPreviousRelay c reservation.peerId reservation.address u)) =
          .ok w' ∧ Lost w'
    rw [hresult]
    exact meetReservationTarget_lost hv ((hremove.trans hcharge).trans
      (recordPreviousRelay_sameRelays c _ _ v')) hforfeits

/-- A listener event changes the external addresses nowhere. -/
theorem serve_disabled {c : Clock} {event : FromSwarm}
    {addresses : List Multiaddr} {change failed : Bool} {id : ListenerId}
    {w v : World} (hw : FlagRight w)
    (hother : Contract.addressEvents w (.swarm event addresses change))
    (hevent : event.disabled? = some (id, failed))
    (himplied : onExternalAddresses c addresses change w = .ok v) :
    FlagRight v ∧
      serve c (.swarm event addresses change) w =
        disableReservation c id failed v := by
  constructor
  · cases change with
    | true =>
        rw [hother event addresses rfl] at hevent
        cases hevent
    | false =>
        rw [onExternalAddresses, Bool.and_false] at himplied
        cases himplied
        exact hw
  · rw [serve, onSwarmEvent, himplied]
    cases event with
    | listenerError id' =>
        cases hevent
        rfl
    | listenerClosed id' reasonIsErr =>
        cases hevent
        rfl
    | _ => cases hevent

theorem serve_lost {c : Clock} {i : Input} {w u : World} (hw : FlagRight w)
    (hother : Contract.addressEvents w i) (hretargets : Retargets c i w u)
    (hforfeits : Forfeits c u) : ∃ w', serve c i w = .ok w' ∧ Lost w' := by
  cases hretargets with
  | enable hdisabled =>
      obtain ⟨w', hmeet, hlost⟩ := meetReservationTarget_lost hw
        (u := changeStatus .enable { w with autoStatusChange := false })
        ⟨rfl, rfl⟩ hforfeits
      have hserve : serve c (.setStatus (some .enable)) w =
          meetReservationTarget c
            (changeStatus .enable { w with autoStatusChange := false }) >>=
              fun u => pure { u with waker := false } := by
        simp [serve, setStatus, applyStatus, hdisabled, meetReservationTargetIf]
      rw [hserve, hmeet]
      exact ⟨_, rfl, hlost⟩
  | resume hdisabled hprivate =>
      obtain ⟨w', hmeet, hlost⟩ := meetReservationTarget_lost hw
        (u := changeStatus .enable { w with autoStatusChange := true })
        ⟨rfl, rfl⟩ hforfeits
      have hserve : serve c (.setStatus none) w =
          meetReservationTarget c
            (changeStatus .enable { w with autoStatusChange := true }) >>=
              fun u => pure { u with waker := false } := by
        rw [isPublic] at hprivate
        simp [serve, setStatus, applyStatus, hdisabled, hprivate,
          determineStatusFromExternalAddresses]
      rw [hserve, hmeet]
      exact ⟨_, rfl, hlost⟩
  | @addresses _ event addresses hauto hdisabled hprivate =>
      obtain rfl := hother event addresses rfl
      obtain ⟨w', hmeet, hlost⟩ := meetReservationTarget_lost hw
        (u := changeStatus .enable { w with externalAddresses := addresses })
        ⟨rfl, rfl⟩ hforfeits
      have himplied : onExternalAddresses c addresses true w =
          meetReservationTarget c
            (changeStatus .enable { w with externalAddresses := addresses }) := by
        simp [onExternalAddresses, hauto, determineStatusFromExternalAddresses,
          hprivate, hdisabled]
      rw [serve, onSwarmEvent, himplied, hmeet]
      exact ⟨_, rfl, hlost⟩
  | @staticRelay _ peerId address hdirect hqueued =>
      have hstore : SameRelays w (storeStaticRelay peerId address w) := ⟨rfl, rfl⟩
      obtain ⟨w', hmeet, hlost⟩ := meetReservationTarget_lost hw
        (hstore.trans (queueStaticDial_sameRelays c peerId _ _)) hforfeits
      have hserve : serve c (.addStaticRelay peerId address) w =
          meetReservationTarget c (queueStaticDial c peerId
            (addressesWith w.toBehaviour peerId address)
            (storeStaticRelay peerId address w)).2 >>=
              fun u => pure { u with waker := false } := by
        rw [storeStaticRelay] at hqueued ⊢
        simp [serve, addStaticRelay, hdirect, hqueued, meetReservationTargetIf]
      rw [hserve, hmeet]
      exact ⟨_, rfl, hlost⟩
  | @externalGone _ v event addresses change failed id peerId hevent himplied
      hlookup =>
      obtain ⟨hv, hserve⟩ := serve_disabled hw hother hevent himplied
      rw [hserve]
      exact (disableReservation_lost hv).1 peerId hlookup hforfeits
  | @reservationGone _ v v' event addresses change failed id reservation hevent
      himplied hexternal hlookup hcharge =>
      obtain ⟨hv, hserve⟩ := serve_disabled hw hother hevent himplied
      rw [hserve]
      exact (disableReservation_lost hv).2 reservation v' hexternal hlookup
        hcharge hforfeits
  | @cooldowns _ timerReady hevents hexpired =>
      have hsweep : SameRelays w (sweepCooldowns (c.instant w.reads) w.tick) :=
        ⟨rfl, rfl⟩
      obtain ⟨w', hmeet, hlost⟩ := meetReservationTarget_lost hw
        (hsweep.trans (retryDials_sameRelays c _ _)) hforfeits
      have hserve : serve c (.poll timerReady) w =
          meetReservationTarget c (retryDials c
            (dueDials w.toBehaviour (c.instant w.reads))
            (sweepCooldowns (c.instant w.reads) w.tick)) >>= fun u => pure u := by
        have hexpired' : (values w.tick.reservationCooldowns).any
            (fun deadline => decide (deadline ≤ c.instant w.reads)) = true :=
          hexpired
        have hdue : dueDials w.tick.toBehaviour (c.instant w.reads) =
            dueDials w.toBehaviour (c.instant w.reads) := rfl
        simp only [serve, pollPass, hevents, pollCooldowns, hexpired', hdue,
          meetReservationTargetIf, true_or, if_true]
        cases meetReservationTarget c _ <;> rfl
      rw [hserve, hmeet]
      exact ⟨_, rfl, hlost⟩

/-! ## The reports -/

/-- The event that reports the flag. -/
def availabilityEvent (available : Bool) : Event :=
  if available then .relaysAvailable else .noRelaysAvailable

/-- The events about available relays queued so far, in order. -/
def availabilityEvents (history : List Record) : List Event :=
  history.filterMap fun
    | .queued (.generateEvent .relaysAvailable) _ _ => some .relaysAvailable
    | .queued (.generateEvent .noRelaysAvailable) _ _ => some .noRelaysAvailable
    | _ => none

/-- The flag is the one of the last report. -/
def AvailabilityReported (w : World) : Prop :=
  Reports .noRelaysAvailable (availabilityEvents w.history)
    (availabilityEvent w.relaysAvailable)

/-- A change of the flag is reported, and nothing else is reported as one. -/
theorem AvailabilityReported.act {c : Clock} {i : Input} {w w' : World}
    (hw : AvailabilityReported w) (h : Act c i w w') :
    AvailabilityReported w' := by
  cases h with
  | setRelaysAvailable available _ hold =>
      have hevents : ∀ b, availabilityEvents (w.history ++
          [.queued (.generateEvent (availabilityEvent available)) w.reads b]) =
            availabilityEvents w.history ++ [availabilityEvent available] := by
        intro b
        rw [availabilityEvents, List.filterMap_append]
        cases available <;> rfl
      have hne : availabilityEvent available ≠
          availabilityEvent w.relaysAvailable := by
        rw [hold]
        cases available <;> decide
      have hnext := hw.snoc hne
      rw [← hevents] at hnext
      exact hnext
  | _ =>
      first
      | exact hw
      | simpa [AvailabilityReported, availabilityEvents, World.queue,
          openReservation, changeStatus, cooledDown, recordFailure,
          Autorelay.removeReservation, World.record, World.tick] using hw

theorem Reachable.availabilityReported {c : Clock} {config : Config}
    {contract : Contract} {w : World} (h : Reachable c config contract w) :
    AvailabilityReported w := by
  refine h.of_acts ?_ ?_ ?_ ?_
  · exact fun _ _ _ => Reports.nil
  · intro i w hw _
    simpa [AvailabilityReported, availabilityEvents, World.record] using hw
  · exact fun _ _ _ _ hw hact => hw.act hact
  · intro w w' hw hs
    have havailable : w'.relaysAvailable = w.relaysAvailable := by rw [hs.same]
    rw [AvailabilityReported, hs.history_eq, havailable]
    exact hw

/-! ## Every reachable state -/

/-- While the behaviour is created there are no connections to forfeit. -/
theorem newWithConfig_flagRight (c : Clock) (config : Config) (reads : ℕ)
    (nextListener : ListenerId) (nextConnection : ConnectionId) :
    Ensures (newWithConfig c config reads nextListener nextConnection)
      FlagRight := by
  have hcreate := addStaticRelays_ensures (c := c)
    (P := fun w => FlagRight w ∧ ∀ p k, (p, k) ∉ w.connections) ?_
    config.staticRelays.entries
    (w := World.fresh config reads nextListener nextConnection)
    ⟨rfl, fun p k => AList.notMem_empty (p, k)⟩
  · exact hcreate.mono fun _ h => h.1
  · rintro peerId address w ⟨hw, hnone⟩
    have hkeeps : ∀ u, Retargets c (.addStaticRelay peerId address) w u →
        ¬Forfeits c u := by
      rintro u ⟨⟩ ⟨hhop, -⟩
      obtain ⟨p, k, info, hinfo, -⟩ := (hasHopPeer_iff _).mp hhop
      rw [(queueStaticDial_sameRelays c peerId _ _).1] at hinfo
      exact hnone p k (mem_of_lookup hinfo)
    apply ((addStaticRelay_steady hkeeps).and
      (addStaticRelay_ensures c peerId address w)).mono
    rintro w' ⟨hsteady, hacts⟩
    exact ⟨hsteady.flagRight hw,
      fun p k hmem => hnone p k (hacts.tracked_of_event_eq_none rfl hmem)⟩

theorem Reachable.flagRight {c : Clock} {config : Config} {w : World}
    (h : Reachable c config
      (fun w i => Contract.newConnections w i ∧ Keeps c w i) w) :
    FlagRight w := by
  induction h with
  | new h => exact (newWithConfig_flagRight c config _ _ _).of_eq_ok h
  | @step w w' i _ hcontract h ih =>
      exact (serve_flagRight (w := w.record (.input i)) ih hcontract.1
        hcontract.2).of_eq_ok h
  | @shuffle w w' _ hs ih =>
      have havailable : w'.relaysAvailable = w.relaysAvailable := by rw [hs.same]
      have hhop : hasHopPeer w'.toBehaviour = hasHopPeer w.toBehaviour :=
        List.Perm.any_eq hs.connections
      rw [FlagRight, havailable, hhop]
      exact ih

/-- The flag is true exactly if some connection supports the protocol; the
events alternate, `RelaysAvailable` first, and the last one tells the same. -/
def Truthful (w : World) : Prop :=
  (w.relaysAvailable = true ↔ ∃ p k info,
    w.connections.lookup (p, k) = some info ∧ info.relayStatus = .supported) ∧
  (availabilityEvents w.history).IsChain (· ≠ ·) ∧
  (∀ first, (availabilityEvents w.history).head? = some first →
    first = .relaysAvailable) ∧
  ((availabilityEvents w.history).getLast? = some .relaysAvailable ↔
    ∃ p k info, w.connections.lookup (p, k) = some info ∧
      info.relayStatus = .supported)

theorem availabilityEvents_ne_statusChanged {history : List Record}
    {event : Event} (h : event ∈ availabilityEvents history) :
    event = .relaysAvailable ∨ event = .noRelaysAvailable := by
  simp only [availabilityEvents, List.mem_filterMap] at h
  obtain ⟨record, -, hrecord⟩ := h
  split at hrecord
  · exact Or.inl (Option.some_inj.mp hrecord).symm
  · exact Or.inr (Option.some_inj.mp hrecord).symm
  · cases hrecord

theorem truthful_of_flagRight {w : World} (hw : FlagRight w)
    (hreports : AvailabilityReported w) : Truthful w := by
  have hflag : w.relaysAvailable = true ↔ ∃ p k info,
      w.connections.lookup (p, k) = some info ∧
        info.relayStatus = .supported := by
    rw [hw, hasHopPeer_iff]
  refine ⟨hflag, hreports.isChain, ?_, ?_⟩
  · intro first hfirst
    rcases availabilityEvents_ne_statusChanged (List.mem_of_head? hfirst) with
      heq | heq
    · exact heq
    · exact absurd heq (hreports.head_ne hfirst)
  · rw [← hflag]
    have hnow := hreports.now_eq
    cases havailable : w.relaysAvailable with
    | true =>
        rw [havailable] at hnow
        refine iff_of_true ?_ rfl
        cases hlast : (availabilityEvents w.history).getLast? with
        | none =>
            rw [hlast] at hnow
            cases hnow
        | some last =>
            rw [hlast] at hnow
            exact congrArg some hnow.symm
    | false =>
        rw [havailable] at hnow
        refine iff_of_false ?_ nofun
        intro hlast
        rw [hlast] at hnow
        cases hnow

/-- The flag and the events are truthful as long as no call but a handler event
runs the selection where it forfeits every supported connection, and a call
that does so breaks them at once. -/
theorem relay_availability_truthful (c : Clock) (config : Config) :
    (∀ w, Reachable c config
        (fun w i => Contract.newConnections w i ∧ Keeps c w i) w →
      Truthful w) ∧
    ∀ w, Reachable c config
        (fun w i => Contract.newConnections w i ∧ Keeps c w i) w →
      ∀ i, Contract.addressEvents w i → ¬Keeps c w i →
        ∃ w', step c i w = .ok w' ∧ ¬Truthful w' := by
  constructor
  · exact fun w hw => truthful_of_flagRight hw.flagRight hw.availabilityReported
  · intro w hw i hother hnot
    simp only [Keeps, not_forall, not_not] at hnot
    obtain ⟨u, hretargets, hforfeits⟩ := hnot
    have hright : FlagRight (w.record (.input i)) := hw.flagRight
    obtain ⟨w', hw', hlost⟩ := serve_lost hright hother hretargets hforfeits
    refine ⟨w', hw', ?_⟩
    intro htruthful
    apply hlost.not_flagRight
    rw [FlagRight, Bool.eq_iff_iff, hasHopPeer_iff]
    exact htruthful.1

/-- Check that an established connection is not tracked yet. -/
def isNewConnection (w : World) (i : Input) : Bool :=
  match i with
  | .swarm (.connectionEstablished p k _) _ _ =>
      decide ((p, k) ∉ w.connections)
  | _ => true

theorem newConnections_of_isNewConnection (i : Input) (w : World)
    (h : isNewConnection w i = true) : Contract.newConnections w i := by
  intro p k endpoint hevent
  obtain ⟨addresses, change, rfl⟩ := Input.eq_swarm hevent
  exact of_decide_eq_true h

/-- A peer connects from the address, and its handler reports support. -/
def peerConnects (p : PeerId) (k : ConnectionId) (address : Multiaddr) :
    List Input :=
  [.swarm (.connectionEstablished p k (.dialer address)) [] false,
    .handler p k .supported]

theorem relay_availability_truthful_comesAndGoes :
    ∃ w, Reachable steadyClock Config.default
        (fun w i => Contract.newConnections w i ∧ Keeps steadyClock w i) w ∧
      availabilityEvents w.history =
        [.relaysAvailable, .noRelaysAvailable, .relaysAvailable] ∧
      Truthful w := by
  obtain ⟨w, hw, hrun⟩ := exists_reachable_of_runNew
    (c := steadyClock) (f := fun w => availabilityEvents w.history)
    (a := [.relaysAvailable, .noRelaysAvailable, .relaysAvailable])
    (show ∀ i ∈ peerConnects 7 0 [.tcp 4001] ++ [.handler 7 0 .unsupported] ++
        peerConnects 8 1 [.tcp 4002, .p2p 8], ∀ w,
        isNewConnection w i = true →
          Contract.newConnections w i ∧ Keeps steadyClock w i by
      intro i hi w hcheck
      refine ⟨newConnections_of_isNewConnection i w hcheck, ?_⟩
      simp only [peerConnects, List.cons_append, List.nil_append, List.mem_cons,
        List.not_mem_nil, or_false] at hi
      rcases hi with rfl | rfl | rfl | rfl | rfl <;> rintro u (_ | _) <;>
        contradiction)
    (show (runNew steadyClock Config.default isNewConnection
      (peerConnects 7 0 [.tcp 4001] ++ [.handler 7 0 .unsupported] ++
        peerConnects 8 1 [.tcp 4002, .p2p 8])).map _ = _ by decide)
  exact ⟨w, hw, hrun,
    (relay_availability_truthful steadyClock Config.default).1 w hw⟩

/-- The connection of peer 7 has an address that ends in peer 9.  Enabling the
behaviour disqualifies it, and the flag stays up. -/
theorem enabling_leaves_flag_up :
    ∃ w, Reachable steadyClock Config.default
        (fun w i => Contract.newConnections w i ∧ Contract.addressEvents w i) w ∧
      w.relaysAvailable = true ∧
      availabilityEvents w.history = [.relaysAvailable] ∧
      hasHopPeer w.toBehaviour = false ∧ ¬Truthful w := by
  obtain ⟨w, hw, hrun⟩ := exists_reachable_of_runNew
    (c := steadyClock)
    (f := fun w => (w.relaysAvailable, availabilityEvents w.history,
      hasHopPeer w.toBehaviour))
    (a := (true, [.relaysAvailable], false))
    (show ∀ i ∈ .setStatus (some .disable) ::
        peerConnects 7 0 [.tcp 4001, .p2p 9] ++ [.setStatus (some .enable)],
        ∀ w, isNewConnection w i = true →
          Contract.newConnections w i ∧ Contract.addressEvents w i by
      intro i hi w hcheck
      refine ⟨newConnections_of_isNewConnection i w hcheck, ?_⟩
      simp only [peerConnects, List.cons_append, List.nil_append, List.mem_cons,
        List.not_mem_nil, or_false] at hi
      rcases hi with rfl | rfl | rfl | rfl <;> exact nofun)
    (show (runNew steadyClock Config.default isNewConnection
      (.setStatus (some .disable) :: peerConnects 7 0 [.tcp 4001, .p2p 9] ++
        [.setStatus (some .enable)])).map _ = _ by decide)
  simp only [Prod.mk.injEq] at hrun
  obtain ⟨havailable, hevents, hhop⟩ := hrun
  refine ⟨w, hw, havailable, hevents, hhop, ?_⟩
  intro htruthful
  have hsupported := (hasHopPeer_iff _).mpr (htruthful.1.mp havailable)
  rw [hhop] at hsupported
  cases hsupported

end Connexa.Autorelay
