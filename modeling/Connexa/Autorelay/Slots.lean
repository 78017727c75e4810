import Connexa.Autorelay.Reservations

/-!
# No free slot stays unused

Whenever a call frees a slot or creates a candidate, it runs the selection
again before it returns.  The other changes cannot break `SlotsUsed`, provided
no connection ends in the `/p2p` of a foreign peer and every listener stays
with one relay.
-/

namespace Connexa.Autorelay

open HashMap

/-- The listener reported this address at some point of the history. -/
def Reported (history : List Record) (id : ListenerId) (addr : Multiaddr) :
    Prop :=
  ∃ i, Record.input i ∈ history ∧ i.event? = some (.newListenAddr id addr)

/-- Remote addresses do not end in another peer, and one listener reports
relayed addresses through one relay peer only. -/
def Contract.addresses : Contract := fun w i =>
  (∀ p k endpoint, i.ReportsEndpoint p k endpoint →
    ¬endpoint.getRemoteAddress.EndsInOtherPeer p) ∧
  ∀ id addr addr' q q', i.event? = some (.newListenAddr id addr) →
    Reported w.history id addr' → addr.relayPeerId = some q →
      addr'.relayPeerId = some q' → q = q'

/-- What the selection relies on. -/
structure Ready (w : World) : Prop where
  reservations : ReservationInv w
  clean : ∀ i, Record.input i ∈ w.history → ∀ p k endpoint,
    i.ReportsEndpoint p k endpoint →
      ¬endpoint.getRemoteAddress.EndsInOtherPeer p
  own : AddressesOwn w.toBehaviour
  agree : ∀ id addr addr' q q', Reported w.history id addr →
    Reported w.history id addr' → addr.relayPeerId = some q →
      addr'.relayPeerId = some q' → q = q'
  linked : ∀ id q, w.externalReservations.lookup id = some q →
    ∃ addr, Reported w.history id addr ∧ addr.relayPeerId = some q

theorem Reported.mono {history history' : List Record} {id : ListenerId}
    {addr : Multiaddr} (h : Reported history id addr)
    (hsub : ∀ r ∈ history, r ∈ history') : Reported history' id addr := by
  obtain ⟨i, hmem, hi⟩ := h
  exact ⟨i, hsub _ hmem, hi⟩

theorem Act.reported_iff {c : Clock} {i : Input} {w w' : World}
    (h : Act c i w w') {id : ListenerId} {addr : Multiaddr} :
    Reported w'.history id addr ↔ Reported w.history id addr := by
  constructor
  · rintro ⟨j, hj, hevent⟩
    exact ⟨j, h.input_mem hj, hevent⟩
  · intro hreported
    exact hreported.mono fun r hr => h.mem_history hr

/-- The input in charge was checked against the contract. -/
theorem Ready.clean_inCharge {w : World} (h : Ready w) {i : Input}
    (hi : InCharge i w) {p : PeerId} {k : ConnectionId}
    {endpoint : ConnectedPoint} (hreports : i.ReportsEndpoint p k endpoint) :
    ¬endpoint.getRemoteAddress.EndsInOtherPeer p := by
  rcases hi with ⟨status, rfl⟩ | ⟨peerId, address, rfl⟩ | hi
  · rcases hreports with h | h <;> cases h
  · rcases hreports with h | h <;> cases h
  · exact h.clean i hi.mem_history p k endpoint hreports

theorem reported_of_inCharge {i : Input} {w : World} (hi : InCharge i w)
    {id : ListenerId} {addr : Multiaddr}
    (hevent : i.event? = some (.newListenAddr id addr)) :
    Reported w.history id addr := by
  rcases hi with ⟨status, rfl⟩ | ⟨peerId, address, rfl⟩ | hi
  · cases hevent
  · cases hevent
  · exact ⟨i, hi.mem_history, hevent⟩

theorem addressesOwn_insert {b : Behaviour} (h : AddressesOwn b)
    {p : PeerId} {k : ConnectionId} {info : Connection}
    (hinfo : ¬info.addr.EndsInOtherPeer p) :
    AddressesOwn { b with connections := b.connections.insert (p, k) info } := by
  intro p' k' info' hlookup
  simp only [HashMap.lookup_insert] at hlookup
  split at hlookup
  · next heq =>
    cases heq
    cases hlookup
    exact hinfo
  · exact h p' k' info' hlookup

theorem Act.addressesOwn {c : Clock} {i : Input} {w w' : World}
    (h : Act c i w w') (hi : InCharge i w) (hw : Ready w) :
    AddressesOwn w'.toBehaviour := by
  cases h with
  | insertConnection p k endpoint hevent =>
      apply addressesOwn_insert hw.own
      have hclean := hw.clean_inCharge hi (Or.inl hevent)
      unfold Connection.disqualifyConnectionIfRelayed
      split <;> exact hclean
  | setEndpoint p k connection new hevent _ =>
      exact addressesOwn_insert hw.own (hw.clean_inCharge hi (Or.inr hevent))
  | setRelayStatus p k connection status _ hlookup =>
      exact addressesOwn_insert hw.own (hw.own p k connection hlookup)
  | disqualify p k connection hlookup _ =>
      exact addressesOwn_insert hw.own (hw.own p k connection hlookup)
  | eraseConnection p k _ =>
      intro p' k' info hinfo
      exact hw.own p' k' info (lookup_erase_some.mp hinfo).2
  | _ => exact hw.own

theorem Act.linked {c : Clock} {i : Input} {w w' : World}
    (h : Act c i w w') (hi : InCharge i w) (hw : Ready w) :
    ∀ id q, w'.externalReservations.lookup id = some q →
      ∃ addr, Reported w.history id addr ∧ addr.relayPeerId = some q := by
  cases h with
  | addExternal id addr relayPeerId hevent _ _ hpeer =>
      intro id' q hq
      simp only [HashMap.lookup_insert] at hq
      split at hq
      · next heq =>
        cases hq
        subst heq
        exact ⟨addr, reported_of_inCharge hi hevent, hpeer⟩
      · exact hw.linked id' q hq
  | removeExternal id peerId _ _ =>
      intro id' q hq
      exact hw.linked id' q (lookup_erase_some.mp hq).2
  | _ => exact hw.linked

theorem Ready.act {c : Clock} {i : Input} {w w' : World} (hw : Ready w)
    (hi : InCharge i w) (h : Act c i w w') : Ready w' where
  reservations := hw.reservations.act h
  clean := fun j hj => hw.clean j (h.input_mem hj)
  own := h.addressesOwn hi hw
  agree := by
    intro id addr addr' q q' ha ha'
    exact hw.agree id addr addr' q q' (h.reported_iff.mp ha)
      (h.reported_iff.mp ha')
  linked := by
    intro id q hq
    obtain ⟨addr, haddr, hpeer⟩ := h.linked hi hw id q hq
    exact ⟨addr, h.reported_iff.mpr haddr, hpeer⟩

theorem Ready.acts {c : Clock} {i : Input} {w w' : World} (hw : Ready w)
    (hi : InCharge i w) (h : Acts c i w w') : Ready w' ∧ InCharge i w' :=
  h.invariant (fun _ _ hi hw hact => hw.act hi hact) hi hw

theorem Ready.record {w : World} (hw : Ready w) {i : Input}
    (hcontract : Contract.addresses w i) :
    Ready (w.record (.input i)) := by
  have hreported : ∀ id addr, Reported (w.record (.input i)).history id addr →
      Reported w.history id addr ∨
        i.event? = some (.newListenAddr id addr) := by
    rintro id addr ⟨j, hj, hevent⟩
    rcases List.mem_append.mp hj with hj | hj
    · exact Or.inl ⟨j, hj, hevent⟩
    · cases List.mem_singleton.mp hj
      exact Or.inr hevent
  constructor
  · exact hw.reservations.record i
  · intro j hj
    rcases List.mem_append.mp hj with hj | hj
    · exact hw.clean j hj
    · cases List.mem_singleton.mp hj
      exact hcontract.1
  · exact hw.own
  · intro id addr addr' q q' ha ha' hq hq'
    rcases hreported id addr ha with ha | ha <;>
      rcases hreported id addr' ha' with ha' | ha'
    · exact hw.agree id addr addr' q q' ha ha' hq hq'
    · exact (hcontract.2 id addr' addr q' q ha' ha hq' hq).symm
    · exact hcontract.2 id addr addr' q q' ha ha' hq hq'
    · rw [ha] at ha'
      cases ha'
      rw [hq] at hq'
      exact Option.some.inj hq'
  · intro id q hq
    obtain ⟨addr, haddr, hpeer⟩ := hw.linked id q hq
    exact ⟨addr, haddr.mono fun r hr => List.mem_append_left _ hr, hpeer⟩

theorem Ready.shuffle {w w' : World} (hw : Ready w) (h : Shuffled w w') :
    Ready w' where
  reservations := hw.reservations.shuffle h
  clean := by
    rw [h.history_eq]
    exact hw.clean
  own := by
    intro p k info hinfo
    rw [lookup_of_sameEntries h.connections] at hinfo
    exact hw.own p k info hinfo
  agree := by
    rw [h.history_eq]
    exact hw.agree
  linked := by
    intro id q hq
    rw [lookup_of_sameEntries h.externalReservations] at hq
    rw [h.history_eq]
    exact hw.linked id q hq

/-! ## Changes that use no slot and free none -/

/-- Coverage may grow; supported peers and cooldown entries may go with it. -/
theorem SlotsUsed.mono {b b' : Behaviour} (h : SlotsUsed b)
    (hstatus : b'.status = b.status) (hconfig : b'.config = b.config)
    (hcovered : coveredPeers b ⊆ coveredPeers b')
    (hpeers : ∀ p k info, b'.connections.lookup (p, k) = some info →
      info.relayStatus = .supported →
        (∃ k' info', b.connections.lookup (p, k') = some info' ∧
          info'.relayStatus = .supported) ∧
        (p ∈ b.reservationCooldowns →
          p ∈ coveredPeers b' ∨ p ∈ b'.reservationCooldowns)) :
    SlotsUsed b' := by
  intro henabled hlt p k info hinfo hsup
  obtain ⟨⟨k', info', hinfo', hsup'⟩, hcooling⟩ := hpeers p k info hinfo hsup
  have hlt' : (coveredPeers b).card < b.config.maxReservations.get :=
    lt_of_le_of_lt (Finset.card_le_card hcovered) (by rwa [hconfig] at hlt)
  rcases h (hstatus ▸ henabled) hlt' p k' info' hinfo' hsup' with hp | hp
  · exact Or.inl (hcovered hp)
  · exact hcooling hp

/-- Nothing that `SlotsUsed` reads has changed. -/
theorem SlotsUsed.of_same {b b' : Behaviour} (h : SlotsUsed b)
    (hstatus : b'.status = b.status) (hconfig : b'.config = b.config)
    (hconnections : b'.connections = b.connections)
    (hreservations : b'.reservations = b.reservations)
    (hexternal : b'.externalReservations = b.externalReservations)
    (hcooldowns : b'.reservationCooldowns = b.reservationCooldowns) :
    SlotsUsed b' := by
  refine h.mono hstatus hconfig
    (coveredPeers_congr hreservations hexternal).ge ?_
  intro p k info hinfo hsup
  rw [hconnections] at hinfo
  rw [hcooldowns]
  exact ⟨⟨k, info, hinfo, hsup⟩, Or.inr⟩

/-- A changed connection does not become supported. -/
theorem SlotsUsed.insertConnection {b : Behaviour} (h : SlotsUsed b)
    {p : PeerId} {k : ConnectionId} {info : Connection}
    (hinfo : info.relayStatus = .supported → ∃ old,
      b.connections.lookup (p, k) = some old ∧
        old.relayStatus = .supported) :
    SlotsUsed { b with connections := b.connections.insert (p, k) info } := by
  refine h.mono rfl rfl (Finset.Subset.refl _) ?_
  intro p' k' info' hlookup hsup
  refine ⟨?_, Or.inr⟩
  simp only [HashMap.lookup_insert] at hlookup
  split at hlookup
  · next heq =>
    cases heq
    cases hlookup
    obtain ⟨old, hold, holdSup⟩ := hinfo hsup
    exact ⟨k, old, hold, holdSup⟩
  · exact ⟨k', info', hlookup, hsup⟩

/-- The input neither frees a slot nor creates a candidate. -/
structure Input.Quiet (i : Input) : Prop where
  noStatus : ∀ status, i ≠ .setStatus status
  noHandler : ∀ p k out, i ≠ .handler p k out
  noPoll : ∀ timerReady, i ≠ .poll timerReady
  noDisable : ∀ id, ¬i.Disables id

theorem SlotsUsed.openReservation {w : World} (h : SlotsUsed w.toBehaviour)
    (hissued : ListenersIssued w) (peerId : PeerId)
    (connectionId : ConnectionId) (info : Connection) (full : Multiaddr) :
    SlotsUsed
      (openReservation w peerId connectionId info full).toBehaviour := by
  refine h.mono rfl rfl ?_ fun p k info hinfo hsup => ⟨⟨k, info, hinfo, hsup⟩, Or.inr⟩
  rw [coveredPeers_openReservation hissued]
  exact Finset.subset_insert _ _

/-- A reservation that became active still covers its peer. -/
theorem coveredPeers_activate {b : Behaviour} {id : ListenerId}
    {r : Reservation} (hlookup : b.reservations.lookup id = some r)
    (status : ReservationStatus) :
    coveredPeers b ⊆ coveredPeers { b with
      reservations := b.reservations.insert id { r with status := status } } := by
  intro p hp
  rw [mem_coveredPeers] at hp ⊢
  rcases hp with ⟨id', r', hr', hp⟩ | hp
  · left
    by_cases hid : id' = id
    · subst hid
      rw [hlookup] at hr'
      cases hr'
      exact ⟨id', _, lookup_insert_self _ _ _, hp⟩
    · refine ⟨id', r', ?_, hp⟩
      simp only [HashMap.lookup_insert]
      rw [if_neg hid]
      exact hr'
  · exact Or.inr hp

/-- A listener that keeps its relay keeps it covered. -/
theorem coveredPeers_addExternal {b : Behaviour} {id : ListenerId}
    {q : PeerId}
    (hsame : ∀ q', b.externalReservations.lookup id = some q' → q' = q) :
    coveredPeers b ⊆ coveredPeers { b with
      externalReservations := b.externalReservations.insert id q } := by
  intro p hp
  rw [mem_coveredPeers] at hp ⊢
  rcases hp with hp | ⟨id', hid'⟩
  · exact Or.inl hp
  · right
    refine ⟨id', ?_⟩
    simp only [HashMap.lookup_insert]
    split
    · next heq =>
      subst heq
      rw [hsame p hid']
    · exact hid'

theorem SlotsUsed.act {c : Clock} {i : Input} {w w' : World}
    (hslots : SlotsUsed w.toBehaviour) (hw : Ready w) (hi : InCharge i w)
    (hquiet : i.Quiet) (h : Act c i w w') : SlotsUsed w'.toBehaviour := by
  cases h with
  | changeStatus status hstatus _ =>
      obtain ⟨requested, rfl⟩ := hstatus
      exact absurd rfl (hquiet.noStatus requested)
  | setRelayStatus p k connection status hout _ =>
      obtain ⟨out, rfl⟩ := hout
      exact absurd rfl (hquiet.noHandler p k out)
  | sweep now hpoll _ _ =>
      obtain ⟨timerReady, rfl⟩ := hpoll
      exact absurd rfl (hquiet.noPoll timerReady)
  | failReservation id _ _ hdis _ _ _ => exact absurd hdis (hquiet.noDisable id)
  | removeExternal id _ hdis _ => exact absurd hdis (hquiet.noDisable id)
  | removeReservation id hdis _ => exact absurd hdis (hquiet.noDisable id)
  | insertConnection p k endpoint _ =>
      apply hslots.insertConnection
      intro hsup
      unfold Connection.disqualifyConnectionIfRelayed at hsup
      split at hsup <;> cases hsup
  | eraseConnection p k _ =>
      refine hslots.mono rfl rfl (Finset.Subset.refl _) ?_
      intro p' k' info hinfo hsup
      exact ⟨⟨k', info, (lookup_erase_some.mp hinfo).2, hsup⟩, Or.inr⟩
  | setEndpoint p k connection new _ hlookup =>
      exact hslots.insertConnection fun hsup => ⟨connection, hlookup, hsup⟩
  | disqualify p k connection hlookup _ =>
      exact hslots.insertConnection fun hsup => by cases hsup
  | clearFailure peerId _ hgone _ =>
      refine hslots.mono rfl rfl (Finset.Subset.refl _) ?_
      intro p k info hinfo hsup
      refine ⟨⟨k, info, hinfo, hsup⟩, fun hp => Or.inr ?_⟩
      have hne : p ≠ peerId := by
        rintro rfl
        have htracked : hasConnection w.toBehaviour p = true :=
          any_entries_iff.mpr ⟨(p, k), info, hinfo, by simp⟩
        rw [hgone] at htracked
        cases htracked
      exact AList.mem_erase.mpr ⟨hne, hp⟩
  | activate id addr reservation _ _ hlookup _ =>
      have hcovered := coveredPeers_activate hlookup .active
      refine hslots.mono rfl rfl hcovered ?_
      intro p k info hinfo hsup
      refine ⟨⟨k, info, hinfo, hsup⟩, fun hp => ?_⟩
      by_cases hpeer : p = reservation.peerId
      · exact Or.inl (hcovered
          (mem_coveredPeers.mpr (Or.inl ⟨id, reservation, hlookup, hpeer.symm⟩)))
      · exact Or.inr (AList.mem_erase.mpr ⟨hpeer, hp⟩)
  | addExternal id addr relayPeerId hevent _ _ hpeer =>
      refine hslots.mono rfl rfl (coveredPeers_addExternal ?_)
        fun p k info hinfo hsup => ⟨⟨k, info, hinfo, hsup⟩, Or.inr⟩
      intro q' hq'
      obtain ⟨addr', haddr', hpeer'⟩ := hw.linked id q' hq'
      exact hw.agree id addr' addr q' relayPeerId haddr'
        (reported_of_inCharge hi hevent) hpeer' hpeer
  | reserve peerId connectionId info full _ _ _ _ _ _ _ =>
      exact hslots.openReservation hw.reservations.issued _ _ _ _
  | _ => exact hslots.of_same rfl rfl rfl rfl rfl rfl

theorem SlotsUsed.acts {c : Clock} {i : Input} {w w' : World}
    (hslots : SlotsUsed w.toBehaviour) (hw : Ready w) (hi : InCharge i w)
    (hquiet : i.Quiet) (h : Acts c i w w') : SlotsUsed w'.toBehaviour := by
  refine (h.invariant (P := fun w => Ready w ∧ SlotsUsed w.toBehaviour) ?_ hi
    ⟨hw, hslots⟩).1.2
  intro v v' hi hv hact
  exact ⟨hv.1.act hi hact, hv.2.act hv.1 hi hquiet hact⟩

/-! ## Calls that select again -/

theorem meetReservationTarget_settles (c : Clock) {w : World} (hw : Ready w) :
    Ensures (meetReservationTarget c w) fun w' => SlotsUsed w'.toBehaviour := by
  obtain ⟨w', hw', -⟩ := meetReservationTarget_acts c (.poll false) w
  rw [hw']
  exact meetReservationTarget_slotsUsed hw.reservations.issued hw.own hw'

theorem slotsUsed_of_disabled {b : Behaviour} (h : b.status = .disable) :
    SlotsUsed b := by
  intro henabled
  rw [h] at henabled
  cases henabled

theorem SlotsUsed.updateRelayAvailability {w : World}
    (h : SlotsUsed w.toBehaviour) :
    SlotsUsed (updateRelayAvailability w).toBehaviour := by
  rcases updateRelayAvailability_cases w with ⟨-, heq⟩ | ⟨b, -, -, heq⟩
  · rwa [heq]
  · rw [heq]
    exact h.of_same rfl rfl rfl rfl rfl rfl

theorem determineStatusFromExternalAddresses_slotsUsed
    (c : Clock) {w : World} (hw : Ready w) (hslots : SlotsUsed w.toBehaviour) :
    Ensures (determineStatusFromExternalAddresses c w)
      fun w' => SlotsUsed w'.toBehaviour := by
  unfold determineStatusFromExternalAddresses
  dsimp only
  generalize (if (w.externalAddresses.any fun addr => !addr.isRelayed) = true
    then Status.disable else Status.enable) = status
  split
  · next hne =>
    have hchange := hw.act (c := c) (Or.inl ⟨none, rfl⟩)
      (.changeStatus w status ⟨none, rfl⟩ hne)
    cases status with
    | enable => exact meetReservationTarget_settles c hchange
    | disable =>
        apply slotsUsed_of_disabled
        obtain ⟨events, history, h⟩ := queueRemoveListeners_frame
          (changeStatus .disable w).reservations.keys (changeStatus .disable w)
        rw [removeAllReservations, h]
        rfl
  · exact hslots

theorem setStatus_slotsUsed
    (c : Clock) (status : Option Status) {w : World} (hw : Ready w)
    (hslots : SlotsUsed w.toBehaviour) :
    Ensures (setStatus c status w) fun w' => SlotsUsed w'.toBehaviour := by
  have hauto : ∀ auto, Ready { w with autoStatusChange := auto } := fun auto =>
    hw.act (c := c) (Or.inl ⟨none, rfl⟩) (.setAuto w auto ⟨_, rfl⟩)
  have happly : Ensures (applyStatus c status w)
      fun w' => SlotsUsed w'.toBehaviour := by
    unfold applyStatus
    split
    · next status =>
      dsimp only
      split
      · next hne =>
        have hchange := (hauto false).act (c := c) (Or.inl ⟨none, rfl⟩)
          (.changeStatus _ status ⟨none, rfl⟩ (Ne.symm hne))
        unfold meetReservationTargetIf
        cases status with
        | enable => exact meetReservationTarget_settles c hchange
        | disable => exact slotsUsed_of_disabled rfl
      · exact hslots.of_same rfl rfl rfl rfl rfl rfl
    · exact determineStatusFromExternalAddresses_slotsUsed c (hauto true)
        (hslots.of_same rfl rfl rfl rfl rfl rfl)
  apply happly.bind
  intro u hu
  exact hu.of_same rfl rfl rfl rfl rfl rfl

theorem disableReservation_slotsUsed
    (c : Clock) {i : Input} {id : ListenerId} (hdis : i.Disables id)
    (failed : Bool) {w : World} (hi : InCharge i w) (hw : Ready w)
    (hslots : SlotsUsed w.toBehaviour) :
    Ensures (disableReservation c id failed w)
      fun w' => SlotsUsed w'.toBehaviour := by
  unfold disableReservation
  split
  · next peerId hexternal =>
    exact meetReservationTarget_settles c
      (hw.act (c := c) hi (.removeExternal w id peerId hdis hexternal))
  · next hexternal =>
    split
    · next v hfound =>
      -- no such reservation: erasing it changes no lookup
      have hnone : w.reservations.lookup id = none := congrArg Prod.fst hfound
      have hv : (removeReservation id w).2 = v := congrArg Prod.snd hfound
      rw [← hv]
      refine hslots.mono rfl rfl ?_
        fun p k info hinfo hsup => ⟨⟨k, info, hinfo, hsup⟩, Or.inr⟩
      intro p hp
      rw [mem_coveredPeers] at hp ⊢
      rcases hp with ⟨id', r, hr, hp⟩ | hp
      · refine Or.inl ⟨id', r, lookup_erase_some.mpr ⟨?_, hr⟩, hp⟩
        rintro rfl
        rw [hnone] at hr
        cases hr
      · exact Or.inr hp
    · next reservation v hfound =>
      have hlookup : w.reservations.lookup id = some reservation :=
        congrArg Prod.fst hfound
      have hcharge := chargeFailure_ensures c hdis failed hexternal hlookup
      rw [hfound] at hcharge
      apply hcharge.bind
      intro u hu
      exact meetReservationTarget_settles c
        (hw.acts hi (hu.trans (recordPreviousRelay_acts c i _ _ u))).1

theorem onConnectionHandlerEvent_slotsUsed
    (c : Clock) (peerId : PeerId) (connectionId : ConnectionId)
    (out : HandlerOut) {w : World}
    (hi : InCharge (.handler peerId connectionId out) w) (hw : Ready w)
    (hslots : SlotsUsed w.toBehaviour) :
    Ensures (onConnectionHandlerEvent c peerId connectionId out w)
      fun w' => SlotsUsed w'.toBehaviour := by
  unfold onConnectionHandlerEvent
  split
  · exact hslots
  · next connection hlookup =>
    split
    · split
      · exact hslots
      · have hset := hw.act (c := c) hi (.setRelayStatus w peerId connectionId
          connection .supported ⟨_, rfl⟩ hlookup)
        apply (meetReservationTarget_settles c hset).bind
        intro u hu
        exact hu.updateRelayAvailability
    · have hset : SlotsUsed { w.toBehaviour with
          connections := w.connections.insert (peerId, connectionId)
            { connection with relayStatus := .notSupported } } :=
        hslots.insertConnection fun hsup => by cases hsup
      apply SlotsUsed.updateRelayAvailability
      dsimp only
      split
      · exact hset
      · obtain ⟨events, history, h⟩ := queueRemoveListeners_frame
          (listenersOf _ peerId) { w with
            connections := w.connections.insert (peerId, connectionId)
              { connection with relayStatus := .notSupported } }
        rw [h]
        exact hset.of_same rfl rfl rfl rfl rfl rfl

theorem quiet_addStaticRelay (p : PeerId) (address : Multiaddr) :
    (Input.addStaticRelay p address).Quiet where
  noStatus := fun _ h => by cases h
  noHandler := fun _ _ _ h => by cases h
  noPoll := fun _ h => by cases h
  noDisable := by
    rintro id (h | ⟨_, h⟩) <;> cases h

theorem retryDials_slotsUsed
    (c : Clock) (timerReady : Bool) (due : List PeerId) {w : World}
    (hi : InCharge (.poll timerReady) w) (hw : Ready w)
    (hslots : SlotsUsed w.toBehaviour) :
    SlotsUsed (retryDials c due w).toBehaviour := by
  induction due generalizing w with
  | nil => exact hslots
  | cons peerId rest ih =>
      have hclear : Act c (.poll timerReady) w { w with
          staticDialCooldowns := w.staticDialCooldowns.erase peerId } :=
        .clearDialCooldown w peerId (Or.inr ⟨timerReady, rfl⟩)
      have hready := hw.act hi hclear
      have hpolls : (Input.poll timerReady).Dials peerId :=
        Or.inr (Or.inr ⟨timerReady, rfl⟩)
      have hredial := redialStaticRelay_acts c hpolls
        { w with staticDialCooldowns := w.staticDialCooldowns.erase peerId }
      obtain ⟨hready', hi'⟩ := hready.acts (hclear.inCharge hi) hredial
      have hcleared : SlotsUsed { w with
          staticDialCooldowns :=
            w.staticDialCooldowns.erase peerId }.toBehaviour :=
        hslots.of_same rfl rfl rfl rfl rfl rfl
      apply ih hi' hready'
      -- a dial is queued alike for every input, so a quiet one will do
      exact hcleared.acts hready
        (Or.inr (Or.inl ⟨peerId, [], rfl⟩)) (quiet_addStaticRelay peerId [])
        (redialStaticRelay_acts c (Or.inl ⟨[], rfl⟩) _)

/-- A sweep that finds no ended cooldown keeps every entry. -/
theorem SlotsUsed.sweepCooldowns {now : Instant} {w : World}
    (h : SlotsUsed w.toBehaviour)
    (hnone : (values w.reservationCooldowns).any
      (fun deadline => decide (deadline ≤ now)) = false) :
    SlotsUsed (sweepCooldowns now w).toBehaviour := by
  refine h.mono rfl rfl (Finset.Subset.refl _) ?_
  intro p k info hinfo hsup
  refine ⟨⟨k, info, hinfo, hsup⟩, fun hp => Or.inr ?_⟩
  obtain ⟨deadline, hdeadline⟩ := mem_iff_exists_lookup.mp hp
  have hlate : ¬deadline ≤ now := by
    have hmem : deadline ∈ values w.reservationCooldowns :=
      mem_values_iff.mpr ⟨p, hdeadline⟩
    simpa using List.any_eq_false.mp hnone deadline hmem
  exact mem_of_lookup (lookup_retain_some.mpr
    ⟨hdeadline, decide_eq_true (not_le.mp hlate)⟩)

theorem pollCooldowns_slotsUsed
    (c : Clock) (timerReady : Bool) {w : World}
    (hi : InCharge (.poll timerReady) w) (hw : Ready w)
    (hslots : SlotsUsed w.toBehaviour) :
    Ensures (Prod.snd <$> pollCooldowns c timerReady w)
      fun w' => SlotsUsed w'.toBehaviour := by
  have htick : SlotsUsed w.tick.toBehaviour := hslots
  unfold pollCooldowns
  dsimp only
  split
  · have hsweep : Acts c (.poll timerReady) w
        (Autorelay.sweepCooldowns (c.instant w.reads) w.tick) :=
      (Acts.single (.tick w)).tail
        (.sweep w.tick _ ⟨timerReady, rfl⟩ (Nat.succ_pos _) rfl)
    obtain ⟨hready, hi'⟩ := hw.acts hi hsweep
    have hretry := retryDials_acts c timerReady
      (dueDials w.tick.toBehaviour (c.instant w.reads))
      (Autorelay.sweepCooldowns (c.instant w.reads) w.tick)
    have hmeet : Ensures (meetReservationTargetIf c
        ((values w.tick.reservationCooldowns).any
          fun deadline => decide (deadline ≤ c.instant w.reads))
        (retryDials c (dueDials w.tick.toBehaviour (c.instant w.reads))
          (Autorelay.sweepCooldowns (c.instant w.reads) w.tick)))
        fun w' => SlotsUsed w'.toBehaviour := by
      unfold meetReservationTargetIf
      split
      · exact meetReservationTarget_settles c (hready.acts hi' hretry).1
      · next hnone =>
        exact retryDials_slotsUsed c timerReady _ hi' hready
          (htick.sweepCooldowns (Bool.eq_false_of_not_eq_true hnone))
    generalize meetReservationTargetIf c _ _ = x at hmeet ⊢
    cases x with
    | error e => exact hmeet
    | ok u => exact hmeet
  · split
    · exact htick.of_same rfl rfl rfl rfl rfl rfl
    · exact htick.of_same rfl rfl rfl rfl rfl rfl

theorem pollPass_slotsUsed
    (c : Clock) (timerReady : Bool) {w : World}
    (hi : InCharge (.poll timerReady) w) (hw : Ready w)
    (hslots : SlotsUsed w.toBehaviour) :
    Ensures (Prod.snd <$> pollPass c timerReady w)
      fun w' => SlotsUsed w'.toBehaviour := by
  unfold pollPass
  split
  · exact hslots.of_same rfl rfl rfl rfl rfl rfl
  · have hpoll := pollCooldowns_slotsUsed c timerReady hi hw hslots
    generalize pollCooldowns c timerReady w = x at hpoll ⊢
    cases x with
    | error e => exact hpoll
    | ok r =>
        obtain ⟨again, u⟩ := r
        cases again with
        | true => exact hpoll
        | false => exact SlotsUsed.of_same hpoll rfl rfl rfl rfl rfl rfl

theorem onExternalAddresses_slotsUsed
    (c : Clock) (addresses : List Multiaddr) (change : Bool) {w : World}
    (hw : Ready w) (hslots : SlotsUsed w.toBehaviour) :
    Ensures (onExternalAddresses c addresses change w)
      fun w' => SlotsUsed w'.toBehaviour := by
  have hset : SlotsUsed
      { w with externalAddresses := addresses }.toBehaviour :=
    hslots.of_same rfl rfl rfl rfl rfl rfl
  have hready := hw.act (c := c) (Or.inl ⟨none, rfl⟩)
    (.setExternalAddresses w addresses ⟨_, rfl⟩)
  unfold onExternalAddresses
  dsimp only
  split
  · exact determineStatusFromExternalAddresses_slotsUsed c hready hset
  · exact hset

/-- An event that is no report of a closed or failed listener is quiet. -/
theorem quiet_of_event {i : Input} {event : FromSwarm}
    (hi : i.event? = some event)
    (herror : ∀ id, event ≠ .listenerError id)
    (hclosed : ∀ id reasonIsErr, event ≠ .listenerClosed id reasonIsErr) :
    i.Quiet where
  noStatus := by
    rintro status rfl
    cases hi
  noHandler := by
    rintro p k out rfl
    cases hi
  noPoll := by
    rintro timerReady rfl
    cases hi
  noDisable := by
    rintro id (h | ⟨reasonIsErr, h⟩)
    · rw [hi] at h
      exact herror id (Option.some.inj h)
    · rw [hi] at h
      exact hclosed id reasonIsErr (Option.some.inj h)

theorem dispatchSwarmEvent_slotsUsed
    (c : Clock) {i : Input} {event : FromSwarm} (hevent : i.event? = some event)
    {w : World} (hi : InCharge i w) (hw : Ready w)
    (hslots : SlotsUsed w.toBehaviour) :
    Ensures (dispatchSwarmEvent c event w)
      fun w' => SlotsUsed w'.toBehaviour := by
  have hquiet : i.Quiet → Ensures (dispatchSwarmEvent c event w)
      fun w' => SlotsUsed w'.toBehaviour := fun hquiet =>
    (dispatchSwarmEvent_ensures c hevent w).mono
      fun w' hacts => hslots.acts hw hi hquiet hacts
  cases event with
  | listenerError id =>
      exact disableReservation_slotsUsed c (Or.inl hevent) true hi hw hslots
  | listenerClosed id reasonIsErr =>
      exact disableReservation_slotsUsed c (Or.inr ⟨_, hevent⟩) reasonIsErr hi
        hw hslots
  | _ =>
      exact hquiet (quiet_of_event hevent (fun _ h => by cases h)
        fun _ _ h => by cases h)

theorem serve_slotsUsed
    (c : Clock) {i : Input} {w : World} (hi : InCharge i w) (hw : Ready w)
    (hslots : SlotsUsed w.toBehaviour) :
    Ensures (serve c i w) fun w' => SlotsUsed w'.toBehaviour := by
  cases i with
  | setStatus status => exact setStatus_slotsUsed c status hw hslots
  | addStaticRelay peerId address =>
      exact (addStaticRelay_ensures c peerId address w).mono fun w' hacts =>
        hslots.acts hw hi (quiet_addStaticRelay peerId address) hacts
  | removeStaticRelay peerId => exact hslots.of_same rfl rfl rfl rfl rfl rfl
  | removeAllReservations =>
      obtain ⟨events, history, h⟩ :=
        queueRemoveListeners_frame w.reservations.keys w
      change SlotsUsed (queueRemoveListeners w.reservations.keys w).toBehaviour
      rw [h]
      exact hslots.of_same rfl rfl rfl rfl rfl rfl
  | swarm event addresses change =>
      have hboth : Ensures (onExternalAddresses c addresses change w) fun u =>
          Acts c (.setStatus none) w u ∧ SlotsUsed u.toBehaviour :=
        (onExternalAddresses_ensures c addresses change w).and
          (onExternalAddresses_slotsUsed c addresses change hw hslots)
      apply hboth.bind
      intro u hu
      exact dispatchSwarmEvent_slotsUsed c rfl (hi.implied hu.1)
        (hw.acts (Or.inl ⟨_, rfl⟩) hu.1).1 hu.2
  | handler peerId connectionId out =>
      exact onConnectionHandlerEvent_slotsUsed c peerId connectionId out
        hi hw hslots
  | poll timerReady => exact pollPass_slotsUsed c timerReady hi hw hslots
  | allocate listeners connections =>
      exact hslots.of_same rfl rfl rfl rfl rfl rfl

/-! ## Every reachable state -/

theorem Ready.fresh (config : Config) (reads : ℕ) (nextListener : ListenerId)
    (nextConnection : ConnectionId) :
    Ready (World.fresh config reads nextListener nextConnection) where
  reservations := ReservationInv.fresh config reads nextListener nextConnection
  clean := fun i hi => by cases hi
  own := fun p k info hinfo => by simp [World.fresh, Behaviour.default] at hinfo
  agree := by
    rintro id addr addr' q q' ⟨i, hi, -⟩
    cases hi
  linked := fun id q hq => by simp [World.fresh, Behaviour.default] at hq

theorem Reachable.ready_and_slotsUsed
    {c : Clock} {config : Config} {w : World}
    (h : Reachable c config .addresses w) :
    Ready w ∧ SlotsUsed w.toBehaviour := by
  refine h.of_calls (P := fun w => Ready w ∧ SlotsUsed w.toBehaviour)
    ?_ ?_ ?_ ?_
  · intro reads nextListener nextConnection
    refine ⟨Ready.fresh config reads nextListener nextConnection, ?_⟩
    intro _ _ p k info hinfo
    simp [World.fresh, Behaviour.default] at hinfo
  · intro peerId address w hw
    apply (addStaticRelay_ensures c peerId address w).mono
    intro w' hacts
    have hi : InCharge (.addStaticRelay peerId address) w :=
      Or.inr (Or.inl ⟨_, _, rfl⟩)
    exact ⟨(hw.1.acts hi hacts).1,
      hw.2.acts hw.1 hi (quiet_addStaticRelay peerId address) hacts⟩
  · intro i w w' _ hw hcontract hstep
    have hready := hw.1.record hcontract
    have hi := inCharge_record i w
    obtain ⟨u, himplied, hown⟩ := (serve_acts c i _).of_eq_ok hstep
    have hu := (hready.acts (Or.inl ⟨_, rfl⟩) himplied).1
    refine ⟨(hu.acts (hi.implied himplied) hown).1, ?_⟩
    exact (serve_slotsUsed c hi hready hw.2).of_eq_ok hstep
  · intro w w' hw hshuffle
    refine ⟨hw.1.shuffle hshuffle, ?_⟩
    refine hw.2.mono hshuffle.status_eq hshuffle.config_eq
      hshuffle.coveredPeers_eq.ge ?_
    intro p k info hinfo hsup
    rw [lookup_of_sameEntries hshuffle.connections] at hinfo
    refine ⟨⟨k, info, hinfo, hsup⟩, fun hp => Or.inr ?_⟩
    obtain ⟨deadline, hdeadline⟩ := mem_iff_exists_lookup.mp hp
    rw [← lookup_of_sameEntries hshuffle.reservationCooldowns] at hdeadline
    exact mem_of_lookup hdeadline

/-- While a slot is free, every peer with a supported connection is covered or
waits for its cooldown entry to go. -/
theorem no_slot_unused {c : Clock} {config : Config} {w : World}
    (h : Reachable c config .addresses w) (henabled : w.status = .enable)
    (hfree : (coveredPeers w.toBehaviour).card < config.maxReservations.get)
    {p : PeerId} {k : ConnectionId} {info : Connection}
    (hinfo : w.connections.lookup (p, k) = some info)
    (hsupported : info.relayStatus = .supported) :
    p ∈ coveredPeers w.toBehaviour ∨ p ∈ w.reservationCooldowns := by
  rw [← h.maxReservations_eq] at hfree
  exact h.ready_and_slotsUsed.2 henabled hfree p k info hinfo hsupported

theorem relayConnects_addresses (p : PeerId) (k : ConnectionId) :
    ∀ i ∈ relayConnects p k, ∀ w, anyInput w i = true →
      Contract.addresses w i := by
  intro i hi w _
  simp only [relayConnects, List.mem_cons, List.not_mem_nil, or_false] at hi
  constructor
  · rintro p' k' endpoint hreports ⟨other, hlast, -⟩
    rcases hi with rfl | rfl
    · rcases hreports with h | h <;> cases h
      cases hlast
    · rcases hreports with h | h <;> cases h
  · intro id addr addr' q q' hevent
    rcases hi with rfl | rfl <;> cases hevent

theorem no_slot_unused_relayConnects :
    ∃ w, Reachable steadyClock Config.default .addresses w ∧
      (coveredPeers w.toBehaviour).card = 1 ∧
      (7 ∈ coveredPeers w.toBehaviour ∨ 7 ∈ w.reservationCooldowns) := by
  obtain ⟨w, hw, hrun⟩ := exists_reachable_of_runNew
    (c := steadyClock)
    (f := fun w => (w.status, (coveredPeers w.toBehaviour).card,
      w.connections.lookup (7, 0)))
    (a := (.enable, 1, some ⟨.dialer [.tcp 4001], .supported⟩))
    (relayConnects_addresses 7 0)
    (show (runNew steadyClock Config.default anyInput
      (relayConnects 7 0)).map _ = _ by decide)
  simp only [Prod.mk.injEq] at hrun
  obtain ⟨hstatus, hcard, hinfo⟩ := hrun
  have hfree : (coveredPeers w.toBehaviour).card <
      Config.default.maxReservations.get := by
    rw [hcard]
    decide
  exact ⟨w, hw, hcard, no_slot_unused hw hstatus hfree hinfo rfl⟩

end Connexa.Autorelay
