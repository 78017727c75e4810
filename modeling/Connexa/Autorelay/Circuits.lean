import Connexa.Autorelay.Reservations

/-!
# Reservations through direct connections

A relayed connection is disqualified when it is established, and the dummy
handler it gets never reports anything.  A later change of the address is only
stored: if it moves a connection with a real handler onto a relay, the
connection stays eligible and its address has a circuit in it already.
-/

namespace Connexa.Autorelay

open HashMap

/-- The handler that a connection gets: `Either<handler::Handler,
dummy::ConnectionHandler>`. -/
inductive HandlerKind where
  | handler
  | dummy
  deriving DecidableEq

def handleEstablishedInboundConnection (localAddr : Multiaddr) : HandlerKind :=
  if localAddr.isRelayed then .dummy else .handler

def handleEstablishedOutboundConnection (addr : Multiaddr) : HandlerKind :=
  if addr.isRelayed then .dummy else .handler

/-- The handler of a connection with this endpoint. -/
def ConnectedPoint.handlerKind : ConnectedPoint → HandlerKind
  | .dialer address => handleEstablishedOutboundConnection address
  | .listener localAddr _ => handleEstablishedInboundConnection localAddr

/-- The connection was established with the dummy handler. -/
def GotDummy (history : List Record) (p : PeerId) (k : ConnectionId) : Prop :=
  ∃ i endpoint, Record.input i ∈ history ∧
    i.event? = some (.connectionEstablished p k endpoint) ∧
      endpoint.handlerKind = .dummy

/-- Some handler event of the connection arrived. -/
def HeardFrom (history : List Record) (p : PeerId) (k : ConnectionId) : Prop :=
  ∃ out, Record.input (.handler p k out) ∈ history

/-- Connections with the dummy handler send no handler events. -/
def Contract.dummiesSilent : Contract := fun w i =>
  (∀ p k out, i = .handler p k out → ¬GotDummy w.history p k) ∧
  ∀ p k endpoint, i.event? = some (.connectionEstablished p k endpoint) →
    endpoint.handlerKind = .dummy → ¬HeardFrom w.history p k

/-- A connection with a real handler has a direct remote address, from the
start and after every change of its address. -/
def StaysDirect (w : World) (i : Input) : Prop :=
  (∀ p k endpoint, i.event? = some (.connectionEstablished p k endpoint) →
    endpoint.handlerKind = .handler →
      endpoint.getRemoteAddress.isRelayed = false) ∧
  ∀ p k new, i.event? = some (.addressChange p k new) →
    ¬GotDummy w.history p k → new.getRemoteAddress.isRelayed = false

/-- The address asks the relay `peerId` for a reservation over one circuit. -/
def AsksRelay (address : Multiaddr) (peerId : PeerId) : Prop :=
  address.count .p2pCircuit = 1 ∧
    ∃ base, address = base ++ [.p2p peerId, .p2pCircuit]

/-- Every `ListenOn` asks the relay of its reservation over one circuit, and no
reservation has a relayed address. -/
def ReservesDirectly (w : World) : Prop :=
  (∀ opts reads b, Record.queued (.listenOn opts) reads b ∈ w.history →
    ∃ r, b.reservations.lookup opts.listenerId = some r ∧
      AsksRelay opts.address r.peerId) ∧
  ∀ id r, w.reservations.lookup id = some r → r.address.isRelayed = false

theorem GotDummy.mono {history history' : List Record} {p : PeerId}
    {k : ConnectionId} (h : GotDummy history p k)
    (hsub : ∀ r ∈ history, r ∈ history') : GotDummy history' p k := by
  obtain ⟨i, endpoint, hi, hevent, hdummy⟩ := h
  exact ⟨i, endpoint, hsub _ hi, hevent, hdummy⟩

theorem HeardFrom.mono {history history' : List Record} {p : PeerId}
    {k : ConnectionId} (h : HeardFrom history p k)
    (hsub : ∀ r ∈ history, r ∈ history') : HeardFrom history' p k := by
  obtain ⟨out, hout⟩ := h
  exact ⟨out, hsub _ hout⟩

/-- A direct address completed with its peer asks for one circuit. -/
theorem asksRelay_of_withP2p {addr full : Multiaddr} {peerId : PeerId}
    (hdirect : addr.isRelayed = false) (hfull : addr.withP2p peerId = .ok full) :
    AsksRelay (full ++ [.p2pCircuit]) peerId := by
  have hclean : full.isRelayed = false := by
    rw [Multiaddr.isRelayed_withP2p hfull, hdirect]
  constructor
  · have hnone : full.count .p2pCircuit = 0 := by
      rw [List.count_eq_zero]
      intro hmem
      rw [Multiaddr.isRelayed, List.any_eq_false] at hclean
      exact hclean _ hmem (beq_self_eq_true _)
    rw [List.count_append, hnone, List.count_singleton_self]
  · obtain ⟨base, hbase⟩ := List.getLast?_eq_some_iff.mp
      (Multiaddr.getLast?_withP2p hfull)
    exact ⟨base, by rw [hbase, List.append_assoc]; rfl⟩

/-! ## What the elementary changes keep -/

/-- What keeps the reservations direct. -/
structure DirectInv (w : World) : Prop where
  /-- No connection with the dummy handler was heard from. -/
  silent : ∀ p k, HeardFrom w.history p k → ¬GotDummy w.history p k
  /-- The endpoints of connections with a real handler are direct. -/
  established : ∀ i p k endpoint, Record.input i ∈ w.history →
    i.event? = some (.connectionEstablished p k endpoint) →
      endpoint.handlerKind = .handler →
        endpoint.getRemoteAddress.isRelayed = false
  changed : ∀ i p k new, Record.input i ∈ w.history →
    i.event? = some (.addressChange p k new) →
      ¬GotDummy w.history p k → new.getRemoteAddress.isRelayed = false
  /-- Only connections that were heard from are eligible. -/
  heard : ∀ p k info, w.connections.lookup (p, k) = some info →
    info.relayStatus = .supported → HeardFrom w.history p k
  direct : ∀ p k info, w.connections.lookup (p, k) = some info →
    ¬GotDummy w.history p k → info.addr.isRelayed = false
  reserves : ReservesDirectly w

theorem Act.heardFrom_iff {c : Clock} {i : Input} {w w' : World}
    (h : Act c i w w') {p : PeerId} {k : ConnectionId} :
    HeardFrom w'.history p k ↔ HeardFrom w.history p k := by
  constructor
  · rintro ⟨out, hout⟩
    exact ⟨out, h.input_mem hout⟩
  · exact fun hheard => hheard.mono fun r hr => h.mem_history hr

theorem Act.gotDummy_iff {c : Clock} {i : Input} {w w' : World}
    (h : Act c i w w') {p : PeerId} {k : ConnectionId} :
    GotDummy w'.history p k ↔ GotDummy w.history p k := by
  constructor
  · rintro ⟨j, endpoint, hj, hevent, hdummy⟩
    exact ⟨j, endpoint, h.input_mem hj, hevent, hdummy⟩
  · exact fun hdummy => hdummy.mono fun r hr => h.mem_history hr

theorem Act.heard {c : Clock} {i : Input} {w w' : World} (h : Act c i w w')
    (hi : InCharge i w) (hw : DirectInv w) {p : PeerId} {k : ConnectionId}
    {info : Connection} (hinfo : w'.connections.lookup (p, k) = some info)
    (hsupported : info.relayStatus = .supported) : HeardFrom w.history p k := by
  rcases h.lookup_connections hinfo with hold | ⟨endpoint, -, rfl⟩ |
    ⟨old, hold, ⟨new, -, rfl⟩ | ⟨out, status, rfl, rfl⟩ | ⟨-, rfl⟩⟩
  · exact hw.heard p k info hold hsupported
  · unfold Connection.disqualifyConnectionIfRelayed at hsupported
    split at hsupported <;> cases hsupported
  · exact hw.heard p k old hold hsupported
  · rcases hi with ⟨_, hi⟩ | ⟨_, _, hi⟩ | hi
    · cases hi
    · cases hi
    · exact ⟨out, hi.mem_history⟩
  · cases hsupported

theorem Act.direct {c : Clock} {i : Input} {w w' : World} (h : Act c i w w')
    (hi : InCharge i w) (hw : DirectInv w) {p : PeerId} {k : ConnectionId}
    {info : Connection} (hinfo : w'.connections.lookup (p, k) = some info)
    (hreal : ¬GotDummy w.history p k) : info.addr.isRelayed = false := by
  rcases h.lookup_connections hinfo with hold | ⟨endpoint, hevent, rfl⟩ |
    ⟨old, hold, ⟨new, hevent, rfl⟩ | ⟨out, status, rfl, rfl⟩ | ⟨-, rfl⟩⟩
  · exact hw.direct p k info hold hreal
  · have hmem := reports_mem_of_inCharge hi (Or.inl hevent)
    have hhandler : endpoint.handlerKind = .handler := by
      cases hkind : endpoint.handlerKind with
      | handler => rfl
      | dummy => exact absurd ⟨i, endpoint, hmem, hevent, hkind⟩ hreal
    have haddr := hw.established i p k endpoint hmem hevent hhandler
    unfold Connection.disqualifyConnectionIfRelayed
    split <;> exact haddr
  · exact hw.changed i p k new (reports_mem_of_inCharge hi (Or.inr hevent))
      hevent hreal
  · exact hw.direct p k old hold hreal
  · exact hw.direct p k old hold hreal

/-- A new reservation uses an eligible connection and is requested at once; the
other reservations keep their address, and nothing else is listened on. -/
theorem Act.reserves_cases {c : Clock} {i : Input} {w w' : World}
    (h : Act c i w w') :
    (∃ peerId connectionId info full,
      w.connections.lookup (peerId, connectionId) = some info ∧
      info.relayStatus = .supported ∧ info.addr.withP2p peerId = .ok full ∧
      w' = openReservation w peerId connectionId info full) ∨
    (∀ id r', w'.reservations.lookup id = some r' →
      ∃ r, w.reservations.lookup id = some r ∧ r.address = r'.address) ∧
    ∀ opts reads b, Record.queued (.listenOn opts) reads b ∈ w'.history →
      Record.queued (.listenOn opts) reads b ∈ w.history := by
  cases h with
  | reserve peerId connectionId info full _ _ _ _ hlookup hsupported hfull =>
      exact Or.inl ⟨peerId, connectionId, info, full, hlookup, hsupported,
        hfull, rfl⟩
  | failReservation id reservation deadline hi hexternal hlookup hdeadline =>
      refine Or.inr ⟨fun j r hr => ⟨r, (lookup_erase_some.mp hr).2, rfl⟩, ?_⟩
      intro opts reads b hmem
      rcases List.mem_append.mp hmem with hmem | hmem
      · exact hmem
      · cases List.mem_singleton.mp hmem
  | removeReservation id =>
      exact Or.inr ⟨fun j r hr => ⟨r, (lookup_erase_some.mp hr).2, rfl⟩,
        fun _ _ _ hmem => hmem⟩
  | activate id addr reservation hi hrelayed hlookup hpending =>
      refine Or.inr ⟨?_, fun _ _ _ hmem => hmem⟩
      intro j r hr
      change (w.reservations.insert id _).lookup j = some r at hr
      rw [HashMap.lookup_insert] at hr
      split at hr
      · next hj =>
        cases hr
        subst hj
        exact ⟨reservation, hlookup, rfl⟩
      · exact ⟨r, hr, rfl⟩
  | _ =>
      refine Or.inr ⟨fun id r hr => ⟨r, hr, rfl⟩, fun _ _ _ hmem => ?_⟩
      first
      | exact hmem
      | exact (List.mem_append.mp hmem).elim id
          fun hmem => by cases List.mem_singleton.mp hmem

theorem ReservesDirectly.openReservation {w : World} (h : ReservesDirectly w)
    {peerId : PeerId} (connectionId : ConnectionId) {info : Connection}
    {full : Multiaddr} (hdirect : info.addr.isRelayed = false)
    (hfull : info.addr.withP2p peerId = .ok full) :
    ReservesDirectly (openReservation w peerId connectionId info full) := by
  constructor
  · intro opts reads b hmem
    rcases List.mem_append.mp hmem with hmem | hmem
    · exact h.1 opts reads b hmem
    · cases List.mem_singleton.mp hmem
      exact ⟨_, lookup_insert_self _ _ _, asksRelay_of_withP2p hdirect hfull⟩
  · intro id r hr
    simp only [Autorelay.openReservation, World.queue, HashMap.lookup_insert]
      at hr
    split at hr
    · cases hr
      exact hdirect
    · exact h.2 id r hr

theorem Act.reservesDirectly {c : Clock} {i : Input} {w w' : World}
    (h : Act c i w w') (hw : DirectInv w) : ReservesDirectly w' := by
  rcases h.reserves_cases with
    ⟨p, k, info, full, hlookup, hsupported, hfull, rfl⟩ | ⟨hkept, hold⟩
  · have hreal := hw.silent p k (hw.heard p k info hlookup hsupported)
    exact hw.reserves.openReservation k (hw.direct p k info hlookup hreal) hfull
  · constructor
    · exact fun opts reads b hmem => hw.reserves.1 opts reads b
        (hold opts reads b hmem)
    · intro id r' hr'
      obtain ⟨r, hr, haddress⟩ := hkept id r' hr'
      rw [← haddress]
      exact hw.reserves.2 id r hr

theorem DirectInv.act {c : Clock} {i : Input} {w w' : World} (hw : DirectInv w)
    (hi : InCharge i w) (h : Act c i w w') : DirectInv w' where
  silent := by
    intro p k hheard
    rw [h.gotDummy_iff]
    exact hw.silent p k (h.heardFrom_iff.mp hheard)
  established := fun j p k endpoint hj =>
    hw.established j p k endpoint (h.input_mem hj)
  changed := by
    intro j p k new hj hevent hreal
    rw [h.gotDummy_iff] at hreal
    exact hw.changed j p k new (h.input_mem hj) hevent hreal
  heard := fun p k info hinfo hsupported =>
    h.heardFrom_iff.mpr (h.heard hi hw hinfo hsupported)
  direct := by
    intro p k info hinfo hreal
    rw [h.gotDummy_iff] at hreal
    exact h.direct hi hw hinfo hreal
  reserves := h.reservesDirectly hw

/-! ## Every reachable state -/

theorem input_mem_record {w : World} {i j : Input}
    (h : Record.input j ∈ (w.record (.input i)).history) :
    Record.input j ∈ w.history ∨ j = i := by
  rcases List.mem_append.mp h with h | h
  · exact Or.inl h
  · cases List.mem_singleton.mp h
    exact Or.inr rfl

theorem DirectInv.record {w : World} (hw : DirectInv w) {i : Input}
    (hsilent : Contract.dummiesSilent w i) (hdirect : StaysDirect w i) :
    DirectInv (w.record (.input i)) := by
  have hgrows : ∀ r ∈ w.history, r ∈ (w.record (.input i)).history :=
    fun r hr => List.mem_append_left _ hr
  refine ⟨?_, ?_, ?_, ?_, ?_, ?_, hw.reserves.2⟩
  · rintro p k ⟨out, hout⟩ ⟨j, endpoint, hj, hevent, hdummy⟩
    rcases input_mem_record hout with hold | hnew
    · rcases input_mem_record hj with hj | rfl
      · exact hw.silent p k ⟨out, hold⟩ ⟨j, endpoint, hj, hevent, hdummy⟩
      · exact hsilent.2 p k endpoint hevent hdummy ⟨out, hold⟩
    · rcases input_mem_record hj with hj | rfl
      · exact hsilent.1 p k out hnew.symm ⟨j, endpoint, hj, hevent, hdummy⟩
      · rw [← hnew] at hevent
        cases hevent
  · intro j p k endpoint hj hevent hhandler
    rcases input_mem_record hj with hj | rfl
    · exact hw.established j p k endpoint hj hevent hhandler
    · exact hdirect.1 p k endpoint hevent hhandler
  · intro j p k new hj hevent hreal
    have hreal' : ¬GotDummy w.history p k := fun h => hreal (h.mono hgrows)
    rcases input_mem_record hj with hj | rfl
    · exact hw.changed j p k new hj hevent hreal'
    · exact hdirect.2 p k new hevent hreal'
  · exact fun p k info hinfo hsupported =>
      (hw.heard p k info hinfo hsupported).mono hgrows
  · exact fun p k info hinfo hreal =>
      hw.direct p k info hinfo fun h => hreal (h.mono hgrows)
  · intro opts reads b hmem
    rcases List.mem_append.mp hmem with hmem | hmem
    · exact hw.reserves.1 opts reads b hmem
    · cases List.mem_singleton.mp hmem

theorem DirectInv.fresh (config : Config) (reads : ℕ)
    (nextListener : ListenerId) (nextConnection : ConnectionId) :
    DirectInv (World.fresh config reads nextListener nextConnection) where
  silent := by
    rintro p k ⟨out, hout⟩
    cases hout
  established := by
    intro i p k endpoint hi
    cases hi
  changed := by
    intro i p k new hi
    cases hi
  heard := by
    intro p k info hinfo
    cases hinfo
  direct := by
    intro p k info hinfo
    cases hinfo
  reserves := by
    constructor
    · intro opts reads b hmem
      cases hmem
    · intro id r hr
      cases hr

theorem DirectInv.shuffle {w w' : World} (hw : DirectInv w)
    (hs : Shuffled w w') : DirectInv w' := by
  have hhistory := hs.history_eq
  refine ⟨?_, ?_, ?_, ?_, ?_, ?_, ?_⟩
  · rw [hhistory]
    exact hw.silent
  · rw [hhistory]
    exact hw.established
  · rw [hhistory]
    exact hw.changed
  · intro p k info hinfo
    rw [lookup_of_sameEntries hs.connections] at hinfo
    rw [hhistory]
    exact hw.heard p k info hinfo
  · intro p k info hinfo
    rw [lookup_of_sameEntries hs.connections] at hinfo
    rw [hhistory]
    exact hw.direct p k info hinfo
  · rw [hhistory]
    exact hw.reserves.1
  · intro id r hr
    rw [lookup_of_sameEntries hs.reservations] at hr
    exact hw.reserves.2 id r hr

/-- As long as no connection with a real handler has a relayed address, every
reservation is requested over one circuit, through a direct connection. -/
theorem reservations_through_direct_connections {c : Clock} {config : Config}
    {w : World} (h : Reachable c config
      (fun w i => Contract.dummiesSilent w i ∧ StaysDirect w i) w) :
    ReservesDirectly w := by
  have hinv : DirectInv w := by
    refine h.of_acts (DirectInv.fresh config) ?_ ?_ ?_
    · exact fun i w hw hcontract => hw.record hcontract.1 hcontract.2
    · exact fun i w w' hi hw hact => hw.act hi hact
    · exact fun w w' hw hs => hw.shuffle hs
  exact hinv.reserves

/-- Check that a handler event comes from a connection that never had the dummy
handler. -/
def hasRealHandler (w : World) (i : Input) : Bool :=
  match i with
  | .handler p k _ => w.history.all fun
      | .input j => match j.event? with
          | some (.connectionEstablished p' k' endpoint) =>
              !(decide (p' = p) && decide (k' = k) &&
                decide (endpoint.handlerKind = .dummy))
          | _ => true
      | _ => true
  | _ => true

theorem not_gotDummy_of_hasRealHandler {w : World} {p : PeerId}
    {k : ConnectionId} {out : HandlerOut}
    (h : hasRealHandler w (.handler p k out) = true) :
    ¬GotDummy w.history p k := by
  rintro ⟨j, endpoint, hj, hevent, hdummy⟩
  have hline := List.all_eq_true.mp h _ hj
  simp [hevent, hdummy] at hline

/-- A connection that is relayed or not, moves, and is then found to be a
relay. -/
def relayMoves (p : PeerId) (k : ConnectionId) (new : Multiaddr) : List Input :=
  [.swarm (.connectionEstablished p k (.dialer [.tcp 4001])) [] false,
    .swarm (.addressChange p k (.dialer new)) [] false,
    .handler p k .supported]

theorem dummiesSilent_relayMoves (p : PeerId) (k : ConnectionId)
    (new : Multiaddr) : ∀ i ∈ relayMoves p k new, ∀ w,
      hasRealHandler w i = true → Contract.dummiesSilent w i := by
  intro i hi w hcheck
  simp only [relayMoves, List.mem_cons, List.not_mem_nil, or_false] at hi
  rcases hi with rfl | rfl | rfl
  · refine ⟨by simp, ?_⟩
    intro p' k' endpoint hevent hdummy
    cases hevent
    simp [ConnectedPoint.handlerKind, handleEstablishedOutboundConnection,
      Multiaddr.isRelayed] at hdummy
  · exact ⟨by simp, by simp [Input.event?]⟩
  · refine ⟨?_, by simp [Input.event?]⟩
    intro p' k' out hi
    cases hi
    exact not_gotDummy_of_hasRealHandler hcheck

theorem reservations_through_direct_connections_relayMoves :
    ∃ w, Reachable steadyClock Config.default
        (fun w i => Contract.dummiesSilent w i ∧ StaysDirect w i) w ∧
      listensOf 0 w.history = [⟨0, [.tcp 4002, .p2p 7, .p2pCircuit]⟩] ∧
      ReservesDirectly w := by
  obtain ⟨w, hw, hrun⟩ := exists_reachable_of_runNew
    (c := steadyClock) (f := fun w => listensOf 0 w.history)
    (a := [⟨0, [.tcp 4002, .p2p 7, .p2pCircuit]⟩])
    (show ∀ i ∈ relayMoves 7 0 [.tcp 4002], ∀ w, hasRealHandler w i = true →
        Contract.dummiesSilent w i ∧ StaysDirect w i by
      intro i hi w hcheck
      refine ⟨dummiesSilent_relayMoves 7 0 _ i hi w hcheck, ?_⟩
      simp only [relayMoves, List.mem_cons, List.not_mem_nil, or_false] at hi
      rcases hi with rfl | rfl | rfl
      · refine ⟨?_, nofun⟩
        intro p k endpoint hevent _
        cases hevent
        rfl
      · refine ⟨nofun, ?_⟩
        intro p k new hevent _
        cases hevent
        rfl
      · exact ⟨nofun, nofun⟩)
    (show (runNew steadyClock Config.default hasRealHandler
      (relayMoves 7 0 [.tcp 4002])).map _ = _ by decide)
  exact ⟨w, hw, hrun, reservations_through_direct_connections hw⟩

/-- The connection moves behind relay 9 before its handler reports: the
reservation is requested over two circuits. -/
theorem moved_connection_reserves_over_relay :
    ∃ w, Reachable steadyClock Config.default .dummiesSilent w ∧
      listensOf 0 w.history =
        [⟨0, [.tcp 4001, .p2p 9, .p2pCircuit, .p2p 7, .p2pCircuit]⟩] ∧
      ¬ReservesDirectly w := by
  obtain ⟨w, hw, hrun⟩ := exists_reachable_of_runNew
    (c := steadyClock)
    (f := fun w => (listensOf 0 w.history,
      (w.reservations.lookup 0).map Reservation.address))
    (a := ([⟨0, [.tcp 4001, .p2p 9, .p2pCircuit, .p2p 7, .p2pCircuit]⟩],
      some [.tcp 4001, .p2p 9, .p2pCircuit]))
    (dummiesSilent_relayMoves 7 0 _)
    (show (runNew steadyClock Config.default hasRealHandler
      (relayMoves 7 0 [.tcp 4001, .p2p 9, .p2pCircuit])).map _ = _ by decide)
  simp only [Prod.mk.injEq] at hrun
  refine ⟨w, hw, hrun.1, ?_⟩
  intro hdirect
  obtain ⟨r, hr, haddress⟩ := Option.map_eq_some_iff.mp hrun.2
  have hclean := hdirect.2 0 r hr
  rw [haddress] at hclean
  cases hclean

end Connexa.Autorelay
