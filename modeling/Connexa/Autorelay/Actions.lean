import Mathlib.Logic.Relation
import Connexa.Autorelay.Behaviour

/-!
# What one call can do

Every call into the behaviour is a sequence of the elementary changes listed
in `Act`, each with the guard under which the code makes it.  Invariants are
proved once for `Act`; `step_acts` transfers them to whole calls and runs.
The same analysis shows that neither the `expect` nor the debug assertion of
the source can fail: a call ends normally or in an `Instant` overflow.
-/

namespace Connexa.Autorelay

open HashMap

/-- The cooldown of the peer, if any, had ended at some earlier reading. -/
def Rested (c : Clock) (w : World) (peerId : PeerId) : Prop :=
  ∀ deadline, w.reservationCooldowns.lookup peerId = some deadline →
    ∃ i < w.reads, deadline ≤ c.instant i

/-- The dial cooldown of the peer, if any, had ended at the last reading. -/
def DialRested (c : Clock) (w : World) (peerId : PeerId) : Prop :=
  ∀ deadline, w.staticDialCooldowns.lookup peerId = some deadline →
    0 < w.reads ∧ deadline ≤ w.lastInstant c

/-- Open a reservation through a connection: queue `ListenOn` with a fresh
listener id and track it as pending. -/
def openReservation
    (w : World) (peerId : PeerId) (connectionId : ConnectionId)
    (info : Connection) (full : Multiaddr) : World :=
  { w with
    nextListener := w.nextListener + 1
    reservations := w.reservations.insert w.nextListener
      ⟨peerId, connectionId, info.addr, .pending⟩ }.queue
    (.listenOn ⟨w.nextListener, full ++ [Protocol.p2pCircuit]⟩)

/-- The state after a failure of the peer started a cooldown. -/
def cooledDown
    (c : Clock) (peerId : PeerId) (deadline : Instant) (w : World) : World :=
  { (recordFailure peerId w).2.tick with
    reservationCooldowns := w.reservationCooldowns.insert peerId deadline }.record
    (.reservationFailed peerId (c.instant w.reads) (recordFailure peerId w).1)

/-- The swarm event of an input, if it is one. -/
def Input.event? : Input → Option FromSwarm
  | .swarm event _ _ => some event
  | _ => none

theorem Input.eq_swarm {i : Input} {event : FromSwarm} (h : i.event? = some event) :
    ∃ addresses change, i = .swarm event addresses change := by
  cases i with
  | swarm event' addresses change =>
      cases h
      exact ⟨addresses, change, rfl⟩
  | _ => cases h

/-- An endpoint the swarm reports for the connection. -/
def Input.ReportsEndpoint (i : Input) (p : PeerId) (k : ConnectionId)
    (endpoint : ConnectedPoint) : Prop :=
  i.event? = some (.connectionEstablished p k endpoint) ∨
    i.event? = some (.addressChange p k endpoint)

/-- The input reports that the listener failed or closed. -/
def Input.Disables (i : Input) (id : ListenerId) : Prop :=
  i.event? = some (.listenerError id) ∨
    ∃ reasonIsErr, i.event? = some (.listenerClosed id reasonIsErr)

/-- The input reports how the dial with this connection id ended. -/
def Input.EndsDial
    (i : Input) (peerId : PeerId) (connectionId : ConnectionId) : Prop :=
  (∃ endpoint, i.event? =
      some (.connectionEstablished peerId connectionId endpoint)) ∨
    i.event? = some (.dialFailure (some peerId) connectionId)

/-- Serving the input may dial the static relay. -/
def Input.Dials (i : Input) (peerId : PeerId) : Prop :=
  (∃ address, i = .addStaticRelay peerId address) ∨
    (∃ connectionId, i.event? = some (.connectionClosed peerId connectionId)) ∨
      ∃ timerReady, i = .poll timerReady

/-- The elementary changes that serving the input `i` is made of, with their
guards.  The change of status implied by a swarm event counts as one of
`setStatus none`, see `Served`. -/
inductive Act (c : Clock) (i : Input) : World → World → Prop where
  | tick (w : World) : Act c i w w.tick
  | allocate (w : World) (listeners connections : ℕ) :
      Act c i w { w with
        nextListener := w.nextListener + listeners
        nextConnection := w.nextConnection + connections }
  | setAuto (w : World) (auto : Bool)
      (hi : ∃ requested, i = .setStatus requested) :
      Act c i w { w with autoStatusChange := auto }
  | setExternalAddresses (w : World) (addresses : List Multiaddr)
      (hi : ∃ requested, i = .setStatus requested) :
      Act c i w { w with externalAddresses := addresses }
  | setWaker (w : World) (waker : Bool) : Act c i w { w with waker := waker }
  | setWakeup (w : World) (deadline : Option Instant) :
      Act c i w { w with cooldownWakeup := deadline }
  | setPreviousRelays (w : World)
      (relays : List (PeerId × Multiaddr × SystemTime)) :
      Act c i w { w with previousRelays := relays }
  | popEvent (w : World) (event : ToSwarm) (rest : List ToSwarm)
      (hevents : w.events = event :: rest) :
      Act c i w { w with events := rest }
  | changeStatus (w : World) (status : Status)
      (hi : ∃ requested, i = .setStatus requested) (hne : status ≠ w.status) :
      Act c i w (changeStatus status w)
  | setRelaysAvailable (w : World) (available : Bool)
      (hnew : hasHopPeer w.toBehaviour = available)
      (hold : w.relaysAvailable = !available) :
      Act c i w ({ w with relaysAvailable := available }.queue
        (.generateEvent
          (if available then .relaysAvailable else .noRelaysAvailable)))
  | addStaticRelay (w : World) (peerId : PeerId) (address : Multiaddr)
      (hi : i = .addStaticRelay peerId address)
      (hdirect : address.isRelayed = false) :
      Act c i w { w with
        staticRelays := w.staticRelays.insert peerId
          (addressesWith w.toBehaviour peerId address) }
  | removeStaticRelay (w : World) (peerId : PeerId)
      (hi : i = .removeStaticRelay peerId) :
      Act c i w (removeStaticRelay peerId w).2
  | queueDial (w : World) (peerId : PeerId) (addresses : List Multiaddr)
      (hi : i.Dials peerId)
      (hstatic : w.staticRelays.lookup peerId = some addresses)
      (hne : addresses ≠ [])
      (hdirect : hasDirectConnection w.toBehaviour peerId = false)
      (hrested : DialRested c w peerId)
      (hpending : peerId ∉ w.pendingStaticDials) :
      Act c i w ({ w with
        nextConnection := w.nextConnection + 1
        pendingStaticDials :=
          w.pendingStaticDials.insert peerId w.nextConnection }.queue
            (.dial ⟨peerId, addresses, w.nextConnection⟩))
  | endDial (w : World) (peerId : PeerId) (connectionId : ConnectionId)
      (hi : i.EndsDial peerId connectionId)
      (hpending : w.pendingStaticDials.lookup peerId = some connectionId) :
      Act c i w { w with
        pendingStaticDials := w.pendingStaticDials.erase peerId }
  | clearDialCooldown (w : World) (peerId : PeerId)
      (hclear : hasDirectConnection w.toBehaviour peerId = true ∨
        ∃ timerReady, i = .poll timerReady) :
      Act c i w { w with
        staticDialCooldowns := w.staticDialCooldowns.erase peerId }
  | startDialCooldown (w : World) (peerId : PeerId) (deadline : Instant)
      (hstatic : peerId ∈ w.staticRelays)
      (hdeadline : (c.instant w.reads).checkedAdd w.config.failureCooldown =
        some deadline) :
      Act c i w { w.tick with
        staticDialCooldowns := w.staticDialCooldowns.insert peerId deadline }
  | insertConnection (w : World) (peerId : PeerId)
      (connectionId : ConnectionId) (endpoint : ConnectedPoint)
      (hi : i.event? =
        some (.connectionEstablished peerId connectionId endpoint)) :
      Act c i w { w with
        connections := w.connections.insert (peerId, connectionId)
          (Connection.disqualifyConnectionIfRelayed ⟨endpoint, .pending⟩) }
  | eraseConnection (w : World) (peerId : PeerId)
      (connectionId : ConnectionId)
      (hi : i.event? = some (.connectionClosed peerId connectionId)) :
      Act c i w { w with
        connections := w.connections.erase (peerId, connectionId) }
  | setEndpoint (w : World) (peerId : PeerId) (connectionId : ConnectionId)
      (connection : Connection) (new : ConnectedPoint)
      (hi : i.event? = some (.addressChange peerId connectionId new))
      (hlookup :
        w.connections.lookup (peerId, connectionId) = some connection) :
      Act c i w { w with
        connections := w.connections.insert (peerId, connectionId)
          { connection with endpoint := new } }
  | setRelayStatus (w : World) (peerId : PeerId) (connectionId : ConnectionId)
      (connection : Connection) (status : RelayStatus)
      (hi : ∃ out, i = .handler peerId connectionId out)
      (hlookup :
        w.connections.lookup (peerId, connectionId) = some connection) :
      Act c i w { w with
        connections := w.connections.insert (peerId, connectionId)
          { connection with relayStatus := status } }
  | disqualify (w : World) (peerId : PeerId) (connectionId : ConnectionId)
      (connection : Connection)
      (hlookup :
        w.connections.lookup (peerId, connectionId) = some connection)
      (hends : connection.addr.EndsInOtherPeer peerId) :
      Act c i w { w with
        connections := w.connections.insert (peerId, connectionId)
          { connection with relayStatus := .notSupported } }
  | clearFailure (w : World) (peerId : PeerId)
      (hi : ∃ connectionId,
        i.event? = some (.connectionClosed peerId connectionId))
      (hgone : hasConnection w.toBehaviour peerId = false)
      (hrested : Rested c w peerId) :
      Act c i w (clearFailure peerId w)
  | failReservation (w : World) (id : ListenerId) (reservation : Reservation)
      (deadline : Instant) (hi : i.Disables id)
      (hexternal : w.externalReservations.lookup id = none)
      (hlookup : w.reservations.lookup id = some reservation)
      (hdeadline : (c.instant w.reads).checkedAdd
        (recordFailure reservation.peerId w).1 = some deadline) :
      Act c i w (cooledDown c reservation.peerId deadline
        (removeReservation id w).2)
  | sweep (w : World) (now : Instant) (hi : ∃ timerReady, i = .poll timerReady)
      (hread : 0 < w.reads) (hnow : now = w.lastInstant c) :
      Act c i w (sweepCooldowns now w)
  | activate (w : World) (id : ListenerId) (addr : Multiaddr)
      (reservation : Reservation)
      (hi : i.event? = some (.newListenAddr id addr))
      (hrelayed : addr.isRelayed = true)
      (hlookup : w.reservations.lookup id = some reservation)
      (hpending : reservation.status = .pending) :
      Act c i w (clearFailure reservation.peerId
        { w with
          reservations := w.reservations.insert id
            { reservation with status := .active } })
  | addExternal (w : World) (id : ListenerId) (addr : Multiaddr)
      (relayPeerId : PeerId)
      (hi : i.event? = some (.newListenAddr id addr))
      (hrelayed : addr.isRelayed = true)
      (hown : w.reservations.lookup id = none)
      (hpeer : addr.relayPeerId = some relayPeerId) :
      Act c i w { w with
        externalReservations :=
          w.externalReservations.insert id relayPeerId }
  | removeExternal (w : World) (id : ListenerId) (peerId : PeerId)
      (hi : i.Disables id)
      (hlookup : w.externalReservations.lookup id = some peerId) :
      Act c i w { w with
        externalReservations := w.externalReservations.erase id }
  | removeReservation (w : World) (id : ListenerId) (hi : i.Disables id)
      (hexternal : w.externalReservations.lookup id = none) :
      Act c i w (removeReservation id w).2
  | evict (w : World) (id : ListenerId)
      (hevictable : evictable w.toBehaviour = some id)
      (hnone : w.pendingEviction = none) :
      Act c i w ({ w with pendingEviction := some id }.queue
        (.removeListener id))
  | queueRemoveListener (w : World) (id : ListenerId)
      (hown : id ∈ w.reservations) :
      Act c i w (w.queue (.removeListener id))
  | reserve (w : World) (peerId : PeerId) (connectionId : ConnectionId)
      (info : Connection) (full : Multiaddr)
      (henabled : w.status = .enable)
      (hfree : peerId ∉ coveredPeers w.toBehaviour)
      (hroom : (coveredPeers w.toBehaviour).card <
        w.config.maxReservations.get)
      (hrested : Rested c w peerId)
      (hlookup : w.connections.lookup (peerId, connectionId) = some info)
      (hsupported : info.relayStatus = .supported)
      (hfull : info.addr.withP2p peerId = .ok full) :
      Act c i w (openReservation w peerId connectionId info full)

/-- Several elementary changes in a row. -/
abbrev Acts (c : Clock) (i : Input) : World → World → Prop :=
  Relation.ReflTransGen (Act c i)

/-- Serving an input: first what the external addresses imply, then the
changes of the input itself. -/
def Served (c : Clock) (i : Input) (w w' : World) : Prop :=
  ∃ u, Acts c (.setStatus none) w u ∧ Acts c i u w'

/-- The call ends normally in a state with `Q`, or the clock overflows. -/
def Ensures (x : Except Panic World) (Q : World → Prop) : Prop :=
  match x with
  | .ok w => Q w
  | .error e => e = .instantOverflow

theorem Ensures.mono {x : Except Panic World} {Q R : World → Prop}
    (h : Ensures x Q) (hQR : ∀ w, Q w → R w) : Ensures x R := by
  cases x with
  | ok w => exact hQR w h
  | error e => exact h

theorem Ensures.bind {x : Except Panic World} {Q R : World → Prop}
    {f : World → Except Panic World} (h : Ensures x Q)
    (hf : ∀ w, Q w → Ensures (f w) R) : Ensures (x >>= f) R := by
  cases x with
  | ok w => exact hf w h
  | error e => exact h

theorem Ensures.and {x : Except Panic World} {Q R : World → Prop}
    (hQ : Ensures x Q) (hR : Ensures x R) :
    Ensures x fun w => Q w ∧ R w := by
  cases x with
  | ok w => exact ⟨hQ, hR⟩
  | error e => exact hQ

theorem Ensures.of_eq_ok {x : Except Panic World} {Q : World → Prop}
    {w : World} (h : Ensures x Q) (hx : x = .ok w) : Q w := by
  rw [hx] at h
  exact h

theorem Acts.single {c : Clock} {i : Input} {w w' : World}
    (h : Act c i w w') : Acts c i w w' :=
  Relation.ReflTransGen.single h

end Connexa.Autorelay
