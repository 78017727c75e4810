import Connexa.Autorelay.State

/-!
# The operations of the autorelay behaviour

The functions follow `behaviour/autorelay.rs` one by one.  Every call to
`Instant::now()` or `SystemTime::now()` consumes one reading of the clock, so
two readings inside one call may differ.  A call that panics ends in an error.
-/

namespace Connexa.Autorelay

open HashMap

/-! ## Static relays -/

def hasDirectConnection (b : Behaviour) (peerId : PeerId) : Bool :=
  b.connections.entries.any fun e => decide (e.1.1 = peerId) && !e.2.isRelayed

/-- Some connection to the peer is tracked. -/
def hasConnection (b : Behaviour) (peerId : PeerId) : Bool :=
  b.connections.entries.any fun e => decide (e.1.1 = peerId)

def staticDialInCooldown
    (c : Clock) (peerId : PeerId) (w : World) : Bool × World :=
  match w.staticDialCooldowns.lookup peerId with
  | none => (false, w)
  | some deadline => (decide (c.instant w.reads < deadline), w.tick)

def queueStaticDial
    (c : Clock) (peerId : PeerId) (addresses : List Multiaddr)
    (w : World) : Bool × World :=
  if peerId ∉ w.staticRelays ∨ addresses = [] ∨
      hasDirectConnection w.toBehaviour peerId then
    (false, w)
  else
    let (cooling, w) := staticDialInCooldown c peerId w
    if cooling ∨ peerId ∈ w.pendingStaticDials then
      (false, w)
    else
      let opts : DialOpts := ⟨peerId, addresses, w.nextConnection⟩
      let w := { w with
        nextConnection := w.nextConnection + 1
        pendingStaticDials :=
          w.pendingStaticDials.insert peerId opts.connectionId }
      (true, w.queue (.dial opts))

/-! ## Previous relays and failures -/

def recordPreviousRelay
    (c : Clock) (peerId : PeerId) (address : Multiaddr) (w : World) : World :=
  let max := w.config.maxPreviousRelays
  if max = 0 then w
  else
    let kept := w.previousRelays.filter fun e => decide (e.1 ≠ peerId)
    let kept := if max ≤ kept.length then kept.tail else kept
    { w with
      previousRelays := kept ++ [(peerId, address, c.system w.reads)]
      reads := w.reads + 1 }

def forgetPreviousRelay (peerId : PeerId) (w : World) : World :=
  { w with
    previousRelays := w.previousRelays.filter fun e => decide (e.1 ≠ peerId) }

/-- `u32::MAX`. -/
def maxU32 : ℕ := 2 ^ 32 - 1

/-- The number of failures of the peer after one more. -/
def attemptsAfter (b : Behaviour) (peerId : PeerId) : ℕ :=
  min ((b.failureCounts.lookup peerId).getD 0 + 1) maxU32

/-- The cooldown after the given number of failures. -/
def cooldownFor (config : Config) (attempts : ℕ) : Duration :=
  let exponent := min (attempts - 1) 20
  let scale := 1 <<< exponent
  Duration.min (config.failureCooldown.saturatingMul scale)
    config.failureCooldownMax

def recordFailure (peerId : PeerId) (w : World) : Duration × World :=
  let attempts := attemptsAfter w.toBehaviour peerId
  (cooldownFor w.config attempts,
    { w with failureCounts := w.failureCounts.insert peerId attempts })

def clearFailure (peerId : PeerId) (w : World) : World :=
  { w with
    failureCounts := w.failureCounts.erase peerId
    reservationCooldowns := w.reservationCooldowns.erase peerId }

def reservationInCooldown
    (c : Clock) (peerId : PeerId) (w : World) : Bool × World :=
  match w.reservationCooldowns.lookup peerId with
  | none => (false, w)
  | some deadline => (decide (c.instant w.reads < deadline), w.tick)

/-! ## Reservations -/

def coveredPeers (b : Behaviour) : Finset PeerId :=
  ((values b.reservations).map Reservation.peerId ++
    values b.externalReservations).toFinset

/-- The reservation that may give way to a static relay, if there is one. -/
def evictable (b : Behaviour) : Option ListenerId :=
  b.reservations.entries.findSome? fun e =>
    if e.2.peerId ∉ b.staticRelays ∧
        e.2.peerId ∉ values b.externalReservations then
      some e.1
    else
      none

def makeRoomForStaticRelays (needed : ℕ) (w : World) : World :=
  if needed = 0 ∨ w.pendingEviction.isSome then w
  else
    match evictable w.toBehaviour with
    | none => w
    | some id =>
        { w with pendingEviction := some id }.queue (.removeListener id)

def removeReservation
    (id : ListenerId) (w : World) : Option Reservation × World :=
  (w.reservations.lookup id,
    { w with
      pendingEviction :=
        if w.pendingEviction = some id then none else w.pendingEviction
      reservations := w.reservations.erase id })

def selectConnectionForReservation
    (peerId : PeerId) (connectionId : ConnectionId)
    (w : World) : Except Panic World :=
  match w.connections.lookup (peerId, connectionId) with
  | none => .error .connectionNotPresent
  | some info =>
      if info.relayStatus ≠ .supported then .ok w
      else
        match info.addr.withP2p peerId with
        | .error _ =>
            .ok { w with
              connections := w.connections.insert (peerId, connectionId)
                { info with relayStatus := .notSupported } }
        | .ok addrWithPeerId =>
            let opts : ListenOpts :=
              ⟨w.nextListener, addrWithPeerId ++ [.p2pCircuit]⟩
            let reservation : Reservation :=
              ⟨peerId, connectionId, info.addr, .pending⟩
            let w := { w with
              nextListener := w.nextListener + 1
              reservations :=
                w.reservations.insert opts.listenerId reservation }
            .ok (w.queue (.listenOn opts))

/-- The `for` loop over the selected candidates. -/
def selectAll : List (PeerId × ConnectionId) → World → Except Panic World
  | [], w => .ok w
  | (peerId, connectionId) :: rest, w => do
      let w ← selectConnectionForReservation peerId connectionId w
      selectAll rest w

/-- The two buckets of `meet_reservation_target`. -/
structure Candidates where
  staticCandidates : HashMap PeerId ConnectionId
  candidates : HashMap PeerId ConnectionId

/-- Keep the lowest connection id of a peer. -/
def insertLowest
    (m : HashMap PeerId ConnectionId) (peerId : PeerId)
    (connectionId : ConnectionId) : HashMap PeerId ConnectionId :=
  match m.lookup peerId with
  | none => m.insert peerId connectionId
  | some existing => m.insert peerId (min existing connectionId)

def Candidates.add
    (acc : Candidates) (isStatic : Bool) (peerId : PeerId)
    (connectionId : ConnectionId) : Candidates :=
  if isStatic then
    { acc with
      staticCandidates := insertLowest acc.staticCandidates peerId connectionId }
  else
    { acc with candidates := insertLowest acc.candidates peerId connectionId }

/-- The loop over the connections that fills the two buckets. -/
def collectCandidates
    (c : Clock) (covered : Finset PeerId) :
    List (Σ _ : PeerId × ConnectionId, Connection) →
      Candidates → World → Candidates × World
  | [], acc, w => (acc, w)
  | ⟨(peerId, connectionId), info⟩ :: rest, acc, w =>
      if peerId ∈ covered then
        collectCandidates c covered rest acc w
      else
        let (cooling, w) := reservationInCooldown c peerId w
        if cooling then
          collectCandidates c covered rest acc w
        else if info.relayStatus ≠ .supported then
          collectCandidates c covered rest acc w
        else
          collectCandidates c covered rest
            (acc.add (decide (peerId ∈ w.staticRelays)) peerId connectionId) w

def meetReservationTarget (c : Clock) (w : World) : Except Panic World :=
  if w.status = .disable then .ok w
  else
    let max := w.config.maxReservations.get
    let covered := coveredPeers w.toBehaviour
    let budget := max - covered.card
    let (found, w) :=
      collectCandidates c covered w.connections.entries ⟨∅, ∅⟩ w
    let w := makeRoomForStaticRelays (len found.staticCandidates - budget) w
    if budget = 0 then .ok w
    else do
      let selected :=
        (sortedEntries found.staticCandidates ++
          sortedEntries found.candidates).take budget
      let w ← selectAll selected w
      if (coveredPeers w.toBehaviour).card ≤ max then .ok w
      else .error .reservationTargetExceeded

/-- Meet the target under a condition. -/
def meetReservationTargetIf
    (c : Clock) (condition : Bool) (w : World) : Except Panic World :=
  if condition then meetReservationTarget c w else .ok w

/-- The loop of `remove_all_reservations` over the listener ids. -/
def queueRemoveListeners : List ListenerId → World → World
  | [], w => w
  | id :: rest, w => queueRemoveListeners rest (w.queue (.removeListener id))

def removeAllReservations (w : World) : World :=
  queueRemoveListeners w.reservations.keys w

/-- The failure that `disable_reservation` puts on record. -/
def startReservationCooldown
    (c : Clock) (peerId : PeerId) (w : World) : Except Panic World :=
  let (duration, w) := recordFailure peerId w
  let now := c.instant w.reads
  match now.checkedAdd duration with
  | none => .error .instantOverflow
  | some deadline =>
      let w := { w.tick with
        reservationCooldowns := w.reservationCooldowns.insert peerId deadline }
      .ok (w.record (.reservationFailed peerId now duration))

/-- The branch of `disable_reservation` on `failed`. -/
def chargeFailure
    (c : Clock) (failed : Bool) (peerId : PeerId)
    (w : World) : Except Panic World :=
  if failed then startReservationCooldown c peerId w else .ok w

def disableReservation
    (c : Clock) (id : ListenerId) (failed : Bool)
    (w : World) : Except Panic World :=
  match w.externalReservations.lookup id with
  | some _ =>
      meetReservationTarget c { w with
        externalReservations := w.externalReservations.erase id }
  | none =>
      match removeReservation id w with
      | (none, w) => .ok w
      | (some reservation, w) => do
          let w ← chargeFailure c failed reservation.peerId w
          meetReservationTarget c
            (recordPreviousRelay c reservation.peerId reservation.address w)

/-! ## Status and availability -/

/-- Change the status and report it. -/
def changeStatus (status : Status) (w : World) : World :=
  { w with status := status }.queue (.generateEvent (.statusChanged status))

def determineStatusFromExternalAddresses
    (c : Clock) (w : World) : Except Panic World :=
  let hasPublicAddr := w.externalAddresses.any fun addr => !addr.isRelayed
  let newStatus := if hasPublicAddr then Status.disable else Status.enable
  if newStatus ≠ w.status then
    let w := changeStatus newStatus w
    match newStatus with
    | .enable => meetReservationTarget c w
    | .disable => .ok (removeAllReservations w)
  else
    .ok w

/-- Some connection supports the HOP protocol. -/
def hasHopPeer (b : Behaviour) : Bool :=
  b.connections.entries.any fun e => decide (e.2.relayStatus = .supported)

def updateRelayAvailability (w : World) : World :=
  match hasHopPeer w.toBehaviour, w.relaysAvailable with
  | true, false =>
      { w with relaysAvailable := true }.queue
        (.generateEvent .relaysAvailable)
  | false, true =>
      { w with relaysAvailable := false }.queue
        (.generateEvent .noRelaysAvailable)
  | _, _ => w

/-! ## Public calls -/

/-- The `match` of `set_status`. -/
def applyStatus
    (c : Clock) (status : Option Status) (w : World) : Except Panic World :=
  match status with
  | some status =>
      let w := { w with autoStatusChange := false }
      if w.status ≠ status then
        meetReservationTargetIf c (decide (status = .enable))
          (changeStatus status w)
      else
        .ok w
  | none =>
      determineStatusFromExternalAddresses c { w with autoStatusChange := true }

def setStatus
    (c : Clock) (status : Option Status) (w : World) : Except Panic World := do
  let w ← applyStatus c status w
  return { w with waker := false }

/-- The addresses of a static relay after one more was registered. -/
def addressesWith (b : Behaviour) (peerId : PeerId) (address : Multiaddr) :
    List Multiaddr :=
  let known := (b.staticRelays.lookup peerId).getD []
  if address ∈ known then known else known ++ [address]

def addStaticRelay
    (c : Clock) (peerId : PeerId) (address : Multiaddr)
    (w : World) : Except Panic (Bool × World) :=
  if address.isRelayed then .ok (false, w)
  else do
    let combined := addressesWith w.toBehaviour peerId address
    let w := { w with staticRelays := w.staticRelays.insert peerId combined }
    let (queued, w) := queueStaticDial c peerId combined w
    let w ← meetReservationTargetIf c (!queued) w
    return (true, { w with waker := false })

def removeStaticRelay (peerId : PeerId) (w : World) : Bool × World :=
  (decide (peerId ∈ w.staticRelays),
    { w with
      staticDialCooldowns := w.staticDialCooldowns.erase peerId
      staticRelays := w.staticRelays.erase peerId })

/-! ## Swarm events -/

def onConnectionEstablished
    (peerId : PeerId) (connectionId : ConnectionId) (endpoint : ConnectedPoint)
    (w : World) : World :=
  let connection : Connection := ⟨endpoint, .pending⟩
  let w := { w with
    connections := w.connections.insert (peerId, connectionId)
      connection.disqualifyConnectionIfRelayed }
  let w :=
    if w.pendingStaticDials.lookup peerId = some connectionId then
      { w with pendingStaticDials := w.pendingStaticDials.erase peerId }
    else w
  if hasDirectConnection w.toBehaviour peerId then
    { w with staticDialCooldowns := w.staticDialCooldowns.erase peerId }
  else w

/-- Forget the failures of a peer that has no connection left. -/
def clearFailureIfGone (c : Clock) (peerId : PeerId) (w : World) : World :=
  if hasConnection w.toBehaviour peerId then w
  else
    let (cooling, w) := reservationInCooldown c peerId w
    if cooling then w else clearFailure peerId w

/-- Remember the relay of a reservation whose last direct connection closed. -/
def recordClosedRelay
    (c : Clock) (peerId : PeerId) (connection : Connection)
    (w : World) : World :=
  if !connection.isRelayed && !hasDirectConnection w.toBehaviour peerId then
    match (values w.reservations).find? fun r => decide (r.peerId = peerId) with
    | some reservation => recordPreviousRelay c peerId reservation.address w
    | none => w
  else w

/-- Dial a static relay again, if the peer is one. -/
def redialStaticRelay (c : Clock) (peerId : PeerId) (w : World) : World :=
  match w.staticRelays.lookup peerId with
  | some addresses => (queueStaticDial c peerId addresses w).2
  | none => w

def onConnectionClosed
    (c : Clock) (peerId : PeerId) (connectionId : ConnectionId)
    (w : World) : World :=
  match w.connections.lookup (peerId, connectionId) with
  | none => w
  | some connection =>
      let w := { w with
        connections := w.connections.erase (peerId, connectionId) }
      let w := clearFailureIfGone c peerId w
      let w := recordClosedRelay c peerId connection w
      let w := redialStaticRelay c peerId w
      updateRelayAvailability w

def onAddressChange
    (peerId : PeerId) (connectionId : ConnectionId) (new : ConnectedPoint)
    (w : World) : World :=
  match w.connections.lookup (peerId, connectionId) with
  | none => w
  | some connection =>
      { w with
        connections := w.connections.insert (peerId, connectionId)
          { connection with endpoint := new } }

def onNewListenAddr
    (listenerId : ListenerId) (addr : Multiaddr) (w : World) : World :=
  if !addr.isRelayed then w
  else
    match w.reservations.lookup listenerId with
    | some reservation =>
        if reservation.status = .pending then
          let w := { w with
            reservations := w.reservations.insert listenerId
              { reservation with status := .active } }
          clearFailure reservation.peerId
            (forgetPreviousRelay reservation.peerId w)
        else w
    | none =>
        match addr.relayPeerId with
        | some relayPeerId =>
            { w with
              externalReservations :=
                w.externalReservations.insert listenerId relayPeerId }
        | none => w

def onDialFailure
    (c : Clock) (peerId : PeerId) (connectionId : ConnectionId)
    (w : World) : Except Panic World :=
  if w.pendingStaticDials.lookup peerId = some connectionId then
    let w := { w with
      pendingStaticDials := w.pendingStaticDials.erase peerId }
    if peerId ∈ w.staticRelays ∧
        ¬hasDirectConnection w.toBehaviour peerId then
      match (c.instant w.reads).checkedAdd w.config.failureCooldown with
      | none => .error .instantOverflow
      | some deadline =>
          .ok { w.tick with
            staticDialCooldowns := w.staticDialCooldowns.insert peerId deadline }
    else .ok w
  else .ok w

/-- The `match` of `on_swarm_event`. -/
def dispatchSwarmEvent
    (c : Clock) (event : FromSwarm) (w : World) : Except Panic World :=
  match event with
  | .connectionEstablished peerId connectionId endpoint =>
      .ok (onConnectionEstablished peerId connectionId endpoint w)
  | .connectionClosed peerId connectionId =>
      .ok (onConnectionClosed c peerId connectionId w)
  | .addressChange peerId connectionId new =>
      .ok (onAddressChange peerId connectionId new w)
  | .newListenAddr listenerId addr => .ok (onNewListenAddr listenerId addr w)
  | .listenerError listenerId => disableReservation c listenerId true w
  | .listenerClosed listenerId reasonIsErr =>
      disableReservation c listenerId reasonIsErr w
  | .dialFailure (some peerId) connectionId =>
      onDialFailure c peerId connectionId w
  | .dialFailure none _ => .ok w
  | .other => .ok w

/-- The answer of the external address book, and the status it implies. -/
def onExternalAddresses
    (c : Clock) (addresses : List Multiaddr) (change : Bool)
    (w : World) : Except Panic World :=
  let w := { w with externalAddresses := addresses }
  if w.autoStatusChange && change then
    determineStatusFromExternalAddresses c w
  else .ok w

def onSwarmEvent
    (c : Clock) (event : FromSwarm) (addresses : List Multiaddr)
    (change : Bool) (w : World) : Except Panic World := do
  let w ← onExternalAddresses c addresses change w
  dispatchSwarmEvent c event w

/-! ## Handler events -/

/-- Another direct connection to the peer supports the HOP protocol. -/
def hasSupportedConnection (b : Behaviour) (peerId : PeerId) : Bool :=
  b.connections.entries.any fun e =>
    decide (e.1.1 = peerId) && !e.2.isRelayed &&
      decide (e.2.relayStatus = .supported)

/-- Listener ids of the reservations with the peer, in iteration order. -/
def listenersOf (b : Behaviour) (peerId : PeerId) : List ListenerId :=
  b.reservations.entries.filterMap fun e =>
    if e.2.peerId = peerId then some e.1 else none

def onConnectionHandlerEvent
    (c : Clock) (peerId : PeerId) (connectionId : ConnectionId)
    (out : HandlerOut) (w : World) : Except Panic World :=
  match w.connections.lookup (peerId, connectionId) with
  | none => .ok w
  | some connection =>
      match out with
      | .supported =>
          if connection.relayStatus = .supported then .ok w
          else do
            let w := { w with
              connections := w.connections.insert (peerId, connectionId)
                { connection with relayStatus := .supported } }
            let w ← meetReservationTarget c w
            return updateRelayAvailability w
      | .unsupported =>
          let w := { w with
            connections := w.connections.insert (peerId, connectionId)
              { connection with relayStatus := .notSupported } }
          let w :=
            if hasSupportedConnection w.toBehaviour peerId then w
            else queueRemoveListeners (listenersOf w.toBehaviour peerId) w
          .ok (updateRelayAvailability w)

/-! ## Polling -/

/-- Static relays whose dial cooldown has ended. -/
def dueDials (b : Behaviour) (now : Instant) : List PeerId :=
  b.staticDialCooldowns.entries.filterMap fun e =>
    if e.2 ≤ now then some e.1 else none

/-- The loop over the due dials. -/
def retryDials (c : Clock) : List PeerId → World → World
  | [], w => w
  | peerId :: rest, w =>
      retryDials c rest (redialStaticRelay c peerId { w with
        staticDialCooldowns := w.staticDialCooldowns.erase peerId })

/-- Drop the reservation cooldowns that ended, and the failure counters of
peers that have neither a cooldown nor a connection. -/
def sweepCooldowns (now : Instant) (w : World) : World :=
  let reservationCooldowns :=
    retain (fun _ deadline => decide (now < deadline)) w.reservationCooldowns
  { w with
    reservationCooldowns := reservationCooldowns
    failureCounts := retain
      (fun peerId _ => decide (peerId ∈ reservationCooldowns) ||
        hasConnection w.toBehaviour peerId) w.failureCounts
    cooldownWakeup := none }

/-- The earliest deadline of both cooldown maps. -/
def earliestDeadline (b : Behaviour) : Option Instant :=
  (values b.reservationCooldowns ++ values b.staticDialCooldowns).min?

def pollCooldowns
    (c : Clock) (timerReady : Bool) (w : World) :
    Except Panic (Bool × World) :=
  let now := c.instant w.reads
  let w := w.tick
  let reservationsExpired :=
    (values w.reservationCooldowns).any fun deadline => decide (deadline ≤ now)
  let due := dueDials w.toBehaviour now
  if reservationsExpired ∨ due ≠ [] then do
    let w := retryDials c due (sweepCooldowns now w)
    let w ← meetReservationTargetIf c reservationsExpired w
    return (true, w)
  else
    match earliestDeadline w.toBehaviour with
    | none => .ok (false, { w with cooldownWakeup := none })
    | some deadline =>
        .ok (timerReady, { w with cooldownWakeup := some deadline })

/-- How one pass of the loop in `poll` ends. -/
inductive PollPass where
  | ready (event : ToSwarm)
  | again
  | pending
  deriving DecidableEq

def pollPass
    (c : Clock) (timerReady : Bool) (w : World) :
    Except Panic (PollPass × World) :=
  match w.events with
  | event :: rest => .ok (.ready event, { w with events := rest })
  | [] => do
      let (again, w) ← pollCooldowns c timerReady w
      if again then return (.again, w)
      else return (.pending, { w with waker := true })

/-! ## Runs -/

/-- Serve one call. -/
def serve (c : Clock) (i : Input) (w : World) : Except Panic World :=
  match i with
  | .setStatus status => setStatus c status w
  | .addStaticRelay peerId address =>
      return (← addStaticRelay c peerId address w).2
  | .removeStaticRelay peerId => .ok (removeStaticRelay peerId w).2
  | .removeAllReservations => .ok (removeAllReservations w)
  | .swarm event addresses change => onSwarmEvent c event addresses change w
  | .handler peerId connectionId out =>
      onConnectionHandlerEvent c peerId connectionId out w
  | .poll timerReady => return (← pollPass c timerReady w).2
  | .allocate listeners connections =>
      .ok { w with
        nextListener := w.nextListener + listeners
        nextConnection := w.nextConnection + connections }

/-- Record the call in the history and serve it. -/
def step (c : Clock) (i : Input) (w : World) : Except Panic World :=
  serve c i (w.record (.input i))

/-- Register the addresses of one configured static relay. -/
def addStaticRelayAddresses
    (c : Clock) (peerId : PeerId) :
    List Multiaddr → World → Except Panic World
  | [], w => .ok w
  | address :: rest, w => do
      let (_, w) ← addStaticRelay c peerId address w
      addStaticRelayAddresses c peerId rest w

/-- Register all configured static relays. -/
def addStaticRelays (c : Clock) :
    List (Σ _ : PeerId, List Multiaddr) → World → Except Panic World
  | [], w => .ok w
  | ⟨peerId, addresses⟩ :: rest, w => do
      let w ← addStaticRelayAddresses c peerId addresses w
      addStaticRelays c rest w

/-- A process in which the behaviour is about to be created. -/
def World.fresh
    (config : Config) (reads : ℕ) (nextListener : ListenerId)
    (nextConnection : ConnectionId) : World where
  toBehaviour := Behaviour.default { config with staticRelays := ∅ }
  reads := reads
  nextListener := nextListener
  nextConnection := nextConnection
  history := []

/-- `Behaviour::new_with_config`. -/
def newWithConfig
    (c : Clock) (config : Config) (reads : ℕ) (nextListener : ListenerId)
    (nextConnection : ConnectionId) : Except Panic World :=
  addStaticRelays c config.staticRelays.entries
    (World.fresh config reads nextListener nextConnection)

end Connexa.Autorelay
