import Mathlib.Data.Finset.Card
import Connexa.Support.HashMap
import Connexa.Time
import Connexa.Multiaddr

/-!
# The state of the autorelay behaviour

`Behaviour` has the fields of the struct of that name in
`behaviour/autorelay.rs`, under their names.  `World` adds what surrounds it:
how often the clock was read, the identifiers that were already handed out,
and the history of the run.  The history is never read by the behaviour; it
records the inputs, what was queued for the swarm and in which state, and the
cooldowns of failed reservations.
-/

namespace Connexa.Autorelay

/-- `swarm::ListenerId`, handed out by a global counter. -/
abbrev ListenerId := ℕ

/-- `swarm::ConnectionId`, handed out by a global counter. -/
abbrev ConnectionId := ℕ

/-- Seconds and nanoseconds of the wall clock, as one number. -/
abbrev SystemTime := ℕ

inductive Status where
  | enable
  | disable
  deriving DecidableEq

inductive RelayStatus where
  | supported
  | notSupported
  | pending
  deriving DecidableEq

inductive ReservationStatus where
  | pending
  | active
  deriving DecidableEq

/-- `core::ConnectedPoint`. -/
inductive ConnectedPoint where
  | dialer (address : Multiaddr)
  | listener (localAddr sendBackAddr : Multiaddr)
  deriving DecidableEq

/-- `ConnectedPoint::is_relayed`: the dialed or the local address decides. -/
def ConnectedPoint.isRelayed : ConnectedPoint → Bool
  | .dialer address => address.isRelayed
  | .listener localAddr _ => localAddr.isRelayed

/-- `ConnectedPoint::get_remote_address`. -/
def ConnectedPoint.getRemoteAddress : ConnectedPoint → Multiaddr
  | .dialer address => address
  | .listener _ sendBackAddr => sendBackAddr

structure Connection where
  endpoint : ConnectedPoint
  relayStatus : RelayStatus
  deriving DecidableEq

namespace Connection

def isRelayed (connection : Connection) : Bool :=
  connection.endpoint.isRelayed

def addr (connection : Connection) : Multiaddr :=
  connection.endpoint.getRemoteAddress

/-- Mark a relayed connection as not supported. -/
def disqualifyConnectionIfRelayed (connection : Connection) : Connection :=
  if connection.endpoint.isRelayed then
    { connection with relayStatus := .notSupported }
  else
    connection

end Connection

structure Reservation where
  peerId : PeerId
  selectedConnectionId : ConnectionId
  address : Multiaddr
  status : ReservationStatus
  deriving DecidableEq

/-- `NonZeroU8`. -/
structure NonZeroU8 where
  get : ℕ
  pos : 0 < get
  lt : get < 2 ^ 8
  deriving DecidableEq

structure Config where
  maxReservations : NonZeroU8
  failureCooldown : Duration
  failureCooldownMax : Duration
  maxPreviousRelays : ℕ
  staticRelays : HashMap PeerId (List Multiaddr)

/-- `Config::default`. -/
def Config.default : Config where
  maxReservations := ⟨2, by decide, by decide⟩
  failureCooldown := Duration.ofSecs 30 (by decide)
  failureCooldownMax := Duration.ofSecs (10 * 60) (by decide)
  maxPreviousRelays := 16
  staticRelays := ∅

/-- Events reported to the user of the behaviour. -/
inductive Event where
  | statusChanged (status : Status)
  | noRelaysAvailable
  | relaysAvailable
  deriving DecidableEq

/-- The parts of `DialOpts` that the behaviour chooses. -/
structure DialOpts where
  peerId : PeerId
  addresses : List Multiaddr
  connectionId : ConnectionId
  deriving DecidableEq

/-- `ListenOpts`. -/
structure ListenOpts where
  listenerId : ListenerId
  address : Multiaddr
  deriving DecidableEq

/-- The commands and events the behaviour queues. -/
inductive ToSwarm where
  | generateEvent (event : Event)
  | dial (opts : DialOpts)
  | listenOn (opts : ListenOpts)
  | removeListener (id : ListenerId)
  deriving DecidableEq

structure Behaviour where
  config : Config
  status : Status
  autoStatusChange : Bool
  externalAddresses : List Multiaddr
  events : List ToSwarm
  connections : HashMap (PeerId × ConnectionId) Connection
  reservations : HashMap ListenerId Reservation
  pendingEviction : Option ListenerId
  externalReservations : HashMap ListenerId PeerId
  staticRelays : HashMap PeerId (List Multiaddr)
  pendingStaticDials : HashMap PeerId ConnectionId
  staticDialCooldowns : HashMap PeerId Instant
  failureCounts : HashMap PeerId ℕ
  reservationCooldowns : HashMap PeerId Instant
  previousRelays : List (PeerId × Multiaddr × SystemTime)
  relaysAvailable : Bool
  /-- The deadline for which the cooldown timer is registered. -/
  cooldownWakeup : Option Instant
  /-- A waker is registered. -/
  waker : Bool

/-- `Behaviour::default` with the given configuration. -/
def Behaviour.default (config : Config) : Behaviour where
  config := config
  status := .enable
  autoStatusChange := true
  externalAddresses := []
  events := []
  connections := ∅
  reservations := ∅
  pendingEviction := none
  externalReservations := ∅
  staticRelays := ∅
  pendingStaticDials := ∅
  staticDialCooldowns := ∅
  failureCounts := ∅
  reservationCooldowns := ∅
  previousRelays := []
  relaysAvailable := false
  cooldownWakeup := none
  waker := false

/-! ## Inputs -/

/-- The swarm events the behaviour distinguishes.  `other` stands for every
event that only the external address book looks at. -/
inductive FromSwarm where
  | connectionEstablished (peerId : PeerId) (connectionId : ConnectionId)
      (endpoint : ConnectedPoint)
  | connectionClosed (peerId : PeerId) (connectionId : ConnectionId)
  | addressChange (peerId : PeerId) (connectionId : ConnectionId)
      (new : ConnectedPoint)
  | newListenAddr (listenerId : ListenerId) (addr : Multiaddr)
  | listenerError (listenerId : ListenerId)
  | listenerClosed (listenerId : ListenerId) (reasonIsErr : Bool)
  | dialFailure (peerId : Option PeerId) (connectionId : ConnectionId)
  | other
  deriving DecidableEq

/-- What a connection handler reports. -/
inductive HandlerOut where
  | supported
  | unsupported
  deriving DecidableEq

/-- One call into the behaviour.  A swarm event comes with the answer of
libp2p's `ExternalAddresses`: the addresses it then holds and whether it
reports a change.  `poll` is one pass of the loop in `Behaviour::poll`, with
the readiness of the cooldown timer.  `allocate` is not a call: other parts of
the process took fresh listener and connection ids. -/
inductive Input where
  | setStatus (status : Option Status)
  | addStaticRelay (peerId : PeerId) (address : Multiaddr)
  | removeStaticRelay (peerId : PeerId)
  | removeAllReservations
  | swarm (event : FromSwarm) (addresses : List Multiaddr) (change : Bool)
  | handler (peerId : PeerId) (connectionId : ConnectionId) (out : HandlerOut)
  | poll (timerReady : Bool)
  | allocate (listeners connections : ℕ)
  deriving DecidableEq

/-! ## The run around the behaviour -/

/-- One line of the history of a run. -/
inductive Record where
  /-- A call into the behaviour begins. -/
  | input (i : Input)
  /-- `event` was queued after `reads` readings of the clock; `state` is the
  behaviour just before the event was pushed. -/
  | queued (event : ToSwarm) (reads : ℕ) (state : Behaviour)
  /-- A reservation of `peer` failed at `time` and started `cooldown`. -/
  | reservationFailed (peer : PeerId) (time : Instant) (cooldown : Duration)

structure World extends Behaviour where
  /-- Number of clock readings so far. -/
  reads : ℕ
  /-- Listener ids below this number are in use. -/
  nextListener : ListenerId
  /-- Connection ids below this number are in use. -/
  nextConnection : ConnectionId
  history : List Record

/-- The clocks of a run: the value of every reading, in order. -/
structure Clock where
  instant : ℕ → Instant
  system : ℕ → SystemTime

/-- Ways a call can panic. -/
inductive Panic where
  /-- `expect("connection is present")`. -/
  | connectionNotPresent
  /-- `debug_assert!(self.covered_peers().len() <= max)`. -/
  | reservationTargetExceeded
  /-- `Instant + Duration` out of range. -/
  | instantOverflow
  deriving DecidableEq

namespace World

/-- Account for one reading of a clock. -/
def tick (w : World) : World :=
  { w with reads := w.reads + 1 }

/-- `self.events.push_back(event)`. -/
def queue (event : ToSwarm) (w : World) : World :=
  { w with
    events := w.events ++ [event]
    history := w.history ++ [.queued event w.reads w.toBehaviour] }

/-- Append a line to the history. -/
def record (r : Record) (w : World) : World :=
  { w with history := w.history ++ [r] }

/-- The latest reading of the monotonic clock. -/
def lastInstant (c : Clock) (w : World) : Instant :=
  c.instant (w.reads - 1)

end World

end Connexa.Autorelay
