import Connexa.Multiaddr
import Connexa.Support.HashMap
import Connexa.Support.Runs

/-!
# Swarm commands of the task

The functions follow the `SwarmCommand` part of `process_command` in `task.rs`
and `process_swarm_event` in `task/swarm.rs`.  Next to the task stands libp2p's
swarm, as far as the commands and events depend on it: the dials it has
accepted, its connections and its listeners.  Responders are numbered; the task
records what it sends and which senders it drops.
-/

namespace Connexa.SwarmTask

open HashMap

abbrev ConnectionId := ℕ

abbrev ListenerId := ℕ

/-- `libp2p::swarm::DialError` -/
inductive DialError where
  | localPeerId
  | noAddresses
  | dialPeerConditionFalse
  | aborted
  | wrongPeerId
  | denied
  | transport
  deriving DecidableEq

inductive Error where
  | dial (error : DialError)
  | notConnected (peerId : PeerId)
  | notFound (what : String)
  /-- `io::Error` with its text. -/
  | io (text : String)
  deriving DecidableEq

/-- What is sent to a responder. -/
inductive Response where
  | dial (result : Except Error ConnectionId)
  | disconnect (result : Except Error Unit)
  | listenOn (result : Except Error ListenerId)
  | listeningAddress (result : Except Error (List Multiaddr))
  | removeListener (result : Except Error Unit)
  deriving DecidableEq

/-- The tables of responders that wait for an event. -/
structure Pending where
  pendingConnection : HashMap ConnectionId ℕ
  pendingDisconnectionByConnectionId : HashMap ConnectionId ℕ
  pendingDisconnectionByPeerId : HashMap PeerId ℕ
  pendingListenOn : HashMap ListenerId ℕ
  pendingRemoveListener : HashMap ListenerId ℕ

structure Task extends Pending where
  listenerAddresses : HashMap ListenerId (List Multiaddr)
  /-- The results that were sent, in order. -/
  sent : List (ℕ × Response)
  /-- The senders that were dropped unused. -/
  dropped : List ℕ

def Task.new : Task where
  pendingConnection := ∅
  pendingDisconnectionByConnectionId := ∅
  pendingDisconnectionByPeerId := ∅
  pendingListenOn := ∅
  pendingRemoveListener := ∅
  listenerAddresses := ∅
  sent := []
  dropped := []

namespace Task

/-- `resp.send(response)` -/
def send (resp : ℕ) (response : Response) (task : Task) : Task :=
  { task with sent := task.sent ++ [(resp, response)] }

/-- Send to a responder that was taken out of a table, if there was one. -/
def sendTo (resp : Option ℕ) (response : Response) (task : Task) : Task :=
  { task with
    sent := task.sent ++ (resp.map fun resp => (resp, response)).toList }

/-- The sender that an insertion replaces is dropped. -/
def drop (replaced : Option ℕ) (task : Task) : Task :=
  { task with dropped := task.dropped ++ replaced.toList }

/-! ## Commands -/

/-- `refusal` is the error of `swarm.dial`, if there is one. -/
def dial (connectionId : ConnectionId) (resp : ℕ) (refusal : Option DialError)
    (task : Task) : Task :=
  match refusal with
  | some e => task.send resp (.dial (.error (.dial e)))
  | none =>
      { task with
        pendingConnection := task.pendingConnection.insert connectionId resp }.drop
        (task.pendingConnection.lookup connectionId)

/-- `connected` is whether `swarm.disconnect_peer_id` succeeds. -/
def disconnectPeer (peerId : PeerId) (resp : ℕ) (connected : Bool)
    (task : Task) : Task :=
  if connected then
    { task with
      pendingDisconnectionByPeerId :=
        task.pendingDisconnectionByPeerId.insert peerId resp }.drop
      (task.pendingDisconnectionByPeerId.lookup peerId)
  else task.send resp (.disconnect (.error (.notConnected peerId)))

/-- `closing` is the result of `swarm.close_connection`. -/
def disconnectConnection (connectionId : ConnectionId) (resp : ℕ)
    (closing : Bool) (task : Task) : Task :=
  if closing then
    { task with
      pendingDisconnectionByConnectionId :=
        task.pendingDisconnectionByConnectionId.insert connectionId resp }.drop
      (task.pendingDisconnectionByConnectionId.lookup connectionId)
  else task.send resp (.disconnect (.error (.notFound "connection")))

/-- `answer` is the result of `swarm.listen_on`. -/
def listenOn (resp : ℕ) (answer : Except String ListenerId) (task : Task) : Task :=
  match answer with
  | .error e => task.send resp (.listenOn (.error (.io e)))
  | .ok id =>
      { task with pendingListenOn := task.pendingListenOn.insert id resp }.drop
        (task.pendingListenOn.lookup id)

def getListeningAddress (id : ListenerId) (resp : ℕ) (task : Task) : Task :=
  match task.listenerAddresses.lookup id with
  | none => task.send resp (.listeningAddress (.error (.notFound "listener")))
  | some addrs => task.send resp (.listeningAddress (.ok addrs))

/-- `removed` is the result of `swarm.remove_listener`. -/
def removeListener (listenerId : ListenerId) (resp : ℕ) (removed : Bool)
    (task : Task) : Task :=
  if removed then
    { task with
      listenerAddresses := task.listenerAddresses.erase listenerId
      pendingRemoveListener :=
        task.pendingRemoveListener.insert listenerId resp }.drop
      (task.pendingRemoveListener.lookup listenerId)
  else task.send resp (.removeListener (.error (.notFound "listener")))

/-! ## Swarm events -/

def connectionEstablished (connectionId : ConnectionId) (task : Task) : Task :=
  { task with pendingConnection := task.pendingConnection.erase connectionId }.sendTo
    (task.pendingConnection.lookup connectionId) (.dial (.ok connectionId))

def outgoingConnectionError (connectionId : ConnectionId) (error : DialError)
    (task : Task) : Task :=
  { task with pendingConnection := task.pendingConnection.erase connectionId }.sendTo
    (task.pendingConnection.lookup connectionId) (.dial (.error (.dial error)))

def connectionClosed (connectionId : ConnectionId) (peerId : PeerId)
    (cause : Option String) (task : Task) : Task :=
  let ret : Except Error Unit :=
    match cause with
    | some e => .error (.io e)
    | none => .ok ()
  let task' := { task with
    pendingDisconnectionByConnectionId :=
      task.pendingDisconnectionByConnectionId.erase connectionId
    pendingDisconnectionByPeerId :=
      task.pendingDisconnectionByPeerId.erase peerId }
  match task.pendingDisconnectionByConnectionId.lookup connectionId,
    task.pendingDisconnectionByPeerId.lookup peerId with
  | some ch, none => task'.send ch (.disconnect ret)
  | none, some ch => task'.send ch (.disconnect ret)
  | some left, some right =>
      (task'.send left (.disconnect (.ok ()))).send right (.disconnect ret)
  | none, none => task'

def newListenAddr (listenerId : ListenerId) (address : Multiaddr)
    (task : Task) : Task :=
  { task with
    pendingListenOn := task.pendingListenOn.erase listenerId
    listenerAddresses := task.listenerAddresses.insert listenerId
      ((task.listenerAddresses.lookup listenerId).getD [] ++ [address]) }.sendTo
    (task.pendingListenOn.lookup listenerId) (.listenOn (.ok listenerId))

def expiredListenAddr (listenerId : ListenerId) (address : Multiaddr)
    (task : Task) : Task :=
  match task.listenerAddresses.lookup listenerId with
  | none => task
  | some addrs =>
      let kept := addrs.filter (· ≠ address)
      { task with
        listenerAddresses :=
          if kept = [] then task.listenerAddresses.erase listenerId
          else task.listenerAddresses.insert listenerId kept }

def listenerClosed (listenerId : ListenerId) (reason : Except String Unit)
    (task : Task) : Task :=
  let err : Error :=
    match reason with
    | .ok () => .io "listener closed before producing an address"
    | .error e => .io e
  let task' := { task with
    listenerAddresses := task.listenerAddresses.erase listenerId
    pendingListenOn := task.pendingListenOn.erase listenerId
    pendingRemoveListener := task.pendingRemoveListener.erase listenerId }
  (task'.sendTo (task.pendingListenOn.lookup listenerId)
      (.listenOn (.error err))).sendTo
    (task.pendingRemoveListener.lookup listenerId)
    (.removeListener (reason.mapError .io))

end Task

/-! ## The swarm -/

structure Connection where
  peerId : PeerId
  /-- It was asked to close. -/
  closing : Bool
  deriving DecidableEq

structure Listener where
  /-- It has not reported an address yet, and a command waits for that. -/
  awaited : Bool
  /-- It was removed. -/
  removed : Bool
  deriving DecidableEq

structure Swarm where
  /-- The dials that were accepted and not reported on yet. -/
  dialing : List ConnectionId
  connections : HashMap ConnectionId Connection
  listeners : HashMap ListenerId Listener
  usedConnections : List ConnectionId
  usedListeners : List ListenerId

def Swarm.new : Swarm where
  dialing := []
  connections := ∅
  listeners := ∅
  usedConnections := []
  usedListeners := []

namespace Swarm

def isConnected (peerId : PeerId) (swarm : Swarm) : Bool :=
  swarm.connections.entries.any fun e => e.2.peerId == peerId

def disconnectPeerId (peerId : PeerId) (swarm : Swarm) : Swarm :=
  { swarm with
    connections := swarm.connections.update fun _ c =>
      if c.peerId = peerId then { c with closing := true } else c }

def hasConnection (connectionId : ConnectionId) (swarm : Swarm) : Bool :=
  (swarm.connections.lookup connectionId).isSome

def closeConnection (connectionId : ConnectionId) (swarm : Swarm) : Swarm :=
  { swarm with
    connections := swarm.connections.update fun id c =>
      if id = connectionId then { c with closing := true } else c }

/-- `remove_listener` succeeds once. -/
def canRemove (listenerId : ListenerId) (swarm : Swarm) : Bool :=
  match swarm.listeners.lookup listenerId with
  | some listener => !listener.removed
  | none => false

def removeListener (listenerId : ListenerId) (swarm : Swarm) : Swarm :=
  { swarm with
    listeners := swarm.listeners.update fun id listener =>
      if id = listenerId then { listener with removed := true } else listener }

end Swarm

/-! ## Runs -/

inductive Input where
  | dial (connectionId : ConnectionId) (resp : ℕ) (refusal : Option DialError)
  | disconnectPeer (peerId : PeerId) (resp : ℕ)
  | disconnectConnection (connectionId : ConnectionId) (resp : ℕ)
  | listenOn (resp : ℕ) (answer : Except String ListenerId)
  | getListeningAddress (id : ListenerId) (resp : ℕ)
  | removeListener (listenerId : ListenerId) (resp : ℕ)
  /-- A behaviour of the swarm dials or listens. -/
  | behaviourDials (connectionId : ConnectionId)
  | behaviourListens (listenerId : ListenerId)
  | connectionEstablished (connectionId : ConnectionId) (peerId : PeerId)
  | outgoingConnectionError (connectionId : ConnectionId) (error : DialError)
  | connectionClosed (connectionId : ConnectionId) (peerId : PeerId)
      (cause : Option String)
  | newListenAddr (listenerId : ListenerId) (address : Multiaddr)
  | expiredListenAddr (listenerId : ListenerId) (address : Multiaddr)
  | listenerClosed (listenerId : ListenerId) (reason : Except String Unit)

/-- The responder of a command. -/
def Input.resp : Input → Option ℕ
  | .dial _ resp _ | .disconnectPeer _ resp | .disconnectConnection _ resp
  | .listenOn resp _ | .getListeningAddress _ resp | .removeListener _ resp =>
      some resp
  | _ => none

structure World where
  task : Task
  swarm : Swarm
  /-- The responders of the commands so far. -/
  asked : List ℕ

def World.new : World where
  task := .new
  swarm := .new
  asked := []

/-- What the task does. -/
def serve (i : Input) (w : World) : Task :=
  match i with
  | .dial connectionId resp refusal => w.task.dial connectionId resp refusal
  | .disconnectPeer peerId resp =>
      w.task.disconnectPeer peerId resp (w.swarm.isConnected peerId)
  | .disconnectConnection connectionId resp =>
      w.task.disconnectConnection connectionId resp
        (w.swarm.hasConnection connectionId)
  | .listenOn resp answer => w.task.listenOn resp answer
  | .getListeningAddress id resp => w.task.getListeningAddress id resp
  | .removeListener listenerId resp =>
      w.task.removeListener listenerId resp (w.swarm.canRemove listenerId)
  | .behaviourDials _ => w.task
  | .behaviourListens _ => w.task
  | .connectionEstablished connectionId _ =>
      w.task.connectionEstablished connectionId
  | .outgoingConnectionError connectionId error =>
      w.task.outgoingConnectionError connectionId error
  | .connectionClosed connectionId peerId cause =>
      w.task.connectionClosed connectionId peerId cause
  | .newListenAddr listenerId address => w.task.newListenAddr listenerId address
  | .expiredListenAddr listenerId address =>
      w.task.expiredListenAddr listenerId address
  | .listenerClosed listenerId reason => w.task.listenerClosed listenerId reason

/-- What the swarm does. -/
def follow (i : Input) (swarm : Swarm) : Swarm :=
  match i with
  | .dial connectionId _ refusal =>
      { swarm with
        usedConnections := connectionId :: swarm.usedConnections
        dialing :=
          if refusal = none then connectionId :: swarm.dialing else swarm.dialing }
  | .disconnectPeer peerId _ => swarm.disconnectPeerId peerId
  | .disconnectConnection connectionId _ => swarm.closeConnection connectionId
  | .listenOn _ (.ok id) =>
      { swarm with
        usedListeners := id :: swarm.usedListeners
        listeners := swarm.listeners.insert id ⟨true, false⟩ }
  | .listenOn _ (.error _) => swarm
  | .getListeningAddress _ _ => swarm
  | .removeListener listenerId _ => swarm.removeListener listenerId
  | .behaviourDials connectionId =>
      { swarm with
        usedConnections := connectionId :: swarm.usedConnections
        dialing := connectionId :: swarm.dialing }
  | .behaviourListens listenerId =>
      { swarm with
        usedListeners := listenerId :: swarm.usedListeners
        listeners := swarm.listeners.insert listenerId ⟨false, false⟩ }
  | .connectionEstablished connectionId peerId =>
      { swarm with
        usedConnections := connectionId :: swarm.usedConnections
        dialing := swarm.dialing.filter (· ≠ connectionId)
        connections := swarm.connections.insert connectionId ⟨peerId, false⟩ }
  | .outgoingConnectionError connectionId _ =>
      { swarm with dialing := swarm.dialing.filter (· ≠ connectionId) }
  | .connectionClosed connectionId _ _ =>
      { swarm with connections := swarm.connections.erase connectionId }
  | .newListenAddr listenerId _ =>
      { swarm with
        listeners := swarm.listeners.update fun id listener =>
          if id = listenerId then { listener with awaited := false } else listener }
  | .expiredListenAddr _ _ => swarm
  | .listenerClosed listenerId _ =>
      { swarm with listeners := swarm.listeners.erase listenerId }

def step (i : Input) (w : World) : World where
  task := serve i w
  swarm := follow i w.swarm
  asked := w.asked ++ i.resp.toList

def service : Service World Input where
  init w := w = World.new
  step := step

/-- Commands have their own responders.  libp2p's ids are unique; it reports on
the dials it accepted, on its connections and on its listeners. -/
structure Contract (w : World) (i : Input) : Prop where
  fresh : ∀ resp, i.resp = some resp → resp ∉ w.asked
  dialed : ∀ connectionId resp refusal, i = .dial connectionId resp refusal →
    connectionId ∉ w.swarm.usedConnections
  listened : ∀ resp id, i = .listenOn resp (.ok id) → id ∉ w.swarm.usedListeners
  behaviourDialed : ∀ connectionId, i = .behaviourDials connectionId →
    connectionId ∉ w.swarm.usedConnections
  behaviourListened : ∀ listenerId, i = .behaviourListens listenerId →
    listenerId ∉ w.swarm.usedListeners
  established : ∀ connectionId peerId, i = .connectionEstablished connectionId peerId →
    connectionId ∈ w.swarm.dialing ∨ connectionId ∉ w.swarm.usedConnections
  failed : ∀ connectionId error, i = .outgoingConnectionError connectionId error →
    connectionId ∈ w.swarm.dialing
  closed : ∀ connectionId peerId cause,
    i = .connectionClosed connectionId peerId cause →
      ∃ closing, w.swarm.connections.lookup connectionId = some ⟨peerId, closing⟩
  announced : ∀ listenerId address, i = .newListenAddr listenerId address →
    listenerId ∈ w.swarm.listeners
  ended : ∀ listenerId reason, i = .listenerClosed listenerId reason →
    listenerId ∈ w.swarm.listeners

end Connexa.SwarmTask
