import Connexa.Multiaddr
import Connexa.Support.Broadcast
import Connexa.Support.HashMap

/-!
# Listeners of the task

The functions follow `process_gossipsub_command` and `process_gossipsub_event` in
`task/gossipsub.rs`, `process_floodsub_command` and `process_floodsub_event` in
`task/floodsub.rs`, what `process_swarm_event` in `task/swarm.rs` tells its
`connection_listeners`, `SwarmCommand::Listener`, and the cleanup in `poll` of
`task.rs`.  What libp2p returns to a call is an argument of the command.
-/

namespace Connexa.Listeners

open HashMap Mpsc

/-- `libp2p::gossipsub::TopicHash` -/
abbrev TopicHash := String

/-- `libp2p::floodsub::Topic` -/
abbrev Topic := String

abbrev Bytes := List UInt8

/-! ## Events -/

structure GossipsubMessage where
  messageId : Bytes
  propagatedSource : PeerId
  source : Option PeerId
  data : Bytes
  sequenceNumber : Option ℕ
  deriving DecidableEq

inductive GossipsubEvent where
  | subscribed (peerId : PeerId)
  | unsubscribed (peerId : PeerId)
  | message (message : GossipsubMessage)
  deriving DecidableEq

structure FloodsubMessage where
  source : PeerId
  data : Bytes
  sequenceNumber : Bytes
  deriving DecidableEq

inductive FloodsubEvent where
  | subscribed (peerId : PeerId)
  | unsubscribed (peerId : PeerId)
  | message (message : FloodsubMessage)
  deriving DecidableEq

abbrev ConnectionId := ℕ

abbrev ListenerId := ℕ

/-- `libp2p::core::ConnectedPoint` -/
inductive ConnectedPoint where
  | dialer (address : Multiaddr)
  | listener (localAddr sendBackAddr : Multiaddr)
  deriving DecidableEq

/-- `ConnexaSwarmEvent`, with the errors of libp2p as texts. -/
inductive ConnexaSwarmEvent where
  | connectionEstablished (peerId : PeerId) (connectionId : ConnectionId)
      (endpoint : ConnectedPoint) (established : ℕ)
  | connectionClosed (peerId : PeerId) (connectionId : ConnectionId)
      (endpoint : ConnectedPoint) (numEstablished : ℕ) (cause : Option String)
  | incomingConnection (connectionId : ConnectionId)
      (localAddr sendBackAddr : Multiaddr)
  | incomingConnectionError (connectionId : ConnectionId)
      (localAddr sendBackAddr : Multiaddr) (error : String) (peerId : Option PeerId)
  | outgoingConnectionError (connectionId : ConnectionId) (peerId : Option PeerId)
      (error : String)
  | newListenAddr (id : ListenerId) (address : Multiaddr)
  | listenAddrExpired (id : ListenerId) (address : Multiaddr)
  | listenAddrClosed (id : ListenerId) (addresses : List Multiaddr)
  | newExternalAddr (address : Multiaddr)
  | externalAddrExpired (address : Multiaddr)
  | externalAddrOfPeer (peerId : PeerId) (address : Multiaddr)
  deriving DecidableEq

/-! ## Answers -/

inductive GossipsubError where
  | alreadySubscribed (topic : TopicHash)
  | notSubscribed (topic : TopicHash)
  /-- `SubscriptionError` with its text. -/
  | subscription (text : String)
  /-- `PublishError` with its text. -/
  | publish (text : String)
  deriving DecidableEq

inductive FloodsubError where
  | alreadySubscribed (topic : Topic)
  | notSubscribed (topic : Topic)
  deriving DecidableEq

inductive Protocol where
  | gossipsub
  | floodsub
  deriving DecidableEq

inductive Error where
  | disabled (protocol : Protocol)
  | gossipsub (error : GossipsubError)
  | floodsub (error : FloodsubError)
  deriving DecidableEq

/-- What is sent to a responder; a receiver is the number of its channel. -/
inductive Response where
  | unit (result : Except Error Unit)
  | peers (result : Except Error (List PeerId))
  | topics (result : Except Error (List TopicHash))
  | stored (result : Except Error Bool)
  | receiver (result : Except Error ℕ)
  deriving DecidableEq

/-! ## The task -/

structure Task where
  gossipsubListener : HashMap TopicHash (List ℕ)
  floodsubListener : HashMap Topic (List ℕ)
  connectionListeners : List ℕ
  /-- The results that were sent, in order. -/
  sent : List (ℕ × Response)

/-- The task and the other ends of its channels. -/
structure World where
  task : Task
  gossipsubChannels : List (Reader GossipsubEvent)
  floodsubChannels : List (Reader FloodsubEvent)
  connectionChannels : List (Reader ConnexaSwarmEvent)
  /-- Whether the behaviours are enabled. -/
  gossipsub : Bool
  floodsub : Bool

def World.new (gossipsub floodsub : Bool) : World where
  task := ⟨∅, ∅, [], []⟩
  gossipsubChannels := []
  floodsubChannels := []
  connectionChannels := []
  gossipsub := gossipsub
  floodsub := floodsub

/-- `resp.send(response)` -/
def World.send (resp : ℕ) (response : Response) (w : World) : World :=
  { w with task := { w.task with sent := w.task.sent ++ [(resp, response)] } }

/-- `entry(topic).or_default().push(tx)` -/
def pushAt (topic : String) (tx : ℕ) (listeners : HashMap String (List ℕ)) :
    HashMap String (List ℕ) :=
  listeners.insert topic ((listeners.lookup topic).getD [] ++ [tx])

/-- `retain(|_, v| { v.retain(|ch| !ch.is_closed()); !v.is_empty() })` -/
def retainOpen {E : Type} (channels : List (Reader E))
    (listeners : HashMap String (List ℕ)) : HashMap String (List ℕ) :=
  retain (fun _ chs => !chs.isEmpty)
    (update (fun _ chs => chs.filter (Hub.isOpen channels)) listeners)

/-! ## Gossipsub -/

inductive GossipsubCommand where
  | subscribe (topic : TopicHash) (answer : Except String Bool)
  | unsubscribe (topic : TopicHash) (answer : Bool)
  | peers (topic : TopicHash) (allPeers : List (PeerId × List TopicHash))
  | subscribed (topics : List TopicHash)
  | publish (answer : Except String Unit)
  | gossipsubListener (topic : TopicHash)
  | reportMessage (isStoredInCache : Bool)

/-- A refusal, in the type of the answer. -/
def GossipsubCommand.error (e : Error) : GossipsubCommand → Response
  | .peers _ _ => .peers (.error e)
  | .subscribed _ => .topics (.error e)
  | .gossipsubListener _ => .receiver (.error e)
  | .reportMessage _ => .stored (.error e)
  | _ => .unit (.error e)

def processGossipsubCommand (resp : ℕ) (command : GossipsubCommand) (w : World) :
    World :=
  if !w.gossipsub then w.send resp (command.error (.disabled .gossipsub))
  else
    match command with
    | .subscribe _ (.ok true) => w.send resp (.unit (.ok ()))
    | .subscribe topic (.ok false) =>
        w.send resp (.unit (.error (.gossipsub (.alreadySubscribed topic))))
    | .subscribe _ (.error e) =>
        w.send resp (.unit (.error (.gossipsub (.subscription e))))
    | .unsubscribe _ true => w.send resp (.unit (.ok ()))
    | .unsubscribe topic false =>
        w.send resp (.unit (.error (.gossipsub (.notSubscribed topic))))
    | .peers topic allPeers =>
        let peers := allPeers.filterMap fun p =>
          if p.2.contains topic then some p.1 else none
        w.send resp (.peers (.ok peers))
    | .subscribed topics => w.send resp (.topics (.ok topics))
    | .publish (.ok ()) => w.send resp (.unit (.ok ()))
    | .publish (.error e) => w.send resp (.unit (.error (.gossipsub (.publish e))))
    | .gossipsubListener topic =>
        let tx := w.gossipsubChannels.length
        { w with
          task :=
            { w.task with
              gossipsubListener := pushAt topic tx w.task.gossipsubListener
              sent := w.task.sent ++ [(resp, .receiver (.ok tx))] }
          gossipsubChannels := w.gossipsubChannels ++ [Reader.new 50] }
    | .reportMessage isStoredInCache => w.send resp (.stored (.ok isStoredInCache))

/-- `libp2p::gossipsub::Event` -/
inductive GossipsubNotice where
  | message (propagationSource : PeerId) (messageId : Bytes) (source : Option PeerId)
      (data : Bytes) (sequenceNumber : Option ℕ) (topic : TopicHash)
  | subscribed (peerId : PeerId) (topic : TopicHash)
  | unsubscribed (peerId : PeerId) (topic : TopicHash)
  | gossipsubNotSupported (peerId : PeerId)
  | slowPeer (peerId : PeerId)

/-- The topic of an event, and what its listeners are told. -/
def GossipsubNotice.event : GossipsubNotice → Option (TopicHash × GossipsubEvent)
  | .message propagationSource messageId source data sequenceNumber topic =>
      some (topic, .message ⟨messageId, propagationSource, source, data, sequenceNumber⟩)
  | .subscribed peerId topic => some (topic, .subscribed peerId)
  | .unsubscribed peerId topic => some (topic, .unsubscribed peerId)
  | .gossipsubNotSupported _ => none
  | .slowPeer _ => none

def processGossipsubEvent (notice : GossipsubNotice) (w : World) : World :=
  match notice.event with
  | none => w
  | some (topic, event) =>
      match w.task.gossipsubListener.lookup topic with
      | none => w
      | some chs =>
          { w with gossipsubChannels := Hub.tell event chs w.gossipsubChannels }

/-! ## Floodsub -/

inductive FloodsubCommand where
  | subscribe (topic : Topic) (answer : Bool)
  | unsubscribe (topic : Topic) (answer : Bool)
  /-- One of the four ways to publish. -/
  | publish
  | floodsubListener (topic : Topic)
  | addNodeToPartialView
  | removeNodeFromPartialView

/-- A refusal, in the type of the answer. -/
def FloodsubCommand.error (e : Error) : FloodsubCommand → Response
  | .floodsubListener _ => .receiver (.error e)
  | _ => .unit (.error e)

def processFloodsubCommand (resp : ℕ) (command : FloodsubCommand) (w : World) : World :=
  if !w.floodsub then w.send resp (command.error (.disabled .floodsub))
  else
    match command with
    | .subscribe _ true => w.send resp (.unit (.ok ()))
    | .subscribe topic false =>
        w.send resp (.unit (.error (.floodsub (.alreadySubscribed topic))))
    | .unsubscribe _ true => w.send resp (.unit (.ok ()))
    | .unsubscribe topic false =>
        w.send resp (.unit (.error (.floodsub (.notSubscribed topic))))
    | .publish => w.send resp (.unit (.ok ()))
    | .floodsubListener topic =>
        let tx := w.floodsubChannels.length
        { w with
          task :=
            { w.task with
              floodsubListener := pushAt topic tx w.task.floodsubListener
              sent := w.task.sent ++ [(resp, .receiver (.ok tx))] }
          floodsubChannels := w.floodsubChannels ++ [Reader.new 50] }
    | .addNodeToPartialView => w.send resp (.unit (.ok ()))
    | .removeNodeFromPartialView => w.send resp (.unit (.ok ()))

/-- `libp2p::floodsub::Event` -/
inductive FloodsubNotice where
  | message (source : PeerId) (data : Bytes) (sequenceNumber : Bytes)
      (topics : List Topic)
  | subscribed (peerId : PeerId) (topic : Topic)
  | unsubscribed (peerId : PeerId) (topic : Topic)

/-- The topics of an event, and what their listeners are told. -/
def FloodsubNotice.event : FloodsubNotice → List Topic × FloodsubEvent
  | .message source data sequenceNumber topics =>
      (topics, .message ⟨source, data, sequenceNumber⟩)
  | .subscribed peerId topic => ([topic], .subscribed peerId)
  | .unsubscribed peerId topic => ([topic], .unsubscribed peerId)

def processFloodsubEvent (notice : FloodsubNotice) (w : World) : World :=
  let (topics, event) := notice.event
  topics.foldl
    (fun w topic =>
      match w.task.floodsubListener.lookup topic with
      | none => w
      | some chs =>
          { w with floodsubChannels := Hub.tell event chs w.floodsubChannels })
    w

/-! ## The swarm -/

/-- `libp2p::swarm::SwarmEvent`, as far as the listeners are concerned. -/
inductive SwarmEvent where
  | connectionEstablished (peerId : PeerId) (connectionId : ConnectionId)
      (endpoint : ConnectedPoint) (numEstablished : ℕ)
  | connectionClosed (peerId : PeerId) (connectionId : ConnectionId)
      (endpoint : ConnectedPoint) (numEstablished : ℕ) (cause : Option String)
  | incomingConnection (connectionId : ConnectionId)
      (localAddr sendBackAddr : Multiaddr)
  | incomingConnectionError (peerId : Option PeerId) (connectionId : ConnectionId)
      (localAddr sendBackAddr : Multiaddr) (error : String)
  | outgoingConnectionError (connectionId : ConnectionId) (peerId : Option PeerId)
      (error : String)
  | newListenAddr (listenerId : ListenerId) (address : Multiaddr)
  | expiredListenAddr (listenerId : ListenerId) (address : Multiaddr)
  | listenerClosed (listenerId : ListenerId) (addresses : List Multiaddr)
  | listenerError
  | dialing
  | newExternalAddrCandidate
  | externalAddrConfirmed (address : Multiaddr)
  | externalAddrExpired (address : Multiaddr)
  | newExternalAddrOfPeer (peerId : PeerId) (address : Multiaddr)

/-- `self.connection_listeners.retain(|ch| !ch.is_closed())` -/
def World.retainConnectionListeners (w : World) : World :=
  { w with
    task :=
      { w.task with
        connectionListeners :=
          w.task.connectionListeners.filter (Hub.isOpen w.connectionChannels) } }

/-- `try_send` to all `connection_listeners`. -/
def World.tellConnectionListeners (event : ConnexaSwarmEvent) (w : World) : World :=
  { w with
    connectionChannels :=
      Hub.tell event w.task.connectionListeners w.connectionChannels }

def processSwarmEvent (event : SwarmEvent) (w : World) : World :=
  match event with
  | .connectionEstablished peerId connectionId endpoint numEstablished =>
      w.retainConnectionListeners.tellConnectionListeners
        (.connectionEstablished peerId connectionId endpoint numEstablished)
  | .connectionClosed peerId connectionId endpoint numEstablished cause =>
      w.retainConnectionListeners.tellConnectionListeners
        (.connectionClosed peerId connectionId endpoint numEstablished cause)
  | .incomingConnection connectionId localAddr sendBackAddr =>
      w.tellConnectionListeners
        (.incomingConnection connectionId localAddr sendBackAddr)
  | .incomingConnectionError peerId connectionId localAddr sendBackAddr error =>
      w.tellConnectionListeners
        (.incomingConnectionError connectionId localAddr sendBackAddr error peerId)
  | .outgoingConnectionError connectionId peerId error =>
      w.tellConnectionListeners (.outgoingConnectionError connectionId peerId error)
  | .newListenAddr listenerId address =>
      w.tellConnectionListeners (.newListenAddr listenerId address)
  | .expiredListenAddr listenerId address =>
      w.tellConnectionListeners (.listenAddrExpired listenerId address)
  | .listenerClosed listenerId addresses =>
      w.tellConnectionListeners (.listenAddrClosed listenerId addresses)
  | .listenerError => w
  | .dialing => w
  | .newExternalAddrCandidate => w
  | .externalAddrConfirmed address =>
      w.tellConnectionListeners (.newExternalAddr address)
  | .externalAddrExpired address =>
      w.tellConnectionListeners (.externalAddrExpired address)
  | .newExternalAddrOfPeer peerId address =>
      w.tellConnectionListeners (.externalAddrOfPeer peerId address)

/-- `SwarmCommand::Listener` -/
def listener (resp : ℕ) (w : World) : World :=
  let tx := w.connectionChannels.length
  { w with
    task :=
      { w.task with
        connectionListeners := w.task.connectionListeners ++ [tx]
        sent := w.task.sent ++ [(resp, .receiver (.ok tx))] }
    connectionChannels := w.connectionChannels ++ [Reader.new 50] }

/-- The part of the periodic cleanup that forgets closed listeners. -/
def cleanup (w : World) : World :=
  { w with
    task :=
      { w.task with
        gossipsubListener := retainOpen w.gossipsubChannels w.task.gossipsubListener
        floodsubListener := retainOpen w.floodsubChannels w.task.floodsubListener
        connectionListeners :=
          w.task.connectionListeners.filter (Hub.isOpen w.connectionChannels) } }

end Connexa.Listeners
