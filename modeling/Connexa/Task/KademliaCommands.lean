import Connexa.Support.Replies
import Connexa.Task.KademliaQueries

/-!
# DHT commands with one answer

The functions follow the arms of `process_kademlia_command` in `task/kad.rs` that
answer with one result, and the arms of `process_kademlia_event` that report on
their queries.  What libp2p returns to a call is an argument of the command.
-/

namespace Connexa.KademliaCommands

open HashMap
open KademliaTask (Key)
open KademliaQueries (QueryId)

/-- `libp2p::kad::PeerInfo` -/
structure PeerInfo where
  peerId : PeerId
  addrs : List Multiaddr
  deriving DecidableEq

/-- `libp2p::kad::Mode` -/
inductive Mode where
  | client
  | server
  deriving DecidableEq

/-- `libp2p::kad::store::Error` -/
inductive StoreError where
  | maxRecords
  | maxProvidedKeys
  | valueTooLarge
  deriving DecidableEq

inductive PutRecordError where
  | quorumFailed (key : Key) (success : List PeerId) (quorum : ℕ)
  | timeout (key : Key) (success : List PeerId) (quorum : ℕ)
  deriving DecidableEq

inductive AddProviderError where
  | timeout (key : Key)
  deriving DecidableEq

/-- `libp2p::kad::RoutingUpdate` -/
inductive RoutingUpdate where
  | success
  | pending
  | failed
  deriving DecidableEq

/-- `error::dht::Error`, as far as these commands return it. -/
inductive DhtError where
  | noKnownPeers
  | store (error : StoreError)
  | putRecord (error : PutRecordError)
  | addProvider (error : AddProviderError)
  deriving DecidableEq

inductive RoutingOp where
  | addAddress
  | removeAddress
  | removePeer
  deriving DecidableEq

inductive Error where
  /-- `Error::Disabled` for Kademlia. -/
  | disabled
  | notFound (what : String)
  | timeout
  | dht (error : DhtError)
  | routing (op : RoutingOp)
  deriving DecidableEq

/-- What is sent to a responder. -/
inductive Response where
  | peers (result : Except Error (List PeerInfo))
  | mode (result : Except Error Mode)
  | unit (result : Except Error Unit)
  deriving DecidableEq

/-! ## The task -/

structure Task where
  pendingDhtPutRecord : HashMap QueryId ℕ
  pendingDhtPutProviderRecord : HashMap QueryId ℕ
  pendingDhtFindClosestPeer : HashMap QueryId ℕ
  pendingDhtBootstrap : HashMap QueryId ℕ
  /-- The results that were sent, in order. -/
  sent : List (ℕ × Response)

def Task.new : Task where
  pendingDhtPutRecord := ∅
  pendingDhtPutProviderRecord := ∅
  pendingDhtFindClosestPeer := ∅
  pendingDhtBootstrap := ∅
  sent := []

/-- What the commands see of libp2p's Kademlia. -/
structure Kad where
  /-- The keys of the records in the local store. -/
  records : List Key
  mode : Mode
  deriving DecidableEq

structure World where
  task : Task
  /-- `kademlia.as_mut()` -/
  kad : Option Kad

def World.new (kad : Option Kad) : World :=
  ⟨.new, kad⟩

/-- `resp.send(response)` -/
def Task.send (resp : ℕ) (response : Response) (task : Task) : Task :=
  { task with sent := task.sent ++ [(resp, response)] }

/-- Send to a responder that was taken out of a table, if there was one. -/
def Task.sendTo (resp : Option ℕ) (response : Response) (task : Task) : Task :=
  match resp with
  | some resp => task.send resp response
  | none => task

/-! ## Commands -/

inductive Command where
  | findPeer (id : QueryId)
  /-- `none` is `NoKnownPeers`. -/
  | bootstrap (isLazy : Bool) (answer : Option QueryId)
  | provide (answer : Except StoreError QueryId)
  | stopProviding
  /-- Without a mode libp2p takes `auto`. -/
  | setDHTMode (mode : Option Mode) (auto : Mode)
  | dhtMode
  | addAddress (routing : RoutingUpdate)
  | removeAddress (removed : Bool)
  | removePeer (removed : Bool)
  | put (key : Key) (answer : Except StoreError QueryId)
  | putTo (key : Key) (id : QueryId)
  | remove (key : Key)

/-- The error `e` as a response to the command. -/
def Command.error (e : Error) : Command → Response
  | .findPeer _ => .peers (.error e)
  | .dhtMode => .mode (.error e)
  | _ => .unit (.error e)

def processKademliaCommand (command : Command) (resp : ℕ) (w : World) : World :=
  match w.kad with
  | none => { w with task := w.task.send resp (command.error .disabled) }
  | some kad =>
      match command with
      | .findPeer id =>
          { w with task := { w.task with
              pendingDhtFindClosestPeer :=
                w.task.pendingDhtFindClosestPeer.insert id resp } }
      | .bootstrap isLazy answer =>
          match answer with
          | none =>
              { w with task := w.task.send resp (.unit (.error (.dht .noKnownPeers))) }
          | some id =>
              if isLazy then { w with task := w.task.send resp (.unit (.ok ())) }
              else
                { w with task := { w.task with
                    pendingDhtBootstrap := w.task.pendingDhtBootstrap.insert id resp } }
      | .provide answer =>
          match answer with
          | .error e =>
              { w with task := w.task.send resp (.unit (.error (.dht (.store e)))) }
          | .ok id =>
              { w with task := { w.task with
                  pendingDhtPutProviderRecord :=
                    w.task.pendingDhtPutProviderRecord.insert id resp } }
      | .stopProviding => { w with task := w.task.send resp (.unit (.ok ())) }
      | .setDHTMode mode auto =>
          { task := w.task.send resp (.unit (.ok ()))
            kad := some { kad with mode := mode.getD auto } }
      | .dhtMode => { w with task := w.task.send resp (.mode (.ok kad.mode)) }
      | .addAddress routing =>
          let ret : Except Error Unit :=
            match routing with
            | .success | .pending => .ok ()
            | .failed => .error (.routing .addAddress)
          { w with task := w.task.send resp (.unit ret) }
      | .removeAddress removed =>
          let ret : Except Error Unit :=
            if removed then .ok () else .error (.routing .removeAddress)
          { w with task := w.task.send resp (.unit ret) }
      | .removePeer removed =>
          let ret : Except Error Unit :=
            if removed then .ok () else .error (.routing .removePeer)
          { w with task := w.task.send resp (.unit ret) }
      | .put key answer =>
          match answer with
          | .error e =>
              { w with task := w.task.send resp (.unit (.error (.dht (.store e)))) }
          | .ok id =>
              { task := { w.task with
                  pendingDhtPutRecord := w.task.pendingDhtPutRecord.insert id resp }
                kad := some { kad with records := key :: kad.records } }
      | .putTo key id =>
          if key ∉ kad.records then
            { w with task := w.task.send resp (.unit (.error (.notFound "record"))) }
          else
            { w with task := { w.task with
                pendingDhtPutRecord := w.task.pendingDhtPutRecord.insert id resp } }
      | .remove key =>
          if key ∉ kad.records then
            { w with task := w.task.send resp (.unit (.error (.notFound "record"))) }
          else
            { task := w.task.send resp (.unit (.ok ()))
              kad := some { kad with records := kad.records.filter (· ≠ key) } }

/-! ## Events -/

/-- The results of queries other than `GetRecord` and `GetProviders`. -/
inductive QueryResult where
  /-- Without a result it is `BootstrapError::Timeout`. -/
  | bootstrap (ok : Bool)
  /-- Without peers it is `GetClosestPeersError::Timeout`. -/
  | getClosestPeers (peers : Option (List PeerInfo))
  | startProviding (result : Except AddProviderError Unit)
  | republishProvider (result : Except AddProviderError Unit)
  | putRecord (result : Except PutRecordError Unit)
  | republishRecord (result : Except PutRecordError Unit)

/-- `OutboundQueryProgressed`; `last` is `step.last`. -/
def outboundQueryProgressed (id : QueryId) (result : QueryResult) (last : Bool)
    (task : Task) : Task :=
  match result with
  | .bootstrap ok =>
      if last then
        { task with pendingDhtBootstrap := task.pendingDhtBootstrap.erase id }.sendTo
          (task.pendingDhtBootstrap.lookup id)
          (.unit (if ok then .ok () else .error .timeout))
      else task
  | .getClosestPeers peers =>
      { task with
        pendingDhtFindClosestPeer := task.pendingDhtFindClosestPeer.erase id }.sendTo
        (task.pendingDhtFindClosestPeer.lookup id)
        (.peers (match peers with
          | some peers => .ok peers
          | none => .error .timeout))
  | .startProviding result =>
      { task with
        pendingDhtPutProviderRecord :=
          task.pendingDhtPutProviderRecord.erase id }.sendTo
        (task.pendingDhtPutProviderRecord.lookup id)
        (.unit (result.mapError fun e => .dht (.addProvider e)))
  | .republishProvider _ => task
  | .putRecord result =>
      { task with pendingDhtPutRecord := task.pendingDhtPutRecord.erase id }.sendTo
        (task.pendingDhtPutRecord.lookup id)
        (.unit (result.mapError fun e => .dht (.putRecord e)))
  | .republishRecord _ => task

/-! ## Runs -/

inductive Input where
  | command (resp : ℕ) (command : Command)
  | progressed (id : QueryId) (result : QueryResult) (last : Bool)
  /-- libp2p changes its store or its mode on its own. -/
  | kadChanges (kad : Kad)

def step (w : World) : Input → World
  | .command resp command => processKademliaCommand command resp w
  | .progressed id result last =>
      { w with task := outboundQueryProgressed id result last w.task }
  | .kadChanges kad => { w with kad := w.kad.map fun _ => kad }

def run (inputs : List Input) (w : World) : World :=
  inputs.foldl step w

end Connexa.KademliaCommands
