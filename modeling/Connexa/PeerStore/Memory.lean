import Mathlib.Data.Finset.Insert
import Mathlib.Data.Finset.Prod
import Connexa.Multiaddr
import Connexa.Support.IndexMap
import Connexa.Support.Runs

/-!
# The in-memory peer store

The functions follow `peer_store/store/memory.rs`.  A set of addresses is a map
to `Unit`, which is what an `IndexSet` is, in the order of insertion; of a
clean-up timer only its key is kept, since it may fire at any poll after it was
set.  Around the store stand the swarm's connections and the run so far, which
the store does not read.
-/

namespace Connexa.PeerStore

open HashMap

/-- Connection ids, chosen by libp2p. -/
abbrev ConnectionId := ℕ

inductive IoError where
  | alreadyExists (text : String)
  | notFound (text : String)
  deriving DecidableEq

structure MemoryStore where
  peers : HashMap PeerId (HashMap Multiaddr Unit)
  connections : HashMap (PeerId × ConnectionId) Multiaddr
  persistent : Finset PeerId
  timer : Finset (PeerId × Multiaddr)

/-- `MemoryStore::default` -/
def MemoryStore.empty : MemoryStore where
  peers := ∅
  connections := ∅
  persistent := ∅
  timer := ∅

/-- The body of the loop of `from_iter`. -/
def MemoryStore.learn (store : MemoryStore) (peerId : PeerId)
    (addr : Multiaddr) : MemoryStore :=
  { store with
    persistent := insert peerId store.persistent
    peers := insertLastAt store.peers peerId addr () }

def fromIter (iter : List (PeerId × Multiaddr)) : MemoryStore :=
  iter.foldl (fun store e => store.learn e.1 e.2) .empty

namespace MemoryStore

def insert (peerId : PeerId) (address : Multiaddr) (store : MemoryStore) :
    Except IoError Unit × MemoryStore :=
  ((match lookupAt store.peers peerId address with
    | none => .ok ()
    | some _ => .error (.alreadyExists "address already exists")),
    { store with
      persistent := Insert.insert peerId store.persistent
      timer := store.timer.erase (peerId, address)
      peers := insertLastAt store.peers peerId address () })

def remove (peerId : PeerId) (store : MemoryStore) :
    Except IoError (List Multiaddr) × MemoryStore :=
  match store.peers.lookup peerId with
  | some list =>
      (.ok list.keys,
        { store with
          peers := store.peers.erase peerId
          persistent := store.persistent.erase peerId })
  | none => (.error (.notFound "peer not found"), store)

def removeAddress (peerId : PeerId) (address : Multiaddr)
    (store : MemoryStore) : Except IoError Unit × MemoryStore :=
  match store.peers.lookup peerId with
  | none => (.error (.notFound "peer not found"), store)
  | some list =>
      match list.lookup address with
      | none => (.error (.notFound "address not found"), store)
      | some _ =>
          (.ok (),
            { store with
              peers := prune (shiftRemoveAt store.peers peerId address) peerId
              persistent :=
                if len (list.erase address) = 0 then store.persistent.erase peerId
                else store.persistent })

def address (peerId : PeerId) (store : MemoryStore) :
    Except IoError (List Multiaddr) :=
  match store.peers.lookup peerId with
  | none => .error (.notFound "peer not found")
  | some addrs => .ok addrs.keys

/-- The addresses of a peer are given in the order in which they came. -/
theorem address_insert (peerId : PeerId) (addr : Multiaddr) (store : MemoryStore) :
    (store.insert peerId addr).2.address peerId =
      match store.address peerId with
      | .ok addrs => .ok (if addr ∈ addrs then addrs else addrs ++ [addr])
      | .error _ => .ok [addr] := by
  simp only [address, insert, insertLastAt, lookup_insertLast, if_true]
  cases hlookup : store.peers.lookup peerId with
  | none => rfl
  | some addrs => simp only [Option.getD_some, keys_insertLast, AList.mem_keys]

example : (fromIter [(7, [.tcp 2]), (7, [.tcp 1]), (7, [.tcp 2])]).address 7 =
    .ok [[.tcp 2], [.tcp 1]] := by
  decide

/-! ## Swarm events -/

def newExternalAddrOfPeer (peerId : PeerId) (addr : Multiaddr)
    (store : MemoryStore) : MemoryStore :=
  { store with
    peers := insertLastAt store.peers peerId addr ()
    persistent := Insert.insert peerId store.persistent }

def connectionEstablished (peerId : PeerId) (connectionId : ConnectionId)
    (remoteAddr : Multiaddr) (store : MemoryStore) : MemoryStore :=
  { store with
    connections := insertLast store.connections (peerId, connectionId) remoteAddr
    peers := insertLastAt store.peers peerId remoteAddr ()
    timer := store.timer.erase (peerId, remoteAddr) }

/-- `still_connected` -/
def stillConnected (peerId : PeerId) (remoteAddr : Multiaddr)
    (connections : HashMap (PeerId × ConnectionId) Multiaddr) : Bool :=
  connections.entries.any fun e => e.1.1 == peerId && e.2 == remoteAddr

def connectionClosed (peerId : PeerId) (connectionId : ConnectionId)
    (remoteAddr : Multiaddr) (store : MemoryStore) : MemoryStore :=
  let connections := store.connections.erase (peerId, connectionId)
  { store with
    connections := connections
    timer :=
      if !stillConnected peerId remoteAddr connections ∧
          peerId ∉ store.persistent then
        Insert.insert (peerId, remoteAddr) store.timer
      else store.timer }

/-- One turn of the loop of `poll`: a timer has fired. -/
def timerFired (store : MemoryStore) (key : PeerId × Multiaddr) : MemoryStore :=
  if key ∈ store.timer then
    (removeAddress key.1 key.2
      { store with timer := store.timer.erase key }).2
  else store

/-- `poll`, with the timers that are found ready, in that order. -/
def poll (ready : List (PeerId × Multiaddr)) (store : MemoryStore) :
    MemoryStore :=
  ready.foldl timerFired store

end MemoryStore

/-! ## Runs -/

inductive Input where
  | insert (peerId : PeerId) (address : Multiaddr)
  | remove (peerId : PeerId)
  | removeAddress (peerId : PeerId) (address : Multiaddr)
  | newExternalAddrOfPeer (peerId : PeerId) (addr : Multiaddr)
  | connectionEstablished (peerId : PeerId) (connectionId : ConnectionId)
      (remoteAddr : Multiaddr)
  | connectionClosed (peerId : PeerId) (connectionId : ConnectionId)
      (remoteAddr : Multiaddr)
  | poll (ready : List (PeerId × Multiaddr))
  deriving DecidableEq

def serve (i : Input) (store : MemoryStore) : MemoryStore :=
  match i with
  | .insert peerId address => (store.insert peerId address).2
  | .remove peerId => (store.remove peerId).2
  | .removeAddress peerId address => (store.removeAddress peerId address).2
  | .newExternalAddrOfPeer peerId addr => store.newExternalAddrOfPeer peerId addr
  | .connectionEstablished peerId connectionId remoteAddr =>
      store.connectionEstablished peerId connectionId remoteAddr
  | .connectionClosed peerId connectionId remoteAddr =>
      store.connectionClosed peerId connectionId remoteAddr
  | .poll ready => store.poll ready

structure World where
  store : MemoryStore
  /-- The connections of the swarm. -/
  live : List (PeerId × ConnectionId × Multiaddr)
  /-- The inputs so far, each with the store that it met. -/
  history : List (MemoryStore × Input)

/-- What an input says about the swarm's connections. -/
def connect (i : Input) (live : List (PeerId × ConnectionId × Multiaddr)) :
    List (PeerId × ConnectionId × Multiaddr) :=
  match i with
  | .connectionEstablished peerId connectionId remoteAddr =>
      live ++ [(peerId, connectionId, remoteAddr)]
  | .connectionClosed peerId connectionId remoteAddr =>
      live.filter (· ≠ (peerId, connectionId, remoteAddr))
  | _ => live

def step (i : Input) (w : World) : World where
  store := serve i w.store
  live := connect i w.live
  history := w.history ++ [(w.store, i)]

def World.new (iter : List (PeerId × Multiaddr)) : World where
  store := fromIter iter
  live := []
  history := []

/-- Runs start with a store made of a list of addresses. -/
def service : Service World Input where
  init w := ∃ iter, w = World.new iter
  step := step

/-- Connection ids are unique, and a close reports the address that the
connection was established with. -/
structure Contract (w : World) (i : Input) : Prop where
  unused : ∀ peerId connectionId remoteAddr,
    i = .connectionEstablished peerId connectionId remoteAddr →
      ∀ store peerId' remoteAddr',
        (store, .connectionEstablished peerId' connectionId remoteAddr') ∉ w.history
  reported : ∀ peerId connectionId remoteAddr,
    i = .connectionClosed peerId connectionId remoteAddr →
      (peerId, connectionId, remoteAddr) ∈ w.live

end Connexa.PeerStore
