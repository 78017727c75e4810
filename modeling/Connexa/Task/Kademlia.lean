import Connexa.Multiaddr
import Connexa.Support.HashMap
import Connexa.Support.Oneshot
import Connexa.Support.Runs

/-!
# Inbound records of the DHT

The functions follow the `InboundRequest` part of `process_kademlia_event` in
`task/kad.rs`, `DHTEvent` and `RecordHandle` in `types.rs`, and the four loops at
the end of `ConnexaTask::poll`, with Kademlia enabled.  Next to the task stand
the listeners' channels and what clients do with the events they receive.
-/

namespace Connexa.KademliaTask

open HashMap Oneshot

/-- `libp2p::kad::RecordKey` -/
abbrev Key := List UInt8

abbrev ListenerId := ℕ

structure Record where
  key : Key
  value : List UInt8
  publisher : Option PeerId
  expires : Option ℕ
  deriving DecidableEq

structure ProviderRecord where
  key : Key
  provider : PeerId
  expires : Option ℕ
  addresses : List Multiaddr
  deriving DecidableEq

/-! ## Events -/

/-- A record that awaits confirmation; the sender is given by its channel. -/
structure RecordHandle (R : Type) where
  record : Option R
  confirm : Option ℕ
  deriving DecidableEq

namespace RecordHandle

variable {R : Type} (handle : RecordHandle R)

/-- A clone has no right to accept. -/
def clone : RecordHandle R :=
  { handle with confirm := none }

/-- `accept`, with what it sends. -/
def accept : Option (ℕ × R) :=
  match handle.confirm, handle.record with
  | some ch, some record => some (ch, record)
  | _, _ => none

/-- `accept_with`, with what it sends. -/
def acceptWith (record : R) : Option (ℕ × R) :=
  handle.confirm.map fun ch => (ch, record)

/-- The channels once the handle is gone: its sender has sent the value, or is
dropped. -/
def settle (sent : Option (ℕ × R)) (state : ℕ → Outcome R) : ℕ → Outcome R :=
  match sent with
  | some (ch, value) => Function.update state ch (.sent value)
  | none =>
      match handle.confirm with
      | some ch => Function.update state ch .cancelled
      | none => state

end RecordHandle

inductive DHTEvent where
  | putRecord (source : PeerId) (record : RecordHandle Record)
  | provideRecord (record : RecordHandle ProviderRecord)
  deriving DecidableEq

namespace DHTEvent

def clone : DHTEvent → DHTEvent
  | .putRecord source record => .putRecord source record.clone
  | .provideRecord record => .provideRecord record.clone

/-- `none` is the `unreachable!` arm. -/
def setRecordConfirmation (event : DHTEvent) (ch : ℕ) : Option DHTEvent :=
  match event.clone with
  | .putRecord source record =>
      some (.putRecord source { record with confirm := some ch })
  | .provideRecord _ => none

/-- `none` is the `unreachable!` arm. -/
def setProviderConfirmation (event : DHTEvent) (ch : ℕ) : Option DHTEvent :=
  match event.clone with
  | .putRecord _ _ => none
  | .provideRecord record => some (.provideRecord { record with confirm := some ch })

/-- The event carries a record. -/
def carries : DHTEvent → Bool
  | .putRecord _ handle => handle.record.isSome
  | .provideRecord handle => handle.record.isSome

/-- The sender of a record's confirmation. -/
def recordSender : DHTEvent → Option ℕ
  | .putRecord _ handle => handle.confirm
  | .provideRecord _ => none

/-- The sender of a provider record's confirmation. -/
def providerSender : DHTEvent → Option ℕ
  | .putRecord _ _ => none
  | .provideRecord handle => handle.confirm

end DHTEvent

/-! ## The task and its surroundings -/

/-- The part of the task that handles inbound records. -/
structure Task where
  dhtEventSender : HashMap Key (List ListenerId)
  dhtEventGlobalSender : List ListenerId
  dhtPutRecordReceiver : HashMap Key (List ℕ)
  dhtPutRecordGlobalReceiver : List ℕ
  dhtProviderRecordReceiver : HashMap Key (List ℕ)
  dhtProviderRecordGlobalReceiver : List ℕ
  /-- The records that `put` was called with. -/
  stored : List Record
  /-- The records that `add_provider` was called with. -/
  provided : List ProviderRecord

/-- An event in the hands of a client, as it was delivered or a clone of such. -/
structure Held where
  event : DHTEvent
  original : Bool
  deriving DecidableEq

/-- The task, the channels and the clients. -/
structure World where
  task : Task
  /-- An `unreachable!` arm was reached. -/
  panicked : Bool
  nextChannel : ℕ
  recordChannels : ℕ → Outcome Record
  providerChannels : ℕ → Outcome ProviderRecord
  nextListener : ListenerId
  /-- The listeners whose receiver is gone. -/
  closed : List ListenerId
  /-- The events in the listeners' channels, in the order they were sent. -/
  mailbox : List (ListenerId × DHTEvent)
  nextHandle : ℕ
  held : HashMap ℕ Held
  /-- The values that delivered handles were accepted with. -/
  acceptedRecords : List Record
  acceptedProviders : List ProviderRecord

def World.new : World where
  task := ⟨∅, [], ∅, [], ∅, [], [], []⟩
  panicked := false
  nextChannel := 0
  recordChannels := fun _ => .pending
  providerChannels := fun _ => .pending
  nextListener := 0
  closed := []
  mailbox := []
  nextHandle := 0
  held := ∅
  acceptedRecords := []
  acceptedProviders := []

namespace World

/-- The handle of an event is used up; `record` and `provider` say what it
sends. -/
def settle (record : RecordHandle Record → Option (ℕ × Record))
    (provider : RecordHandle ProviderRecord → Option (ℕ × ProviderRecord))
    (event : DHTEvent) (w : World) : World :=
  match event with
  | .putRecord _ handle =>
      { w with
        recordChannels := handle.settle (record handle) w.recordChannels }
  | .provideRecord handle =>
      { w with
        providerChannels := handle.settle (provider handle) w.providerChannels }

/-- The event is dropped. -/
def drop (event : DHTEvent) (w : World) : World :=
  w.settle (fun _ => none) (fun _ => none) event

/-- `try_send`: a full or closed channel gives the event back, and it is
dropped. -/
def trySend (full : ListenerId → Bool) (listener : ListenerId)
    (event : DHTEvent) (w : World) : World :=
  if full listener ∨ listener ∈ w.closed then w.drop event
  else { w with mailbox := w.mailbox ++ [(listener, event)] }

end World

/-! ## Inbound requests -/

/-- What the two kinds of requests do differently. -/
structure Kind where
  setConfirmation : DHTEvent → ℕ → Option DHTEvent
  /-- Insert a receiver into the set for all keys. -/
  insertGlobal : ℕ → Task → Task
  /-- Insert a receiver into the set of a key. -/
  insertKeyed : Key → ℕ → Task → Task

/-- `get_mut_or_default(&key).insert(rx)` -/
def insertAt (key : Key) (rx : ℕ) (sets : HashMap Key (List ℕ)) :
    HashMap Key (List ℕ) :=
  sets.insert key (rx :: (sets.lookup key).getD [])

def putRecordKind : Kind where
  setConfirmation := DHTEvent.setRecordConfirmation
  insertGlobal := fun rx task =>
    { task with
      dhtPutRecordGlobalReceiver := rx :: task.dhtPutRecordGlobalReceiver }
  insertKeyed := fun key rx task =>
    { task with
      dhtPutRecordReceiver := insertAt key rx task.dhtPutRecordReceiver }

def addProviderKind : Kind where
  setConfirmation := DHTEvent.setProviderConfirmation
  insertGlobal := fun rx task =>
    { task with
      dhtProviderRecordGlobalReceiver :=
        rx :: task.dhtProviderRecordGlobalReceiver }
  insertKeyed := fun key rx task =>
    { task with
      dhtProviderRecordReceiver := insertAt key rx task.dhtProviderRecordReceiver }

section Offer

variable (kind : Kind) (full : ListenerId → Bool) (event : DHTEvent)

/-- The loop over the listeners for all keys. -/
def offerGlobal (carries : Bool) : List ListenerId → World → Option World
  | [], w => some w
  | listener :: rest, w =>
      if carries then
        let ch := w.nextChannel
        let w := { w with
          nextChannel := ch + 1
          task := kind.insertGlobal ch w.task }
        match kind.setConfirmation event ch with
        | none => none
        | some event' => offerGlobal carries rest (w.trySend full listener event')
      else offerGlobal carries rest (w.trySend full listener event.clone)

/-- The loop over the listeners of the record's key. -/
def offerKeyed (key : Key) : List ListenerId → World → Option World
  | [], w => some w
  | listener :: rest, w =>
      let ch := w.nextChannel
      let w := { w with nextChannel := ch + 1 }
      match kind.setConfirmation event ch with
      | none => none
      | some event' =>
          let w := w.trySend full listener event'
          offerKeyed key rest { w with task := kind.insertKeyed key ch w.task }

/-- A request, with the key of its record if it carries one. -/
def processRequest (key : Option Key) (w : World) : Option World := do
  let w ← offerGlobal kind full event key.isSome w.task.dhtEventGlobalSender w
  match key with
  | none => return w
  | some key =>
      match w.task.dhtEventSender.lookup key with
      | none => return w
      | some senders => offerKeyed kind full event key senders w

end Offer

/-! ## Polling -/

/-- A receiver leaves the set of a key. -/
def takeAt (key : Key) (ch : ℕ) (sets : HashMap Key (List ℕ)) :
    HashMap Key (List ℕ) :=
  sets.insert key (((sets.lookup key).getD []).erase ch)

namespace World

/-- `poll_next` of the set of a key yields the receiver's result. -/
def pollPutRecord (key : Key) (ch : ℕ) (w : World) : World :=
  if ch ∈ (w.task.dhtPutRecordReceiver.lookup key).getD [] ∧
      w.recordChannels ch ≠ .pending then
    { w with
      task := { w.task with
        dhtPutRecordReceiver := takeAt key ch w.task.dhtPutRecordReceiver
        stored := w.task.stored ++ (w.recordChannels ch).value.toList } }
  else w

def pollPutRecordGlobal (ch : ℕ) (w : World) : World :=
  if ch ∈ w.task.dhtPutRecordGlobalReceiver ∧ w.recordChannels ch ≠ .pending then
    { w with
      task := { w.task with
        dhtPutRecordGlobalReceiver := w.task.dhtPutRecordGlobalReceiver.erase ch
        stored := w.task.stored ++ (w.recordChannels ch).value.toList } }
  else w

def pollProviderRecord (key : Key) (ch : ℕ) (w : World) : World :=
  if ch ∈ (w.task.dhtProviderRecordReceiver.lookup key).getD [] ∧
      w.providerChannels ch ≠ .pending then
    { w with
      task := { w.task with
        dhtProviderRecordReceiver :=
          takeAt key ch w.task.dhtProviderRecordReceiver
        provided := w.task.provided ++ (w.providerChannels ch).value.toList } }
  else w

def pollProviderRecordGlobal (ch : ℕ) (w : World) : World :=
  if ch ∈ w.task.dhtProviderRecordGlobalReceiver ∧
      w.providerChannels ch ≠ .pending then
    { w with
      task := { w.task with
        dhtProviderRecordGlobalReceiver :=
          w.task.dhtProviderRecordGlobalReceiver.erase ch
        provided := w.task.provided ++ (w.providerChannels ch).value.toList } }
  else w

end World

/-! ## Clients -/

/-- What a client does with a handle. -/
inductive Decision where
  | accept
  | acceptRecordWith (record : Record)
  | acceptProviderWith (record : ProviderRecord)
  /-- `reject`, or the handle is dropped. -/
  | reject

namespace Decision

def sendRecord : Decision → RecordHandle Record → Option (ℕ × Record)
  | .accept, handle => handle.accept
  | .acceptRecordWith record, handle => handle.acceptWith record
  | _, _ => none

def sendProvider :
    Decision → RecordHandle ProviderRecord → Option (ℕ × ProviderRecord)
  | .accept, handle => handle.accept
  | .acceptProviderWith record, handle => handle.acceptWith record
  | _, _ => none

/-- The value that the record of the event is accepted with. -/
def acceptedRecord : Decision → DHTEvent → Option Record
  | .accept, .putRecord _ handle => handle.record
  | .acceptRecordWith record, .putRecord _ handle => handle.record.map fun _ => record
  | _, _ => none

def acceptedProvider : Decision → DHTEvent → Option ProviderRecord
  | .accept, .provideRecord handle => handle.record
  | .acceptProviderWith record, .provideRecord handle =>
      handle.record.map fun _ => record
  | _, _ => none

end Decision

namespace World

/-- A client takes the next event out of its channel. -/
def receive (listener : ListenerId) (w : World) : World :=
  match w.mailbox.find? fun m => decide (m.1 = listener) with
  | none => w
  | some m =>
      { w with
        mailbox := w.mailbox.erase m
        nextHandle := w.nextHandle + 1
        held := w.held.insert w.nextHandle ⟨m.2, true⟩ }

/-- A client drops its receiver, and the events in it. -/
def close (listener : ListenerId) (w : World) : World :=
  (w.mailbox.filter fun m => decide (m.1 = listener)).foldl
    (fun w m => w.drop m.2)
    { w with
      closed := listener :: w.closed
      mailbox := w.mailbox.filter fun m => !decide (m.1 = listener) }

def clone (handle : ℕ) (w : World) : World :=
  match w.held.lookup handle with
  | none => w
  | some h =>
      { w with
        nextHandle := w.nextHandle + 1
        held := w.held.insert w.nextHandle ⟨h.event.clone, false⟩ }

/-- A client decides about a handle.  The acceptance of a delivered one is noted. -/
def conclude (handle : ℕ) (decision : Decision) (w : World) : World :=
  match w.held.lookup handle with
  | none => w
  | some h =>
      let w := { w with
        held := w.held.erase handle
        acceptedRecords := w.acceptedRecords ++
          if h.original then (decision.acceptedRecord h.event).toList else []
        acceptedProviders := w.acceptedProviders ++
          if h.original then (decision.acceptedProvider h.event).toList else [] }
      w.settle decision.sendRecord decision.sendProvider h.event

/-- `DHTCommand::Listener` -/
def listen (key : Option Key) (w : World) : World :=
  let listener := w.nextListener
  { w with
    nextListener := listener + 1
    task :=
      match key with
      | some key =>
          { w.task with
            dhtEventSender := w.task.dhtEventSender.insert key
              ((w.task.dhtEventSender.lookup key).getD [] ++ [listener]) }
      | none =>
          { w.task with
            dhtEventGlobalSender := w.task.dhtEventGlobalSender ++ [listener] } }

/-- The part of the periodic cleanup that forgets closed listeners. -/
def cleanup (w : World) : World :=
  let isOpen := fun listener => !decide (listener ∈ w.closed)
  { w with
    task := { w.task with
      dhtEventSender := retain (fun _ senders => !senders.isEmpty)
        (update (fun _ senders => senders.filter isOpen) w.task.dhtEventSender)
      dhtEventGlobalSender := w.task.dhtEventGlobalSender.filter isOpen } }

end World

/-! ## Runs -/

inductive Input where
  | listen (key : Option Key)
  | cleanup
  /-- The channels of `full` are full. -/
  | putRecord (source : PeerId) (record : Option Record)
      (full : ListenerId → Bool)
  | addProvider (record : Option ProviderRecord) (full : ListenerId → Bool)
  | receive (listener : ListenerId)
  | close (listener : ListenerId)
  | clone (handle : ℕ)
  | conclude (handle : ℕ) (decision : Decision)
  | pollPutRecord (key : Key) (ch : ℕ)
  | pollPutRecordGlobal (ch : ℕ)
  | pollProviderRecord (key : Key) (ch : ℕ)
  | pollProviderRecordGlobal (ch : ℕ)

/-- The world after a request, or after the panic it has led to. -/
def World.after (result : Option World) (w : World) : World :=
  result.getD { w with panicked := true }

def step (i : Input) (w : World) : World :=
  match i with
  | .listen key => w.listen key
  | .cleanup => w.cleanup
  | .putRecord source record full =>
      w.after (processRequest putRecordKind full (.putRecord source ⟨record, none⟩)
        (record.map Record.key) w)
  | .addProvider record full =>
      w.after (processRequest addProviderKind full (.provideRecord ⟨record, none⟩)
        (record.map ProviderRecord.key) w)
  | .receive listener => w.receive listener
  | .close listener => w.close listener
  | .clone handle => w.clone handle
  | .conclude handle decision => w.conclude handle decision
  | .pollPutRecord key ch => w.pollPutRecord key ch
  | .pollPutRecordGlobal ch => w.pollPutRecordGlobal ch
  | .pollProviderRecord key ch => w.pollProviderRecord key ch
  | .pollProviderRecordGlobal ch => w.pollProviderRecordGlobal ch

def service : Service World Input where
  init w := w = .new
  step := step

end Connexa.KademliaTask
