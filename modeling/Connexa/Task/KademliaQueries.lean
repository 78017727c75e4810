import Connexa.Support.Mpsc
import Connexa.Task.Kademlia

/-!
# Streams of DHT queries

The functions follow the `Get` and `GetProviders` arms of `process_kademlia_command` and
the `GetRecord` and `GetProviders` arms of `process_kademlia_event` in `task/kad.rs`.
The caller of a query has a stream, and the task the sender, which goes where the query
ends; its last message is the error of a query that failed, if there is room for it.
-/

namespace Connexa.KademliaQueries

open HashMap Mpsc
open KademliaTask (Key Record)

/-- `libp2p::kad::QueryId` -/
abbrev QueryId := ℕ

/-- Number of a stream that was given to a caller. -/
abbrev StreamId := ℕ

structure PeerRecord where
  peer : Option PeerId
  record : Record
  deriving DecidableEq

inductive GetRecordError where
  | notFound (key : Key) (closestPeers : List PeerId)
  | quorumFailed (key : Key) (records : List PeerRecord) (quorum : ℕ)
  | timeout (key : Key)
  deriving DecidableEq

inductive GetProvidersError where
  | timeout (key : Key) (closestPeers : List PeerId)
  deriving DecidableEq

/-- `Error::Disabled` for Kademlia, and the `Error::Dht` of the two kinds of queries. -/
inductive Error where
  | disabled
  | getRecord (error : GetRecordError)
  | getProviders (error : GetProvidersError)
  deriving DecidableEq

inductive GetRecordOk where
  | foundRecord (record : PeerRecord)
  | finishedWithNoAdditionalRecord

inductive GetProvidersOk where
  | foundProviders (providers : Finset PeerId)
  | finishedWithNoAdditionalRecord

/-! ## The queries of one kind -/

/-- What an event says about a query. -/
inductive Progress (A : Type) where
  | found (item : A)
  | finished
  | failed (error : Error)
  deriving DecidableEq

/-- The table of the senders, and every stream with its query.  The log is never read; it
says what was reported about the queries. -/
structure Queries (A : Type) where
  pending : HashMap QueryId StreamId
  query : StreamId → QueryId
  streams : StreamId → Reader (Except Error A)
  next : StreamId
  log : List (QueryId × Progress A)

namespace Queries

variable {A : Type}

def new : Queries A where
  pending := ∅
  query := fun _ => 0
  streams := fun _ => .new 64
  next := 0
  log := []

/-- A change on the side of the sender of a stream. -/
def atSender (s : StreamId) (f : Channel (Except Error A) → Channel (Except Error A))
    (q : Queries A) : Queries A :=
  { q with streams := Function.update q.streams s ((q.streams s).atSender f) }

/-- The sender that the table holds for the query is dropped. -/
def dropSender (id : QueryId) (q : Queries A) : Queries A :=
  match q.pending.lookup id with
  | some s => q.atSender s Channel.close
  | none => q

/-- `mpsc::channel(64)`: the sender goes to the table, the receiver to the caller. -/
def start (id : QueryId) (q : Queries A) : StreamId × Queries A :=
  let q := q.dropSender id
  (q.next, { q with
    pending := q.pending.insert id q.next
    query := Function.update q.query q.next id
    streams := Function.update q.streams q.next (.new 64)
    next := q.next + 1 })

def foundItem (id : QueryId) (item : A) (q : Queries A) : Queries A :=
  match q.pending.lookup id with
  | some s => q.atSender s fun ch => (ch.trySend (.ok item)).2
  | none => q

def finish (id : QueryId) (q : Queries A) : Queries A :=
  match q.pending.lookup id with
  | some s => { q with pending := q.pending.erase id }.atSender s Channel.close
  | none => q

/-- The result of `try_send` is ignored, and the sender dropped. -/
def fail (id : QueryId) (error : Error) (q : Queries A) : Queries A :=
  match q.pending.lookup id with
  | some s =>
      { q with pending := q.pending.erase id }.atSender s
        fun ch => (ch.trySend (Except.error error)).2.close
  | none => q

/-- Put a report into the log. -/
def note (id : QueryId) (p : Progress A) (q : Queries A) : Queries A :=
  { q with log := q.log ++ [(id, p)] }

/-- The caller polls its stream. -/
def read (s : StreamId) (q : Queries A) : Queries A :=
  { q with streams := Function.update q.streams s (q.streams s).read }

/-- The caller drops its stream. -/
def drop (s : StreamId) (q : Queries A) : Queries A :=
  { q with streams := Function.update q.streams s (q.streams s).drop }

end Queries

/-! ## The task -/

structure World where
  /-- `kademlia.as_mut()` is some. -/
  enabled : Bool
  getRecord : Queries PeerRecord
  getProviders : Queries (Finset PeerId)

/-- `DHTCommand::Get`; `id` is what `get_record` of libp2p returns. -/
def processGetCommand (id : QueryId) (w : World) : Except Error StreamId × World :=
  if w.enabled then
    let (s, queries) := w.getRecord.start id
    (.ok s, { w with getRecord := queries })
  else (.error .disabled, w)

/-- `DHTCommand::GetProviders`; `id` is what `get_providers` of libp2p returns. -/
def processGetProvidersCommand (id : QueryId) (w : World) :
    Except Error StreamId × World :=
  if w.enabled then
    let (s, queries) := w.getProviders.start id
    (.ok s, { w with getProviders := queries })
  else (.error .disabled, w)

/-- `QueryResult::GetRecord` -/
def processGetRecord (id : QueryId) (result : Except GetRecordError GetRecordOk)
    (q : Queries PeerRecord) : Queries PeerRecord :=
  match result with
  | .ok (.foundRecord record) => q.foundItem id record
  | .ok .finishedWithNoAdditionalRecord => q.finish id
  | .error e => q.fail id (.getRecord e)

/-- `QueryResult::GetProviders` -/
def processGetProviders (id : QueryId) (result : Except GetProvidersError GetProvidersOk)
    (q : Queries (Finset PeerId)) : Queries (Finset PeerId) :=
  match result with
  | .ok (.foundProviders providers) => q.foundItem id providers
  | .ok .finishedWithNoAdditionalRecord => q.finish id
  | .error e => q.fail id (.getProviders e)

inductive QueryResult where
  | getRecord (result : Except GetRecordError GetRecordOk)
  | getProviders (result : Except GetProvidersError GetProvidersOk)

/-- A command, an event, or what a caller does with its stream. -/
inductive Input where
  | get (id : QueryId)
  | getProviders (id : QueryId)
  | outboundQueryProgressed (id : QueryId) (result : QueryResult)
  | readRecords (s : StreamId)
  | readProviders (s : StreamId)
  | dropRecords (s : StreamId)
  | dropProviders (s : StreamId)

def recordProgress : Except GetRecordError GetRecordOk → Progress PeerRecord
  | .ok (.foundRecord record) => .found record
  | .ok .finishedWithNoAdditionalRecord => .finished
  | .error e => .failed (.getRecord e)

def providersProgress :
    Except GetProvidersError GetProvidersOk → Progress (Finset PeerId)
  | .ok (.foundProviders providers) => .found providers
  | .ok .finishedWithNoAdditionalRecord => .finished
  | .error e => .failed (.getProviders e)

def step (i : Input) (w : World) : World :=
  match i with
  | .get id => (processGetCommand id w).2
  | .getProviders id => (processGetProvidersCommand id w).2
  | .outboundQueryProgressed id (.getRecord result) =>
      { w with
        getRecord := processGetRecord id result
          (w.getRecord.note id (recordProgress result)) }
  | .outboundQueryProgressed id (.getProviders result) =>
      { w with
        getProviders :=
          processGetProviders id result
            (w.getProviders.note id (providersProgress result)) }
  | .readRecords s => { w with getRecord := w.getRecord.read s }
  | .readProviders s => { w with getProviders := w.getProviders.read s }
  | .dropRecords s => { w with getRecord := w.getRecord.drop s }
  | .dropProviders s => { w with getProviders := w.getProviders.drop s }

def service : Service World Input where
  init := fun w => w.getRecord = .new ∧ w.getProviders = .new
  step := step

/-! ## What libp2p promises, and what the callers are told -/

/-- The query has ended with this report. -/
def Progress.ends {A : Type} : Progress A → Bool
  | .found _ => false
  | .finished => true
  | .failed _ => true

/-- Nothing but items was reported about the query. -/
def Unfinished {A : Type} (log : List (QueryId × Progress A)) (id : QueryId) : Prop :=
  ∀ report ∈ log, report.1 = id → report.2.ends = false

/-- The query was neither started nor reported on before. -/
def Queries.Unused {A : Type} (q : Queries A) (id : QueryId) : Prop :=
  (∀ s < q.next, q.query s ≠ id) ∧ ∀ report ∈ q.log, report.1 ≠ id

/-- Every query gets an unused id, and nothing is reported about it after it has finished
or failed. -/
def Promised (w : World) (i : Input) : Prop :=
  match i with
  | .get id => w.getRecord.Unused id
  | .getProviders id => w.getProviders.Unused id
  | .outboundQueryProgressed id (.getRecord _) => Unfinished w.getRecord.log id
  | .outboundQueryProgressed id (.getProviders _) => Unfinished w.getProviders.log id
  | _ => True

/-- If the query failed, reading the stream to its end yields the error as the last item;
and if the stream ended without an error, the query finished. -/
def Told {A : Type} (log : List (QueryId × Progress A)) (id : QueryId)
    (r : Reader (Except Error A)) : Prop :=
  r.dropped = false →
    (∀ e, (id, .failed e) ∈ log → ∀ n, r.channel.waiting.length < n →
      (Reader.read^[n] r).ended = true ∧
        (Reader.read^[n] r).yielded.getLast? = some (.error e)) ∧
    (r.ended = true → (∀ e, .error e ∉ r.yielded) →
      (id, .finished) ∈ log ∧ ∀ e, (id, .failed e) ∉ log)

def Queries.AllTold {A : Type} (q : Queries A) : Prop :=
  ∀ s < q.next, Told q.log (q.query s) (q.streams s)

/-- At most 64 messages of the stream of the query are unread. -/
def Queries.HasRoom {A : Type} (q : Queries A) (id : QueryId) : Prop :=
  ∀ s ∈ q.pending.lookup id, (q.streams s).channel.waiting.length ≤ 64

/-- If the input is the failure of a query, there is room for the error. -/
def Roomy (w : World) (i : Input) : Prop :=
  match i with
  | .outboundQueryProgressed id (.getRecord (.error _)) => w.getRecord.HasRoom id
  | .outboundQueryProgressed id (.getProviders (.error _)) => w.getProviders.HasRoom id
  | _ => True

/-! ## The conditions can be evaluated -/

instance Unfinished.decidable {A : Type} (log : List (QueryId × Progress A))
    (id : QueryId) :
    Decidable (Unfinished log id) :=
  inferInstanceAs (Decidable (∀ report ∈ log, report.1 = id → report.2.ends = false))

instance Queries.Unused.decidable {A : Type} (q : Queries A) (id : QueryId) :
    Decidable (q.Unused id) :=
  inferInstanceAs (Decidable ((∀ s < q.next, q.query s ≠ id) ∧ ∀ report ∈ q.log,
    report.1 ≠ id))

instance Queries.HasRoom.decidable {A : Type} (q : Queries A) (id : QueryId) :
    Decidable (q.HasRoom id) :=
  inferInstanceAs
    (Decidable (∀ s ∈ q.pending.lookup id, (q.streams s).channel.waiting.length ≤ 64))

instance Promised.decidable (w : World) : (i : Input) → Decidable (Promised w i)
  | .get id => inferInstanceAs (Decidable (w.getRecord.Unused id))
  | .getProviders id => inferInstanceAs (Decidable (w.getProviders.Unused id))
  | .outboundQueryProgressed id (.getRecord _) =>
      inferInstanceAs (Decidable (Unfinished w.getRecord.log id))
  | .outboundQueryProgressed id (.getProviders _) =>
      inferInstanceAs (Decidable (Unfinished w.getProviders.log id))
  | .readRecords _ => isTrue trivial
  | .readProviders _ => isTrue trivial
  | .dropRecords _ => isTrue trivial
  | .dropProviders _ => isTrue trivial

instance Roomy.decidable (w : World) : (i : Input) → Decidable (Roomy w i)
  | .outboundQueryProgressed id (.getRecord (.error _)) =>
      inferInstanceAs (Decidable (w.getRecord.HasRoom id))
  | .outboundQueryProgressed _ (.getRecord (.ok _)) => isTrue trivial
  | .outboundQueryProgressed id (.getProviders (.error _)) =>
      inferInstanceAs (Decidable (w.getProviders.HasRoom id))
  | .outboundQueryProgressed _ (.getProviders (.ok _)) => isTrue trivial
  | .get _ => isTrue trivial
  | .getProviders _ => isTrue trivial
  | .readRecords _ => isTrue trivial
  | .readProviders _ => isTrue trivial
  | .dropRecords _ => isTrue trivial
  | .dropProviders _ => isTrue trivial

end Connexa.KademliaQueries
