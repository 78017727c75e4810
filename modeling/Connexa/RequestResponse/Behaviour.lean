import Connexa.Multiaddr
import Connexa.Support.NestedMap

/-!
# The request-response behaviour

The functions follow `behaviour/request_response.rs` one by one.  Around the
behaviour stand what it hands out and what it is handed: the oneshot channels
of outbound requests, the streams made of their receivers, and libp2p's
behaviour, which chooses request ids and response channels.  The history
records the calls and events of a run; nothing reads it.
-/

namespace Connexa.RequestResponse

open HashMap

abbrev Bytes := List UInt8

/-- Request ids, chosen by libp2p. -/
abbrev OutboundRequestId := ℕ

abbrev InboundRequestId := ℕ

/-- `ResponseChannel<Bytes>`, by identity. -/
abbrev ResponseChannel := ℕ

/-- The two halves of a oneshot channel, by its number. -/
abbrev Oneshot := ℕ

inductive OutboundFailure where
  | dialFailure
  | timeout
  | connectionClosed
  | unsupportedProtocols
  | io
  deriving DecidableEq

inductive InboundFailure where
  | timeout
  | connectionClosed
  | unsupportedProtocols
  | responseOmission
  | io
  deriving DecidableEq

/-- The errors of `error.rs` that the behaviour returns. -/
inductive Error where
  | notFound (what : String)
  | requestResponse (failure : OutboundFailure)
  /-- `io::ErrorKind::BrokenPipe` with its text. -/
  | brokenPipe (text : String)
  deriving DecidableEq

/-- The outcome of an outbound request. -/
abbrev Outcome := Except Error Bytes

/-- A subscriber's channel, behind its sender. -/
structure Subscriber where
  inbox : List (PeerId × InboundRequestId × Bytes)
  closed : Bool
  deriving DecidableEq

structure Behaviour where
  pendingRequest : HashMap PeerId (HashMap InboundRequestId ResponseChannel)
  pendingResponse : HashMap PeerId (HashMap OutboundRequestId Oneshot)
  broadcastRequest : List Subscriber
  /-- The clean-up timer is set. -/
  gcTimer : Bool
  channelBuffer : ℕ

/-- `CHANNEL_LIMIT` -/
def channelLimit : ℕ := 256

/-- `Behaviour::new` -/
def Behaviour.new (channelBuffer : ℕ) : Behaviour where
  pendingRequest := ∅
  pendingResponse := ∅
  broadcastRequest := []
  gcTimer := false
  channelBuffer := channelBuffer

/-! ## Inbound requests -/

def subscribe (b : Behaviour) : Behaviour :=
  { b with broadcastRequest := b.broadcastRequest ++ [⟨[], false⟩] }

/-- `try_send`: a sender has one slot beyond the buffer. -/
def Subscriber.trySend (buffer : ℕ)
    (message : PeerId × InboundRequestId × Bytes) (subscriber : Subscriber) :
    Subscriber :=
  if subscriber.closed ∨ buffer < subscriber.inbox.length then subscriber
  else { subscriber with inbox := subscriber.inbox ++ [message] }

/-- Forget the subscribers that are gone. -/
def retainOpen (subscribers : List Subscriber) : List Subscriber :=
  subscribers.filter fun subscriber => !subscriber.closed

/-- The clean-up of `process_request`. -/
def cleanUp (b : Behaviour) : Behaviour :=
  if channelLimit < b.broadcastRequest.length then { b with gcTimer := true }
  else
    { b with
      gcTimer := false
      broadcastRequest := retainOpen b.broadcastRequest }

def processRequest (id : InboundRequestId) (peerId : PeerId) (request : Bytes)
    (responseChannel : ResponseChannel) (b : Behaviour) : Behaviour :=
  if b.broadcastRequest = [] then b
  else
    let b := cleanUp b
    { b with
      pendingRequest := insertAt b.pendingRequest peerId id responseChannel
      broadcastRequest := b.broadcastRequest.map
        (Subscriber.trySend b.channelBuffer (peerId, id, request)) }

/-- The clean-up of `poll` when the timer has fired. -/
def collectGarbage (b : Behaviour) : Behaviour :=
  let kept := retainOpen b.broadcastRequest
  { b with
    broadcastRequest := kept
    gcTimer := decide (channelLimit < kept.length) }

/-- What `send_response` hands to libp2p, and its result.  `delivered` is
libp2p's answer. -/
def sendResponse (peerId : PeerId) (id : InboundRequestId) (response : Bytes)
    (delivered : Bool) (b : Behaviour) :
    Except Error Unit × Option (ResponseChannel × Bytes) × Behaviour :=
  match b.pendingRequest.lookup peerId with
  | none => (.error (.notFound "pending request"), none, b)
  | some pendingList =>
      match pendingList.lookup id with
      | none => (.error (.notFound "pending request"), none, b)
      | some ch =>
          let b := { b with
            pendingRequest := b.pendingRequest.insert peerId
              (pendingList.erase id) }
          (if delivered then .ok ()
            else .error (.brokenPipe "unable to send response. request either timed out, connection dropped, or unexpected behaviour occurred"),
            some (ch, response), b)

def processInboundFailure (id : InboundRequestId) (peerId : PeerId)
    (b : Behaviour) : Behaviour :=
  match b.pendingRequest.lookup peerId with
  | none => b
  | some _ =>
      { b with
        pendingRequest := prune (eraseAt b.pendingRequest peerId id) peerId }

/-! ## Outbound requests -/

/-- The response stream of `send_requests`: a `FutureMap` of receivers, with
the peer that belongs to each. -/
structure ResponseStream where
  futures : HashMap OutboundRequestId (PeerId × Oneshot)
  /-- The peers the call was made for and the ids of their requests, for the
  record only. -/
  asked : List (PeerId × OutboundRequestId)
  /-- What it has yielded so far, for the record only. -/
  yielded : List (OutboundRequestId × PeerId × Outcome)
  ended : Bool
  dropped : Bool

/-- A run: what was called and reported. -/
inductive Input where
  | subscribe
  /-- A subscriber takes a message, or drops its receiver. -/
  | receive (n : ℕ)
  | unsubscribe (n : ℕ)
  | collectGarbage
  /-- An inbound request arrives. -/
  | request (id : InboundRequestId) (peerId : PeerId) (request : Bytes)
      (channel : ResponseChannel)
  | sendResponse (peerId : PeerId) (id : InboundRequestId) (response : Bytes)
      (delivered : Bool)
  | inboundFailure (id : InboundRequestId) (peerId : PeerId)
      (error : InboundFailure)
  /-- `send_requests` with the ids that libp2p gives to the requests. -/
  | sendRequests (peers : List (PeerId × OutboundRequestId)) (request : Bytes)
  /-- `send_request`, whose future reads the stream once. -/
  | sendRequest (peerId : PeerId) (id : OutboundRequestId) (request : Bytes)
  | response (id : OutboundRequestId) (peerId : PeerId) (response : Bytes)
  | outboundFailure (id : OutboundRequestId) (peerId : PeerId)
      (error : OutboundFailure)
  /-- A stream is polled; `choice` picks among the futures that are ready. -/
  | pollStream (n choice : ℕ)
  | dropStream (n : ℕ)
  deriving DecidableEq

structure World extends Behaviour where
  /-- What was sent into the oneshot channels made so far. -/
  oneshots : List (Option Outcome)
  streams : List ResponseStream
  /-- The results that were sent, in order. -/
  resolutions : List (OutboundRequestId × PeerId × Outcome)
  /-- The inbound requests that were put into the table, in order. -/
  admitted : List (PeerId × InboundRequestId × ResponseChannel)
  /-- The responses that were handed to libp2p, in order. -/
  handed : List (PeerId × InboundRequestId × ResponseChannel × Bytes)
  history : List Input

def World.new (channelBuffer : ℕ) : World where
  toBehaviour := Behaviour.new channelBuffer
  oneshots := []
  streams := []
  resolutions := []
  admitted := []
  handed := []
  history := []

/-- The loop of `send_requests`. -/
def requestAll : List (PeerId × OutboundRequestId) → World →
    HashMap OutboundRequestId (PeerId × Oneshot) →
      World × HashMap OutboundRequestId (PeerId × Oneshot)
  | [], w, oneshots => (w, oneshots)
  | (peerId, id) :: rest, w, oneshots =>
      let tx : Oneshot := w.oneshots.length
      let w := { w with
        oneshots := w.oneshots ++ [none]
        pendingResponse := insertAt w.pendingResponse peerId id tx }
      requestAll rest w (oneshots.insert id (peerId, tx))

def sendRequests (peers : List (PeerId × OutboundRequestId)) (w : World) :
    World :=
  let (w, futures) := requestAll peers w ∅
  { w with streams := w.streams ++ [
      { futures := futures
        asked := peers
        yielded := []
        ended := false
        dropped := false }] }

def sendRequest (peerId : PeerId) (id : OutboundRequestId) (w : World) : World :=
  sendRequests [(peerId, id)] w

/-- `ch.send(result)` -/
def World.resolve (id : OutboundRequestId) (peerId : PeerId) (tx : Oneshot)
    (result : Outcome) (w : World) : World :=
  { w with
    oneshots := w.oneshots.set tx (some result)
    resolutions := w.resolutions ++ [(id, peerId, result)] }

def processResponse (id : OutboundRequestId) (peerId : PeerId)
    (response : Bytes) (w : World) : World :=
  match w.pendingResponse.lookup peerId with
  | none => w
  | some list =>
      match list.lookup id with
      | none => w
      | some ch =>
          { w with
            pendingResponse :=
              prune (eraseAt w.pendingResponse peerId id) peerId }.resolve
            id peerId ch (.ok response)

def processOutboundFailure (id : OutboundRequestId) (peerId : PeerId)
    (error : OutboundFailure) (w : World) : World :=
  match w.pendingResponse.lookup peerId with
  | none => w
  | some list =>
      let w' := { w with
        pendingResponse := prune (eraseAt w.pendingResponse peerId id) peerId }
      match list.lookup id with
      | some tx => w'.resolve id peerId tx (.error (.requestResponse error))
      | none => w'

/-! ## Streams -/

/-- The sender of the channel is still there. -/
def hasSender (b : Behaviour) (tx : Oneshot) : Bool :=
  b.pendingResponse.entries.any fun e => e.2.entries.any fun f => f.2 == tx

/-- What the receiver of a channel resolves to, if it is ready. -/
def received (w : World) (rx : Oneshot) : Option Outcome :=
  match w.oneshots.getD rx none with
  | some result => some result
  | none =>
      if hasSender w.toBehaviour rx then none
      else some (.error (.brokenPipe "oneshot canceled"))

/-- The futures of a stream that are ready. -/
def readyFutures (w : World) (stream : ResponseStream) :
    List (OutboundRequestId × PeerId × Outcome) :=
  stream.futures.entries.filterMap fun e =>
    (received w e.2.2).map fun result => (e.1, e.2.1, result)

/-- One call of the stream's `poll_next`. -/
def ResponseStream.poll (w : World) (choice : ℕ) (stream : ResponseStream) :
    ResponseStream :=
  if stream.dropped then stream
  else match (readyFutures w stream)[choice % (readyFutures w stream).length]? with
  | some (id, peerId, result) =>
      { stream with
        futures := stream.futures.erase id
        yielded := stream.yielded ++ [(id, peerId, result)] }
  | none =>
      if len stream.futures = 0 then { stream with ended := true } else stream

/-- What the future of `send_request` makes of the first item. -/
def ResponseStream.first (stream : ResponseStream) : Option Outcome :=
  match stream.yielded with
  | (_, _, result) :: _ => some result
  | [] => if stream.ended then some (.error (.brokenPipe "")) else none

/-! ## Runs -/

def Subscriber.receive (subscriber : Subscriber) : Subscriber :=
  { subscriber with inbox := subscriber.inbox.tail }

def serve (i : Input) (w : World) : World :=
  match i with
  | .subscribe => { w with toBehaviour := subscribe w.toBehaviour }
  | .receive n =>
      { w with broadcastRequest := w.broadcastRequest.modify n Subscriber.receive }
  | .unsubscribe n =>
      { w with broadcastRequest :=
          w.broadcastRequest.modify n fun s => { s with closed := true } }
  | .collectGarbage => { w with toBehaviour := collectGarbage w.toBehaviour }
  | .request id peerId request channel =>
      { w with
        toBehaviour := processRequest id peerId request channel w.toBehaviour
        admitted := w.admitted ++
          if w.broadcastRequest = [] then [] else [(peerId, id, channel)] }
  | .sendResponse peerId id response delivered =>
      let (_, handed, b) := sendResponse peerId id response delivered w.toBehaviour
      { w with
        toBehaviour := b
        handed := w.handed ++
          (handed.map fun h => (peerId, id, h.1, h.2)).toList }
  | .inboundFailure id peerId _ =>
      { w with toBehaviour := processInboundFailure id peerId w.toBehaviour }
  | .sendRequests peers _ => sendRequests peers w
  | .sendRequest peerId id _ => sendRequest peerId id w
  | .response id peerId response => processResponse id peerId response w
  | .outboundFailure id peerId error => processOutboundFailure id peerId error w
  | .pollStream n choice =>
      { w with streams := w.streams.modify n (ResponseStream.poll w choice) }
  | .dropStream n =>
      { w with streams := w.streams.modify n fun s => { s with dropped := true } }

def step (i : Input) (w : World) : World :=
  { serve i w with history := w.history ++ [i] }

/-- What libp2p promises about the next input. -/
abbrev Contract := World → Input → Prop

/-- The states that runs reach under a contract. -/
inductive Reachable (contract : Contract) : World → Prop where
  | new (channelBuffer : ℕ) : Reachable contract (World.new channelBuffer)
  | step {w : World} {i : Input} (hw : Reachable contract w)
      (hcontract : contract w i) : Reachable contract (step i w)

/-- Serve a list of inputs, each of which has to pass the check. -/
def runAll (check : World → Input → Bool) : List Input → World → Option World
  | [], w => some w
  | i :: rest, w => if check w i then runAll check rest (step i w) else none

theorem Reachable.runAll {contract : Contract} {check : World → Input → Bool}
    {inputs : List Input} {w w' : World}
    (hcheck : ∀ w i, check w i = true → contract w i)
    (hw : Reachable contract w)
    (h : runAll check inputs w = some w') : Reachable contract w' := by
  induction inputs generalizing w with
  | nil =>
      cases h
      exact hw
  | cons i rest ih =>
      rw [RequestResponse.runAll] at h
      split at h
      · next hpassed => exact ih (hw.step (hcheck w i hpassed)) h
      · cases h

/-- What holds at the end of a concrete run holds in a reachable state. -/
theorem exists_reachable_of_run {contract : Contract}
    {check : World → Input → Bool}
    (hcheck : ∀ w i, check w i = true → contract w i) (inputs : List Input)
    (P : World → Prop) [DecidablePred P]
    (h : (runAll check inputs (World.new 4)).any (fun w => decide (P w)) = true) :
    ∃ w, Reachable contract w ∧ P w := by
  obtain ⟨w, hrun, hw⟩ := (Option.any_eq_true _ _).mp h
  exact ⟨w, Reachable.runAll hcheck (.new 4) hrun, of_decide_eq_true hw⟩

end Connexa.RequestResponse
