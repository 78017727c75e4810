import Connexa.RequestResponse.Codec
import Connexa.RequestResponse.Inbound
import Connexa.RequestResponse.Outbound
import Connexa.Support.Runs

/-!
# Nodes that ask each other

Any number of nodes, each with its own request-response behaviour and its own
codec, and libp2p between them.  libp2p opens a substream for each request, on
which the codecs of the two nodes write and read.  It numbers the requests of
each node and the requests that reach a node, it may lose a substream at any
time, and it may tell either end of it.
-/

namespace Connexa.RequestResponse

open HashMap

/-- libp2p's substream of one request. -/
structure Substream where
  answerer : PeerId
  request : Bytes
  /-- The id and the channel that the answerer got with the request. -/
  inbound : Option (InboundRequestId × ResponseChannel)
  /-- What the answerer put into the channel. -/
  response : Option Bytes
  /-- The asker was told how the request ended. -/
  reported : Bool

/-- A substream that was opened. -/
def Substream.opened (answerer : PeerId) (request : Bytes) : Substream where
  answerer := answerer
  request := request
  inbound := none
  response := none
  reported := false

structure Network where
  nodes : PeerId → World
  /-- The substreams by the asker and its number for the request. -/
  substreams : HashMap (PeerId × OutboundRequestId) Substream

/-- A call or an event at a node.  A request that arrives is the `outbound`-th
of its asker. -/
structure Event where
  node : PeerId
  input : Input
  outbound : OutboundRequestId

/-- The request of a call that sends. -/
def Input.payload : Input → Bytes
  | .sendRequests _ bytes | .sendRequest _ _ bytes => bytes
  | _ => []

/-- Open a substream for each of the requests. -/
def openAll (asker : PeerId) (request : Bytes) :
    List (PeerId × OutboundRequestId) →
      HashMap (PeerId × OutboundRequestId) Substream →
        HashMap (PeerId × OutboundRequestId) Substream
  | [], substreams => substreams
  | (peerId, id) :: rest, substreams =>
      openAll asker request rest
        (substreams.insert (asker, id) (.opened peerId request))

/-- What becomes of the substream of a request. -/
def Network.change (e : Event) (net : Network) (key : PeerId × OutboundRequestId)
    (s : Substream) : Substream :=
  match e.input with
  | .request id peerId _ channel =>
      if key = (peerId, e.outbound) then { s with inbound := some (id, channel) }
      else s
  | .sendResponse peerId id response delivered =>
      -- the channel knows its substream, whatever the behaviour calls the request
      match (sendResponse peerId id response delivered
        (net.nodes e.node).toBehaviour).2.1 with
      | some (channel, bytes) =>
          if delivered = true ∧ s.answerer = e.node ∧
              s.inbound.map Prod.snd = some channel then
            { s with response := some bytes }
          else s
      | none => s
  | .response id _ _ | .outboundFailure id _ _ =>
      if key = (e.node, id) then { s with reported := true } else s
  | _ => s

def Network.follow (e : Event) (net : Network) :
    HashMap (PeerId × OutboundRequestId) Substream :=
  openAll e.node e.input.payload e.input.sends (net.substreams.update (net.change e))

def Network.step (e : Event) (net : Network) : Network where
  nodes := Function.update net.nodes e.node
    (RequestResponse.step e.input (net.nodes e.node))
  substreams := net.follow e

def network : Service Network Event where
  init net := ∃ channelBuffer : PeerId → ℕ,
    net = ⟨fun p => World.new (channelBuffer p), ∅⟩
  step := Network.step

/-! ## The codecs -/

/-- The message was written to one end of a stream, and the other end was read
until it ended. -/
def Carried (write : WriteHalf → Bytes → Except IoError Unit × WriteHalf)
    (read : Bool → (ℕ → ℕ+) → ReadHalf → Ending Bytes × ReadHalf)
    (message received : Bytes) : Prop :=
  ∃ output overflowChecks room input, output.written = [] ∧
    (write output message).1 = .ok () ∧ input.ending = .ok () ∧
    input.content = (write output message).2.written ∧
    (read overflowChecks room input).1 = .returned (.ok received)

/-- The request of one node was read by another. -/
def RequestCarried (asker answerer : Codec) : Bytes → Bytes → Prop :=
  Carried asker.writeRequest
    fun overflowChecks room => answerer.readRequest overflowChecks room

/-- The response of one node was read by another. -/
def ResponseCarried (answerer asker : Codec) : Bytes → Bytes → Prop :=
  Carried answerer.writeResponse
    fun overflowChecks room => asker.readResponse overflowChecks room

/-- A message that the limits of both nodes allow. -/
def Fits (writer reader : UInt64) (message : Bytes) : Prop :=
  0 < message.length ∧ message.length ≤ writer.toNat ∧
    message.length ≤ reader.toNat ∧ reader.toNat ≠ 2 ^ 64 - 1

instance (writer reader : UInt64) (message : Bytes) :
    Decidable (Fits writer reader message) :=
  inferInstanceAs (Decidable (_ ∧ _ ∧ _ ∧ _))

/-- A message that fits comes across as it is, and no other does. -/
theorem carried_iff {writer reader : UInt64} {empty tooLong empty' tooLong' : String}
    {message received : Bytes} :
    Carried (writeMessage writer empty tooLong)
      (fun overflowChecks room => readMessage overflowChecks room reader empty' tooLong')
      message received ↔ received = message ∧ Fits writer reader message := by
  constructor
  · rintro ⟨output, overflowChecks, room, input, hempty, hwrite, hending, hcontent, hread⟩
    have hfits : 0 < message.length ∧ message.length ≤ writer.toNat := by
      by_contra hnot
      obtain ⟨⟨e, he, -⟩, -⟩ :=
        @writeMessage_of_not_fits writer empty tooLong output message hnot
      cases he.symm.trans hwrite
    have hmessage : input.content = message := by
      have hall : writeMessage writer empty tooLong output message =
          writeAll (.stream .writeZero) message output := by
        rw [writeMessage, if_neg, if_neg (by omega)]
        rw [List.isEmpty_iff]
        exact List.length_pos_iff.mp hfits.1
      rw [hall] at hwrite hcontent
      rw [hcontent, written_of_writeAll hwrite, hempty, List.nil_append]
    by_cases hmax : reader.toNat = 2 ^ 64 - 1
    · rw [readMessage_of_max hmax] at hread
      split at hread <;> cases hread
    · rw [readMessage_eq hmax hending, hmessage] at hread
      have hread := Ending.returned.inj hread
      split at hread
      · cases hread
      · split at hread
        · cases hread
        · next hlong =>
          exact ⟨(Except.ok.inj hread).symm, hfits.1, hfits.2, by omega, hmax⟩
  · rintro ⟨rfl, hpos, hwriter, hreader, hmax⟩
    have hne : received ≠ [] := List.length_pos_iff.mp hpos
    have hwilling : (⟨[], 0, fun _ => .ok 1⟩ : WriteHalf).Willing :=
      fun _ => ⟨1, Nat.one_pos, rfl⟩
    obtain ⟨hwrite, hwritten⟩ :=
      @writeMessage_of_fits writer empty tooLong _ received hwilling hpos hwriter
    refine ⟨_, false, fun _ => 1, ⟨[received], ?_, .ok ()⟩, rfl, hwrite, rfl, ?_, ?_⟩
    · rw [List.mem_singleton]
      exact hne.symm
    · rw [hwritten]
      simp [Source.content]
    · rw [readMessage_eq hmax rfl]
      simp [Source.content, hne, Nat.not_lt.mpr hreader]

theorem requestCarried_iff {asker answerer : Codec} {message received : Bytes} :
    RequestCarried asker answerer message received ↔
      received = message ∧
        Fits asker.maxRequestSize answerer.maxRequestSize message :=
  carried_iff

theorem responseCarried_iff {answerer asker : Codec} {message received : Bytes} :
    ResponseCarried answerer asker message received ↔
      received = message ∧
        Fits answerer.maxResponseSize asker.maxResponseSize message :=
  carried_iff

/-! ## What libp2p promises -/

/-- The ids are unused.  A request arrives once, and its asker hears once how it
ended: with the response that the answerer gave, or with a failure. -/
structure Rules (codec : PeerId → Codec) (net : Network) (e : Event) : Prop where
  distinct : (e.input.sends.map Prod.snd).Nodup
  unused : ∀ id ∈ e.input.sends.map Prod.snd, (e.node, id) ∉ net.substreams
  arrives : ∀ id peerId request channel,
    e.input = .request id peerId request channel →
      ∃ s, net.substreams.lookup (peerId, e.outbound) = some s ∧
        s.answerer = e.node ∧ s.inbound = none ∧
        RequestCarried (codec peerId) (codec e.node) s.request request
  fresh : ∀ id peerId request channel,
    e.input = .request id peerId request channel →
      ∀ key s, net.substreams.lookup key = some s → s.answerer = e.node →
        ∀ id' channel', s.inbound = some (id', channel') →
          id' ≠ id ∧ channel' ≠ channel
  reports : ∀ id peerId result, e.input.reports = some (id, peerId, result) →
    ∃ s, net.substreams.lookup (e.node, id) = some s ∧ s.answerer = peerId ∧
      s.reported = false
  returns : ∀ id peerId response, e.input = .response id peerId response →
    ∃ s sent, net.substreams.lookup (e.node, id) = some s ∧
      s.response = some sent ∧
        ResponseCarried (codec peerId) (codec e.node) sent response

/-! ## What is on its way -/

/-- The call asks the peer, under the id. -/
def Input.Asks (i : Input) (peerId : PeerId) (id : OutboundRequestId)
    (request : Bytes) : Prop :=
  (∃ peers, i = .sendRequests peers request ∧ (peerId, id) ∈ peers) ∨
    i = .sendRequest peerId id request

/-- The node asked the peer, under the id. -/
def Asked (w : World) (peerId : PeerId) (id : OutboundRequestId)
    (request : Bytes) : Prop :=
  ∃ i ∈ w.history, i.Asks peerId id request

/-- The request of `asker` with the number `outbound` reached `answerer` under
the id `id`. -/
def Reached (net : Network) (asker : PeerId) (outbound : OutboundRequestId)
    (answerer : PeerId) (id : InboundRequestId) (request : Bytes) : Prop :=
  ∃ s channel, net.substreams.lookup (asker, outbound) = some s ∧
    s.answerer = answerer ∧ s.request = request ∧ s.inbound = some (id, channel)

theorem lookup_openAll {asker : PeerId} {request : Bytes}
    {peers : List (PeerId × OutboundRequestId)} (hpeers : (peers.map Prod.snd).Nodup)
    (substreams : HashMap (PeerId × OutboundRequestId) Substream)
    (p : PeerId) (id : OutboundRequestId) (s : Substream) :
    (openAll asker request peers substreams).lookup (p, id) = some s ↔
      (p = asker ∧ ∃ peerId, (peerId, id) ∈ peers ∧ s = .opened peerId request) ∨
        substreams.lookup (p, id) = some s ∧
          ¬(p = asker ∧ id ∈ peers.map Prod.snd) := by
  induction peers generalizing substreams with
  | nil => simp [openAll]
  | cons first rest ih =>
      obtain ⟨firstPeer, firstId⟩ := first
      simp only [List.map_cons, List.nodup_cons] at hpeers
      rw [openAll, ih hpeers.2, lookup_insert]
      constructor
      · rintro (⟨rfl, peerId, hmem, rfl⟩ | ⟨hlookup, hnot⟩)
        · exact Or.inl ⟨rfl, peerId, List.mem_cons_of_mem _ hmem, rfl⟩
        · split at hlookup
          · next hkey =>
            cases hlookup
            cases hkey
            exact Or.inl ⟨rfl, firstPeer, List.mem_cons_self, rfl⟩
          · next hkey =>
            refine Or.inr ⟨hlookup, ?_⟩
            rintro ⟨rfl, hmem⟩
            rcases List.mem_cons.mp hmem with rfl | hmem
            · exact hkey rfl
            · exact hnot ⟨rfl, hmem⟩
      · rintro (⟨rfl, peerId, hmem, rfl⟩ | ⟨hlookup, hnot⟩)
        · rcases List.mem_cons.mp hmem with heq | hmem
          · cases heq
            exact Or.inr ⟨if_pos rfl, fun h => hpeers.1 h.2⟩
          · exact Or.inl ⟨rfl, peerId, hmem, rfl⟩
        · refine Or.inr ⟨?_, fun h => hnot ⟨h.1, List.mem_cons_of_mem _ h.2⟩⟩
          rw [if_neg]
          · exact hlookup
          · rintro heq
            cases heq
            exact hnot ⟨rfl, List.mem_cons_self⟩

section Follow

variable {codec : PeerId → Codec} {net : Network} {e : Event}
  {key : PeerId × OutboundRequestId} {s : Substream}

@[simp] theorem change_answerer : (net.change e key s).answerer = s.answerer := by
  unfold Network.change
  split
  · split <;> rfl
  · split
    · split <;> rfl
    · rfl
  · split <;> rfl
  · split <;> rfl
  · rfl

@[simp] theorem change_request : (net.change e key s).request = s.request := by
  unfold Network.change
  split
  · split <;> rfl
  · split
    · split <;> rfl
    · rfl
  · split <;> rfl
  · split <;> rfl
  · rfl

/-- The substreams after an event are the new ones, and the old ones as they have
become. -/
theorem lookup_substreams_step (he : Rules codec net e) {p : PeerId}
    {id : OutboundRequestId} {s' : Substream} :
    (net.step e).substreams.lookup (p, id) = some s' ↔
      (p = e.node ∧ ∃ peerId, (peerId, id) ∈ e.input.sends ∧
        s' = .opened peerId e.input.payload) ∨
      ∃ s, net.substreams.lookup (p, id) = some s ∧ s' = net.change e (p, id) s := by
  rw [Network.step, Network.follow, lookup_openAll he.distinct]
  refine or_congr_right ?_
  rw [lookup_update_some]
  constructor
  · rintro ⟨⟨s, hs, rfl⟩, -⟩
    exact ⟨s, hs, rfl⟩
  · rintro ⟨s, hs, rfl⟩
    refine ⟨⟨s, hs, rfl⟩, ?_⟩
    rintro ⟨rfl, hmem⟩
    exact he.unused id hmem (mem_of_lookup hs)

theorem lookup_substreams_of_lookup (he : Rules codec net e)
    (hs : net.substreams.lookup key = some s) :
    (net.step e).substreams.lookup key = some (net.change e key s) :=
  (lookup_substreams_step he).mpr (Or.inr ⟨s, hs, rfl⟩)

/-- A substream has an inbound id from when its request arrives. -/
theorem change_inbound (he : Rules codec net e)
    (hs : net.substreams.lookup key = some s) {id : InboundRequestId}
    {channel : ResponseChannel} :
    (net.change e key s).inbound = some (id, channel) ↔
      s.inbound = some (id, channel) ∨ key.2 = e.outbound ∧
        s.answerer = e.node ∧ e.input = .request id key.1 s.request channel := by
  obtain ⟨node, input, outbound⟩ := e
  cases input with
  | request id' peerId request channel' =>
      obtain ⟨s', hs', hanswerer, hnone, hcarried⟩ := he.arrives _ _ _ _ rfl
      obtain ⟨rfl, -⟩ := requestCarried_iff.mp hcarried
      simp only [Network.change]
      split
      · next hkey =>
        subst hkey
        obtain rfl := Option.some.inj (hs.symm.trans hs')
        rw [hnone]
        constructor
        · intro heq
          obtain ⟨rfl, rfl⟩ := Prod.mk.inj (Option.some.inj heq)
          exact Or.inr ⟨rfl, hanswerer, rfl⟩
        · rintro (heq | ⟨-, -, heq⟩)
          · cases heq
          · cases heq
            rfl
      · next hkey =>
        constructor
        · exact Or.inl
        · rintro (hold | ⟨rfl, -, heq⟩)
          · exact hold
          · obtain ⟨-, hasker, -⟩ := Input.request.inj heq
            exact absurd (Prod.ext hasker.symm rfl : key = (peerId, key.2)) hkey
  | sendResponse peerId id' response delivered =>
      simp only [Network.change]
      split
      · split <;> simp
      · simp
  | response id' peerId response =>
      simp only [Network.change]
      split <;> simp
  | outboundFailure id' peerId error =>
      simp only [Network.change]
      split <;> simp
  | _ => simp [Network.change]

/-- A substream that has an inbound id was there before. -/
theorem exists_of_inbound (he : Rules codec net e) {s' : Substream}
    (hs' : (net.step e).substreams.lookup key = some s') {id : InboundRequestId}
    {channel : ResponseChannel} (hinbound : s'.inbound = some (id, channel)) :
    ∃ s, net.substreams.lookup key = some s ∧ s'.answerer = s.answerer ∧
      s'.request = s.request ∧ (s.inbound = some (id, channel) ∨
        s.answerer = e.node ∧ key.2 = e.outbound ∧
          e.input = .request id key.1 s.request channel) := by
  rcases (lookup_substreams_step he).mp hs' with ⟨-, peerId, -, rfl⟩ | ⟨s, hs, rfl⟩
  · cases hinbound
  · refine ⟨s, hs, change_answerer, change_request, ?_⟩
    rcases (change_inbound he hs).mp hinbound with hold | ⟨hkey, hanswerer, hi⟩
    · exact Or.inl hold
    · exact Or.inr ⟨hanswerer, hkey, hi⟩

theorem change_reported :
    (net.change e key s).reported = true ↔
      s.reported = true ∨ key.1 = e.node ∧
        ∃ peerId result, e.input.reports = some (key.2, peerId, result) := by
  obtain ⟨node, input, outbound⟩ := e
  obtain ⟨p, known⟩ := key
  cases input with
  | request id peerId request channel =>
      simp only [Network.change]
      split <;> simp [Input.reports]
  | sendResponse peerId id response delivered =>
      simp only [Network.change]
      split
      · split <;> simp [Input.reports]
      · simp [Input.reports]
  | response id peerId response =>
      simp only [Network.change, Input.reports]
      split
      · next hkey =>
        cases hkey
        simp
      · next hkey =>
        rw [Prod.mk.injEq, not_and] at hkey
        constructor
        · exact Or.inl
        · rintro (hold | ⟨rfl, _, _, heq⟩)
          · exact hold
          · cases heq
            exact absurd rfl (hkey rfl)
  | outboundFailure id peerId error =>
      simp only [Network.change, Input.reports]
      split
      · next hkey =>
        cases hkey
        simp
      · next hkey =>
        rw [Prod.mk.injEq, not_and] at hkey
        constructor
        · exact Or.inl
        · rintro (hold | ⟨rfl, _, _, heq⟩)
          · exact hold
          · cases heq
            exact absurd rfl (hkey rfl)
  | _ => simp [Network.change, Input.reports]

/-- A response is what the answerer has handed over for the channel. -/
theorem change_response :
    (net.change e key s).response = s.response ∨
      ∃ peerId id response, e.input = .sendResponse peerId id response true ∧
        s.answerer = e.node ∧
        (net.change e key s).response = some response ∧
        ∃ channel, s.inbound.map Prod.snd = some channel ∧
          lookupAt (net.nodes e.node).pendingRequest peerId id = some channel := by
  obtain ⟨node, input, outbound⟩ := e
  cases input with
  | request id peerId request channel =>
      simp only [Network.change]
      split <;> exact Or.inl rfl
  | sendResponse peerId id response delivered =>
      simp only [Network.change]
      rcases sendResponse_cases peerId id response delivered
        (net.nodes node).toBehaviour with ⟨ch, hch, heq⟩ | ⟨-, heq⟩
      · rw [congrArg Prod.fst heq]
        dsimp only
        split
        · next hsent =>
          obtain ⟨rfl, hnode, hchannel⟩ := hsent
          exact Or.inr ⟨peerId, id, response, rfl, hnode, rfl, ch, hchannel, hch⟩
        · exact Or.inl rfl
      · rw [heq]
        exact Or.inl rfl
  | response id peerId response =>
      simp only [Network.change]
      split <;> exact Or.inl rfl
  | outboundFailure id peerId error =>
      simp only [Network.change]
      split <;> exact Or.inl rfl
  | _ => exact Or.inl rfl

end Follow

end Connexa.RequestResponse
