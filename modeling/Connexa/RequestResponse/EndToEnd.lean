import Connexa.RequestResponse.Network

/-!
# Requests from end to end

The behaviours of two nodes know a request by different ids, and neither sees the
other's.  What connects them is the substream: the invariant says what the nodes'
histories and tables have to do with it.  It also gives each node what it asks
of libp2p, so that a node in the network is one of the nodes that were looked at
alone.
-/

namespace Connexa.RequestResponse

open HashMap

/-- How the nodes and the substreams between them belong together. -/
structure NetworkInv (codec : PeerId → Codec) (net : Network) : Prop where
  outbound : ∀ p, Reachable .outbound (net.nodes p)
  inbound : ∀ p, Reachable .freshInbound (net.nodes p)
  opened : ∀ p peerId id, (peerId, id) ∈ sent (net.nodes p).history ↔
    ∃ s, net.substreams.lookup (p, id) = some s ∧ s.answerer = peerId
  asked : ∀ p id s, net.substreams.lookup (p, id) = some s →
    Asked (net.nodes p) s.answerer id s.request
  arrived : ∀ q id p request channel,
    .request id p request channel ∈ (net.nodes q).history →
      ∃ outbound s, net.substreams.lookup (p, outbound) = some s ∧
        s.answerer = q ∧ s.request = request ∧ s.inbound = some (id, channel)
  announced : ∀ key s id channel, net.substreams.lookup key = some s →
    s.inbound = some (id, channel) →
      .request id key.1 s.request channel ∈ (net.nodes s.answerer).history ∧
        Fits (codec key.1).maxRequestSize (codec s.answerer).maxRequestSize s.request
  apart : ∀ key s key' s' id channel id' channel',
    net.substreams.lookup key = some s → net.substreams.lookup key' = some s' →
      s.answerer = s'.answerer → s.inbound = some (id, channel) →
        s'.inbound = some (id', channel') → id = id' ∨ channel = channel' → key = key'
  answered : ∀ key s response, net.substreams.lookup key = some s →
    s.response = some response → ∃ id channel, s.inbound = some (id, channel) ∧
      (key.1, id, channel, response) ∈ (net.nodes s.answerer).handed
  told : ∀ p i id peerId result, i ∈ (net.nodes p).history →
    i.reports = some (id, peerId, result) →
      ∃ s, net.substreams.lookup (p, id) = some s ∧ s.answerer = peerId ∧
        s.reported = true ∧ ∀ response, result = .ok response →
          s.response = some response ∧
            Fits (codec peerId).maxResponseSize (codec p).maxResponseSize response
  reported : ∀ p id s, net.substreams.lookup (p, id) = some s → s.reported = true →
    ∃ result, Reported (net.nodes p).history s.answerer id result

section Step

variable {codec : PeerId → Codec} {net : Network} {e : Event}

theorem nodes_step (p : PeerId) :
    (net.step e).nodes p =
      if p = e.node then step e.input (net.nodes p) else net.nodes p := by
  simp only [Network.step, Function.update_apply]
  split
  · next h => rw [h]
  · rfl

theorem mem_history_step {p : PeerId} {i : Input} :
    i ∈ ((net.step e).nodes p).history ↔
      i ∈ (net.nodes p).history ∨ p = e.node ∧ i = e.input := by
  rw [nodes_step]
  split
  · next h => simp [step, h]
  · next h => simp [h]

theorem mem_handed_step {p : PeerId}
    {x : PeerId × InboundRequestId × ResponseChannel × Bytes} :
    x ∈ ((net.step e).nodes p).handed ↔
      x ∈ (net.nodes p).handed ∨ p = e.node ∧ x ∈ hands (net.nodes p) e.input := by
  rw [nodes_step]
  split
  · next h => simp [handed_step, h]
  · next h => simp [h]

theorem mem_sent_step {p : PeerId} {x : PeerId × OutboundRequestId} :
    x ∈ sent ((net.step e).nodes p).history ↔
      x ∈ sent (net.nodes p).history ∨ p = e.node ∧ x ∈ e.input.sends := by
  rw [nodes_step]
  split
  · next h =>
    simp only [step, sent_snoc, List.mem_append]
    simp [h]
  · next h => simp [h]

theorem Reported.mono {p : PeerId} {peerId : PeerId} {id : OutboundRequestId}
    {result : Outcome} (h : Reported (net.nodes p).history peerId id result) :
    Reported ((net.step e).nodes p).history peerId id result := by
  rw [nodes_step]
  split
  · exact reported_snoc.mpr (Or.inl h)
  · exact h

theorem Asked.mono {p : PeerId} {peerId : PeerId} {id : OutboundRequestId}
    {request : Bytes} (h : Asked (net.nodes p) peerId id request) :
    Asked ((net.step e).nodes p) peerId id request := by
  obtain ⟨i, hi, hasks⟩ := h
  exact ⟨i, mem_history_step.mpr (Or.inl hi), hasks⟩

theorem asks_of_mem_sends {i : Input} {peerId : PeerId} {id : OutboundRequestId}
    (h : (peerId, id) ∈ i.sends) : i.Asks peerId id i.payload := by
  cases i with
  | sendRequests peers request => exact Or.inl ⟨peers, rfl, h⟩
  | sendRequest peerId' id' request =>
      cases List.mem_singleton.mp h
      exact Or.inr rfl
  | _ => cases h

variable (hinv : NetworkInv codec net)

include hinv

/-- The response that a node hands over now goes to the substream of the request
it names. -/
theorem NetworkInv.hands_of_channel {key : PeerId × OutboundRequestId} {s : Substream}
    (hs : net.substreams.lookup key = some s) (hanswerer : s.answerer = e.node)
    {peerId : PeerId} {id : InboundRequestId} {response : Bytes}
    (hi : e.input = .sendResponse peerId id response true) {channel : ResponseChannel}
    (hchannel : s.inbound.map Prod.snd = some channel)
    (hpending : lookupAt (net.nodes e.node).pendingRequest peerId id = some channel) :
    peerId = key.1 ∧ s.inbound = some (id, channel) ∧
      (key.1, id, channel, response) ∈ hands (net.nodes e.node) e.input := by
  have hlocal := (hinv.inbound e.node).inboundInv
  obtain ⟨request, hmem⟩ := ((hlocal.pending _ _ _).mp hpending).mem_history
  obtain ⟨outbound, s', hs', hanswerer', -, hinbound'⟩ := hinv.arrived _ _ _ _ _ hmem
  obtain ⟨⟨id', channel'⟩, hinbound, rfl⟩ := Option.map_eq_some_iff.mp hchannel
  have hkey := hinv.apart _ _ _ _ _ _ _ _ hs hs' (hanswerer.trans hanswerer'.symm)
    hinbound hinbound' (Or.inr rfl)
  subst hkey
  obtain rfl := Option.some.inj (hs.symm.trans hs')
  refine ⟨rfl, hinbound', mem_hands.mpr ⟨⟨true, hi⟩, hpending⟩⟩

variable (he : Rules codec net e)

include he

/-- The network keeps what its nodes ask of libp2p. -/
theorem NetworkInv.contract_outbound : Contract.outbound (net.nodes e.node) e.input where
  distinct := he.distinct
  unused := by
    rintro id hid hmem
    obtain ⟨⟨peerId, id'⟩, hsent, rfl⟩ := List.mem_map.mp hmem
    obtain ⟨s, hs, -⟩ := (hinv.opened _ _ _).mp hsent
    exact he.unused _ hid (mem_of_lookup hs)
  once := by
    intro id peerId result hreports j hj peerId' result' hreported
    obtain ⟨s, hs, -, hopen⟩ := he.reports _ _ _ hreports
    obtain ⟨s', hs', -, htold, -⟩ := hinv.told _ _ _ _ _ hj hreported
    obtain rfl := Option.some.inj (hs.symm.trans hs')
    rw [hopen] at htold
    cases htold
  own := by
    intro id peerId result hreports peerId' hsent
    obtain ⟨s, hs, hanswerer, -⟩ := he.reports _ _ _ hreports
    obtain ⟨s', hs', hanswerer'⟩ := (hinv.opened _ _ _).mp hsent
    obtain rfl := Option.some.inj (hs.symm.trans hs')
    rw [← hanswerer, hanswerer']

theorem NetworkInv.contract_freshInbound :
    Contract.freshInbound (net.nodes e.node) e.input := by
  intro id peerId request channel hi peerId' request' channel' hmem
  obtain ⟨outbound, s, hs, hanswerer, -, hinbound⟩ := hinv.arrived _ _ _ _ _ hmem
  exact (he.fresh _ _ _ _ hi _ s hs hanswerer _ _ hinbound).1 rfl

theorem NetworkInv.outbound_step (p : PeerId) :
    Reachable .outbound ((net.step e).nodes p) := by
  rw [nodes_step]
  split
  · next h =>
    subst h
    exact (hinv.outbound _).step (hinv.contract_outbound he)
  · exact hinv.outbound p

theorem NetworkInv.inbound_step (p : PeerId) :
    Reachable .freshInbound ((net.step e).nodes p) := by
  rw [nodes_step]
  split
  · next h =>
    subst h
    exact (hinv.inbound _).step (hinv.contract_freshInbound he)
  · exact hinv.inbound p

/-- A response stays what it is. -/
theorem NetworkInv.response_kept {key : PeerId × OutboundRequestId} {s : Substream}
    (hs : net.substreams.lookup key = some s) {response : Bytes}
    (hresponse : s.response = some response) :
    (net.change e key s).response = some response := by
  rcases @change_response net e key s with
    hsame | ⟨peerId, id, new, hi, hanswerer, -, channel, hchannel, hpending⟩
  · rw [hsame, hresponse]
  · exfalso
    obtain ⟨-, hinbound, hhands⟩ :=
      hinv.hands_of_channel hs hanswerer hi hchannel hpending
    obtain ⟨id', channel', hinbound', hhanded⟩ := hinv.answered _ _ _ hs hresponse
    rw [hinbound] at hinbound'
    cases hinbound'
    rw [hanswerer] at hhanded
    -- the request would be answered twice
    have honce := (hinv.inbound_step he e.node).inboundInv.once
    rw [nodes_step, if_pos rfl, handed_step, List.map_append, List.nodup_append] at honce
    exact honce.2.2 id (List.mem_map.mpr ⟨_, hhanded, rfl⟩) id
      (List.mem_map.mpr ⟨_, hhands, rfl⟩) rfl

theorem NetworkInv.opened_step (p peerId : PeerId) (id : OutboundRequestId) :
    (peerId, id) ∈ sent ((net.step e).nodes p).history ↔
      ∃ s, (net.step e).substreams.lookup (p, id) = some s ∧ s.answerer = peerId := by
  rw [mem_sent_step, hinv.opened]
  constructor
  · rintro (⟨s, hs, rfl⟩ | ⟨rfl, hmem⟩)
    · exact ⟨_, lookup_substreams_of_lookup he hs, change_answerer⟩
    · exact ⟨_, (lookup_substreams_step he).mpr (Or.inl ⟨rfl, peerId, hmem, rfl⟩), rfl⟩
  · rintro ⟨s', hs', rfl⟩
    rcases (lookup_substreams_step he).mp hs' with
      ⟨rfl, peerId, hmem, rfl⟩ | ⟨s, hs, rfl⟩
    · exact Or.inr ⟨rfl, hmem⟩
    · exact Or.inl ⟨s, hs, change_answerer.symm⟩

theorem NetworkInv.asked_step (p : PeerId) (id : OutboundRequestId) (s' : Substream)
    (hs' : (net.step e).substreams.lookup (p, id) = some s') :
    Asked ((net.step e).nodes p) s'.answerer id s'.request := by
  rcases (lookup_substreams_step he).mp hs' with ⟨rfl, peerId, hmem, rfl⟩ | ⟨s, hs, rfl⟩
  · exact ⟨e.input, mem_history_step.mpr (Or.inr ⟨rfl, rfl⟩), asks_of_mem_sends hmem⟩
  · rw [change_answerer, change_request]
    exact (hinv.asked _ _ _ hs).mono

theorem NetworkInv.arrived_step (q : PeerId) (id : InboundRequestId) (p : PeerId)
    (request : Bytes) (channel : ResponseChannel)
    (hmem : .request id p request channel ∈ ((net.step e).nodes q).history) :
    ∃ outbound s, (net.step e).substreams.lookup (p, outbound) = some s ∧
      s.answerer = q ∧ s.request = request ∧ s.inbound = some (id, channel) := by
  rcases mem_history_step.mp hmem with hmem | ⟨rfl, hi⟩
  · obtain ⟨outbound, s, hs, hanswerer, hrequest, hinbound⟩ := hinv.arrived _ _ _ _ _ hmem
    refine ⟨outbound, _, lookup_substreams_of_lookup he hs, ?_, ?_, ?_⟩
    · rw [change_answerer, hanswerer]
    · rw [change_request, hrequest]
    · exact (change_inbound he hs).mpr (Or.inl hinbound)
  · obtain ⟨s, hs, hanswerer, -, hcarried⟩ := he.arrives _ _ _ _ hi.symm
    obtain ⟨rfl, -⟩ := requestCarried_iff.mp hcarried
    refine ⟨e.outbound, _, lookup_substreams_of_lookup he hs, ?_, change_request, ?_⟩
    · rw [change_answerer, hanswerer]
    · exact (change_inbound he hs).mpr (Or.inr ⟨rfl, hanswerer, hi.symm⟩)

theorem NetworkInv.announced_step (key : PeerId × OutboundRequestId) (s' : Substream)
    (id : InboundRequestId) (channel : ResponseChannel)
    (hs' : (net.step e).substreams.lookup key = some s')
    (hinbound : s'.inbound = some (id, channel)) :
    .request id key.1 s'.request channel ∈ ((net.step e).nodes s'.answerer).history ∧
      Fits (codec key.1).maxRequestSize (codec s'.answerer).maxRequestSize
        s'.request := by
  obtain ⟨s, hs, hanswerer, hrequest, hcases⟩ := exists_of_inbound he hs' hinbound
  rw [hanswerer, hrequest]
  rcases hcases with hold | ⟨hnode, hkey, hi⟩
  · obtain ⟨hmem, hfits⟩ := hinv.announced _ _ _ _ hs hold
    exact ⟨mem_history_step.mpr (Or.inl hmem), hfits⟩
  · refine ⟨mem_history_step.mpr (Or.inr ⟨hnode, hi.symm⟩), ?_⟩
    obtain ⟨s₁, hs₁, -, -, hcarried⟩ := he.arrives _ _ _ _ hi
    rw [← hkey] at hs₁
    obtain rfl := Option.some.inj (hs.symm.trans hs₁)
    rw [hnode]
    exact (requestCarried_iff.mp hcarried).2

theorem NetworkInv.apart_step (key : PeerId × OutboundRequestId) (s : Substream)
    (key' : PeerId × OutboundRequestId) (s' : Substream) (id : InboundRequestId)
    (channel : ResponseChannel) (id' : InboundRequestId) (channel' : ResponseChannel)
    (hs : (net.step e).substreams.lookup key = some s)
    (hs' : (net.step e).substreams.lookup key' = some s')
    (hanswerer : s.answerer = s'.answerer) (hinbound : s.inbound = some (id, channel))
    (hinbound' : s'.inbound = some (id', channel'))
    (hsame : id = id' ∨ channel = channel') : key = key' := by
  obtain ⟨t, ht, ha, -, hcases⟩ := exists_of_inbound he hs hinbound
  obtain ⟨t', ht', ha', -, hcases'⟩ := exists_of_inbound he hs' hinbound'
  rw [ha, ha'] at hanswerer
  rcases hcases with hold | ⟨hnode, hkey, hi⟩
  · rcases hcases' with hold' | ⟨hnode', hkey', hi'⟩
    · exact hinv.apart _ _ _ _ _ _ _ _ ht ht' hanswerer hold hold' hsame
    · have hfresh := he.fresh _ _ _ _ hi' _ _ ht (hanswerer.trans hnode') _ _ hold
      exact (hsame.elim hfresh.1 hfresh.2).elim
  · rcases hcases' with hold' | ⟨hnode', hkey', hi'⟩
    · have hfresh := he.fresh _ _ _ _ hi _ _ ht' (hanswerer.symm.trans hnode) _ _ hold'
      exact (hsame.elim (fun h => hfresh.1 h.symm) fun h => hfresh.2 h.symm).elim
    · rw [hi] at hi'
      obtain ⟨-, hasker, -⟩ := Input.request.inj hi'
      exact Prod.ext hasker (hkey.trans hkey'.symm)

theorem NetworkInv.answered_step (key : PeerId × OutboundRequestId) (s' : Substream)
    (response : Bytes) (hs' : (net.step e).substreams.lookup key = some s')
    (hresponse : s'.response = some response) :
    ∃ id channel, s'.inbound = some (id, channel) ∧
      (key.1, id, channel, response) ∈ ((net.step e).nodes s'.answerer).handed := by
  rcases (lookup_substreams_step he).mp hs' with ⟨-, peerId, -, rfl⟩ | ⟨s, hs, rfl⟩
  · cases hresponse
  rw [change_answerer]
  rcases @change_response net e key s with
    hsame | ⟨peerId, id, new, hi, hanswerer, hnew, channel, hchannel, hpending⟩
  · rw [hsame] at hresponse
    obtain ⟨id, channel, hinbound, hhanded⟩ := hinv.answered _ _ _ hs hresponse
    exact ⟨id, channel, (change_inbound he hs).mpr (Or.inl hinbound),
      mem_handed_step.mpr (Or.inl hhanded)⟩
  · obtain rfl := Option.some.inj (hnew.symm.trans hresponse)
    obtain ⟨-, hinbound, hhands⟩ :=
      hinv.hands_of_channel hs hanswerer hi hchannel hpending
    refine ⟨id, channel, (change_inbound he hs).mpr (Or.inl hinbound),
      mem_handed_step.mpr (Or.inr ⟨hanswerer, ?_⟩)⟩
    rw [hanswerer]
    exact hhands

theorem NetworkInv.told_step (p : PeerId) (i : Input) (id : OutboundRequestId)
    (peerId : PeerId) (result : Outcome)
    (hi : i ∈ ((net.step e).nodes p).history)
    (hreports : i.reports = some (id, peerId, result)) :
    ∃ s, (net.step e).substreams.lookup (p, id) = some s ∧ s.answerer = peerId ∧
      s.reported = true ∧ ∀ response, result = .ok response →
        s.response = some response ∧
          Fits (codec peerId).maxResponseSize (codec p).maxResponseSize response := by
  rcases mem_history_step.mp hi with hi | ⟨rfl, rfl⟩
  · obtain ⟨s, hs, hanswerer, hreported, hok⟩ := hinv.told _ _ _ _ _ hi hreports
    refine ⟨_, lookup_substreams_of_lookup he hs, ?_, ?_, fun response hresult => ?_⟩
    · rw [change_answerer, hanswerer]
    · exact change_reported.mpr (Or.inl hreported)
    · obtain ⟨hresponse, hfits⟩ := hok response hresult
      exact ⟨hinv.response_kept he hs hresponse, hfits⟩
  · obtain ⟨s, hs, hanswerer, -⟩ := he.reports _ _ _ hreports
    refine ⟨_, lookup_substreams_of_lookup he hs, ?_, ?_, ?_⟩
    · rw [change_answerer, hanswerer]
    · exact change_reported.mpr (Or.inr ⟨rfl, _, _, hreports⟩)
    · rintro response rfl
      have hinput : e.input = .response id peerId response := by
        cases hinput : e.input with
        | response id' peerId' response' =>
            rw [hinput] at hreports
            cases hreports
            rfl
        | _ =>
            rw [hinput] at hreports
            cases hreports
      obtain ⟨s₁, sent, hs₁, hsent, hcarried⟩ := he.returns _ _ _ hinput
      obtain rfl := Option.some.inj (hs.symm.trans hs₁)
      obtain ⟨rfl, hfits⟩ := responseCarried_iff.mp hcarried
      exact ⟨hinv.response_kept he hs hsent, hfits⟩

theorem NetworkInv.reported_step (p : PeerId) (id : OutboundRequestId) (s' : Substream)
    (hs' : (net.step e).substreams.lookup (p, id) = some s')
    (hreported : s'.reported = true) :
    ∃ result, Reported ((net.step e).nodes p).history s'.answerer id result := by
  rcases (lookup_substreams_step he).mp hs' with ⟨-, peerId, -, rfl⟩ | ⟨s, hs, rfl⟩
  · cases hreported
  rw [change_answerer]
  rcases change_reported.mp hreported with hold | ⟨hnode, peerId, result, hreports⟩
  · obtain ⟨result, h⟩ := hinv.reported _ _ _ hs hold
    exact ⟨result, h.mono⟩
  · obtain rfl : p = e.node := hnode
    obtain ⟨s₁, hs₁, rfl, -⟩ := he.reports _ _ _ hreports
    obtain rfl := Option.some.inj (hs.symm.trans hs₁)
    refine ⟨result, ?_⟩
    rw [nodes_step, if_pos rfl]
    exact reported_snoc.mpr (Or.inr ⟨hreports, (hinv.opened _ _ _).mpr ⟨s, hs, rfl⟩⟩)

theorem NetworkInv.step : NetworkInv codec (net.step e) where
  outbound := hinv.outbound_step he
  inbound := hinv.inbound_step he
  opened := hinv.opened_step he
  asked := hinv.asked_step he
  arrived := hinv.arrived_step he
  announced := hinv.announced_step he
  apart := hinv.apart_step he
  answered := hinv.answered_step he
  told := hinv.told_step he
  reported := hinv.reported_step he

end Step

theorem networkInv_of_reachable {codec : PeerId → Codec} {net : Network}
    (h : network.Reachable (Rules codec) net) : NetworkInv codec net := by
  refine h.invariant ?_ fun net e hinv he => hinv.step he
  rintro net ⟨channelBuffer, rfl⟩
  refine ⟨fun p => .new _, fun p => .new _, ?_, ?_, ?_, ?_, ?_, ?_, ?_, ?_⟩
  all_goals simp [World.new, sent]

/-! ## Subscribers -/

theorem mem_inbox_modify {subscribers : List Subscriber} {n : ℕ}
    {f : Subscriber → Subscriber} (hf : ∀ old, (f old).inbox ⊆ old.inbox)
    {subscriber : Subscriber} (hmem : subscriber ∈ subscribers.modify n f) :
    ∃ old ∈ subscribers, subscriber.inbox ⊆ old.inbox := by
  obtain ⟨k, hk⟩ := List.mem_iff_getElem?.mp hmem
  rw [List.getElem?_modify] at hk
  obtain ⟨old, hold, heq⟩ := Option.map_eq_some_iff.mp hk
  refine ⟨old, List.mem_of_getElem? hold, ?_⟩
  split at heq
  · rw [← heq]
    exact hf old
  · rw [← heq]
    exact List.Subset.refl _

/-- Only a request that arrives changes what the subscribers hold, but for what
they take themselves. -/
theorem serve_broadcastRequest {i : Input} {w : World}
    (hi : ∀ id peerId request channel, i ≠ .request id peerId request channel)
    {subscriber : Subscriber} (hmem : subscriber ∈ (serve i w).broadcastRequest)
    {message : PeerId × InboundRequestId × Bytes}
    (hmessage : message ∈ subscriber.inbox) :
    ∃ old ∈ w.broadcastRequest, message ∈ old.inbox := by
  cases i with
  | subscribe =>
      rcases List.mem_append.mp hmem with hmem | hmem
      · exact ⟨subscriber, hmem, hmessage⟩
      · rw [List.mem_singleton.mp hmem] at hmessage
        cases hmessage
  | receive n =>
      obtain ⟨old, hold, hsubset⟩ :=
        mem_inbox_modify (fun old => List.tail_subset old.inbox) hmem
      exact ⟨old, hold, hsubset hmessage⟩
  | unsubscribe n =>
      obtain ⟨old, hold, hsubset⟩ :=
        mem_inbox_modify (f := fun old => { old with closed := true })
          (fun old => List.Subset.refl old.inbox) hmem
      exact ⟨old, hold, hsubset hmessage⟩
  | collectGarbage => exact ⟨subscriber, List.mem_of_mem_filter hmem, hmessage⟩
  | request id peerId request channel => exact absurd rfl (hi _ _ _ _)
  | sendResponse peerId id response delivered =>
      have hsame : (sendResponse peerId id response delivered
          w.toBehaviour).2.2.broadcastRequest = w.broadcastRequest := by
        rcases sendResponse_cases peerId id response delivered w.toBehaviour with
          ⟨ch, -, heq⟩ | ⟨-, heq⟩
        · rw [heq]
        · rw [heq]
      exact ⟨subscriber, hsame ▸ hmem, hmessage⟩
  | inboundFailure id peerId error =>
      have hframe := processInboundFailure_frame id peerId w.toBehaviour
      rw [← hframe]
      exact ⟨subscriber, hmem, hmessage⟩
  | sendRequests peers request =>
      obtain ⟨pendingResponse, oneshots, h⟩ := requestAll_frame peers w ∅
      simp only [serve, sendRequests, h] at hmem
      exact ⟨subscriber, hmem, hmessage⟩
  | sendRequest peerId id request =>
      obtain ⟨pendingResponse, oneshots, h⟩ := requestAll_frame [(peerId, id)] w ∅
      simp only [serve, sendRequest, sendRequests, h] at hmem
      exact ⟨subscriber, hmem, hmessage⟩
  | response id peerId response =>
      simp only [serve, processResponse] at hmem
      refine ⟨subscriber, ?_, hmessage⟩
      split at hmem
      · exact hmem
      · split at hmem <;> exact hmem
  | outboundFailure id peerId error =>
      simp only [serve, processOutboundFailure] at hmem
      refine ⟨subscriber, ?_, hmessage⟩
      split at hmem
      · exact hmem
      · split at hmem <;> exact hmem
  | _ => exact ⟨subscriber, hmem, hmessage⟩

/-- A request that arrives is what it adds. -/
theorem mem_inbox_processRequest {id : InboundRequestId} {p : PeerId} {request : Bytes}
    {channel : ResponseChannel} {b : Behaviour} {subscriber : Subscriber}
    (hmem : subscriber ∈ (processRequest id p request channel b).broadcastRequest)
    {message : PeerId × InboundRequestId × Bytes}
    (hmessage : message ∈ subscriber.inbox) :
    message = (p, id, request) ∨ ∃ old ∈ b.broadcastRequest, message ∈ old.inbox := by
  unfold processRequest at hmem
  split at hmem
  · exact Or.inr ⟨subscriber, hmem, hmessage⟩
  · obtain ⟨old, hold, rfl⟩ := List.mem_map.mp hmem
    have hold : old ∈ b.broadcastRequest := by
      unfold cleanUp at hold
      split at hold
      · exact hold
      · exact List.mem_of_mem_filter hold
    unfold Subscriber.trySend at hmessage
    split at hmessage
    · exact Or.inr ⟨old, hold, hmessage⟩
    · rcases List.mem_append.mp hmessage with hmessage | hnew
      · exact Or.inr ⟨old, hold, hmessage⟩
      · exact Or.inl (List.mem_singleton.mp hnew)

/-- Subscribers hold requests that arrived. -/
theorem Reachable.mem_inbox {contract : Contract} {w : World}
    (h : Reachable contract w) {subscriber : Subscriber}
    (hmem : subscriber ∈ w.broadcastRequest) {p : PeerId} {id : InboundRequestId}
    {request : Bytes} (hmessage : (p, id, request) ∈ subscriber.inbox) :
    ∃ channel, .request id p request channel ∈ w.history := by
  induction h generalizing subscriber with
  | new channelBuffer => cases hmem
  | @step w i hw hi ih =>
      have hkept : (∃ old ∈ w.broadcastRequest, (p, id, request) ∈ old.inbox) →
          ∃ channel, .request id p request channel ∈ w.history ++ [i] := by
        rintro ⟨old, hold, hmessage⟩
        obtain ⟨channel, hchannel⟩ := ih hold hmessage
        exact ⟨channel, List.mem_append_left _ hchannel⟩
      by_cases hrequest : ∃ id' p' request' channel,
          i = .request id' p' request' channel
      · obtain ⟨id', p', request', channel, rfl⟩ := hrequest
        rcases mem_inbox_processRequest hmem hmessage with heq | hold
        · cases heq
          exact ⟨channel, List.mem_append_right _ (List.mem_singleton_self _)⟩
        · exact hkept hold
      · push Not at hrequest
        exact hkept (serve_broadcastRequest hrequest hmem hmessage)

/-! ## Callers -/

/-- A caller at the node reads the outcome of its request from its stream. -/
def Gets (w : World) (peerId : PeerId) (id : OutboundRequestId) (result : Outcome) :
    Prop :=
  ∃ stream ∈ w.streams, (id, peerId, result) ∈ stream.yielded

instance decidableGets (w : World) (peerId : PeerId) (id : OutboundRequestId)
    (result : Outcome) : Decidable (Gets w peerId id result) :=
  inferInstanceAs (Decidable (∃ stream ∈ w.streams,
    (id, peerId, result) ∈ stream.yielded))

/-- libp2p has told the askers how all requests ended. -/
def Network.Settled (net : Network) : Prop :=
  ∀ key s, net.substreams.lookup key = some s → s.reported = true

section Callers

variable {codec : PeerId → Codec} {net : Network} (hinv : NetworkInv codec net)

include hinv

/-- What a caller reads is what libp2p reported on its request. -/
theorem NetworkInv.reports_of_gets {p q : PeerId} {outbound : OutboundRequestId}
    {result : Outcome} (h : Gets (net.nodes p) q outbound result) :
    (outbound, q, result) ∈ (net.nodes p).resolutions ∧
      ∃ i ∈ (net.nodes p).history, i.reports = some (outbound, q, result) := by
  obtain ⟨stream, hstream, hmem⟩ := h
  have hlocal := (hinv.outbound p).outboundInv
  have hresolved := (hlocal.streams stream hstream).yielded _ hmem
  obtain ⟨before, i, after, heq, hreports, -⟩ :=
    (hlocal.channels.reported _ _ _).mp hresolved
  exact ⟨hresolved, i, by simp [heq], hreports⟩

/-- A response that a caller reads is the answer to its request. -/
theorem NetworkInv.answer_of_gets {p q : PeerId} {outbound : OutboundRequestId}
    {response : Bytes} (h : Gets (net.nodes p) q outbound (.ok response)) :
    ∃ id channel request, Reached net p outbound q id request ∧
      FirstAnswer (net.nodes q) p id channel response ∧
      Fits (codec q).maxResponseSize (codec p).maxResponseSize response := by
  obtain ⟨-, i, hi, hreports⟩ := hinv.reports_of_gets h
  obtain ⟨s, hs, rfl, -, hok⟩ := hinv.told _ _ _ _ _ hi hreports
  obtain ⟨hresponse, hfits⟩ := hok response rfl
  obtain ⟨id, channel, hinbound, hhanded⟩ := hinv.answered _ _ _ hs hresponse
  exact ⟨id, channel, s.request, ⟨s, channel, hs, rfl, rfl, hinbound⟩,
    ((hinv.inbound _).inboundInv.handed _ _ _ _).mp hhanded, hfits⟩

theorem NetworkInv.failure_of_gets {p q : PeerId} {outbound : OutboundRequestId}
    {error : Error} (h : Gets (net.nodes p) q outbound (.error error)) :
    ∃ failure, error = .requestResponse failure ∧
      .outboundFailure outbound q failure ∈ (net.nodes p).history := by
  obtain ⟨-, i, hi, hreports⟩ := hinv.reports_of_gets h
  cases i with
  | outboundFailure id peerId failure =>
      cases hreports
      exact ⟨failure, rfl, hi⟩
  | _ => cases hreports

/-- A request and what it reached know each other. -/
theorem NetworkInv.reached_iff {p p' q q' : PeerId}
    {outbound outbound' : OutboundRequestId} {id id' : InboundRequestId}
    {request request' : Bytes} (h : Reached net p outbound q id request)
    (h' : Reached net p' outbound' q' id' request') :
    (p, outbound) = (p', outbound') ↔ (q, id) = (q', id') := by
  obtain ⟨s, channel, hs, rfl, -, hinbound⟩ := h
  obtain ⟨s', channel', hs', rfl, -, hinbound'⟩ := h'
  constructor
  · intro hkey
    rw [hkey] at hs
    obtain rfl := Option.some.inj (hs.symm.trans hs')
    rw [hinbound] at hinbound'
    cases hinbound'
    rfl
  · intro hpair
    obtain ⟨hanswerer, hid⟩ := Prod.mk.inj hpair
    exact hinv.apart _ _ _ _ _ _ _ _ hs hs' hanswerer hinbound hinbound' (Or.inl hid)

/-- A stream stands for requests that were sent. -/
theorem NetworkInv.sent_of_asked {p : PeerId} {stream : ResponseStream}
    (hstream : stream ∈ (net.nodes p).streams) {peerId : PeerId}
    {id : OutboundRequestId} (h : (peerId, id) ∈ stream.asked) :
    (peerId, id) ∈ sent (net.nodes p).history := by
  have hlocal := (hinv.outbound p).outboundInv
  have hs := hlocal.streams stream hstream
  rcases List.mem_append.mp (hs.shares.mem_iff.mpr h) with hmem | hmem
  · obtain ⟨⟨id', peerId', result⟩, hyielded, heq⟩ := List.mem_map.mp hmem
    cases heq
    obtain ⟨tx, hsent, -⟩ := (hlocal.channels.resolved _ _ _).mp (hs.yielded _ hyielded)
    exact List.mem_of_getElem? hsent
  · obtain ⟨⟨id', peerId', tx⟩, hfuture, heq⟩ := List.mem_map.mp hmem
    cases heq
    exact List.mem_of_getElem? (hs.futures _ _ _ (lookup_eq_some_iff.mpr hfuture))

/-- Once everything is settled, a stream that is read often enough has had an
outcome for each of the peers it was made for. -/
theorem NetworkInv.drain (hsettled : net.Settled) {p : PeerId} {stream : ResponseStream}
    (hstream : stream ∈ (net.nodes p).streams) (hopen : stream.dropped = false)
    (choices : List ℕ) (hchoices : choices.length = len stream.futures + 1) :
    (choices.foldl (fun s choice => s.poll (net.nodes p) choice) stream).ended = true ∧
      ((choices.foldl (fun s choice => s.poll (net.nodes p) choice) stream).yielded.map
        fun e => (e.2.1, e.1)).Perm stream.asked := by
  have hlocal := (hinv.outbound p).outboundInv
  refine (hlocal.streams stream hstream).drain hlocal.channels hopen ?_ choices hchoices
  intro peerId id hmem
  obtain ⟨s, hs, rfl⟩ := (hinv.opened _ _ _).mp (hinv.sent_of_asked hstream hmem)
  obtain ⟨result, hreported⟩ := hinv.reported _ _ _ hs (hsettled _ _ hs)
  exact ⟨result, (hlocal.channels.reported _ _ _).mpr hreported⟩

end Callers

/-- Between any number of nodes: what subscribers are shown are requests that were
made, for this node and as they were made; what callers read is the first answer
given to their own request, or a failure that libp2p reported on it; a request
and what it reached are one to one, and so are requests and outcomes; nothing
comes across that the limits of both sides do not allow; and when libp2p has
told the askers everything, every stream can be read to its end. -/
theorem requests_end_to_end {codec : PeerId → Codec} {net : Network}
    (h : network.Reachable (Rules codec) net) :
    (∀ q, ∀ subscriber ∈ (net.nodes q).broadcastRequest, ∀ p id request,
      (p, id, request) ∈ subscriber.inbox →
        ∃ outbound, Reached net p outbound q id request) ∧
    (∀ p outbound q id request, Reached net p outbound q id request →
      Asked (net.nodes p) q outbound request ∧
      (∃ channel, .request id p request channel ∈ (net.nodes q).history) ∧
      Fits (codec p).maxRequestSize (codec q).maxRequestSize request) ∧
    (∀ p outbound q id request p' outbound' q' id' request',
      Reached net p outbound q id request → Reached net p' outbound' q' id' request' →
        ((p, outbound) = (p', outbound') ↔ (q, id) = (q', id'))) ∧
    (∀ p q outbound response, Gets (net.nodes p) q outbound (.ok response) →
      ∃ id channel request, Reached net p outbound q id request ∧
        FirstAnswer (net.nodes q) p id channel response ∧
        Fits (codec q).maxResponseSize (codec p).maxResponseSize response) ∧
    (∀ p q outbound error, Gets (net.nodes p) q outbound (.error error) →
      ∃ failure, error = .requestResponse failure ∧
        .outboundFailure outbound q failure ∈ (net.nodes p).history) ∧
    (∀ p q q' outbound result result', Gets (net.nodes p) q outbound result →
      Gets (net.nodes p) q' outbound result' → q = q' ∧ result = result') ∧
    (net.Settled → ∀ p, ∀ stream ∈ (net.nodes p).streams, stream.dropped = false →
      ∀ choices : List ℕ, choices.length = len stream.futures + 1 →
        (choices.foldl (fun s choice => s.poll (net.nodes p) choice) stream).ended =
          true ∧
        ((choices.foldl (fun s choice => s.poll (net.nodes p) choice)
          stream).yielded.map fun e => (e.2.1, e.1)).Perm stream.asked) := by
  have hinv := networkInv_of_reachable h
  refine ⟨?_, ?_, ?_, fun p q outbound response => hinv.answer_of_gets,
    fun p q outbound error => hinv.failure_of_gets, ?_, ?_⟩
  · intro q subscriber hsubscriber p id request hmessage
    obtain ⟨channel, hmem⟩ := (hinv.inbound q).mem_inbox hsubscriber hmessage
    obtain ⟨outbound, s, hs, hanswerer, hrequest, hinbound⟩ := hinv.arrived _ _ _ _ _ hmem
    exact ⟨outbound, s, channel, hs, hanswerer, hrequest, hinbound⟩
  · rintro p outbound q id request ⟨s, channel, hs, rfl, rfl, hinbound⟩
    obtain ⟨hmem, hfits⟩ := hinv.announced _ _ _ _ hs hinbound
    exact ⟨hinv.asked _ _ _ hs, ⟨channel, hmem⟩, hfits⟩
  · intro p outbound q id request p' outbound' q' id' request' hreached hreached'
    exact hinv.reached_iff hreached hreached'
  · intro p q q' outbound result result' hgets hgets'
    have honce := (hinv.outbound p).outboundInv.channels.once
    have heq := List.inj_on_of_nodup_map honce (hinv.reports_of_gets hgets).1
      (hinv.reports_of_gets hgets').1 rfl
    cases heq
    exact ⟨rfl, rfl⟩
  · intro hsettled p stream hstream hopen choices hchoices
    exact hinv.drain hsettled hstream hopen choices hchoices

/-- Check what libp2p promises. -/
def rules (codec : PeerId → Codec) (net : Network) (e : Event) : Bool :=
  decide (e.input.sends.map Prod.snd).Nodup &&
    (e.input.sends.map Prod.snd).all
      (fun id => (net.substreams.lookup (e.node, id)).isNone) &&
    match e.input with
    | .request id peerId request channel =>
        (net.substreams.lookup (peerId, e.outbound)).any (fun s =>
          decide (s.answerer = e.node ∧ s.inbound = none ∧ request = s.request ∧
            Fits (codec peerId).maxRequestSize (codec e.node).maxRequestSize
              s.request)) &&
        net.substreams.entries.all fun x => x.2.inbound.all fun known =>
          decide (x.2.answerer = e.node → known.1 ≠ id ∧ known.2 ≠ channel)
    | .response id peerId response =>
        (net.substreams.lookup (e.node, id)).any fun s =>
          decide (s.answerer = peerId ∧ s.reported = false ∧
            s.response = some response ∧
            Fits (codec peerId).maxResponseSize (codec e.node).maxResponseSize
              response)
    | .outboundFailure id peerId _ =>
        (net.substreams.lookup (e.node, id)).any fun s =>
          decide (s.answerer = peerId ∧ s.reported = false)
    | _ => true

theorem rules_of_check {codec : PeerId → Codec} (net : Network) (e : Event)
    (h : rules codec net e = true) : Rules codec net e := by
  simp only [rules, Bool.and_eq_true, decide_eq_true_eq, List.all_eq_true,
    Option.isNone_iff_eq_none] at h
  obtain ⟨⟨hdistinct, hunused⟩, hinput⟩ := h
  refine ⟨hdistinct, ?_, ?_, ?_, ?_, ?_⟩
  · intro id hid hmem
    obtain ⟨s, hs⟩ := mem_iff_exists_lookup.mp hmem
    rw [hunused id hid] at hs
    cases hs
  · intro id peerId request channel hi
    simp only [hi, Bool.and_eq_true] at hinput
    obtain ⟨s, hs, hchecked⟩ := (Option.any_eq_true _ _).mp hinput.1
    obtain ⟨hanswerer, hnone, hsame, hfits⟩ := of_decide_eq_true hchecked
    exact ⟨s, hs, hanswerer, hnone, requestCarried_iff.mpr ⟨hsame, hfits⟩⟩
  · intro id peerId request channel hi key s hs hanswerer id' channel' hinbound
    simp only [hi, Bool.and_eq_true, List.all_eq_true] at hinput
    have hchecked := hinput.2 _ (lookup_eq_some_iff.mp hs)
    rw [hinbound] at hchecked
    exact of_decide_eq_true hchecked hanswerer
  · intro id peerId result hreports
    cases hi : e.input with
    | response id' peerId' response =>
        rw [hi] at hreports
        cases hreports
        simp only [hi] at hinput
        obtain ⟨s, hs, hchecked⟩ := (Option.any_eq_true _ _).mp hinput
        obtain ⟨hanswerer, hopen, -⟩ := of_decide_eq_true hchecked
        exact ⟨s, hs, hanswerer, hopen⟩
    | outboundFailure id' peerId' error =>
        rw [hi] at hreports
        cases hreports
        simp only [hi] at hinput
        obtain ⟨s, hs, hchecked⟩ := (Option.any_eq_true _ _).mp hinput
        exact ⟨s, hs, of_decide_eq_true hchecked⟩
    | _ =>
        rw [hi] at hreports
        cases hreports
  · intro id peerId response hi
    simp only [hi] at hinput
    obtain ⟨s, hs, hchecked⟩ := (Option.any_eq_true _ _).mp hinput
    obtain ⟨-, -, hresponse, hfits⟩ := of_decide_eq_true hchecked
    exact ⟨s, response, hs, hresponse, responseCarried_iff.mpr ⟨rfl, hfits⟩⟩

/-- Two nodes ask each other, and all their ids are the same. -/
def crossing : List Event :=
  [⟨7, .subscribe, 0⟩, ⟨8, .subscribe, 0⟩, ⟨7, .sendRequest 8 0 [1], 0⟩,
    ⟨8, .sendRequest 7 0 [9], 0⟩, ⟨8, .request 5 7 [1] 50, 0⟩,
    ⟨7, .request 5 8 [9] 50, 0⟩, ⟨8, .sendResponse 7 5 [2] true, 0⟩,
    ⟨7, .sendResponse 8 5 [3] true, 0⟩, ⟨8, .response 0 7 [3], 0⟩,
    ⟨7, .response 0 8 [2], 0⟩, ⟨7, .pollStream 0 0, 0⟩]

theorem requests_end_to_end_crossing :
    ∃ net, network.Reachable (Rules fun _ => ⟨8, 8⟩) net ∧
      Gets (net.nodes 7) 8 0 (.ok [2]) ∧
      ∃ id channel request, Reached net 7 0 8 id request ∧
        FirstAnswer (net.nodes 8) 7 id channel [2] := by
  have hrun : ∃ net, network.Reachable (Rules fun _ => ⟨8, 8⟩) net ∧
      Gets (net.nodes 7) 8 0 (.ok [2]) :=
    network.exists_reachable_of_run rules_of_check ⟨fun _ => World.new 4, ∅⟩
      ⟨fun _ => 4, rfl⟩ crossing _ (by decide)
  obtain ⟨net, hnet, hgets⟩ := hrun
  obtain ⟨-, -, -, hanswer, -⟩ := requests_end_to_end hnet
  obtain ⟨id, channel, request, hreached, hfirst, -⟩ := hanswer _ _ _ _ hgets
  exact ⟨net, hnet, hgets, id, channel, request, hreached, hfirst⟩

end Connexa.RequestResponse
