import Connexa.Support.History
import Connexa.RequestResponse.Bookkeeping

/-!
# Inbound requests are answered at most once

The table of pending requests holds exactly the admitted requests that were
neither answered nor reported failed since they arrived.  What follows is that
the first answer takes the response channel and every later one finds nothing.
-/

namespace Connexa.RequestResponse

open HashMap

/-- The input answers the request or reports its failure. -/
def Input.Settles (i : Input) (peerId : PeerId) (id : InboundRequestId) : Prop :=
  (∃ response delivered, i = .sendResponse peerId id response delivered) ∨
    ∃ error, i = .inboundFailure id peerId error

/-- libp2p gives every inbound request an unused id. -/
def Contract.freshInbound : Contract := fun w i =>
  ∀ id peerId request channel, i = .request id peerId request channel →
    ∀ peerId' request' channel',
      .request id peerId' request' channel' ∉ w.history

/-- The request was admitted, and nothing has settled it since. -/
def Unsettled (w : World) (peerId : PeerId) (id : InboundRequestId)
    (channel : ResponseChannel) : Prop :=
  (peerId, id, channel) ∈ w.admitted ∧
    ∃ before request after,
      w.history = before ++ .request id peerId request channel :: after ∧
        ∀ i ∈ after, ¬i.Settles peerId id

/-- The response was handed over: it is the first that names the request. -/
def FirstAnswer (w : World) (peerId : PeerId) (id : InboundRequestId)
    (channel : ResponseChannel) (response : Bytes) : Prop :=
  (peerId, id, channel) ∈ w.admitted ∧
    ∃ before request between delivered after,
      w.history = before ++ .request id peerId request channel ::
        (between ++ .sendResponse peerId id response delivered :: after) ∧
          ∀ i ∈ between, ¬i.Settles peerId id

structure InboundInv (w : World) : Prop where
  pending : ∀ peerId id channel,
    lookupAt w.pendingRequest peerId id = some channel ↔
      Unsettled w peerId id channel
  handed : ∀ peerId id channel response,
    (peerId, id, channel, response) ∈ w.handed ↔
      FirstAnswer w peerId id channel response
  once : (w.handed.map fun h => h.2.1).Nodup
  admitted : ∀ peerId id channel, (peerId, id, channel) ∈ w.admitted →
    ∃ request, .request id peerId request channel ∈ w.history
  unique : ∀ id peerId request channel before after peerId' request' channel'
      before' after',
    w.history = before ++ .request id peerId request channel :: after →
      w.history = before' ++ .request id peerId' request' channel' :: after' →
        peerId = peerId' ∧ channel = channel' ∧ after = after'

/-! ## One more input -/

variable {w : World} {i : Input}

/-- What admits a request. -/
def admits (w : World) : Input → List (PeerId × InboundRequestId × ResponseChannel)
  | .request id peerId _ channel =>
      if w.broadcastRequest = [] then [] else [(peerId, id, channel)]
  | _ => []

/-- What hands over a response. -/
def hands (w : World) :
    Input → List (PeerId × InboundRequestId × ResponseChannel × Bytes)
  | .sendResponse peerId id response _ =>
      ((lookupAt w.pendingRequest peerId id).map fun ch =>
        (peerId, id, ch, response)).toList
  | _ => []

theorem sendRequests_admitted (peers : List (PeerId × OutboundRequestId))
    (w : World) : (sendRequests peers w).admitted = w.admitted ∧
      (sendRequests peers w).handed = w.handed := by
  obtain ⟨pendingResponse, oneshots, h⟩ := requestAll_frame peers w ∅
  simp [sendRequests, h]

theorem admitted_step : (step i w).admitted = w.admitted ++ admits w i := by
  cases i with
  | sendRequests peers request =>
      simp [step, serve, admits, sendRequests_admitted]
  | sendRequest peerId id request =>
      simp [step, serve, admits, sendRequest, sendRequests_admitted]
  | response id peerId response =>
      simp only [step, serve, admits, processResponse, List.append_nil]
      split
      · rfl
      · split <;> rfl
  | outboundFailure id peerId error =>
      simp only [step, serve, admits, processOutboundFailure, List.append_nil]
      split
      · rfl
      · split <;> rfl
  | _ => simp [step, serve, admits]

theorem handed_step : (step i w).handed = w.handed ++ hands w i := by
  cases i with
  | sendResponse peerId id response delivered =>
      simp only [step, serve, hands]
      rcases sendResponse_cases peerId id response delivered w.toBehaviour with
        ⟨ch, hch, heq⟩ | ⟨hnone, heq⟩
      · rw [hch, congrArg Prod.fst heq]
        rfl
      · rw [hnone, heq]
        rfl
  | sendRequests peers request =>
      simp [step, serve, hands, sendRequests_admitted]
  | sendRequest peerId id request =>
      simp [step, serve, hands, sendRequest, sendRequests_admitted]
  | response id peerId response =>
      simp only [step, serve, hands, processResponse, List.append_nil]
      split
      · rfl
      · split <;> rfl
  | outboundFailure id peerId error =>
      simp only [step, serve, hands, processOutboundFailure, List.append_nil]
      split
      · rfl
      · split <;> rfl
  | _ => simp [step, serve, hands]

/-- The pending requests after one input. -/
theorem lookupAt_step (peerId : PeerId) (id : InboundRequestId)
    (channel : ResponseChannel) :
    lookupAt (step i w).pendingRequest peerId id = some channel ↔
      (peerId, id, channel) ∈ admits w i ∨
        lookupAt w.pendingRequest peerId id = some channel ∧
          ¬i.Settles peerId id ∧
          ∀ channel', (peerId, id, channel') ∉ admits w i := by
  cases i with
  | request id' peerId' request channel' =>
      simp only [step, serve, processRequest_pendingRequest, admits]
      by_cases hempty : w.broadcastRequest = []
      · simp [hempty, Input.Settles]
      · simp only [hempty, if_false, lookupAt_insertAt]
        by_cases hkey : peerId = peerId' ∧ id = id'
        · obtain ⟨rfl, rfl⟩ := hkey
          simp [eq_comm]
        · simp only [hkey, if_false, Input.Settles]
          simp only [List.mem_singleton, Prod.mk.injEq]
          tauto
  | sendResponse peerId' id' response delivered =>
      simp only [step, serve, sendResponse_pendingRequest, admits]
      by_cases hkey : peerId = peerId' ∧ id = id'
      · obtain ⟨rfl, rfl⟩ := hkey
        cases hfound : lookupAt w.pendingRequest peerId id with
        | none => simp [hfound]
        | some ch => simp [lookupAt_eraseAt, Input.Settles]
      · have hsettles : ¬(Input.sendResponse peerId' id' response delivered).Settles
            peerId id := by
          rintro (⟨_, _, h⟩ | ⟨_, h⟩)
          · cases h
            exact hkey ⟨rfl, rfl⟩
          · cases h
        cases hfound : lookupAt w.pendingRequest peerId' id' with
        | none => simp [hsettles]
        | some ch => simp [lookupAt_eraseAt, hsettles, hkey]
  | inboundFailure id' peerId' error =>
      simp only [step, serve, processInboundFailure_pendingRequest, admits,
        lookupAt_prune, lookupAt_eraseAt]
      by_cases hkey : peerId = peerId' ∧ id = id'
      · obtain ⟨rfl, rfl⟩ := hkey
        simp [Input.Settles]
      · have hsettles : ¬(Input.inboundFailure id' peerId' error).Settles
            peerId id := by
          rintro (⟨_, _, h⟩ | ⟨_, h⟩)
          · cases h
          · cases h
            exact hkey ⟨rfl, rfl⟩
        simp [hkey, hsettles]
  | sendRequests peers request =>
      simp [step, serve, admits, Input.Settles, sendRequests_pendingRequest]
  | sendRequest peerId' id' request =>
      simp [step, serve, admits, Input.Settles, sendRequest,
        sendRequests_pendingRequest]
  | response id' peerId' response =>
      simp only [step, serve, admits, processResponse]
      split
      · simp [Input.Settles]
      · split <;> simp [Input.Settles, World.resolve]
  | outboundFailure id' peerId' error =>
      simp only [step, serve, admits, processOutboundFailure]
      split
      · simp [Input.Settles]
      · split <;> simp [Input.Settles, World.resolve]
  | _ => simp [step, serve, admits, Input.Settles, subscribe, collectGarbage]

theorem mem_admits {peerId : PeerId} {id : InboundRequestId}
    {channel : ResponseChannel} (h : (peerId, id, channel) ∈ admits w i) :
    ∃ request, i = .request id peerId request channel := by
  cases i with
  | request id' peerId' request channel' =>
      simp only [admits] at h
      split at h
      · cases h
      · simp only [List.mem_singleton, Prod.mk.injEq] at h
        obtain ⟨rfl, rfl, rfl⟩ := h
        exact ⟨request, rfl⟩
  | _ => cases h

theorem mem_hands {peerId : PeerId} {id : InboundRequestId}
    {channel : ResponseChannel} {response : Bytes} :
    (peerId, id, channel, response) ∈ hands w i ↔
      (∃ delivered, i = .sendResponse peerId id response delivered) ∧
        lookupAt w.pendingRequest peerId id = some channel := by
  cases i with
  | sendResponse peerId' id' response' delivered =>
      simp only [hands, Option.mem_toList, Option.map_eq_some_iff,
        Prod.mk.injEq]
      constructor
      · rintro ⟨ch, hch, rfl, rfl, rfl, rfl⟩
        exact ⟨⟨delivered, rfl⟩, hch⟩
      · rintro ⟨⟨_, h⟩, hch⟩
        cases h
        exact ⟨channel, hch, rfl, rfl, rfl, rfl⟩
  | _ => simp [hands]

/-- An admitted request is in the history. -/
theorem Unsettled.mem_history {peerId : PeerId} {id : InboundRequestId}
    {channel : ResponseChannel} (h : Unsettled w peerId id channel) :
    ∃ request, .request id peerId request channel ∈ w.history := by
  obtain ⟨-, before, request, after, heq, -⟩ := h
  exact ⟨request, by simp [heq]⟩

/-- A new request cannot be one that is known. -/
theorem notMem_admits (hi : Contract.freshInbound w i) {peerId peerId' : PeerId}
    {id : InboundRequestId} {channel channel' : ResponseChannel} {request : Bytes}
    (hmem : .request id peerId request channel ∈ w.history) :
    (peerId', id, channel') ∉ admits w i := by
  intro hnew
  obtain ⟨request', rfl⟩ := mem_admits hnew
  exact hi id peerId' request' channel' rfl _ _ _ hmem

section Step

variable (hw : InboundInv w) (hi : Contract.freshInbound w i)

include hw hi

theorem InboundInv.unsettled_step {peerId : PeerId} {id : InboundRequestId}
    {channel : ResponseChannel} :
    Unsettled (step i w) peerId id channel ↔
      (peerId, id, channel) ∈ admits w i ∨
        Unsettled w peerId id channel ∧ ¬i.Settles peerId id := by
  constructor
  · rintro ⟨hadmitted, before, request, after, heq, hafter⟩
    rw [admitted_step, List.mem_append] at hadmitted
    rcases hadmitted with hadmitted | hnew
    · right
      rcases snoc_eq_append_cons_iff.mp heq with
        ⟨rest, rfl, hhistory⟩ | ⟨rfl, hrequest, -⟩
      · refine ⟨⟨hadmitted, before, request, rest, hhistory, ?_⟩, ?_⟩
        · exact fun j hj => hafter j (List.mem_append_left _ hj)
        · exact hafter i (List.mem_append_right _ (List.mem_singleton_self i))
      · obtain ⟨request', hmem⟩ := hw.admitted _ _ _ hadmitted
        exact absurd hmem (hi id peerId request channel hrequest.symm _ _ _)
    · exact Or.inl hnew
  · rintro (hnew | ⟨⟨hadmitted, before, request, after, heq, hafter⟩, hsettles⟩)
    · obtain ⟨request, rfl⟩ := mem_admits hnew
      refine ⟨?_, w.history, request, [], rfl, nofun⟩
      rw [admitted_step]
      exact List.mem_append_right _ hnew
    · refine ⟨?_, before, request, after ++ [i], ?_, ?_⟩
      · rw [admitted_step]
        exact List.mem_append_left _ hadmitted
      · simp [step, heq]
      · intro j hj
        rcases List.mem_append.mp hj with hj | hj
        · exact hafter j hj
        · rw [List.mem_singleton.mp hj]
          exact hsettles

theorem InboundInv.pending_step (peerId : PeerId) (id : InboundRequestId)
    (channel : ResponseChannel) :
    lookupAt (step i w).pendingRequest peerId id = some channel ↔
      Unsettled (step i w) peerId id channel := by
  rw [lookupAt_step, hw.unsettled_step hi, hw.pending]
  constructor
  · rintro (hnew | ⟨hold, hsettles, -⟩)
    · exact Or.inl hnew
    · exact Or.inr ⟨hold, hsettles⟩
  · rintro (hnew | ⟨hold, hsettles⟩)
    · exact Or.inl hnew
    · obtain ⟨request, hmem⟩ := hold.mem_history
      exact Or.inr ⟨hold, hsettles, fun _ => notMem_admits hi hmem⟩

theorem InboundInv.firstAnswer_step {peerId : PeerId} {id : InboundRequestId}
    {channel : ResponseChannel} {response : Bytes} :
    FirstAnswer (step i w) peerId id channel response ↔
      FirstAnswer w peerId id channel response ∨
        (peerId, id, channel, response) ∈ hands w i := by
  rw [mem_hands, hw.pending]
  constructor
  · rintro ⟨hadmitted, before, request, between, delivered, after, heq, hbetween⟩
    have hsplit : w.history ++ [i] =
        (before ++ .request id peerId request channel :: between) ++
          .sendResponse peerId id response delivered :: after := by
      rw [List.append_assoc, List.cons_append]
      exact heq
    have hrequest : .request id peerId request channel ∈ w.history →
        (peerId, id, channel) ∈ w.admitted := by
      intro hmem
      rw [admitted_step, List.mem_append] at hadmitted
      exact hadmitted.resolve_right (notMem_admits hi hmem)
    rcases snoc_eq_append_cons_iff.mp hsplit with
      ⟨rest, rfl, hhistory⟩ | ⟨rfl, hanswer, hhistory⟩
    · refine Or.inl ⟨hrequest (by simp [hhistory]), before, request, between,
        delivered, rest, ?_, hbetween⟩
      rw [hhistory, List.append_assoc, List.cons_append]
    · exact Or.inr ⟨⟨delivered, hanswer.symm⟩,
        hrequest (by simp [hhistory]), before, request, between, hhistory, hbetween⟩
  · rintro (⟨hadmitted, before, request, between, delivered, after, heq, hbetween⟩
      | ⟨⟨delivered, rfl⟩, hadmitted, before, request, between, heq, hbetween⟩)
    · refine ⟨?_, before, request, between, delivered, after ++ [i], ?_, hbetween⟩
      · rw [admitted_step]
        exact List.mem_append_left _ hadmitted
      · simp [step, heq]
    · refine ⟨?_, before, request, between, delivered, [], ?_, hbetween⟩
      · rw [admitted_step]
        exact List.mem_append_left _ hadmitted
      · simp [step, heq]

theorem InboundInv.once_step :
    ((step i w).handed.map fun h => h.2.1).Nodup := by
  rw [handed_step, List.map_append, List.nodup_append]
  refine ⟨hw.once, ?_, ?_⟩
  · cases i with
    | sendResponse peerId id response delivered =>
        cases hfound : lookupAt w.pendingRequest peerId id <;> simp [hands, hfound]
    | _ => simp [hands]
  · intro _ hold _ hnew heq
    subst heq
    obtain ⟨⟨peerId, id, channel, response⟩, hmem, rfl⟩ := List.mem_map.mp hold
    obtain ⟨⟨peerId', _, channel', response'⟩, hmem', hid⟩ := List.mem_map.mp hnew
    cases hid
    -- the request was answered before, so it cannot be pending now
    obtain ⟨-, before, request, between, delivered, after, hfirst, -⟩ :=
      (hw.handed _ _ _ _).mp hmem
    obtain ⟨-, hpending⟩ := mem_hands.mp hmem'
    obtain ⟨-, before', request', after', hunsettled, hafter'⟩ :=
      (hw.pending _ _ _).mp hpending
    obtain ⟨rfl, -, rfl⟩ := hw.unique _ _ _ _ _ _ _ _ _ _ _ hfirst hunsettled
    refine hafter' (.sendResponse peerId id response delivered) ?_ ?_
    · exact List.mem_append_right _ List.mem_cons_self
    · exact Or.inl ⟨response, delivered, rfl⟩

theorem InboundInv.step : InboundInv (step i w) where
  pending := hw.pending_step hi
  handed := by
    intro peerId id channel response
    rw [handed_step, List.mem_append, hw.handed, hw.firstAnswer_step hi]
  once := hw.once_step hi
  admitted := by
    intro peerId id channel hmem
    rw [admitted_step, List.mem_append] at hmem
    rcases hmem with hmem | hmem
    · obtain ⟨request, hrequest⟩ := hw.admitted _ _ _ hmem
      exact ⟨request, List.mem_append_left _ hrequest⟩
    · obtain ⟨request, rfl⟩ := mem_admits hmem
      exact ⟨request, List.mem_append_right _ (List.mem_singleton_self _)⟩
  unique := by
    intro id peerId request channel before after peerId' request' channel' before'
      after' h h'
    rcases snoc_eq_append_cons_iff.mp h with
      ⟨rest, rfl, hrest⟩ | ⟨rfl, hlast, hbefore⟩
    · rcases snoc_eq_append_cons_iff.mp h' with
        ⟨rest', rfl, hrest'⟩ | ⟨rfl, hlast', -⟩
      · obtain ⟨rfl, rfl, rfl⟩ :=
          hw.unique _ _ _ _ _ _ _ _ _ _ _ hrest hrest'
        exact ⟨rfl, rfl, rfl⟩
      · exact absurd (by simp [hrest]) (hi id _ _ _ hlast'.symm peerId request channel)
    · rcases snoc_eq_append_cons_iff.mp h' with
        ⟨rest', rfl, hrest'⟩ | ⟨rfl, hlast', -⟩
      · exact absurd (by simp [hrest']) (hi id _ _ _ hlast.symm peerId' request' channel')
      · rw [← hlast'] at hlast
        cases hlast
        exact ⟨rfl, rfl, rfl⟩

end Step

theorem Reachable.inboundInv {w : World} (h : Reachable .freshInbound w) :
    InboundInv w := by
  induction h with
  | new channelBuffer =>
      refine ⟨?_, ?_, List.nodup_nil, nofun, ?_⟩
      · intro peerId id channel
        simp [World.new, Behaviour.new, lookupAt, Unsettled]
      · intro peerId id channel response
        simp [World.new, FirstAnswer]
      · intro id peerId request channel before after _ _ _ _ _ h
        simp [World.new] at h
  | step _ hi ih => exact ih.step hi

theorem processInboundFailure_frame (id : InboundRequestId) (peerId : PeerId)
    (b : Behaviour) :
    { processInboundFailure id peerId b with
      pendingRequest := b.pendingRequest } = b := by
  unfold processInboundFailure
  split <;> rfl

/-- At most one response per inbound request is handed over: the first that
names its peer and id before it fails.  Every other one finds nothing and
changes nothing, a failure then removes no channel, and what does not name a
request leaves its channel where it is. -/
theorem inbound_requests_answered_once {w : World}
    (h : Reachable .freshInbound w) :
    (∀ id, (w.handed.filter fun e => e.2.1 = id).length ≤ 1) ∧
    (∀ peerId id channel response,
      (peerId, id, channel, response) ∈ w.handed ↔
        FirstAnswer w peerId id channel response) ∧
    (∀ peerId id response delivered,
      (∃ channel, Unsettled w peerId id channel ∧
        (sendResponse peerId id response delivered w.toBehaviour).2.1 =
          some (channel, response)) ∨
      (∀ channel, ¬Unsettled w peerId id channel) ∧
        sendResponse peerId id response delivered w.toBehaviour =
          (.error (.notFound "pending request"), none, w.toBehaviour)) ∧
    (∀ peerId id, (∀ channel, ¬Unsettled w peerId id channel) →
      (∀ peerId' id',
        lookupAt (processInboundFailure id peerId w.toBehaviour).pendingRequest
          peerId' id' = lookupAt w.pendingRequest peerId' id') ∧
      { processInboundFailure id peerId w.toBehaviour with
        pendingRequest := w.pendingRequest } = w.toBehaviour) ∧
    ∀ i, Contract.freshInbound w i → ∀ peerId id channel,
      lookupAt w.pendingRequest peerId id = some channel →
        ¬i.Settles peerId id →
          lookupAt (step i w).pendingRequest peerId id = some channel := by
  have hw := h.inboundInv
  refine ⟨?_, hw.handed, ?_, ?_, ?_⟩
  · intro id
    have hnodup : ((w.handed.filter fun e => e.2.1 = id).map
        fun e => e.2.1).Nodup := by
      have hfilter := hw.once.filter (fun known => decide (known = id))
      rwa [List.filter_map] at hfilter
    have hsame : ∀ known ∈ (w.handed.filter fun e => e.2.1 = id).map
        (fun e => e.2.1), known = id := by
      intro known hknown
      obtain ⟨e, he, rfl⟩ := List.mem_map.mp hknown
      exact of_decide_eq_true (List.mem_filter.mp he).2
    have hle := (List.nodup_iff_count_le_one.mp hnodup) id
    rw [List.count_eq_length.mpr (fun known hknown => (hsame known hknown).symm),
      List.length_map] at hle
    exact hle
  · intro peerId id response delivered
    rcases sendResponse_cases peerId id response delivered w.toBehaviour with
      ⟨channel, hch, heq⟩ | ⟨hnone, heq⟩
    · exact Or.inl ⟨channel, (hw.pending _ _ _).mp hch, congrArg Prod.fst heq⟩
    · refine Or.inr ⟨fun channel hopen => ?_, heq⟩
      rw [(hw.pending _ _ _).mpr hopen] at hnone
      cases hnone
  · intro peerId id hsettled
    refine ⟨fun peerId' id' => ?_, processInboundFailure_frame id peerId _⟩
    rw [processInboundFailure_pendingRequest, lookupAt_prune, lookupAt_eraseAt]
    split
    · next hkey =>
      obtain ⟨rfl, rfl⟩ := hkey
      cases hfound : lookupAt w.pendingRequest peerId' id' with
      | none => rfl
      | some channel => exact absurd ((hw.pending _ _ _).mp hfound) (hsettled channel)
    · rfl
  · intro i hi peerId id channel hpending hsettles
    obtain ⟨request, hmem⟩ := ((hw.pending _ _ _).mp hpending).mem_history
    exact (lookupAt_step peerId id channel).mpr
      (Or.inr ⟨hpending, hsettles, fun _ => notMem_admits hi hmem⟩)

/-- Check that an inbound request has an unused id. -/
def freshInbound (w : World) (i : Input) : Bool :=
  match i with
  | .request id _ _ _ => w.history.all fun
      | .request id' _ _ _ => decide (id' ≠ id)
      | _ => true
  | _ => true

theorem freshInbound_of_check (w : World) (i : Input)
    (h : freshInbound w i = true) : Contract.freshInbound w i := by
  rintro id peerId request channel rfl peerId' request' channel' hmem
  simpa using List.all_eq_true.mp h _ hmem

/-- Two subscribers answer the first of two requests of one peer. -/
def twoAnswers : List Input :=
  [.subscribe, .subscribe, .request 0 7 [1] 10, .request 1 7 [2] 11,
    .sendResponse 7 0 [3] true, .sendResponse 7 0 [4] true]

theorem inbound_requests_answered_once_twoAnswers :
    ∃ w, Reachable .freshInbound w ∧ w.handed = [(7, 0, 10, [3])] ∧
      FirstAnswer w 7 0 10 [3] ∧ Unsettled w 7 1 11 ∧
      (w.handed.filter fun e => e.2.1 = 0).length ≤ 1 := by
  obtain ⟨w, hw, hhanded, hpending⟩ := exists_reachable_of_run
    freshInbound_of_check twoAnswers (fun w => w.handed = [(7, 0, 10, [3])] ∧
      lookupAt w.pendingRequest 7 1 = some 11) (by decide)
  have hmain := inbound_requests_answered_once hw
  refine ⟨w, hw, hhanded, ?_, (hw.inboundInv.pending 7 1 11).mp hpending,
    hmain.1 0⟩
  exact (hmain.2.1 7 0 10 [3]).mp (by simp [hhanded])

/-! ## Requests that reach nobody

`process_request` drops a request when it has no subscribers.  It looks before it
forgets the closed ones and before it sends, so a request that all remaining
subscribers refuse stays in the table, with nobody to answer it. -/

section Delivery

variable {id : InboundRequestId} {peerId : PeerId} {request : Bytes}
  {channel : ResponseChannel} {b : Behaviour}

/-- The subscriber is there and its channel has room. -/
def Subscriber.HasRoom (buffer : ℕ) (subscriber : Subscriber) : Prop :=
  subscriber.closed = false ∧ subscriber.inbox.length ≤ buffer

/-- `try_send` of the request succeeded for some subscriber. -/
def Delivered (id : InboundRequestId) (peerId : PeerId) (request : Bytes)
    (b : Behaviour) : Prop :=
  ∃ subscriber ∈ (cleanUp b).broadcastRequest,
    subscriber.trySend b.channelBuffer (peerId, id, request) =
      { subscriber with inbox := subscriber.inbox ++ [(peerId, id, request)] }

instance : Decidable (Delivered id peerId request b) :=
  inferInstanceAs (Decidable (∃ subscriber ∈ (cleanUp b).broadcastRequest, _))

theorem trySend_eq_iff {buffer : ℕ} {subscriber : Subscriber}
    {message : PeerId × InboundRequestId × Bytes} :
    subscriber.trySend buffer message =
      { subscriber with inbox := subscriber.inbox ++ [message] } ↔
        subscriber.HasRoom buffer := by
  unfold Subscriber.trySend
  split
  · next hrefused =>
    constructor
    · intro heq
      have hlength := congrArg (fun s : Subscriber => s.inbox.length) heq
      simp at hlength
    · rintro ⟨hopen, hroom⟩
      rcases hrefused with hclosed | hfull
      · rw [hopen] at hclosed
        cases hclosed
      · omega
  · next hroom =>
    rw [not_or, Bool.not_eq_true, Nat.not_lt] at hroom
    exact ⟨fun _ => hroom, fun _ => rfl⟩

/-- The clean-up forgets closed subscribers at most. -/
theorem mem_cleanUp_of_open {subscriber : Subscriber}
    (hopen : subscriber.closed = false) :
    subscriber ∈ (cleanUp b).broadcastRequest ↔ subscriber ∈ b.broadcastRequest := by
  unfold cleanUp
  split
  · rfl
  · simp [retainOpen, hopen]

theorem delivered_iff :
    Delivered id peerId request b ↔
      ∃ subscriber ∈ b.broadcastRequest, subscriber.HasRoom b.channelBuffer := by
  constructor
  · rintro ⟨subscriber, hmem, hsent⟩
    have hroom := trySend_eq_iff.mp hsent
    exact ⟨subscriber, (mem_cleanUp_of_open hroom.1).mp hmem, hroom⟩
  · rintro ⟨subscriber, hmem, hroom⟩
    exact ⟨subscriber, (mem_cleanUp_of_open hroom.1).mpr hmem, trySend_eq_iff.mpr hroom⟩

/-- A new request is kept only if it was delivered, exactly if there are no
subscribers at all or one of them is there and has room. -/
theorem pending_only_if_delivered_iff
    (hnew : lookupAt b.pendingRequest peerId id ≠ some channel) :
    (lookupAt (processRequest id peerId request channel b).pendingRequest peerId id =
      some channel → Delivered id peerId request b) ↔
    (b.broadcastRequest = [] ∨
      ∃ subscriber ∈ b.broadcastRequest, subscriber.HasRoom b.channelBuffer) := by
  rw [delivered_iff]
  by_cases hnobody : b.broadcastRequest = []
  · have hdropped : processRequest id peerId request channel b = b := by
      rw [processRequest, if_pos hnobody]
    rw [hdropped]
    exact ⟨fun _ => Or.inl hnobody, fun _ hpending => absurd hpending hnew⟩
  · have hkept : lookupAt (processRequest id peerId request channel b).pendingRequest
        peerId id = some channel := by
      rw [processRequest_pendingRequest, if_neg hnobody, lookupAt_insertAt,
        if_pos ⟨rfl, rfl⟩]
    constructor
    · exact fun h => Or.inr (h hkept)
    · exact fun h _ => h.resolve_left hnobody

end Delivery

theorem pending_only_if_delivered_iff_subscribed :
    (lookupAt (processRequest 0 7 [1] 10 (subscribe (.new 4))).pendingRequest 7 0 =
      some 10 → Delivered 0 7 [1] (subscribe (.new 4))) ∧
    (subscribe (.new 4)).broadcastRequest ≠ [] := by
  refine ⟨(pending_only_if_delivered_iff (by decide)).mpr (Or.inr ?_), by decide⟩
  exact ⟨⟨[], false⟩, List.mem_singleton_self _, rfl, by decide⟩

/-- After these inputs one more request becomes pending that no subscriber gets. -/
def PendsUndelivered (before : List Input) : Prop :=
  ∃ w, Reachable .freshInbound w ∧ w.history = before ∧
    Contract.freshInbound w (.request 9 7 [2] 19) ∧
    lookupAt (step (.request 9 7 [2] 19) w).pendingRequest 7 9 = some 19 ∧
    ¬Delivered 9 7 [2] w.toBehaviour

theorem pendsUndelivered_of_run {before : List Input}
    (h : (runAll freshInbound before (World.new 4)).any (fun w => decide
      (w.history = before ∧ freshInbound w (.request 9 7 [2] 19) = true ∧
        lookupAt (step (.request 9 7 [2] 19) w).pendingRequest 7 9 = some 19 ∧
        ¬Delivered 9 7 [2] w.toBehaviour)) = true) :
    PendsUndelivered before := by
  obtain ⟨w, hw, hhistory, hfresh, hend⟩ :=
    exists_reachable_of_run freshInbound_of_check before _ h
  exact ⟨w, hw, hhistory, freshInbound_of_check w _ hfresh, hend⟩

/-- The only subscriber has gone, or has not read for a while. -/
theorem pending_without_delivery :
    PendsUndelivered [.subscribe, .unsubscribe 0] ∧
      PendsUndelivered [.subscribe, .request 0 7 [1] 10, .request 1 7 [1] 11,
        .request 2 7 [1] 12, .request 3 7 [1] 13, .request 4 7 [1] 14] := by
  constructor
  · exact pendsUndelivered_of_run (by decide)
  · exact pendsUndelivered_of_run (by decide)

end Connexa.RequestResponse
