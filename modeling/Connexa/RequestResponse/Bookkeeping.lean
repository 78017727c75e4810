import Connexa.RequestResponse.Behaviour

/-!
# Bookkeeping per peer

Both tables keep one inner map for each peer with outstanding requests.  The
failure and response paths prune an inner map that becomes empty;
`send_response` does not, so a peer stays in the table after its last request
was answered.  `Spares` rules out exactly such an answer.
-/

namespace Connexa.RequestResponse

open HashMap

/-- No peer is tracked without an outstanding request. -/
structure Bookkept (b : Behaviour) : Prop where
  requests : NoEmpty b.pendingRequest
  responses : NoEmpty b.pendingResponse
  requests_le : len b.pendingRequest ≤ total b.pendingRequest
  responses_le : len b.pendingResponse ≤ total b.pendingResponse

/-- A response does not answer the only pending request of its peer. -/
def Spares (w : World) (i : Input) : Prop :=
  ∀ peerId id response delivered,
    i = .sendResponse peerId id response delivered →
      ∀ pendingList ch, w.pendingRequest.lookup peerId = some pendingList →
        pendingList.lookup id = some ch → len (pendingList.erase id) ≠ 0

/-! ## One step -/

theorem cleanUp_pendingRequest (b : Behaviour) :
    (cleanUp b).pendingRequest = b.pendingRequest := by
  unfold cleanUp
  split <;> rfl

theorem processRequest_pendingRequest (id : InboundRequestId) (peerId : PeerId)
    (request : Bytes) (channel : ResponseChannel) (b : Behaviour) :
    (processRequest id peerId request channel b).pendingRequest =
      if b.broadcastRequest = [] then b.pendingRequest
      else insertAt b.pendingRequest peerId id channel := by
  unfold processRequest
  split
  · rfl
  · simp [cleanUp_pendingRequest]

theorem processInboundFailure_pendingRequest (id : InboundRequestId)
    (peerId : PeerId) (b : Behaviour) :
    (processInboundFailure id peerId b).pendingRequest =
      prune (eraseAt b.pendingRequest peerId id) peerId := by
  unfold processInboundFailure
  split
  · next hnone => simp [eraseAt, prune, hnone]
  · rfl

/-- `send_response` by what it finds. -/
theorem sendResponse_cases (peerId : PeerId) (id : InboundRequestId)
    (response : Bytes) (delivered : Bool) (b : Behaviour) :
    (∃ ch, lookupAt b.pendingRequest peerId id = some ch ∧
      (sendResponse peerId id response delivered b).2 =
        (some (ch, response),
          { b with pendingRequest := eraseAt b.pendingRequest peerId id })) ∨
    (lookupAt b.pendingRequest peerId id = none ∧
      sendResponse peerId id response delivered b =
        (.error (.notFound "pending request"), none, b)) := by
  unfold sendResponse
  split
  · next hnone => exact Or.inr ⟨by simp [lookupAt, hnone], rfl⟩
  · next pendingList hlist =>
    split
    · next hnone => exact Or.inr ⟨by simp [lookupAt, hlist, hnone], rfl⟩
    · next ch hch =>
      refine Or.inl ⟨ch, by simp [lookupAt, hlist, hch], ?_⟩
      simp [eraseAt, hlist]

theorem sendResponse_pendingRequest (peerId : PeerId) (id : InboundRequestId)
    (response : Bytes) (delivered : Bool) (b : Behaviour) :
    (sendResponse peerId id response delivered b).2.2.pendingRequest =
      if (lookupAt b.pendingRequest peerId id).isSome then
        eraseAt b.pendingRequest peerId id
      else b.pendingRequest := by
  rcases sendResponse_cases peerId id response delivered b with
    ⟨ch, hch, heq⟩ | ⟨hnone, heq⟩
  · rw [heq, hch]
    rfl
  · rw [heq, hnone]
    rfl

theorem sendResponse_pendingResponse (peerId : PeerId) (id : InboundRequestId)
    (response : Bytes) (delivered : Bool) (b : Behaviour) :
    (sendResponse peerId id response delivered b).2.2.pendingResponse =
      b.pendingResponse := by
  rcases sendResponse_cases peerId id response delivered b with
    ⟨ch, -, heq⟩ | ⟨-, heq⟩
  · rw [heq]
  · rw [heq]

/-- Sending requests changes the table of responses and the channels only. -/
theorem requestAll_frame (peers : List (PeerId × OutboundRequestId)) (w : World)
    (futures : HashMap OutboundRequestId (PeerId × Oneshot)) :
    ∃ pendingResponse oneshots, (requestAll peers w futures).1 =
      { w with pendingResponse := pendingResponse, oneshots := oneshots } := by
  induction peers generalizing w futures with
  | nil => exact ⟨w.pendingResponse, w.oneshots, rfl⟩
  | cons first rest ih =>
      rw [requestAll]
      exact ih _ _

theorem sendRequests_pendingRequest (peers : List (PeerId × OutboundRequestId))
    (w : World) : (sendRequests peers w).pendingRequest = w.pendingRequest := by
  obtain ⟨pendingResponse, oneshots, h⟩ := requestAll_frame peers w ∅
  simp [sendRequests, h]

/-- Only the three inbound inputs touch the pending requests. -/
theorem serve_noEmpty_pendingRequest {i : Input} {w : World}
    (hw : NoEmpty w.pendingRequest) (hi : Spares w i) :
    NoEmpty (serve i w).pendingRequest := by
  cases i with
  | request id peerId request channel =>
      simp only [serve]
      rw [processRequest_pendingRequest]
      split
      · exact hw
      · exact hw.insertAt
  | sendResponse peerId id response delivered =>
      simp only [serve]
      rw [sendResponse_pendingRequest]
      split
      · next hsome =>
        apply hw.eraseAt
        intro pendingList hlist
        obtain ⟨ch, hch⟩ := Option.isSome_iff_exists.mp hsome
        simp only [lookupAt, hlist, Option.bind_some] at hch
        exact hi peerId id response delivered rfl pendingList ch hlist hch
      · exact hw
  | inboundFailure id peerId error =>
      simp only [serve]
      rw [processInboundFailure_pendingRequest]
      exact hw.eraseAt_prune
  | response id peerId response =>
      simp only [serve, processResponse]
      split
      · exact hw
      · split <;> exact hw
  | outboundFailure id peerId error =>
      simp only [serve, processOutboundFailure]
      split
      · exact hw
      · split <;> exact hw
  | sendRequests peers request =>
      simp only [serve]
      rw [sendRequests_pendingRequest]
      exact hw
  | sendRequest peerId id request =>
      simp only [serve, sendRequest]
      rw [sendRequests_pendingRequest]
      exact hw
  | _ => exact hw

theorem requestAll_noEmpty (peers : List (PeerId × OutboundRequestId))
    (w : World) (futures : HashMap OutboundRequestId (PeerId × Oneshot))
    (hw : NoEmpty w.pendingResponse) :
    NoEmpty (requestAll peers w futures).1.pendingResponse := by
  induction peers generalizing w futures with
  | nil => exact hw
  | cons first rest ih =>
      rw [requestAll]
      exact ih _ _ hw.insertAt

theorem serve_noEmpty_pendingResponse {i : Input} {w : World}
    (hw : NoEmpty w.pendingResponse) : NoEmpty (serve i w).pendingResponse := by
  cases i with
  | response id peerId response =>
      simp only [serve, processResponse]
      split
      · exact hw
      · split
        · exact hw
        · exact hw.eraseAt_prune
  | outboundFailure id peerId error =>
      simp only [serve, processOutboundFailure]
      split
      · exact hw
      · split
        · exact hw.eraseAt_prune
        · exact hw.eraseAt_prune
  | sendRequests peers request => exact requestAll_noEmpty peers w ∅ hw
  | sendRequest peerId id request =>
      exact requestAll_noEmpty [(peerId, id)] w ∅ hw
  | request id peerId request channel =>
      simp only [serve, processRequest]
      split
      · exact hw
      · have hclean : (cleanUp w.toBehaviour).pendingResponse =
            w.pendingResponse := by
          unfold cleanUp
          split <;> rfl
        simpa only [hclean] using hw
  | sendResponse peerId id response delivered =>
      simp only [serve]
      rw [sendResponse_pendingResponse]
      exact hw
  | inboundFailure id peerId error =>
      simp only [serve, processInboundFailure]
      split <;> exact hw
  | _ => exact hw

/-! ## Every run -/

theorem Reachable.noEmpty_pendingResponse {contract : Contract} {w : World}
    (h : Reachable contract w) : NoEmpty w.pendingResponse := by
  induction h with
  | new channelBuffer => exact noEmpty_empty
  | step _ _ ih => exact serve_noEmpty_pendingResponse ih

theorem Reachable.noEmpty_pendingRequest {w : World} (h : Reachable Spares w) :
    NoEmpty w.pendingRequest := by
  induction h with
  | new channelBuffer => exact noEmpty_empty
  | step _ hi ih => exact serve_noEmpty_pendingRequest ih hi

/-- An answer to the only pending request of a peer leaves an empty map. -/
theorem not_noEmpty_of_not_spares {w : World} {i : Input} (h : ¬Spares w i) :
    ¬NoEmpty (step i w).pendingRequest := by
  simp only [Spares, not_forall] at h
  obtain ⟨peerId, id, response, delivered, rfl, pendingList, ch, hlist, hch,
    hempty⟩ := h
  intro hno
  refine hno peerId (pendingList.erase id) ?_ (not_not.mp hempty)
  simp only [step, serve]
  rw [sendResponse_pendingRequest]
  simp [lookupAt, eraseAt, hlist, hch]

/-- Peers are tracked only while they have outstanding requests, provided no
response answers the only pending request of its peer; one that does breaks
the rule at once.  The table of outbound requests needs no condition. -/
theorem tracked_peers_have_requests (w : World) :
    (Reachable Spares w → Bookkept w.toBehaviour) ∧
    (∀ i, Reachable (fun _ _ => True) w → ¬Spares w i →
      ¬Bookkept (step i w).toBehaviour) ∧
    (Reachable (fun _ _ => True) w →
      NoEmpty w.pendingResponse ∧
        len w.pendingResponse ≤ total w.pendingResponse) := by
  refine ⟨?_, ?_, ?_⟩
  · intro hw
    exact ⟨hw.noEmpty_pendingRequest, hw.noEmpty_pendingResponse,
      len_le_total hw.noEmpty_pendingRequest,
      len_le_total hw.noEmpty_pendingResponse⟩
  · exact fun i _ hi hbook => not_noEmpty_of_not_spares hi hbook.requests
  · exact fun hw =>
      ⟨hw.noEmpty_pendingResponse, len_le_total hw.noEmpty_pendingResponse⟩

/-- Check that a response spares its peer. -/
def spares (w : World) (i : Input) : Bool :=
  match i with
  | .sendResponse peerId id _ _ =>
      match w.pendingRequest.lookup peerId with
      | some pendingList => (pendingList.lookup id).isNone ||
          decide (len (pendingList.erase id) ≠ 0)
      | none => true
  | _ => true

theorem spares_of_check (w : World) (i : Input) (h : spares w i = true) :
    Spares w i := by
  rintro peerId id response delivered rfl pendingList ch hlist hch
  simpa [spares, hlist, hch] using h

/-- A peer sends two requests, and the first of them is answered. -/
def answerOneOfTwo : List Input :=
  [.subscribe, .request 0 7 [1] 10, .request 1 7 [2] 11,
    .sendResponse 7 0 [3] true]

theorem tracked_peers_have_requests_answerOneOfTwo :
    ∃ w, Reachable Spares w ∧ Bookkept w.toBehaviour ∧
      w.handed = [(7, 0, 10, [3])] ∧ total w.pendingRequest = 1 := by
  obtain ⟨w, hw, hrun⟩ := exists_reachable_of_run spares_of_check
    answerOneOfTwo (fun w => w.handed = [(7, 0, 10, [3])] ∧
      total w.pendingRequest = 1) (by decide)
  exact ⟨w, hw, (tracked_peers_have_requests w).1 hw, hrun⟩

/-- The peer stays in the table after its only request was answered. -/
theorem answered_peer_stays :
    ∃ w, Reachable (fun _ _ => True) w ∧ ¬NoEmpty w.pendingRequest ∧
      total w.pendingRequest < len w.pendingRequest := by
  obtain ⟨w, hw, hrun⟩ := exists_reachable_of_run
    (fun _ _ (_ : true = true) => trivial)
    [.subscribe, .request 0 7 [1] 10, .sendResponse 7 0 [3] true]
    (fun w => total w.pendingRequest < len w.pendingRequest) (by decide)
  refine ⟨w, hw, fun h => ?_, hrun⟩
  exact absurd (len_le_total h) (not_le_of_gt hrun)

end Connexa.RequestResponse
