import Connexa.Support.History
import Connexa.RequestResponse.Bookkeeping

/-!
# Outbound requests resolve exactly once

The requests of a run are numbered by the oneshot channels made for them.  A
channel is empty exactly while its sender is in the table under the peer and
id of its request, and it is filled by the one event that reports on that
request.  The streams hand on what the channels hold.
-/

namespace Connexa.RequestResponse

open HashMap

/-- The requests that the input sends, with the ids they are given. -/
def Input.sends : Input → List (PeerId × OutboundRequestId)
  | .sendRequests peers _ => peers
  | .sendRequest peerId id _ => [(peerId, id)]
  | _ => []

/-- The outcome of a request that the input reports. -/
def Input.reports : Input → Option (OutboundRequestId × PeerId × Outcome)
  | .response id peerId bytes => some (id, peerId, .ok bytes)
  | .outboundFailure id peerId error =>
      some (id, peerId, .error (.requestResponse error))
  | _ => none

/-- All requests sent so far, by the number of their channel. -/
def sent (history : List Input) : List (PeerId × OutboundRequestId) :=
  history.flatMap Input.sends

/-- libp2p hands out unused ids and reports on an id at most once, for the
peer it was sent to. -/
structure Contract.outbound (w : World) (i : Input) : Prop where
  distinct : (i.sends.map Prod.snd).Nodup
  unused : ∀ id ∈ i.sends.map Prod.snd, id ∉ (sent w.history).map Prod.snd
  once : ∀ id peerId result, i.reports = some (id, peerId, result) →
    ∀ j ∈ w.history, ∀ peerId' result', j.reports ≠ some (id, peerId', result')
  own : ∀ id peerId result, i.reports = some (id, peerId, result) →
    ∀ peerId', (peerId', id) ∈ sent w.history → peerId = peerId'

/-! ## Sending -/

theorem sent_snoc (history : List Input) (i : Input) :
    sent (history ++ [i]) = sent history ++ i.sends := by
  simp [sent]

theorem requestAll_oneshots (peers : List (PeerId × OutboundRequestId))
    (w : World) (futures : HashMap OutboundRequestId (PeerId × Oneshot)) :
    (requestAll peers w futures).1.oneshots =
      w.oneshots ++ List.replicate peers.length none := by
  induction peers generalizing w futures with
  | nil => simp [requestAll]
  | cons first rest ih =>
      rw [requestAll, ih]
      simp [List.replicate_succ]

/-- The senders after sending a list of requests. -/
theorem lookupAt_requestAll {peers : List (PeerId × OutboundRequestId)}
    (hpeers : (peers.map Prod.snd).Nodup) (w : World)
    (futures : HashMap OutboundRequestId (PeerId × Oneshot)) (peerId : PeerId)
    (id : OutboundRequestId) (tx : ℕ) :
    lookupAt (requestAll peers w futures).1.pendingResponse peerId id = some tx ↔
      (∃ k, peers[k]? = some (peerId, id) ∧ tx = w.oneshots.length + k) ∨
        lookupAt w.pendingResponse peerId id = some tx ∧ (peerId, id) ∉ peers := by
  induction peers generalizing w futures with
  | nil => simp [requestAll]
  | cons first rest ih =>
      obtain ⟨firstPeer, firstId⟩ := first
      simp only [List.map_cons, List.nodup_cons] at hpeers
      rw [requestAll, ih hpeers.2]
      simp only [lookupAt_insertAt, List.length_append, List.length_singleton]
      constructor
      · rintro (⟨k, hk, rfl⟩ | ⟨hlookup, hrest⟩)
        · exact Or.inl ⟨k + 1, by simpa using hk, by omega⟩
        · split at hlookup
          · next hkey =>
            cases hlookup
            obtain ⟨rfl, rfl⟩ := hkey
            exact Or.inl ⟨0, by simp, by omega⟩
          · next hkey =>
            refine Or.inr ⟨hlookup, ?_⟩
            simp only [List.mem_cons, Prod.mk.injEq, not_or]
            exact ⟨hkey, hrest⟩
      · rintro (⟨k, hk, rfl⟩ | ⟨hlookup, hnot⟩)
        · cases k with
          | zero =>
              simp only [List.getElem?_cons_zero, Option.some.injEq,
                Prod.mk.injEq] at hk
              obtain ⟨rfl, rfl⟩ := hk
              refine Or.inr ⟨by simp, fun hmem => hpeers.1 ?_⟩
              exact List.mem_map_of_mem (f := Prod.snd) hmem
          | succ k => exact Or.inl ⟨k, by simpa using hk, by omega⟩
        · simp only [List.mem_cons, Prod.mk.injEq, not_or] at hnot
          exact Or.inr ⟨by simp [hnot.1, hlookup], hnot.2⟩

/-- The futures after sending a list of requests. -/
theorem lookup_requestAll {peers : List (PeerId × OutboundRequestId)}
    (hpeers : (peers.map Prod.snd).Nodup) (w : World)
    (futures : HashMap OutboundRequestId (PeerId × Oneshot)) (peerId : PeerId)
    (id : OutboundRequestId) (tx : ℕ) :
    (requestAll peers w futures).2.lookup id = some (peerId, tx) ↔
      (∃ k, peers[k]? = some (peerId, id) ∧ tx = w.oneshots.length + k) ∨
        futures.lookup id = some (peerId, tx) ∧ id ∉ peers.map Prod.snd := by
  induction peers generalizing w futures with
  | nil => simp [requestAll]
  | cons first rest ih =>
      obtain ⟨firstPeer, firstId⟩ := first
      simp only [List.map_cons, List.nodup_cons] at hpeers
      rw [requestAll, ih hpeers.2]
      simp only [lookup_insert, List.length_append, List.length_singleton]
      constructor
      · rintro (⟨k, hk, rfl⟩ | ⟨hlookup, hrest⟩)
        · exact Or.inl ⟨k + 1, by simpa using hk, by omega⟩
        · split at hlookup
          · next hkey =>
            cases hlookup
            subst hkey
            exact Or.inl ⟨0, by simp, by omega⟩
          · next hkey =>
            refine Or.inr ⟨hlookup, ?_⟩
            simp only [List.map_cons, List.mem_cons, not_or]
            exact ⟨hkey, hrest⟩
      · rintro (⟨k, hk, rfl⟩ | ⟨hlookup, hnot⟩)
        · cases k with
          | zero =>
              simp only [List.getElem?_cons_zero, Option.some.injEq,
                Prod.mk.injEq] at hk
              obtain ⟨rfl, rfl⟩ := hk
              exact Or.inr ⟨by simp, hpeers.1⟩
          | succ k => exact Or.inl ⟨k, by simpa using hk, by omega⟩
        · simp only [List.map_cons, List.mem_cons, not_or] at hnot
          exact Or.inr ⟨by simp [hnot.1, hlookup], hnot.2⟩

/-! ## Reports -/

/-- What a report does. -/
theorem serve_report {i : Input} {w : World} {id : OutboundRequestId}
    {peerId : PeerId} {result : Outcome}
    (hi : i.reports = some (id, peerId, result)) :
    (∀ peerId' id', lookupAt (serve i w).pendingResponse peerId' id' =
      if peerId' = peerId ∧ id' = id then none
      else lookupAt w.pendingResponse peerId' id') ∧
    (serve i w).streams = w.streams ∧
    match lookupAt w.pendingResponse peerId id with
    | some tx => (serve i w).oneshots = w.oneshots.set tx (some result) ∧
        (serve i w).resolutions = w.resolutions ++ [(id, peerId, result)]
    | none => (serve i w).oneshots = w.oneshots ∧
        (serve i w).resolutions = w.resolutions := by
  cases i with
  | response id' peerId' response =>
      cases hi
      simp only [serve, processResponse]
      split
      · next hnone =>
        refine ⟨fun p' id' => ?_, rfl, by simp [lookupAt, hnone]⟩
        split
        · next hkey =>
          obtain ⟨rfl, rfl⟩ := hkey
          simp [lookupAt, hnone]
        · rfl
      · next list hlist =>
        split
        · next hnone =>
          refine ⟨fun p' id' => ?_, rfl, by simp [lookupAt, hlist, hnone]⟩
          split
          · next hkey =>
            obtain ⟨rfl, rfl⟩ := hkey
            simp [lookupAt, hlist, hnone]
          · rfl
        · next ch hch =>
          refine ⟨fun p' id' => ?_, rfl, ?_⟩
          · simp only [World.resolve, lookupAt_prune, lookupAt_eraseAt]
          · simp [lookupAt, hlist, hch, World.resolve]
  | outboundFailure id' peerId' error =>
      cases hi
      simp only [serve, processOutboundFailure]
      split
      · next hnone =>
        refine ⟨fun p' id' => ?_, rfl, by simp [lookupAt, hnone]⟩
        split
        · next hkey =>
          obtain ⟨rfl, rfl⟩ := hkey
          simp [lookupAt, hnone]
        · rfl
      · next list hlist =>
        split
        · next tx htx =>
          refine ⟨fun p' id' => ?_, rfl, ?_⟩
          · simp only [World.resolve, lookupAt_prune, lookupAt_eraseAt]
          · simp [lookupAt, hlist, htx, World.resolve]
        · next hnone =>
          refine ⟨fun p' id' => ?_, rfl, by simp [lookupAt, hlist, hnone]⟩
          simp only [lookupAt_prune, lookupAt_eraseAt]
  | _ => cases hi

/-! ## The channels -/

/-- An event reported the outcome of a request that had been sent. -/
def Reported (history : List Input) (peerId : PeerId) (id : OutboundRequestId)
    (result : Outcome) : Prop :=
  ∃ before i after, history = before ++ i :: after ∧
    i.reports = some (id, peerId, result) ∧ (peerId, id) ∈ sent before

structure ChannelInv (w : World) : Prop where
  length : w.oneshots.length = (sent w.history).length
  distinct : ((sent w.history).map Prod.snd).Nodup
  pending : ∀ peerId id tx, lookupAt w.pendingResponse peerId id = some tx ↔
    (sent w.history)[tx]? = some (peerId, id) ∧ w.oneshots[tx]? = some none
  resolved : ∀ peerId id result, (id, peerId, result) ∈ w.resolutions ↔
    ∃ tx : ℕ, (sent w.history)[tx]? = some (peerId, id) ∧
      w.oneshots[tx]? = some (some result)
  once : (w.resolutions.map Prod.fst).Nodup
  reported : ∀ peerId id result, (id, peerId, result) ∈ w.resolutions ↔
    Reported w.history peerId id result

theorem reported_snoc {history : List Input} {i : Input} {peerId : PeerId}
    {id : OutboundRequestId} {result : Outcome} :
    Reported (history ++ [i]) peerId id result ↔
      Reported history peerId id result ∨
        i.reports = some (id, peerId, result) ∧ (peerId, id) ∈ sent history := by
  constructor
  · rintro ⟨before, j, after, heq, hj, hsent⟩
    rcases snoc_eq_append_cons_iff.mp heq with
      ⟨rest, rfl, hhistory⟩ | ⟨rfl, rfl, rfl⟩
    · exact Or.inl ⟨before, j, rest, hhistory, hj, hsent⟩
    · exact Or.inr ⟨hj, hsent⟩
  · rintro (⟨before, j, after, rfl, hj, hsent⟩ | ⟨hi, hsent⟩)
    · exact ⟨before, j, after ++ [i], by simp, hj, hsent⟩
    · exact ⟨history, i, [], rfl, hi, hsent⟩

/-- A request is known by its id. -/
theorem ChannelInv.channel_eq {w : World} (hw : ChannelInv w) {tx tx' : ℕ}
    {peerId peerId' : PeerId} {id : OutboundRequestId}
    (h : (sent w.history)[tx]? = some (peerId, id))
    (h' : (sent w.history)[tx']? = some (peerId', id)) : tx = tx' := by
  have hlt : tx < ((sent w.history).map Prod.snd).length := by
    rw [List.length_map]
    exact (List.getElem?_eq_some_iff.mp h).1
  refine (List.getElem?_inj hlt hw.distinct).mp ?_
  rw [List.getElem?_map, List.getElem?_map, h, h']
  rfl

/-- Every request that was sent is pending or resolved. -/
theorem ChannelInv.pending_or_resolved {w : World} (hw : ChannelInv w)
    {peerId : PeerId} {id : OutboundRequestId}
    (h : (peerId, id) ∈ sent w.history) :
    (∃ tx, lookupAt w.pendingResponse peerId id = some tx) ∨
      ∃ result, (id, peerId, result) ∈ w.resolutions := by
  obtain ⟨tx, htx⟩ := List.mem_iff_getElem?.mp h
  have hlt : tx < w.oneshots.length := by
    rw [hw.length]
    exact (List.getElem?_eq_some_iff.mp htx).1
  cases hvalue : w.oneshots[tx] with
  | none =>
      refine Or.inl ⟨tx, (hw.pending _ _ _).mpr ⟨htx, ?_⟩⟩
      rw [List.getElem?_eq_getElem hlt, hvalue]
  | some result =>
      refine Or.inr ⟨result, (hw.resolved _ _ _).mpr ⟨tx, htx, ?_⟩⟩
      rw [List.getElem?_eq_getElem hlt, hvalue]

theorem ChannelInv.not_both {w : World} (hw : ChannelInv w) {peerId : PeerId}
    {id : OutboundRequestId} {tx : Oneshot} {result : Outcome}
    (hpending : lookupAt w.pendingResponse peerId id = some tx) :
    (id, peerId, result) ∉ w.resolutions := by
  intro hresolved
  obtain ⟨hsent, hnone⟩ := (hw.pending _ _ _).mp hpending
  obtain ⟨tx', hsent', hsome⟩ := (hw.resolved _ _ _).mp hresolved
  rw [hw.channel_eq hsent hsent', hsome] at hnone
  cases hnone

section Step

variable {w : World} {i : Input} (hw : ChannelInv w)

include hw

/-- Inputs that neither send nor report. -/
theorem ChannelInv.keep {w' : World} (hsends : i.sends = [])
    (hreports : i.reports = none) (hhistory : w'.history = w.history ++ [i])
    (hpending : w'.pendingResponse = w.pendingResponse)
    (honeshots : w'.oneshots = w.oneshots)
    (hresolutions : w'.resolutions = w.resolutions) : ChannelInv w' := by
  have hsent : sent w'.history = sent w.history := by
    rw [hhistory, sent_snoc, hsends, List.append_nil]
  refine ⟨?_, ?_, ?_, ?_, ?_, ?_⟩
  · rw [hsent, honeshots]
    exact hw.length
  · rw [hsent]
    exact hw.distinct
  · rw [hsent, hpending, honeshots]
    exact hw.pending
  · rw [hsent, honeshots, hresolutions]
    exact hw.resolved
  · rw [hresolutions]
    exact hw.once
  · intro peerId id result
    rw [hresolutions, hhistory, reported_snoc, hw.reported]
    simp [hreports]

theorem ChannelInv.send {w' : World} {peers : List (PeerId × OutboundRequestId)}
    (hsends : i.sends = peers) (hreports : i.reports = none)
    (hi : Contract.outbound w i) (hhistory : w'.history = w.history ++ [i])
    (hpending : w'.pendingResponse = (requestAll peers w ∅).1.pendingResponse)
    (honeshots : w'.oneshots = (requestAll peers w ∅).1.oneshots)
    (hresolutions : w'.resolutions = w.resolutions) : ChannelInv w' := by
  have hdistinct := hi.distinct
  have hunused := hi.unused
  rw [hsends] at hdistinct hunused
  have hsent : sent w'.history = sent w.history ++ peers := by
    rw [hhistory, sent_snoc, hsends]
  rw [requestAll_oneshots] at honeshots
  have hnew : ∀ {peerId id}, (peerId, id) ∈ peers →
      (peerId, id) ∉ sent w.history := by
    intro peerId id hmem hold
    exact hunused id (List.mem_map_of_mem (f := Prod.snd) hmem)
      (List.mem_map_of_mem (f := Prod.snd) hold)
  refine ⟨?_, ?_, ?_, ?_, ?_, ?_⟩
  · rw [hsent, honeshots, List.length_append, List.length_append, hw.length,
      List.length_replicate]
  · rw [hsent, List.map_append, List.nodup_append]
    exact ⟨hw.distinct, hdistinct, fun id hold id' hmem heq =>
      hunused id' hmem (heq ▸ hold)⟩
  · intro peerId id tx
    rw [hpending, lookupAt_requestAll hdistinct, hsent, honeshots, hw.pending,
      hw.length]
    by_cases hlt : tx < (sent w.history).length
    · rw [List.getElem?_append_left hlt,
        List.getElem?_append_left (by rwa [hw.length])]
      constructor
      · rintro (⟨k, -, rfl⟩ | ⟨hold, -⟩)
        · exact absurd hlt (Nat.not_lt.mpr (Nat.le_add_right _ k))
        · exact hold
      · intro hold
        refine Or.inr ⟨hold, fun hmem => hnew hmem ?_⟩
        exact List.mem_iff_getElem?.mpr ⟨tx, hold.1⟩
    · have hle : (sent w.history).length ≤ tx := Nat.le_of_not_lt hlt
      rw [List.getElem?_append_right hle,
        List.getElem?_append_right (by rwa [hw.length]), hw.length]
      constructor
      · rintro (⟨k, hk, rfl⟩ | ⟨⟨hold, -⟩, -⟩)
        · rw [Nat.add_sub_cancel_left]
          refine ⟨hk, ?_⟩
          rw [List.getElem?_replicate,
            if_pos (List.getElem?_eq_some_iff.mp hk).1]
        · exact absurd (List.getElem?_eq_some_iff.mp hold).1 hlt
      · rintro ⟨hk, -⟩
        exact Or.inl ⟨_, hk, by omega⟩
  · intro peerId id result
    rw [hresolutions, hw.resolved, hsent, honeshots]
    constructor
    · rintro ⟨tx, hold, hvalue⟩
      refine ⟨tx, ?_, ?_⟩
      · rw [List.getElem?_append_left (List.getElem?_eq_some_iff.mp hold).1]
        exact hold
      · rw [List.getElem?_append_left (List.getElem?_eq_some_iff.mp hvalue).1]
        exact hvalue
    · rintro ⟨tx, hold, hvalue⟩
      by_cases hlt : tx < w.oneshots.length
      · rw [List.getElem?_append_left (by rwa [← hw.length])] at hold
        rw [List.getElem?_append_left hlt] at hvalue
        exact ⟨tx, hold, hvalue⟩
      · rw [List.getElem?_append_right (Nat.le_of_not_lt hlt),
          List.getElem?_replicate] at hvalue
        split at hvalue <;> simp at hvalue
  · rw [hresolutions]
    exact hw.once
  · intro peerId id result
    rw [hresolutions, hhistory, reported_snoc, hw.reported]
    simp [hreports]

section Report

variable {id : OutboundRequestId} {peerId : PeerId} {result : Outcome}

/-- A request that was sent and is not pending has had its event. -/
theorem ChannelInv.notMem_sent (hi : Contract.outbound w i)
    (hreports : i.reports = some (id, peerId, result))
    (hnone : lookupAt w.pendingResponse peerId id = none) :
    (peerId, id) ∉ sent w.history := by
  intro hmem
  rcases hw.pending_or_resolved hmem with ⟨tx, htx⟩ | ⟨result', hresolved⟩
  · rw [hnone] at htx
    cases htx
  · obtain ⟨before, j, after, heq, hj, -⟩ := (hw.reported _ _ _).mp hresolved
    exact hi.once _ _ _ hreports j (by simp [heq]) _ _ hj

variable {tx : Oneshot} (hlookup : lookupAt w.pendingResponse peerId id = some tx)

include hlookup

/-- A pending request has an empty channel of its own. -/
theorem ChannelInv.pending_set (peerId' : PeerId) (id' : OutboundRequestId)
    (tx' : Oneshot) :
    (if peerId' = peerId ∧ id' = id then none
      else lookupAt w.pendingResponse peerId' id') = some tx' ↔
      (sent w.history)[tx']? = some (peerId', id') ∧
        (w.oneshots.set tx (some result))[tx']? = some none := by
  obtain ⟨hown, hempty⟩ := (hw.pending _ _ _).mp hlookup
  have hlt := (List.getElem?_eq_some_iff.mp hempty).1
  by_cases htx : tx = tx'
  · subst htx
    rw [List.getElem?_set_self hlt]
    constructor
    · intro h
      split at h
      · cases h
      · next hkey =>
        obtain ⟨hown', -⟩ := (hw.pending _ _ _).mp h
        rw [hown] at hown'
        cases hown'
        exact absurd ⟨rfl, rfl⟩ hkey
    · rintro ⟨-, h⟩
      cases h
  · rw [List.getElem?_set_ne htx, ← hw.pending]
    split
    · next hkey =>
      obtain ⟨rfl, rfl⟩ := hkey
      rw [hlookup]
      simp [htx]
    · rfl

theorem ChannelInv.resolved_set (peerId' : PeerId) (id' : OutboundRequestId)
    (result' : Outcome) :
    (id', peerId', result') ∈ w.resolutions ++ [(id, peerId, result)] ↔
      ∃ tx' : ℕ, (sent w.history)[tx']? = some (peerId', id') ∧
        (w.oneshots.set tx (some result))[tx']? = some (some result') := by
  obtain ⟨hown, hempty⟩ := (hw.pending _ _ _).mp hlookup
  have hlt := (List.getElem?_eq_some_iff.mp hempty).1
  rw [List.mem_append, List.mem_singleton, hw.resolved]
  constructor
  · rintro (⟨tx', hown', hvalue⟩ | heq)
    · refine ⟨tx', hown', ?_⟩
      rw [List.getElem?_set_ne]
      · exact hvalue
      · rintro rfl
        rw [hempty] at hvalue
        cases hvalue
    · cases heq
      exact ⟨tx, hown, List.getElem?_set_self hlt⟩
  · rintro ⟨tx', hown', hvalue⟩
    by_cases htx : tx = tx'
    · subst htx
      rw [List.getElem?_set_self hlt] at hvalue
      rw [hown] at hown'
      cases hown'
      cases hvalue
      exact Or.inr rfl
    · rw [List.getElem?_set_ne htx] at hvalue
      exact Or.inl ⟨tx', hown', hvalue⟩

theorem ChannelInv.once_snoc :
    ((w.resolutions ++ [(id, peerId, result)]).map Prod.fst).Nodup := by
  obtain ⟨hown, hempty⟩ := (hw.pending _ _ _).mp hlookup
  rw [List.map_append, List.nodup_append]
  refine ⟨hw.once, by simp, ?_⟩
  intro id' hold id'' hnew heq
  simp only [List.map_cons, List.map_nil, List.mem_singleton] at hnew
  subst hnew
  subst heq
  obtain ⟨⟨_, peerId', result'⟩, hmem, rfl⟩ := List.mem_map.mp hold
  obtain ⟨tx', hown', hvalue⟩ := (hw.resolved _ _ _).mp hmem
  rw [← hw.channel_eq hown hown', hempty] at hvalue
  cases hvalue

end Report

theorem ChannelInv.report {id : OutboundRequestId} {peerId : PeerId}
    {result : Outcome} (hreports : i.reports = some (id, peerId, result))
    (hi : Contract.outbound w i) : ChannelInv (step i w) := by
  obtain ⟨hpending, -, hfound⟩ := serve_report (w := w) hreports
  have hsends : i.sends = [] := by
    cases i <;> first | rfl | cases hreports
  have hsent : sent (step i w).history = sent w.history := by
    rw [step, sent_snoc, hsends, List.append_nil]
  cases hlookup : lookupAt w.pendingResponse peerId id with
  | none =>
      rw [hlookup] at hfound
      obtain ⟨honeshots, hresolutions⟩ := hfound
      have hunsent := hw.notMem_sent hi hreports hlookup
      refine ⟨?_, ?_, ?_, ?_, ?_, ?_⟩
      · rw [hsent]
        exact (congrArg List.length honeshots).trans hw.length
      · rw [hsent]
        exact hw.distinct
      · intro peerId' id' tx
        rw [hsent]
        change lookupAt (serve i w).pendingResponse peerId' id' = some tx ↔
          _ ∧ (serve i w).oneshots[tx]? = _
        rw [hpending, honeshots, ← hw.pending]
        split
        · next hkey =>
          obtain ⟨rfl, rfl⟩ := hkey
          rw [hlookup]
        · rfl
      · intro peerId' id' result'
        rw [hsent]
        change _ ∈ (serve i w).resolutions ↔
          ∃ tx : ℕ, _ ∧ (serve i w).oneshots[tx]? = _
        rw [hresolutions, honeshots]
        exact hw.resolved _ _ _
      · change ((serve i w).resolutions.map Prod.fst).Nodup
        rw [hresolutions]
        exact hw.once
      · intro peerId' id' result'
        change _ ∈ (serve i w).resolutions ↔ Reported (w.history ++ [i]) _ _ _
        rw [hresolutions, reported_snoc, hw.reported]
        constructor
        · exact Or.inl
        · rintro (hold | ⟨hi', hmem⟩)
          · exact hold
          · rw [hreports] at hi'
            cases hi'
            exact absurd hmem hunsent
  | some tx =>
      rw [hlookup] at hfound
      obtain ⟨honeshots, hresolutions⟩ := hfound
      obtain ⟨hown, -⟩ := (hw.pending _ _ _).mp hlookup
      refine ⟨?_, ?_, ?_, ?_, ?_, ?_⟩
      · rw [hsent]
        exact ((congrArg List.length honeshots).trans List.length_set).trans
          hw.length
      · rw [hsent]
        exact hw.distinct
      · intro peerId' id' tx'
        rw [hsent]
        change lookupAt (serve i w).pendingResponse peerId' id' = some tx' ↔
          _ ∧ (serve i w).oneshots[tx']? = _
        rw [hpending, honeshots]
        exact hw.pending_set hlookup peerId' id' tx'
      · intro peerId' id' result'
        rw [hsent]
        change _ ∈ (serve i w).resolutions ↔
          ∃ tx : ℕ, _ ∧ (serve i w).oneshots[tx]? = _
        rw [hresolutions, honeshots]
        exact hw.resolved_set hlookup peerId' id' result'
      · change ((serve i w).resolutions.map Prod.fst).Nodup
        rw [hresolutions]
        exact hw.once_snoc hlookup
      · intro peerId' id' result'
        change _ ∈ (serve i w).resolutions ↔ Reported (w.history ++ [i]) _ _ _
        rw [hresolutions, List.mem_append, List.mem_singleton, reported_snoc,
          hw.reported, hreports]
        constructor
        · rintro (hold | heq)
          · exact Or.inl hold
          · cases heq
            exact Or.inr ⟨rfl, List.mem_iff_getElem?.mpr ⟨tx, hown⟩⟩
        · rintro (hold | ⟨heq, -⟩)
          · exact Or.inl hold
          · cases heq
            exact Or.inr rfl

end Step

/-! ## The streams -/

structure StreamInv (w : World) (stream : ResponseStream) : Prop where
  futures : ∀ id peerId tx, stream.futures.lookup id = some (peerId, tx) →
    (sent w.history)[tx]? = some (peerId, id)
  yielded : ∀ e ∈ stream.yielded, e ∈ w.resolutions
  shares : (stream.yielded.map (fun e => (e.2.1, e.1)) ++
    stream.futures.entries.map (fun e => (e.2.1, e.1))).Perm stream.asked
  ended : stream.ended = true → len stream.futures = 0

theorem hasSender_iff {b : Behaviour} {tx : Oneshot} :
    hasSender b tx = true ↔
      ∃ peerId id, lookupAt b.pendingResponse peerId id = some tx := by
  rw [hasSender, any_entries_iff]
  constructor
  · rintro ⟨peerId, inner, hinner, hany⟩
    obtain ⟨id, v, hv, htx⟩ := any_entries_iff.mp hany
    obtain rfl := beq_iff_eq.mp htx
    exact ⟨peerId, id, by simp [lookupAt, hinner, hv]⟩
  · rintro ⟨peerId, id, h⟩
    obtain ⟨inner, hinner, hid⟩ := Option.bind_eq_some_iff.mp h
    exact ⟨peerId, inner, hinner,
      any_entries_iff.mpr ⟨id, tx, hid, beq_self_eq_true _⟩⟩

/-- A receiver is ready exactly when its request is resolved. -/
theorem ChannelInv.received_iff {w : World} (hw : ChannelInv w) {tx : ℕ}
    {peerId : PeerId} {id : OutboundRequestId} {result : Outcome}
    (h : (sent w.history)[tx]? = some (peerId, id)) :
    received w tx = some result ↔ (id, peerId, result) ∈ w.resolutions := by
  have hlt : tx < w.oneshots.length := by
    rw [hw.length]
    exact (List.getElem?_eq_some_iff.mp h).1
  rw [hw.resolved, received, List.getD_eq_getElem?_getD,
    List.getElem?_eq_getElem hlt, Option.getD_some]
  have hown : (∃ tx' : ℕ, (sent w.history)[tx']? = some (peerId, id) ∧
      w.oneshots[tx']? = some (some result)) ↔
        w.oneshots[tx] = some result := by
    constructor
    · rintro ⟨tx', h', hvalue⟩
      rw [← hw.channel_eq h h', List.getElem?_eq_getElem hlt] at hvalue
      exact Option.some.inj hvalue
    · intro hvalue
      exact ⟨tx, h, by rw [List.getElem?_eq_getElem hlt, hvalue]⟩
  rw [hown]
  cases hvalue : w.oneshots[tx] with
  | some value => rfl
  | none =>
      have hsender : hasSender w.toBehaviour tx = true := by
        refine hasSender_iff.mpr ⟨peerId, id, (hw.pending _ _ _).mpr ⟨h, ?_⟩⟩
        rw [List.getElem?_eq_getElem hlt, hvalue]
      simp [hsender]

theorem mem_readyFutures {w : World} {stream : ResponseStream}
    (hw : ChannelInv w) (hs : StreamInv w stream) {id : OutboundRequestId}
    {peerId : PeerId} {result : Outcome} :
    (id, peerId, result) ∈ readyFutures w stream ↔
      (∃ tx, stream.futures.lookup id = some (peerId, tx)) ∧
        (id, peerId, result) ∈ w.resolutions := by
  simp only [readyFutures, List.mem_filterMap, Option.map_eq_some_iff,
    Prod.mk.injEq]
  constructor
  · rintro ⟨⟨id', peerId', tx⟩, hmem, result', hreceived, rfl, rfl, rfl⟩
    have hlookup := lookup_eq_some_iff.mpr hmem
    exact ⟨⟨tx, hlookup⟩,
      (hw.received_iff (hs.futures _ _ _ hlookup)).mp hreceived⟩
  · rintro ⟨⟨tx, hlookup⟩, hresolved⟩
    exact ⟨⟨id, peerId, tx⟩, lookup_eq_some_iff.mp hlookup, result,
      (hw.received_iff (hs.futures _ _ _ hlookup)).mpr hresolved, rfl, rfl, rfl⟩

/-- What a poll of a stream can do. -/
theorem ResponseStream.poll_cases {w : World} (stream : ResponseStream)
    (choice : ℕ) (hopen : stream.dropped = false) :
    (∃ id peerId result, (id, peerId, result) ∈ readyFutures w stream ∧
      stream.poll w choice =
        { stream with
          futures := stream.futures.erase id
          yielded := stream.yielded ++ [(id, peerId, result)] }) ∨
    (readyFutures w stream = [] ∧ len stream.futures = 0 ∧
      stream.poll w choice = { stream with ended := true }) ∨
    (readyFutures w stream = [] ∧ len stream.futures ≠ 0 ∧
      stream.poll w choice = stream) := by
  simp only [ResponseStream.poll, hopen, Bool.false_eq_true, if_false]
  split
  · next id peerId result hchoice =>
    exact Or.inl ⟨id, peerId, result, List.mem_of_getElem? hchoice, rfl⟩
  · next hchoice =>
    have hempty : readyFutures w stream = [] := by
      by_contra hne
      rw [List.getElem?_eq_none_iff] at hchoice
      have hlt := Nat.mod_lt choice (List.length_pos_of_ne_nil hne)
      omega
    split
    · next hlen => exact Or.inr (Or.inl ⟨hempty, hlen, rfl⟩)
    · next hlen => exact Or.inr (Or.inr ⟨hempty, hlen, rfl⟩)

theorem StreamInv.poll {w : World} {stream : ResponseStream}
    (hw : ChannelInv w) (hs : StreamInv w stream) (choice : ℕ) :
    StreamInv w (stream.poll w choice) := by
  cases hdropped : stream.dropped with
  | true =>
      simp only [ResponseStream.poll, hdropped, if_true]
      exact hs
  | false =>
      rcases stream.poll_cases choice hdropped (w := w) with
        ⟨id, peerId, result, hready, heq⟩ | ⟨-, hlen, heq⟩ | ⟨-, -, heq⟩
      · obtain ⟨⟨tx, hlookup⟩, hresolved⟩ := (mem_readyFutures hw hs).mp hready
        rw [heq]
        refine ⟨?_, ?_, ?_, ?_⟩
        · intro id' peerId' tx' h
          exact hs.futures _ _ _ (lookup_erase_some.mp h).2
        · intro e he
          rcases List.mem_append.mp he with he | he
          · exact hs.yielded e he
          · rw [List.mem_singleton.mp he]
            exact hresolved
        · refine List.Perm.trans ?_ hs.shares
          have hperm := (entries_perm_erase hlookup).map
            (fun e : (Σ _ : OutboundRequestId, PeerId × Oneshot) => (e.2.1, e.1))
          rw [List.map_append, List.append_assoc]
          exact List.Perm.append_left _ hperm.symm
        · intro hended
          have hle := len_erase_le stream.futures id
          exact Nat.eq_zero_of_le_zero (hle.trans_eq (hs.ended hended))
      · rw [heq]
        exact ⟨hs.futures, hs.yielded, hs.shares, fun _ => hlen⟩
      · rw [heq]
        exact hs

/-- The streams do not mind what happens elsewhere. -/
theorem StreamInv.mono {w w' : World} {stream : ResponseStream}
    (hs : StreamInv w stream) (hsent : sent w.history <+: sent w'.history)
    (hresolutions : ∀ e ∈ w.resolutions, e ∈ w'.resolutions) :
    StreamInv w' stream := by
  refine ⟨?_, fun e he => hresolutions e (hs.yielded e he), hs.shares, hs.ended⟩
  intro id peerId tx h
  have hold := hs.futures id peerId tx h
  obtain ⟨more, hmore⟩ := hsent
  rw [← hmore, List.getElem?_append_left (List.getElem?_eq_some_iff.mp hold).1]
  exact hold

theorem streamInv_new {w w' : World} {peers : List (PeerId × OutboundRequestId)}
    (hw : ChannelInv w) (hpeers : (peers.map Prod.snd).Nodup)
    (hsent : sent w'.history = sent w.history ++ peers) :
    StreamInv w' ⟨(requestAll peers w ∅).2, peers, [], false, false⟩ := by
  have hlookup : ∀ id peerId tx,
      (requestAll peers w ∅).2.lookup id = some (peerId, tx) ↔
        ∃ k, peers[k]? = some (peerId, id) ∧ tx = w.oneshots.length + k := by
    intro id peerId tx
    rw [lookup_requestAll hpeers]
    simp
  refine ⟨?_, nofun, ?_, nofun⟩
  · intro id peerId tx h
    obtain ⟨k, hk, rfl⟩ := (hlookup _ _ _).mp h
    rw [hsent, hw.length, List.getElem?_append_right (Nat.le_add_right _ _),
      Nat.add_sub_cancel_left]
    exact hk
  · rw [List.map_nil, List.nil_append]
    refine (List.perm_ext_iff_of_nodup ?_ hpeers.of_map).mpr ?_
    · refine List.Nodup.of_map Prod.snd ?_
      rw [List.map_map]
      exact (requestAll peers w ∅).2.nodupKeys
    · rintro ⟨peerId, id⟩
      rw [List.mem_map, List.mem_iff_getElem?]
      constructor
      · rintro ⟨⟨id', peerId', tx⟩, hmem, heq⟩
        cases heq
        obtain ⟨k, hk, -⟩ := (hlookup _ _ _).mp (lookup_eq_some_iff.mpr hmem)
        exact ⟨k, hk⟩
      · rintro ⟨k, hk⟩
        exact ⟨⟨id, peerId, _⟩,
          lookup_eq_some_iff.mp ((hlookup _ _ _).mpr ⟨k, hk, rfl⟩), rfl⟩

/-! ## Every run -/

structure OutboundInv (w : World) : Prop where
  channels : ChannelInv w
  streams : ∀ stream ∈ w.streams, StreamInv w stream

/-- Inputs that send nothing and report nothing leave the channels alone. -/
theorem serve_frame {i : Input} (w : World)
    (hsends : ∀ peers request, i ≠ .sendRequests peers request)
    (hsend : ∀ peerId id request, i ≠ .sendRequest peerId id request)
    (hreports : i.reports = none) :
    (serve i w).pendingResponse = w.pendingResponse ∧
      (serve i w).oneshots = w.oneshots ∧
      (serve i w).resolutions = w.resolutions := by
  cases i with
  | sendRequests peers request => exact absurd rfl (hsends peers request)
  | sendRequest peerId id request => exact absurd rfl (hsend peerId id request)
  | response id peerId response => cases hreports
  | outboundFailure id peerId error => cases hreports
  | request id peerId request channel =>
      refine ⟨?_, rfl, rfl⟩
      simp only [serve, processRequest]
      split
      · rfl
      · simp only [cleanUp]
        split <;> rfl
  | sendResponse peerId id response delivered =>
      exact ⟨sendResponse_pendingResponse peerId id response delivered _, rfl, rfl⟩
  | inboundFailure id peerId error =>
      refine ⟨?_, rfl, rfl⟩
      simp only [serve, processInboundFailure]
      split <;> rfl
  | _ => exact ⟨rfl, rfl, rfl⟩

/-- The streams after an input that does not make one. -/
theorem mem_streams_serve {i : Input} {w : World} {stream : ResponseStream}
    (hsends : ∀ peers request, i ≠ .sendRequests peers request)
    (hsend : ∀ peerId id request, i ≠ .sendRequest peerId id request)
    (h : stream ∈ (serve i w).streams) :
    ∃ old ∈ w.streams, stream = old ∨
      (∃ choice, stream = old.poll w choice) ∨
      stream = { old with dropped := true } := by
  have hmodify : ∀ {f : ResponseStream → ResponseStream} {n : ℕ},
      stream ∈ w.streams.modify n f → ∃ old ∈ w.streams,
        stream = old ∨ stream = f old := by
    intro f n hmem
    obtain ⟨k, hk⟩ := List.mem_iff_getElem?.mp hmem
    rw [List.getElem?_modify] at hk
    obtain ⟨old, hold, heq⟩ := Option.map_eq_some_iff.mp hk
    refine ⟨old, List.mem_of_getElem? hold, ?_⟩
    split at heq
    · exact Or.inr heq.symm
    · exact Or.inl heq.symm
  cases i with
  | sendRequests peers request => exact absurd rfl (hsends peers request)
  | sendRequest peerId id request => exact absurd rfl (hsend peerId id request)
  | response id peerId response =>
      rw [(serve_report rfl).2.1] at h
      exact ⟨stream, h, Or.inl rfl⟩
  | outboundFailure id peerId error =>
      rw [(serve_report rfl).2.1] at h
      exact ⟨stream, h, Or.inl rfl⟩
  | pollStream n choice =>
      obtain ⟨old, hold, heq | heq⟩ := hmodify h
      · exact ⟨old, hold, Or.inl heq⟩
      · exact ⟨old, hold, Or.inr (Or.inl ⟨choice, heq⟩)⟩
  | dropStream n =>
      obtain ⟨old, hold, heq | heq⟩ := hmodify h
      · exact ⟨old, hold, Or.inl heq⟩
      · exact ⟨old, hold, Or.inr (Or.inr heq)⟩
  | _ => exact ⟨stream, h, Or.inl rfl⟩

section Step

variable {w : World} {i : Input} (hw : OutboundInv w)
  (hi : Contract.outbound w i)

include hw hi

theorem OutboundInv.send {peers : List (PeerId × OutboundRequestId)}
    (hsends : i.sends = peers) (hreports : i.reports = none)
    (hserve : serve i w = sendRequests peers w) : OutboundInv (step i w) := by
  obtain ⟨pendingResponse, oneshots, hframe⟩ := requestAll_frame peers w ∅
  have hresolutions : (step i w).resolutions = w.resolutions := by
    simp [step, hserve, sendRequests, hframe]
  have hsent : sent (step i w).history = sent w.history ++ peers := by
    rw [step, sent_snoc, hsends]
  refine ⟨?_, ?_⟩
  · refine hw.channels.send hsends hreports hi rfl ?_ ?_ hresolutions
    · simp [step, hserve, sendRequests]
    · simp [step, hserve, sendRequests]
  · intro stream hmem
    have hmem : stream ∈ w.streams ∨
        stream = ⟨(requestAll peers w ∅).2, peers, [], false, false⟩ := by
      simpa [step, hserve, sendRequests, hframe] using hmem
    rcases hmem with hmem | rfl
    · refine (hw.streams stream hmem).mono ?_ fun e he => ?_
      · rw [hsent]
        exact List.prefix_append _ _
      · rwa [hresolutions]
    · refine streamInv_new hw.channels ?_ hsent
      rw [← hsends]
      exact hi.distinct

theorem OutboundInv.other
    (hsends : ∀ peers request, i ≠ .sendRequests peers request)
    (hsend : ∀ peerId id request, i ≠ .sendRequest peerId id request) :
    OutboundInv (step i w) := by
  have hnone : i.sends = [] := by
    cases i with
    | sendRequests peers request => exact absurd rfl (hsends peers request)
    | sendRequest peerId id request => exact absurd rfl (hsend peerId id request)
    | _ => rfl
  have hsent : sent (step i w).history = sent w.history := by
    rw [step, sent_snoc, hnone, List.append_nil]
  have hchannels : ChannelInv (step i w) ∧
      ∀ e ∈ w.resolutions, e ∈ (step i w).resolutions := by
    cases hreports : i.reports with
    | none =>
        obtain ⟨hpending, honeshots, hresolutions⟩ :=
          serve_frame w hsends hsend hreports
        refine ⟨hw.channels.keep hnone hreports rfl hpending honeshots
          hresolutions, fun e he => ?_⟩
        change e ∈ (serve i w).resolutions
        rwa [hresolutions]
    | some report =>
        obtain ⟨id, peerId, result⟩ := report
        refine ⟨hw.channels.report hreports hi, fun e he => ?_⟩
        obtain ⟨-, -, hfound⟩ := serve_report (w := w) hreports
        change e ∈ (serve i w).resolutions
        split at hfound
        · rw [hfound.2]
          exact List.mem_append_left _ he
        · rwa [hfound.2]
  refine ⟨hchannels.1, fun stream hmem => ?_⟩
  obtain ⟨old, hold, hcases⟩ := mem_streams_serve hsends hsend hmem
  have hinv := hw.streams old hold
  have hprefix : sent w.history <+: sent (step i w).history := by rw [hsent]
  rcases hcases with rfl | ⟨choice, rfl⟩ | rfl
  · exact hinv.mono hprefix hchannels.2
  · exact (hinv.poll hw.channels choice).mono hprefix hchannels.2
  · have hkept := hinv.mono hprefix hchannels.2
    exact ⟨hkept.futures, hkept.yielded, hkept.shares, hkept.ended⟩

theorem OutboundInv.step : OutboundInv (step i w) := by
  cases i with
  | sendRequests peers request => exact hw.send hi rfl rfl rfl
  | sendRequest peerId id request => exact hw.send hi rfl rfl rfl
  | _ => exact hw.other hi (fun _ _ => nofun) (fun _ _ _ => nofun)

end Step

theorem Reachable.outboundInv {w : World} (h : Reachable Contract.outbound w) :
    OutboundInv w := by
  induction h with
  | new channelBuffer =>
      refine ⟨⟨rfl, List.nodup_nil, ?_, ?_, List.nodup_nil, ?_⟩, nofun⟩
      · simp [World.new, Behaviour.new, lookupAt, sent]
      · simp [World.new, sent]
      · intro peerId id result
        simp [World.new, Reported]
  | step _ hi ih => exact ih.step hi

/-- Polls of a stream whose requests are all resolved. -/
theorem StreamInv.drain {w : World} (hw : ChannelInv w) {stream : ResponseStream}
    (hs : StreamInv w stream) (hopen : stream.dropped = false)
    (hresolved : ∀ peerId id, (peerId, id) ∈ stream.asked →
      ∃ result, (id, peerId, result) ∈ w.resolutions)
    (choices : List ℕ) (hchoices : choices.length = len stream.futures + 1) :
    (choices.foldl (fun s choice => s.poll w choice) stream).ended = true ∧
      ((choices.foldl (fun s choice => s.poll w choice) stream).yielded.map
        fun e => (e.2.1, e.1)).Perm stream.asked := by
  induction choices generalizing stream with
  | nil => simp at hchoices
  | cons choice rest ih =>
      rw [List.foldl_cons]
      have hnext := hs.poll hw choice
      rcases stream.poll_cases choice hopen (w := w) with
        ⟨id, peerId, result, hready, heq⟩ | ⟨-, hlen, heq⟩ | ⟨hempty, hlen, heq⟩
      · obtain ⟨⟨tx, hlookup⟩, -⟩ := (mem_readyFutures hw hs).mp hready
        have hlength := (entries_perm_erase hlookup).length_eq
        rw [heq] at hnext ⊢
        refine ih hnext hopen hresolved ?_
        simp only [len, List.length_cons] at hlength hchoices ⊢
        omega
      · have hrest : rest = [] := by
          rw [hlen] at hchoices
          simpa using hchoices
        rw [hrest, heq]
        refine ⟨rfl, ?_⟩
        have hshares := hs.shares
        simp only [len, List.length_eq_zero_iff] at hlen
        rwa [hlen, List.map_nil, List.append_nil] at hshares
      · -- a future that is left belongs to a resolved request
        have hne : stream.futures.entries ≠ [] := fun h => hlen (by simp [len, h])
        obtain ⟨⟨id, peerId, tx⟩, hmem⟩ := List.exists_mem_of_ne_nil _ hne
        have hlookup := lookup_eq_some_iff.mpr hmem
        have hasked : (peerId, id) ∈ stream.asked := by
          refine hs.shares.mem_iff.mp (List.mem_append_right _ ?_)
          exact List.mem_map.mpr ⟨_, hmem, rfl⟩
        obtain ⟨result, hresult⟩ := hresolved peerId id hasked
        have hready := (mem_readyFutures hw hs).mpr ⟨⟨tx, hlookup⟩, hresult⟩
        rw [hempty] at hready
        cases hready

end Connexa.RequestResponse
