import Connexa.Task.SwarmAnswers

/-!
# Disconnecting a peer

A Disconnect by peer is answered at the first `ConnectionClosed` of the peer,
whichever of its connections that is.  `Watch` keeps, next to the run, which
connections each of these commands found open, so that the answer can be
compared with what was closed by then.
-/

namespace Connexa.SwarmTask

open HashMap

/-- The open connections to a peer. -/
def connectionsTo (peerId : PeerId) (swarm : Swarm) : List ConnectionId :=
  (swarm.connections.entries.filter fun e =>
    decide (e.2.peerId = peerId)).map Sigma.fst

/-- A run and, for the responder of each Disconnect by peer, the connections to
the peer that were open when the command was processed. -/
structure Watch where
  world : World
  targets : List (ℕ × List ConnectionId)

/-- What the command of the input is to close. -/
def targetsOf (i : Input) (swarm : Swarm) : List (ℕ × List ConnectionId) :=
  match i with
  | .disconnectPeer peerId resp => [(resp, connectionsTo peerId swarm)]
  | _ => []

def watch (i : Input) (v : Watch) : Watch where
  world := step i v.world
  targets := v.targets ++ targetsOf i v.world.swarm

def watched : Service Watch Input where
  init v := v = ⟨.new, []⟩
  step := watch

/-- Every answered Disconnect by peer has all its connections reported closed. -/
def AnsweredWhenClosed (v : Watch) : Prop :=
  ∀ r response, (r, response) ∈ v.world.task.sent →
    ∀ ids, (r, ids) ∈ v.targets →
      ∀ id ∈ ids, v.world.swarm.connections.lookup id = none

/-- A Disconnect by peer finds at most one connection open, and while it is
pending no later connection to the peer is closed. -/
structure Single (v : Watch) (i : Input) : Prop where
  asked : ∀ peerId resp, i = .disconnectPeer peerId resp →
    (connectionsTo peerId v.world.swarm).length ≤ 1
  closed : ∀ id peerId cause, i = .connectionClosed id peerId cause →
    ∀ r, v.world.task.pendingDisconnectionByPeerId.lookup peerId = some r →
      ∀ ids, (r, ids) ∈ v.targets → id ∈ ids

theorem mem_connectionsTo {peerId : PeerId} {swarm : Swarm} {id : ConnectionId} :
    id ∈ connectionsTo peerId swarm ↔
      ∃ c, swarm.connections.lookup id = some c ∧ c.peerId = peerId := by
  simp only [connectionsTo, List.mem_map, List.mem_filter, decide_eq_true_eq,
    lookup_eq_some_iff]
  constructor
  · rintro ⟨⟨id', c⟩, ⟨hmem, hpeer⟩, rfl⟩
    exact ⟨c, hmem, hpeer⟩
  · rintro ⟨c, hmem, hpeer⟩
    exact ⟨⟨id, c⟩, ⟨hmem, hpeer⟩, rfl⟩

theorem connectionsTo_nodup (peerId : PeerId) (swarm : Swarm) :
    (connectionsTo peerId swarm).Nodup := by
  have hkeys : (swarm.connections.entries.map Sigma.fst).Nodup :=
    swarm.connections.nodupKeys
  exact hkeys.sublist (List.filter_sublist.map Sigma.fst)

/-! ## What happens to a connection -/

section Follow

variable {w : World} {i : Input}

/-- An open connection stays open, with its peer, until it is reported closed. -/
theorem follow_lookup (hdials : DialInv w.task.toPending w.swarm)
    (hi : Contract w i) {id : ConnectionId} {c : Connection}
    (hc : w.swarm.connections.lookup id = some c)
    (hopen : ∀ peerId cause, i ≠ .connectionClosed id peerId cause) :
    ∃ closing, (follow i w.swarm).connections.lookup id =
      some ⟨c.peerId, closing⟩ := by
  cases i with
  | disconnectPeer peerId resp =>
      refine ⟨if c.peerId = peerId then true else c.closing, ?_⟩
      refine lookup_update_some.mpr ⟨c, hc, ?_⟩
      split <;> rfl
  | disconnectConnection id' resp =>
      refine ⟨if id = id' then true else c.closing, ?_⟩
      refine lookup_update_some.mpr ⟨c, hc, ?_⟩
      split <;> rfl
  | listenOn resp answer => cases answer <;> exact ⟨c.closing, hc⟩
  | connectionEstablished id' peerId =>
      refine ⟨c.closing, ?_⟩
      have hne : id ≠ id' := by
        rintro rfl
        rcases hi.established _ _ rfl with hdialing | hunused
        · rw [hdials.apart id hdialing] at hc
          cases hc
        · exact hunused (hdials.usedConnections id c hc)
      change (w.swarm.connections.insert id' _).lookup id = _
      rw [HashMap.lookup_insert, if_neg hne]
      exact hc
  | connectionClosed id' peerId cause =>
      refine ⟨c.closing, ?_⟩
      refine lookup_erase_some.mpr ⟨?_, hc⟩
      rintro rfl
      exact hopen peerId cause rfl
  | _ => exact ⟨c.closing, hc⟩

/-- The id is in use and no longer that of a dial. -/
def Taken (id : ConnectionId) (swarm : Swarm) : Prop :=
  id ∈ swarm.usedConnections ∧ id ∉ swarm.dialing

theorem Taken.follow (hi : Contract w i) {id : ConnectionId}
    (h : Taken id w.swarm) : Taken id (follow i w.swarm) := by
  obtain ⟨hused, hdialing⟩ := h
  cases i with
  | dial id' resp refusal =>
      refine ⟨List.mem_cons_of_mem _ hused, ?_⟩
      change id ∉ (if refusal = none then id' :: w.swarm.dialing
        else w.swarm.dialing)
      split
      · rw [List.mem_cons, not_or]
        refine ⟨?_, hdialing⟩
        rintro rfl
        exact hi.dialed _ _ _ rfl hused
      · exact hdialing
  | behaviourDials id' =>
      refine ⟨List.mem_cons_of_mem _ hused, ?_⟩
      change id ∉ id' :: w.swarm.dialing
      rw [List.mem_cons, not_or]
      refine ⟨?_, hdialing⟩
      rintro rfl
      exact hi.behaviourDialed _ rfl hused
  | listenOn resp answer => cases answer <;> exact ⟨hused, hdialing⟩
  | connectionEstablished id' peerId =>
      exact ⟨List.mem_cons_of_mem _ hused,
        fun hmem => hdialing (List.mem_of_mem_filter hmem)⟩
  | outgoingConnectionError id' error =>
      exact ⟨hused, fun hmem => hdialing (List.mem_of_mem_filter hmem)⟩
  | _ => exact ⟨hused, hdialing⟩

/-- A closed connection stays closed. -/
theorem Taken.follow_closed (hi : Contract w i) {id : ConnectionId}
    (h : Taken id w.swarm) (hclosed : w.swarm.connections.lookup id = none) :
    (SwarmTask.follow i w.swarm).connections.lookup id = none := by
  rw [Option.eq_none_iff_forall_ne_some] at hclosed ⊢
  intro c hc
  cases i with
  | disconnectPeer peerId resp =>
      obtain ⟨u, hu, -⟩ := lookup_update_some.mp hc
      exact hclosed u hu
  | disconnectConnection id' resp =>
      obtain ⟨u, hu, -⟩ := lookup_update_some.mp hc
      exact hclosed u hu
  | listenOn resp answer => cases answer <;> exact hclosed c hc
  | connectionEstablished id' peerId =>
      change (w.swarm.connections.insert id' _).lookup id = _ at hc
      rw [HashMap.lookup_insert] at hc
      split at hc
      · next heq =>
        subst heq
        rcases hi.established _ _ rfl with hdialing | hunused
        · exact h.2 hdialing
        · exact hunused h.1
      · exact hclosed c hc
  | connectionClosed id' peerId cause =>
      exact hclosed c (lookup_erase_some.mp hc).2
  | _ => exact hclosed c hc

end Follow

/-! ## Who waits for a peer -/

section Waiting

variable {w : World} {i : Input}

/-- What is sent stays on record. -/
theorem mem_sent_serve {entry : ℕ × Response} (h : entry ∈ w.task.sent) :
    entry ∈ (serve i w).sent := by
  cases i with
  | dial id resp refusal =>
      cases refusal <;> simp [serve, Task.dial, Task.send, Task.drop, h]
  | disconnectPeer peerId resp =>
      simp only [serve, Task.disconnectPeer]
      split <;> simp [Task.send, Task.drop, h]
  | disconnectConnection id resp =>
      simp only [serve, Task.disconnectConnection]
      split <;> simp [Task.send, Task.drop, h]
  | listenOn resp answer =>
      cases answer <;> simp [serve, Task.listenOn, Task.send, Task.drop, h]
  | getListeningAddress id resp =>
      simp only [serve, Task.getListeningAddress]
      split <;> simp [Task.send, h]
  | removeListener id resp =>
      simp only [serve, Task.removeListener]
      split <;> simp [Task.send, Task.drop, h]
  | connectionClosed id peerId cause =>
      simp only [serve, Task.connectionClosed]
      split <;> simp [Task.send, h]
  | expiredListenAddr id address =>
      simp only [serve, Task.expiredListenAddr]
      split <;> exact h
  | _ =>
      simp [serve, Task.connectionEstablished, Task.outgoingConnectionError,
        Task.newListenAddr, Task.listenerClosed, Task.sendTo, h]

/-- The Disconnect that waits for the peer is answered. -/
theorem sent_connectionClosed {id : ConnectionId} {peerId : PeerId}
    {cause : Option String} {r : ℕ}
    (h : w.task.pendingDisconnectionByPeerId.lookup peerId = some r) :
    ∃ response,
      (r, response) ∈ (serve (.connectionClosed id peerId cause) w).sent := by
  simp only [serve, Task.connectionClosed, h]
  split
  · next hnone => cases hnone
  · next hsome =>
    cases hsome
    exact ⟨_, List.mem_append_right _ (List.mem_singleton_self _)⟩
  · next hsome =>
    cases hsome
    exact ⟨_, List.mem_append_right _ (List.mem_singleton_self _)⟩
  · next hnone => cases hnone

/-- Who waits for the peer afterwards has just asked or waited before. -/
theorem waiting_of_step {peerId : PeerId} {r : ℕ}
    (h : (tablesAfter i w).pendingDisconnectionByPeerId.lookup peerId = some r) :
    (i = .disconnectPeer peerId r ∧ w.swarm.isConnected peerId = true) ∨
      (w.task.pendingDisconnectionByPeerId.lookup peerId = some r ∧
        ∀ id cause, i ≠ .connectionClosed id peerId cause) := by
  cases i with
  | dial id resp refusal =>
      cases refusal <;> exact Or.inr ⟨h, by simp⟩
  | disconnectPeer peerId' resp =>
      simp only [tablesAfter] at h
      split at h
      · next hconnected =>
        rw [HashMap.lookup_insert] at h
        split at h
        · next heq =>
          cases h
          subst heq
          exact Or.inl ⟨rfl, hconnected⟩
        · exact Or.inr ⟨h, by simp⟩
      · exact Or.inr ⟨h, by simp⟩
  | disconnectConnection id resp =>
      simp only [tablesAfter] at h
      split at h <;> exact Or.inr ⟨h, by simp⟩
  | listenOn resp answer =>
      cases answer <;> exact Or.inr ⟨h, by simp⟩
  | removeListener id resp =>
      simp only [tablesAfter] at h
      split at h <;> exact Or.inr ⟨h, by simp⟩
  | connectionClosed id peerId' cause =>
      obtain ⟨hne, hbefore⟩ := lookup_erase_some.mp h
      refine Or.inr ⟨hbefore, ?_⟩
      intro id' cause' heq
      cases heq
      exact hne rfl
  | _ => exact Or.inr ⟨h, by simp⟩

/-- Who waits for the peer goes on waiting, unless another Disconnect takes the
place or a connection of the peer closes. -/
theorem step_of_waiting {peerId : PeerId} {r : ℕ}
    (h : w.task.pendingDisconnectionByPeerId.lookup peerId = some r) :
    (tablesAfter i w).pendingDisconnectionByPeerId.lookup peerId = some r ∨
      r ∈ (serve i w).dropped ∨
        ∃ id cause, i = .connectionClosed id peerId cause := by
  cases i with
  | dial id resp refusal => cases refusal <;> exact Or.inl h
  | disconnectPeer peerId' resp =>
      by_cases hconnected : w.swarm.isConnected peerId' = true
      · by_cases heq : peerId = peerId'
        · subst heq
          refine Or.inr (Or.inl ?_)
          rw [(serve_tables _ _).2]
          simp [replacedBy, hconnected, h]
        · left
          simp only [tablesAfter, hconnected, if_true, HashMap.lookup_insert,
            if_neg heq]
          exact h
      · left
        simp only [tablesAfter, hconnected]
        exact h
  | disconnectConnection id resp =>
      left
      simp only [tablesAfter]
      split <;> exact h
  | listenOn resp answer => cases answer <;> exact Or.inl h
  | removeListener id resp =>
      left
      simp only [tablesAfter]
      split <;> exact h
  | connectionClosed id peerId' cause =>
      by_cases heq : peerId = peerId'
      · subst heq
        exact Or.inr (Or.inr ⟨id, cause, rfl⟩)
      · exact Or.inl (lookup_erase_some.mpr ⟨heq, h⟩)
  | _ => exact Or.inl h

end Waiting

/-! ## Every run -/

structure WatchInv (v : Watch) : Prop where
  run : RunInv v.world
  asked : ∀ r ids, (r, ids) ∈ v.targets → r ∈ v.world.asked
  once : ∀ r ids ids', (r, ids) ∈ v.targets → (r, ids') ∈ v.targets → ids = ids'
  taken : ∀ r ids, (r, ids) ∈ v.targets → ∀ id ∈ ids, Taken id v.world.swarm
  /-- A Disconnect by peer waits in its table, was answered or was dropped. -/
  placed : ∀ r ids, (r, ids) ∈ v.targets →
    (∃ peerId, v.world.task.pendingDisconnectionByPeerId.lookup peerId = some r) ∨
      r ∈ v.world.task.sent.map Prod.fst ∨ r ∈ v.world.task.dropped
  /-- While it waits, its one connection is open. -/
  waiting : ∀ peerId r,
    v.world.task.pendingDisconnectionByPeerId.lookup peerId = some r →
      ∃ id closing, (r, [id]) ∈ v.targets ∧
        v.world.swarm.connections.lookup id = some ⟨peerId, closing⟩
  answered : AnsweredWhenClosed v

theorem mem_targets_watch {i : Input} {v : Watch} {r : ℕ}
    {ids : List ConnectionId} (h : (r, ids) ∈ (watch i v).targets) :
    (r, ids) ∈ v.targets ∨ ∃ peerId, i = .disconnectPeer peerId r ∧
      ids = connectionsTo peerId v.world.swarm := by
  rcases List.mem_append.mp h with h | h
  · exact Or.inl h
  · cases i with
    | disconnectPeer peerId resp =>
        cases List.mem_singleton.mp h
        exact Or.inr ⟨peerId, rfl, rfl⟩
    | _ => cases h

section Run

variable {i : Input} {v : Watch}

/-- A responder is answered, dropped or waiting at most once. -/
theorem RunInv.tally_le_one {w : World} (h : RunInv w) (r : ℕ) :
    w.task.tally r ≤ 1 := by
  rw [h.balance r]
  exact List.nodup_iff_count_le_one.mp h.distinct r

theorem RunInv.not_dropped_of_sent {w : World} (h : RunInv w) {r : ℕ}
    (hsent : r ∈ w.task.sent.map Prod.fst) : r ∉ w.task.dropped := by
  intro hdropped
  have htally := h.tally_le_one r
  have hsent := List.count_pos_iff.mpr hsent
  have hdropped := List.count_pos_iff.mpr hdropped
  rw [Task.tally] at htally
  omega

theorem RunInv.not_waiting_of_sent {w : World} (h : RunInv w) {r : ℕ}
    (hsent : r ∈ w.task.sent.map Prod.fst) (peerId : PeerId) :
    w.task.pendingDisconnectionByPeerId.lookup peerId ≠ some r := by
  intro hlookup
  have htally := h.tally_le_one r
  have hsent := List.count_pos_iff.mpr hsent
  have hwaits : 0 < w.task.pending.count r := by
    rw [List.count_pos_iff, Task.pending]
    simp [mem_values_iff.mpr ⟨peerId, hlookup⟩]
  rw [Task.tally] at htally
  omega

/-- Everything that was answered was asked. -/
theorem RunInv.asked_of_sent {w : World} (h : RunInv w) {r : ℕ}
    (hsent : r ∈ w.task.sent.map Prod.fst) : r ∈ w.asked := by
  rw [← List.count_pos_iff, ← h.balance r, Task.tally]
  have hsent := List.count_pos_iff.mpr hsent
  omega

/-- An old Disconnect is answered now: a connection of its peer closes. -/
theorem WatchInv.closes_of_answered (h : WatchInv v) (hi : Contract v.world i)
    {r : ℕ} {ids : List ConnectionId} (htarget : (r, ids) ∈ v.targets)
    (hnew : r ∈ (serve i v.world).sent.map Prod.fst)
    (hold : r ∉ v.world.task.sent.map Prod.fst) :
    ∃ id peerId cause, i = .connectionClosed id peerId cause ∧
      v.world.task.pendingDisconnectionByPeerId.lookup peerId = some r := by
  have hrun : RunInv (step i v.world) := h.run.step hi
  rcases h.placed r ids htarget with ⟨peerId, hwaits⟩ | hsent | hdropped
  · rcases step_of_waiting (i := i) hwaits with hstays | hdropped | ⟨id, cause, rfl⟩
    · rw [← (serve_tables i v.world).1] at hstays
      exact absurd hstays (hrun.not_waiting_of_sent hnew peerId)
    · exact absurd hdropped (hrun.not_dropped_of_sent hnew)
    · exact ⟨id, peerId, cause, rfl, hwaits⟩
  · exact absurd hsent hold
  · refine absurd ?_ (hrun.not_dropped_of_sent hnew)
    change r ∈ (serve i v.world).dropped
    rw [(serve_tables i v.world).2]
    exact List.mem_append_left _ hdropped

theorem WatchInv.answered_step (h : WatchInv v) (hi : Contract v.world i)
    (hsingle : Single v i) : AnsweredWhenClosed (watch i v) := by
  intro r response hsent ids htarget id hid
  have hnew : r ∈ (serve i v.world).sent.map Prod.fst :=
    List.mem_map_of_mem hsent
  rcases mem_targets_watch htarget with hearlier | ⟨peerId, rfl, rfl⟩
  · by_cases hold : r ∈ v.world.task.sent.map Prod.fst
    · obtain ⟨⟨r', response'⟩, hmem, rfl⟩ := List.mem_map.mp hold
      exact (h.taken r' ids hearlier id hid).follow_closed hi
        (h.answered r' response' hmem ids hearlier id hid)
    · obtain ⟨id', peerId, cause, rfl, hwaits⟩ :=
        h.closes_of_answered hi hearlier hnew hold
      obtain ⟨only, closing, honly, -⟩ := h.waiting peerId r hwaits
      have hids := h.once r _ _ hearlier honly
      subst hids
      have hclosed := hsingle.closed id' peerId cause rfl r hwaits _ honly
      rw [List.mem_singleton] at hid hclosed
      rw [hid, ← hclosed]
      exact AList.lookup_erase _ _
  · by_cases hconnected : v.world.swarm.isConnected peerId = true
    · have hsame : (serve (.disconnectPeer peerId r) v.world).sent =
          v.world.task.sent := by
        simp [serve, Task.disconnectPeer, hconnected, Task.drop]
      rw [hsame] at hnew
      exact absurd (h.run.asked_of_sent hnew) (hi.fresh r rfl)
    · obtain ⟨c, hc, hpeer⟩ := mem_connectionsTo.mp hid
      exact absurd (isConnected_iff.mpr ⟨id, c, hc, hpeer⟩) hconnected

theorem WatchInv.waiting_step (h : WatchInv v) (hi : Contract v.world i)
    (hsingle : Single v i) {peerId : PeerId} {r : ℕ}
    (hwaits : (serve i v.world).pendingDisconnectionByPeerId.lookup peerId =
      some r) :
    ∃ id closing, (r, [id]) ∈ (watch i v).targets ∧
      (follow i v.world.swarm).connections.lookup id =
        some ⟨peerId, closing⟩ := by
  have htables : (serve i v.world).pendingDisconnectionByPeerId =
      (tablesAfter i v.world).pendingDisconnectionByPeerId := by
    rw [(serve_tables i v.world).1]
  rw [htables] at hwaits
  rcases waiting_of_step hwaits with ⟨rfl, hconnected⟩ | ⟨hbefore, hopen⟩
  · obtain ⟨id, c, hc, hpeer⟩ := isConnected_iff.mp hconnected
    have hmem := mem_connectionsTo.mpr ⟨c, hc, hpeer⟩
    have hone : connectionsTo peerId v.world.swarm = [id] := by
      have hlength := hsingle.asked peerId r rfl
      cases hids : connectionsTo peerId v.world.swarm with
      | nil =>
          rw [hids] at hmem
          cases hmem
      | cons first rest =>
          rw [hids, List.length_cons] at hlength
          rw [hids] at hmem
          have hnil : rest = [] := List.length_eq_zero_iff.mp (by omega)
          subst hnil
          rw [List.mem_singleton.mp hmem]
    obtain ⟨closing, hafter⟩ := follow_lookup h.run.dials hi hc (fun _ _ => nofun)
    rw [hpeer] at hafter
    refine ⟨id, closing, ?_, hafter⟩
    refine List.mem_append_right _ ?_
    rw [targetsOf, hone]
    exact List.mem_singleton_self _
  · obtain ⟨id, closing, htarget, hc⟩ := h.waiting peerId r hbefore
    have hkept : ∀ peerId' cause, i ≠ .connectionClosed id peerId' cause := by
      rintro peerId' cause rfl
      obtain ⟨closing', hc'⟩ := hi.closed id peerId' cause rfl
      rw [hc, Option.some_inj, Connection.mk.injEq] at hc'
      obtain ⟨rfl, -⟩ := hc'
      exact hopen id cause rfl
    obtain ⟨closing', hafter⟩ := follow_lookup h.run.dials hi hc hkept
    exact ⟨id, closing', List.mem_append_left _ htarget, hafter⟩

theorem WatchInv.placed_step (h : WatchInv v) {r : ℕ} {ids : List ConnectionId}
    (htarget : (r, ids) ∈ (watch i v).targets) :
    (∃ peerId, (serve i v.world).pendingDisconnectionByPeerId.lookup peerId =
        some r) ∨
      r ∈ (serve i v.world).sent.map Prod.fst ∨
        r ∈ (serve i v.world).dropped := by
  have htables : (serve i v.world).pendingDisconnectionByPeerId =
      (tablesAfter i v.world).pendingDisconnectionByPeerId := by
    rw [(serve_tables i v.world).1]
  rcases mem_targets_watch htarget with htarget | ⟨peerId, rfl, rfl⟩
  · rcases h.placed r ids htarget with ⟨peerId, hwaits⟩ | hsent | hdropped
    · rcases step_of_waiting (i := i) hwaits with
        hstays | hdropped | ⟨id, cause, rfl⟩
      · exact Or.inl ⟨peerId, by rw [htables]; exact hstays⟩
      · exact Or.inr (Or.inr hdropped)
      · obtain ⟨response, hresponse⟩ :=
          @sent_connectionClosed v.world id peerId cause r hwaits
        exact Or.inr (Or.inl (List.mem_map_of_mem hresponse))
    · obtain ⟨⟨r', response⟩, hmem, rfl⟩ := List.mem_map.mp hsent
      exact Or.inr (Or.inl (List.mem_map_of_mem (mem_sent_serve hmem)))
    · refine Or.inr (Or.inr ?_)
      rw [(serve_tables i v.world).2]
      exact List.mem_append_left _ hdropped
  · by_cases hconnected : v.world.swarm.isConnected peerId = true
    · refine Or.inl ⟨peerId, ?_⟩
      simp [htables, tablesAfter, hconnected]
    · refine Or.inr (Or.inl ?_)
      simp [serve, Task.disconnectPeer, hconnected, Task.send]

theorem WatchInv.step (h : WatchInv v) (hi : Contract v.world i)
    (hsingle : Single v i) : WatchInv (watch i v) where
  run := h.run.step hi
  asked := by
    intro r ids htarget
    change r ∈ v.world.asked ++ i.resp.toList
    rcases mem_targets_watch htarget with htarget | ⟨peerId, rfl, -⟩
    · exact List.mem_append_left _ (h.asked r ids htarget)
    · exact List.mem_append_right _ (List.mem_singleton_self r)
  once := by
    intro r ids ids' htarget htarget'
    rcases mem_targets_watch htarget with hold | ⟨peerId, rfl, rfl⟩ <;>
      rcases mem_targets_watch htarget' with hold' | ⟨peerId', heq, rfl⟩
    · exact h.once r ids ids' hold hold'
    · subst heq
      exact absurd (h.asked r ids hold) (hi.fresh r rfl)
    · exact absurd (h.asked r ids' hold') (hi.fresh r rfl)
    · cases heq
      rfl
  taken := by
    intro r ids htarget id hid
    have hbefore : Taken id v.world.swarm := by
      rcases mem_targets_watch htarget with htarget | ⟨peerId, rfl, rfl⟩
      · exact h.taken r ids htarget id hid
      · obtain ⟨c, hc, -⟩ := mem_connectionsTo.mp hid
        refine ⟨h.run.dials.usedConnections id c hc, ?_⟩
        intro hdialing
        rw [h.run.dials.apart id hdialing] at hc
        cases hc
    exact hbefore.follow hi
  placed := fun r ids htarget => h.placed_step htarget
  waiting := fun peerId r hwaits => h.waiting_step hi hsingle hwaits
  answered := h.answered_step hi hsingle

theorem watchInv_of_reachable
    (h : watched.Reachable (fun v i => Contract v.world i ∧ Single v i) v) :
    WatchInv v := by
  refine h.invariant ?_ fun v i hv hi => hv.step hi.1 hi.2
  rintro v rfl
  refine ⟨runInv_of_reachable (fun _ _ hi => hi) (.init rfl), ?_, ?_, ?_, ?_, ?_,
    ?_⟩
  · exact fun r ids hmem => by cases hmem
  · exact fun r ids ids' hmem => by cases hmem
  · exact fun r ids hmem => by cases hmem
  · exact fun r ids hmem => by cases hmem
  · exact fun peerId r hwaits => by cases hwaits
  · exact fun r response hmem => by cases hmem

end Run

/-! ## Answers that come too early -/

/-- The answer to a Disconnect that found a connection which is still open. -/
theorem not_answeredWhenClosed {v : Watch} {r : ℕ} {response : Response}
    (hsent : (r, response) ∈ v.world.task.sent) {ids : List ConnectionId}
    (htarget : (r, ids) ∈ v.targets) {id : ConnectionId} (hid : id ∈ ids)
    {c : Connection} (hc : v.world.swarm.connections.lookup id = some c) :
    ¬AnsweredWhenClosed v := by
  intro hanswered
  rw [hanswered r response hsent ids htarget id hid] at hc
  cases hc

/-- An open connection can close at any time. -/
theorem contract_connectionClosed {w : World} {id : ConnectionId} {peerId : PeerId}
    {closing : Bool} (h : w.swarm.connections.lookup id = some ⟨peerId, closing⟩)
    (cause : Option String) : Contract w (.connectionClosed id peerId cause) := by
  refine ⟨nofun, nofun, nofun, nofun, nofun, nofun, nofun, ?_, nofun, nofun⟩
  rintro id' peerId' cause' heq
  cases heq
  exact ⟨closing, h⟩

/-- With two connections open, the first that closes answers the command. -/
theorem early_of_many {v : Watch} (h : WatchInv v) {peerId : PeerId} {resp : ℕ}
    (hi : Contract v.world (.disconnectPeer peerId resp))
    (hmany : 1 < (connectionsTo peerId v.world.swarm).length) :
    ∃ j, Contract (watch (.disconnectPeer peerId resp) v).world j ∧
      ¬AnsweredWhenClosed (watch j (watch (.disconnectPeer peerId resp) v)) := by
  obtain ⟨first, second, rest, hids⟩ :
      ∃ first second rest, connectionsTo peerId v.world.swarm =
        first :: second :: rest := by
    cases hids : connectionsTo peerId v.world.swarm with
    | nil =>
        rw [hids] at hmany
        cases hmany
    | cons first more =>
        cases more with
        | nil =>
            rw [hids] at hmany
            exact absurd hmany (lt_irrefl 1)
        | cons second rest => exact ⟨first, second, rest, rfl⟩
  have hne : second ≠ first := by
    rintro rfl
    have hnodup := connectionsTo_nodup peerId v.world.swarm
    rw [hids] at hnodup
    exact (List.nodup_cons.mp hnodup).1 List.mem_cons_self
  have hopen : ∀ id ∈ connectionsTo peerId v.world.swarm, ∃ closing,
      (follow (.disconnectPeer peerId resp) v.world.swarm).connections.lookup id =
        some ⟨peerId, closing⟩ := by
    intro id hid
    obtain ⟨c, hc, hpeer⟩ := mem_connectionsTo.mp hid
    rw [← hpeer]
    exact follow_lookup h.run.dials (hpeer ▸ hi) hc (fun _ _ => nofun)
  obtain ⟨closing, hfirst⟩ := hopen first (by simp [hids])
  obtain ⟨closing', hsecond⟩ := hopen second (by simp [hids])
  have hconnected : v.world.swarm.isConnected peerId = true := by
    obtain ⟨c, hc, hpeer⟩ := mem_connectionsTo.mp
      (show first ∈ connectionsTo peerId v.world.swarm by simp [hids])
    exact isConnected_iff.mpr ⟨first, c, hc, hpeer⟩
  have hwaits : (step (.disconnectPeer peerId resp)
      v.world).task.pendingDisconnectionByPeerId.lookup peerId = some resp := by
    simp [step, serve, Task.disconnectPeer, hconnected, Task.drop]
  refine ⟨.connectionClosed first peerId none, contract_connectionClosed hfirst none,
    ?_⟩
  obtain ⟨response, hsent⟩ :=
    @sent_connectionClosed _ first peerId none resp hwaits
  have htarget : (resp, connectionsTo peerId v.world.swarm) ∈
      (watch (.connectionClosed first peerId none)
        (watch (.disconnectPeer peerId resp) v)).targets :=
    List.mem_append_left _ (List.mem_append_right _ (List.mem_singleton_self _))
  have hkept : ((follow (.disconnectPeer peerId resp)
      v.world.swarm).connections.erase first).lookup second =
        some ⟨peerId, closing'⟩ := lookup_erase_some.mpr ⟨hne, hsecond⟩
  exact not_answeredWhenClosed hsent htarget (by simp [hids]) hkept

/-- A connection from after the command closes first. -/
theorem early_of_later {v : Watch} {i : Input} (h : WatchInv v)
    (hi : Contract v.world i)
    (hlater : ∃ id peerId cause, i = .connectionClosed id peerId cause ∧
      ∃ r, v.world.task.pendingDisconnectionByPeerId.lookup peerId = some r ∧
        ∃ ids, (r, ids) ∈ v.targets ∧ id ∉ ids) :
    ¬AnsweredWhenClosed (watch i v) := by
  obtain ⟨id, peerId, cause, rfl, r, hwaits, ids, htarget, hnot⟩ := hlater
  obtain ⟨only, closing, honly, hc⟩ := h.waiting peerId r hwaits
  obtain rfl := h.once r _ _ htarget honly
  have hne : only ≠ id := fun heq => hnot (heq ▸ List.mem_singleton_self _)
  obtain ⟨response, hsent⟩ := @sent_connectionClosed v.world id peerId cause r hwaits
  have hkept : (v.world.swarm.connections.erase id).lookup only =
      some ⟨peerId, closing⟩ := lookup_erase_some.mpr ⟨hne, hc⟩
  have htarget' : (r, [only]) ∈
      (watch (.connectionClosed id peerId cause) v).targets :=
    List.mem_append_left _ honly
  exact not_answeredWhenClosed hsent htarget' (List.mem_singleton_self only) hkept

/-- A peer that is disconnected with one connection open is disconnected when
the command is answered, as long as no later connection closes first.  In every
other case the answer comes too early, at once or with the next event. -/
theorem disconnect_answered_when_closed (v : Watch) :
    (watched.Reachable (fun v i => Contract v.world i ∧ Single v i) v →
      AnsweredWhenClosed v) ∧
    ∀ i, watched.Reachable (fun v i => Contract v.world i ∧ Single v i) v →
      Contract v.world i → ¬Single v i →
        ¬AnsweredWhenClosed (watch i v) ∨
          ∃ j, Contract (watch i v).world j ∧
            ¬AnsweredWhenClosed (watch j (watch i v)) := by
  refine ⟨fun hv => (watchInv_of_reachable hv).answered, ?_⟩
  intro i hv hi hnot
  have h := watchInv_of_reachable hv
  by_cases hmany : ∃ peerId resp, i = .disconnectPeer peerId resp ∧
      1 < (connectionsTo peerId v.world.swarm).length
  · obtain ⟨peerId, resp, rfl, hmany⟩ := hmany
    exact Or.inr (early_of_many h hi hmany)
  · refine Or.inl (early_of_later h hi ?_)
    by_contra hall
    apply hnot
    constructor
    · rintro peerId resp rfl
      exact not_lt.mp fun hlt => hmany ⟨peerId, resp, rfl, hlt⟩
    · rintro id peerId cause rfl r hwaits ids htarget
      by_contra hlater
      exact hall ⟨id, peerId, cause, rfl, r, hwaits, ids, htarget, hlater⟩

/-- Check the condition on Disconnects by peer. -/
def single (v : Watch) (i : Input) : Bool :=
  match i with
  | .disconnectPeer peerId _ =>
      decide ((connectionsTo peerId v.world.swarm).length ≤ 1)
  | .connectionClosed id peerId _ =>
      (v.world.task.pendingDisconnectionByPeerId.lookup peerId).all fun r =>
        v.targets.all fun target => decide (target.1 = r → id ∈ target.2)
  | _ => true

theorem single_of_check (v : Watch) (i : Input)
    (h : (contract v.world i && single v i) = true) :
    Contract v.world i ∧ Single v i := by
  obtain ⟨hcontract, hsingle⟩ := Bool.and_eq_true_iff.mp h
  refine ⟨contract_of_check v.world i hcontract, ?_, ?_⟩
  · rintro peerId resp rfl
    exact of_decide_eq_true hsingle
  · rintro id peerId cause rfl r hwaits ids htarget
    simp only [single, hwaits, Option.all_some, List.all_eq_true] at hsingle
    exact of_decide_eq_true (hsingle (r, ids) htarget) rfl

/-- The only connection to the peer closes. -/
theorem disconnect_answered_when_closed_one :
    ∃ v, watched.Reachable (fun v i => Contract v.world i ∧ Single v i) v ∧
      v.world.task.sent.map Prod.fst = [0, 1] ∧ v.targets = [(1, [0])] ∧
      AnsweredWhenClosed v := by
  obtain ⟨v, hv, hsent, htargets⟩ :=
    Service.exists_reachable_of_run (S := watched) single_of_check ⟨.new, []⟩ rfl
      [.dial 0 0 none, .connectionEstablished 0 7, .disconnectPeer 7 1,
        .connectionClosed 0 7 none]
      (fun v => v.world.task.sent.map Prod.fst = [0, 1] ∧ v.targets = [(1, [0])])
      (by decide)
  exact ⟨v, hv, hsent, htargets, (disconnect_answered_when_closed v).1 hv⟩

/-- Of two connections to the peer one closes, and the command is answered. -/
theorem disconnect_answered_while_connected :
    ∃ v, watched.Reachable (fun v i => Contract v.world i) v ∧
      ¬AnsweredWhenClosed v := by
  obtain ⟨v, hv, hsent, htargets, hopen⟩ :=
    Service.exists_reachable_of_run (S := watched)
      (fun v i => contract_of_check v.world i) ⟨.new, []⟩ rfl
      [.connectionEstablished 0 7, .connectionEstablished 1 7,
        .disconnectPeer 7 0, .connectionClosed 0 7 none]
      (fun v => v.world.task.sent.map Prod.fst = [0] ∧
        v.targets = [(0, [1, 0])] ∧
        v.world.swarm.connections.lookup 1 = some ⟨7, true⟩)
      (by decide)
  refine ⟨v, hv, ?_⟩
  have hmem : 0 ∈ v.world.task.sent.map Prod.fst := by simp [hsent]
  obtain ⟨⟨r, response⟩, hanswer, rfl⟩ := List.mem_map.mp hmem
  have htarget : (0, [1, 0]) ∈ v.targets := by
    rw [htargets]
    exact List.mem_singleton_self _
  exact not_answeredWhenClosed hanswer htarget List.mem_cons_self hopen

end Connexa.SwarmTask
