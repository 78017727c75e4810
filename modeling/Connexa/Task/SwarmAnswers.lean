import Connexa.Task.Swarm

/-!
# Swarm commands are answered once

Every responder is in one place: it was sent a result, it waits in one of the
five tables, or its sender was dropped.  A responder waits only while libp2p
still owes the event that answers it.  Senders are dropped only where a second
Disconnect replaces the first for the same peer or the same connection.
-/

namespace Connexa.SwarmTask

open HashMap

/-! ## Where the responders are -/

namespace Task

/-- The responders that wait for an event. -/
def pending (task : Task) : List ℕ :=
  values task.pendingConnection ++
    values task.pendingDisconnectionByConnectionId ++
    values task.pendingDisconnectionByPeerId ++
    values task.pendingListenOn ++ values task.pendingRemoveListener

/-- How often a responder was answered, dropped or waits. -/
def tally (r : ℕ) (task : Task) : ℕ :=
  (task.sent.map Prod.fst).count r + task.dropped.count r + task.pending.count r

variable {task : Task} {r resp : ℕ}

theorem tally_send (response : Response) :
    (task.send resp response).tally r = task.tally r + [resp].count r := by
  simp only [tally, send, pending, List.map_append, List.map_singleton,
    List.count_append]
  omega

theorem tally_sendTo (target : Option ℕ) (response : Response) :
    (task.sendTo target response).tally r = task.tally r + target.toList.count r := by
  cases target with
  | none => simp [sendTo, tally, pending]
  | some resp => exact tally_send response

theorem tally_drop (replaced : Option ℕ) :
    (task.drop replaced).tally r = task.tally r + replaced.toList.count r := by
  simp only [tally, drop, pending, List.count_append]
  omega

end Task

theorem count_values_erase {K : Type} [DecidableEq K] (m : HashMap K ℕ) (k : K)
    (r : ℕ) :
    (values m).count r = (m.lookup k).toList.count r + (values (m.erase k)).count r := by
  rw [(values_perm_erase m k).count_eq, List.count_append]

theorem count_values_insert {K : Type} [DecidableEq K] (m : HashMap K ℕ) (k : K)
    (v r : ℕ) :
    (values (m.insert k v)).count r + (m.lookup k).toList.count r =
      (values m).count r + [v].count r := by
  rw [values_insert, ← List.singleton_append, List.count_append,
    count_values_erase m k r]
  omega

section Tally

variable {task : Task} {r : ℕ}

theorem tally_dial (connectionId : ConnectionId) (resp : ℕ)
    (refusal : Option DialError) :
    (task.dial connectionId resp refusal).tally r = task.tally r + [resp].count r := by
  cases refusal with
  | some e => exact Task.tally_send _
  | none =>
      have hcount := count_values_insert task.pendingConnection connectionId resp r
      rw [Task.dial, Task.tally_drop]
      simp only [Task.tally, Task.pending, List.count_append]
      omega

theorem tally_disconnectPeer (peerId : PeerId) (resp : ℕ) (connected : Bool) :
    (task.disconnectPeer peerId resp connected).tally r =
      task.tally r + [resp].count r := by
  unfold Task.disconnectPeer
  split
  · have hcount :=
      count_values_insert task.pendingDisconnectionByPeerId peerId resp r
    rw [Task.tally_drop]
    simp only [Task.tally, Task.pending, List.count_append]
    omega
  · exact Task.tally_send _

theorem tally_disconnectConnection (connectionId : ConnectionId) (resp : ℕ)
    (closing : Bool) :
    (task.disconnectConnection connectionId resp closing).tally r =
      task.tally r + [resp].count r := by
  unfold Task.disconnectConnection
  split
  · have hcount := count_values_insert
      task.pendingDisconnectionByConnectionId connectionId resp r
    rw [Task.tally_drop]
    simp only [Task.tally, Task.pending, List.count_append]
    omega
  · exact Task.tally_send _

theorem tally_listenOn (resp : ℕ) (answer : Except String ListenerId) :
    (task.listenOn resp answer).tally r = task.tally r + [resp].count r := by
  cases answer with
  | error e => exact Task.tally_send _
  | ok id =>
      have hcount := count_values_insert task.pendingListenOn id resp r
      rw [Task.listenOn, Task.tally_drop]
      simp only [Task.tally, Task.pending, List.count_append]
      omega

theorem tally_getListeningAddress (id : ListenerId) (resp : ℕ) :
    (task.getListeningAddress id resp).tally r = task.tally r + [resp].count r := by
  unfold Task.getListeningAddress
  split
  · exact Task.tally_send _
  · exact Task.tally_send _

theorem tally_removeListener (listenerId : ListenerId) (resp : ℕ)
    (removed : Bool) :
    (task.removeListener listenerId resp removed).tally r =
      task.tally r + [resp].count r := by
  unfold Task.removeListener
  split
  · have hcount :=
      count_values_insert task.pendingRemoveListener listenerId resp r
    rw [Task.tally_drop]
    simp only [Task.tally, Task.pending, List.count_append]
    omega
  · exact Task.tally_send _

theorem tally_connectionEstablished (connectionId : ConnectionId) :
    (task.connectionEstablished connectionId).tally r = task.tally r := by
  have hcount := count_values_erase task.pendingConnection connectionId r
  rw [Task.connectionEstablished, Task.tally_sendTo]
  simp only [Task.tally, Task.pending, List.count_append]
  omega

theorem tally_outgoingConnectionError (connectionId : ConnectionId)
    (error : DialError) :
    (task.outgoingConnectionError connectionId error).tally r = task.tally r := by
  have hcount := count_values_erase task.pendingConnection connectionId r
  rw [Task.outgoingConnectionError, Task.tally_sendTo]
  simp only [Task.tally, Task.pending, List.count_append]
  omega

theorem tally_connectionClosed (connectionId : ConnectionId) (peerId : PeerId)
    (cause : Option String) :
    (task.connectionClosed connectionId peerId cause).tally r = task.tally r := by
  have hconnection :=
    count_values_erase task.pendingDisconnectionByConnectionId connectionId r
  have hpeer := count_values_erase task.pendingDisconnectionByPeerId peerId r
  cases hleft : task.pendingDisconnectionByConnectionId.lookup connectionId <;>
    cases hright : task.pendingDisconnectionByPeerId.lookup peerId <;>
    simp only [hleft, hright, Option.toList_none, Option.toList_some,
      List.count_nil] at hconnection hpeer <;>
    simp only [Task.connectionClosed, hleft, hright, Task.tally_send] <;>
    simp only [Task.tally, Task.pending, List.count_append] <;>
    omega

theorem tally_newListenAddr (listenerId : ListenerId) (address : Multiaddr) :
    (task.newListenAddr listenerId address).tally r = task.tally r := by
  have hcount := count_values_erase task.pendingListenOn listenerId r
  rw [Task.newListenAddr, Task.tally_sendTo]
  simp only [Task.tally, Task.pending, List.count_append]
  omega

theorem tally_expiredListenAddr (listenerId : ListenerId) (address : Multiaddr) :
    (task.expiredListenAddr listenerId address).tally r = task.tally r := by
  unfold Task.expiredListenAddr
  split <;> rfl

theorem tally_listenerClosed (listenerId : ListenerId)
    (reason : Except String Unit) :
    (task.listenerClosed listenerId reason).tally r = task.tally r := by
  have hlisten := count_values_erase task.pendingListenOn listenerId r
  have hremove := count_values_erase task.pendingRemoveListener listenerId r
  simp only [Task.listenerClosed, Task.tally_sendTo]
  simp only [Task.tally, Task.pending, List.count_append]
  omega

/-- A command adds its responder, and events only move responders. -/
theorem tally_serve (i : Input) (w : World) :
    (serve i w).tally r = w.task.tally r + i.resp.toList.count r := by
  cases i with
  | dial connectionId resp refusal => exact tally_dial _ _ _
  | disconnectPeer peerId resp => exact tally_disconnectPeer _ _ _
  | disconnectConnection connectionId resp => exact tally_disconnectConnection _ _ _
  | listenOn resp answer => exact tally_listenOn _ _
  | getListeningAddress id resp => exact tally_getListeningAddress _ _
  | removeListener listenerId resp => exact tally_removeListener _ _ _
  | behaviourDials connectionId => rfl
  | behaviourListens listenerId => rfl
  | connectionEstablished connectionId peerId => exact tally_connectionEstablished _
  | outgoingConnectionError connectionId error =>
      exact tally_outgoingConnectionError _ _
  | connectionClosed connectionId peerId cause => exact tally_connectionClosed _ _ _
  | newListenAddr listenerId address => exact tally_newListenAddr _ _
  | expiredListenAddr listenerId address => exact tally_expiredListenAddr _ _
  | listenerClosed listenerId reason => exact tally_listenerClosed _ _

end Tally

/-! ## What an input does to the tables -/

/-- The tables after an input. -/
def tablesAfter (i : Input) (w : World) : Pending :=
  match i with
  | .dial id resp none =>
      { w.task.toPending with
        pendingConnection := w.task.pendingConnection.insert id resp }
  | .disconnectPeer peerId resp =>
      if w.swarm.isConnected peerId then
        { w.task.toPending with
          pendingDisconnectionByPeerId :=
            w.task.pendingDisconnectionByPeerId.insert peerId resp }
      else w.task.toPending
  | .disconnectConnection id resp =>
      if w.swarm.hasConnection id then
        { w.task.toPending with
          pendingDisconnectionByConnectionId :=
            w.task.pendingDisconnectionByConnectionId.insert id resp }
      else w.task.toPending
  | .listenOn resp (.ok id) =>
      { w.task.toPending with
        pendingListenOn := w.task.pendingListenOn.insert id resp }
  | .removeListener id resp =>
      if w.swarm.canRemove id then
        { w.task.toPending with
          pendingRemoveListener := w.task.pendingRemoveListener.insert id resp }
      else w.task.toPending
  | .connectionEstablished id _ | .outgoingConnectionError id _ =>
      { w.task.toPending with
        pendingConnection := w.task.pendingConnection.erase id }
  | .connectionClosed id peerId _ =>
      { w.task.toPending with
        pendingDisconnectionByConnectionId :=
          w.task.pendingDisconnectionByConnectionId.erase id
        pendingDisconnectionByPeerId :=
          w.task.pendingDisconnectionByPeerId.erase peerId }
  | .newListenAddr id _ =>
      { w.task.toPending with pendingListenOn := w.task.pendingListenOn.erase id }
  | .listenerClosed id _ =>
      { w.task.toPending with
        pendingListenOn := w.task.pendingListenOn.erase id
        pendingRemoveListener := w.task.pendingRemoveListener.erase id }
  | _ => w.task.toPending

/-- The responder whose sender an input replaces. -/
def replacedBy (i : Input) (w : World) : Option ℕ :=
  match i with
  | .dial id _ none => w.task.pendingConnection.lookup id
  | .disconnectPeer peerId _ =>
      if w.swarm.isConnected peerId then
        w.task.pendingDisconnectionByPeerId.lookup peerId
      else none
  | .disconnectConnection id _ =>
      if w.swarm.hasConnection id then
        w.task.pendingDisconnectionByConnectionId.lookup id
      else none
  | .listenOn _ (.ok id) => w.task.pendingListenOn.lookup id
  | .removeListener id _ =>
      if w.swarm.canRemove id then w.task.pendingRemoveListener.lookup id else none
  | _ => none

theorem serve_tables (i : Input) (w : World) :
    (serve i w).toPending = tablesAfter i w ∧
      (serve i w).dropped = w.task.dropped ++ (replacedBy i w).toList := by
  have hsame : ∀ l : List ℕ, l = l ++ (none : Option ℕ).toList := by simp
  cases i with
  | dial id resp refusal =>
      cases refusal with
      | some e => exact ⟨rfl, hsame _⟩
      | none => exact ⟨rfl, rfl⟩
  | disconnectPeer peerId resp =>
      simp only [serve, Task.disconnectPeer, tablesAfter, replacedBy]
      split
      · exact ⟨rfl, rfl⟩
      · exact ⟨rfl, hsame _⟩
  | disconnectConnection id resp =>
      simp only [serve, Task.disconnectConnection, tablesAfter, replacedBy]
      split
      · exact ⟨rfl, rfl⟩
      · exact ⟨rfl, hsame _⟩
  | listenOn resp answer =>
      cases answer with
      | error e => exact ⟨rfl, hsame _⟩
      | ok id => exact ⟨rfl, rfl⟩
  | getListeningAddress id resp =>
      simp only [serve, Task.getListeningAddress]
      split <;> exact ⟨rfl, hsame _⟩
  | removeListener id resp =>
      simp only [serve, Task.removeListener, tablesAfter, replacedBy]
      split
      · exact ⟨rfl, rfl⟩
      · exact ⟨rfl, hsame _⟩
  | connectionClosed id peerId cause =>
      simp only [serve, Task.connectionClosed]
      split <;> exact ⟨rfl, hsame _⟩
  | expiredListenAddr id address =>
      simp only [serve, Task.expiredListenAddr]
      split <;> exact ⟨rfl, hsame _⟩
  | _ => exact ⟨rfl, hsame _⟩

/-! ## What libp2p owes -/

/-- The dials: a command waits only while its dial is under way. -/
structure DialInv (tables : Pending) (swarm : Swarm) : Prop where
  dialing : ∀ id resp, tables.pendingConnection.lookup id = some resp →
    id ∈ swarm.dialing
  usedDialing : ∀ id ∈ swarm.dialing, id ∈ swarm.usedConnections
  usedConnections : ∀ id c, swarm.connections.lookup id = some c →
    id ∈ swarm.usedConnections
  apart : ∀ id ∈ swarm.dialing, swarm.connections.lookup id = none

/-- The connections: a Disconnect waits only while a connection is closing. -/
structure CloseInv (tables : Pending) (swarm : Swarm) : Prop where
  byConnectionId : ∀ id resp,
    tables.pendingDisconnectionByConnectionId.lookup id = some resp →
      ∃ peerId, swarm.connections.lookup id = some ⟨peerId, true⟩
  byPeerId : ∀ peerId resp,
    tables.pendingDisconnectionByPeerId.lookup peerId = some resp →
      ∃ id, swarm.connections.lookup id = some ⟨peerId, true⟩

/-- The listeners: ListenOn waits for an address, RemoveListener for the end. -/
structure ListenInv (tables : Pending) (swarm : Swarm) : Prop where
  awaited : ∀ id resp, tables.pendingListenOn.lookup id = some resp →
    ∃ removed, swarm.listeners.lookup id = some ⟨true, removed⟩
  removed : ∀ id resp, tables.pendingRemoveListener.lookup id = some resp →
    ∃ awaited, swarm.listeners.lookup id = some ⟨awaited, true⟩
  used : ∀ id listener, swarm.listeners.lookup id = some listener →
    id ∈ swarm.usedListeners

section Step

variable {w : World} {i : Input}

theorem DialInv.tables {tables tables' : Pending} {swarm : Swarm}
    (h : DialInv tables swarm)
    (htables : tables'.pendingConnection = tables.pendingConnection) :
    DialInv tables' swarm :=
  ⟨by rw [htables]; exact h.dialing, h.usedDialing, h.usedConnections, h.apart⟩

theorem DialInv.update {tables : Pending} {swarm : Swarm} (h : DialInv tables swarm)
    (f : ConnectionId → Connection → Connection) :
    DialInv tables { swarm with connections := swarm.connections.update f } := by
  refine ⟨h.dialing, h.usedDialing, ?_, ?_⟩
  · intro id c hc
    obtain ⟨old, hold, -⟩ := lookup_update_some.mp hc
    exact h.usedConnections id old hold
  · intro id hid
    rw [Option.eq_none_iff_forall_ne_some]
    intro c hc
    obtain ⟨old, hold, -⟩ := lookup_update_some.mp hc
    rw [h.apart id hid] at hold
    cases hold

section Dial

variable {tables : Pending} {swarm : Swarm}

/-- A new dial has an unused id. -/
theorem DialInv.newDial (h : DialInv tables swarm) {id : ConnectionId}
    {tables' : Pending} {dialing : List ConnectionId}
    (hunused : id ∉ swarm.usedConnections)
    (hpending : ∀ id' resp, tables'.pendingConnection.lookup id' = some resp →
      id' ∈ dialing)
    (hdialing : ∀ id' ∈ dialing, id' = id ∨ id' ∈ swarm.dialing) :
    DialInv tables' { swarm with
      usedConnections := id :: swarm.usedConnections
      dialing := dialing } := by
  refine ⟨hpending, ?_, ?_, ?_⟩
  · intro id' hid'
    rcases hdialing id' hid' with rfl | hold
    · exact List.mem_cons_self
    · exact List.mem_cons_of_mem _ (h.usedDialing id' hold)
  · exact fun id' c hc => List.mem_cons_of_mem _ (h.usedConnections id' c hc)
  · intro id' hid'
    rcases hdialing id' hid' with rfl | hold
    · rw [Option.eq_none_iff_forall_ne_some]
      exact fun c hc => hunused (h.usedConnections id' c hc)
    · exact h.apart id' hold

/-- A connection is established, and its dial is over. -/
theorem DialInv.established (h : DialInv tables swarm) {id : ConnectionId}
    (peerId : PeerId) {tables' : Pending}
    (htables : tables'.pendingConnection = tables.pendingConnection.erase id) :
    DialInv tables' (follow (.connectionEstablished id peerId) swarm) := by
  have hother : ∀ id' ∈ swarm.dialing.filter (· ≠ id),
      id' ∈ swarm.dialing ∧ id' ≠ id := by
    intro id' hid'
    obtain ⟨hmem, hne⟩ := List.mem_filter.mp hid'
    exact ⟨hmem, of_decide_eq_true hne⟩
  refine ⟨?_, ?_, ?_, ?_⟩
  · intro id' resp hlookup
    rw [htables] at hlookup
    obtain ⟨hne, hlookup⟩ := lookup_erase_some.mp hlookup
    exact List.mem_filter.mpr ⟨h.dialing id' resp hlookup, decide_eq_true hne⟩
  · exact fun id' hid' =>
      List.mem_cons_of_mem _ (h.usedDialing id' (hother id' hid').1)
  · intro id' c hc
    simp only [follow, lookup_insert] at hc
    split at hc
    · next hid =>
      rw [hid]
      exact List.mem_cons_self
    · exact List.mem_cons_of_mem _ (h.usedConnections id' c hc)
  · intro id' hid'
    obtain ⟨hmem, hne⟩ := hother id' hid'
    simp only [follow, lookup_insert, if_neg hne]
    exact h.apart id' hmem

end Dial

theorem DialInv.step (h : DialInv w.task.toPending w.swarm) (hi : Contract w i) :
    DialInv (tablesAfter i w) (follow i w.swarm) := by
  cases i with
  | dial id resp refusal =>
      cases refusal with
      | some e =>
          refine h.newDial (hi.dialed _ _ _ rfl) h.dialing ?_
          exact fun id' hid' => Or.inr hid'
      | none =>
          refine h.newDial (hi.dialed _ _ _ rfl) ?_ ?_
          · intro id' resp' hlookup
            simp only [tablesAfter, lookup_insert] at hlookup
            split at hlookup
            · next hid =>
              rw [hid]
              exact List.mem_cons_self
            · exact List.mem_cons_of_mem _ (h.dialing id' resp' hlookup)
          · exact fun id' hid' => List.mem_cons.mp hid'
  | behaviourDials id =>
      refine h.newDial (hi.behaviourDialed _ rfl) ?_ ?_
      · exact fun id' resp' hlookup =>
          List.mem_cons_of_mem _ (h.dialing id' resp' hlookup)
      · exact fun id' hid' => List.mem_cons.mp hid'
  | connectionEstablished id peerId => exact h.established peerId rfl
  | outgoingConnectionError id error =>
      refine ⟨?_, ?_, h.usedConnections, ?_⟩
      · intro id' resp hlookup
        obtain ⟨hne, hlookup⟩ := lookup_erase_some.mp hlookup
        exact List.mem_filter.mpr ⟨h.dialing id' resp hlookup, decide_eq_true hne⟩
      · exact fun id' hid' => h.usedDialing id' (List.mem_of_mem_filter hid')
      · exact fun id' hid' => h.apart id' (List.mem_of_mem_filter hid')
  | connectionClosed id peerId cause =>
      refine ⟨h.dialing, h.usedDialing, ?_, ?_⟩
      · exact fun id' c hc => h.usedConnections id' c (lookup_erase_some.mp hc).2
      · intro id' hid'
        simp only [follow, lookup_erase, h.apart id' hid', ite_self]
  | disconnectPeer peerId resp =>
      have hupdated := h.update fun _ c =>
        if c.peerId = peerId then { c with closing := true } else c
      simp only [tablesAfter]
      split <;> exact hupdated.tables rfl
  | disconnectConnection id resp =>
      have hupdated := h.update fun id' c =>
        if id' = id then { c with closing := true } else c
      simp only [tablesAfter]
      split <;> exact hupdated.tables rfl
  | listenOn resp answer =>
      cases answer <;> exact ⟨h.dialing, h.usedDialing, h.usedConnections, h.apart⟩
  | removeListener id resp =>
      simp only [tablesAfter]
      split <;> exact ⟨h.dialing, h.usedDialing, h.usedConnections, h.apart⟩
  | _ => exact ⟨h.dialing, h.usedDialing, h.usedConnections, h.apart⟩

/-- Asking connections to close leaves the closing ones closing. -/
theorem CloseInv.update {tables : Pending} {swarm : Swarm}
    (h : CloseInv tables swarm) {f : ConnectionId → Connection → Connection}
    (hf : ∀ id peerId, f id ⟨peerId, true⟩ = ⟨peerId, true⟩) :
    CloseInv tables { swarm with connections := swarm.connections.update f } := by
  refine ⟨?_, ?_⟩
  · intro id resp hlookup
    obtain ⟨peerId, hc⟩ := h.byConnectionId id resp hlookup
    exact ⟨peerId, lookup_update_some.mpr ⟨_, hc, hf id peerId⟩⟩
  · intro peerId resp hlookup
    obtain ⟨id, hc⟩ := h.byPeerId peerId resp hlookup
    exact ⟨id, lookup_update_some.mpr ⟨_, hc, hf id peerId⟩⟩

theorem isConnected_iff {swarm : Swarm} {peerId : PeerId} :
    swarm.isConnected peerId = true ↔
      ∃ id c, swarm.connections.lookup id = some c ∧ c.peerId = peerId := by
  unfold Swarm.isConnected
  rw [any_entries_iff]
  simp

theorem CloseInv.step (h : CloseInv w.task.toPending w.swarm)
    (hdial : DialInv w.task.toPending w.swarm) (hi : Contract w i) :
    CloseInv (tablesAfter i w) (follow i w.swarm) := by
  cases i with
  | disconnectPeer peerId resp =>
      have hupdated := h.update (f := fun _ c =>
        if c.peerId = peerId then { c with closing := true } else c)
        (fun id peerId' => by split <;> rfl)
      simp only [tablesAfter]
      split
      · next hconnected =>
        refine ⟨hupdated.byConnectionId, ?_⟩
        intro peerId' resp' hlookup
        simp only [lookup_insert] at hlookup
        split at hlookup
        · next hpeer =>
          obtain ⟨id, c, hc, hcpeer⟩ := isConnected_iff.mp hconnected
          refine ⟨id, lookup_update_some.mpr ⟨c, hc, ?_⟩⟩
          rw [if_pos hcpeer, hpeer, hcpeer]
        · exact hupdated.byPeerId peerId' resp' hlookup
      · exact hupdated
  | disconnectConnection id resp =>
      have hupdated := h.update (f := fun id' c =>
        if id' = id then { c with closing := true } else c)
        (fun id' peerId => by split <;> rfl)
      simp only [tablesAfter]
      split
      · next hconnected =>
        refine ⟨?_, hupdated.byPeerId⟩
        intro id' resp' hlookup
        simp only [lookup_insert] at hlookup
        split at hlookup
        · next hid =>
          obtain ⟨c, hc⟩ := Option.isSome_iff_exists.mp hconnected
          refine ⟨c.peerId, lookup_update_some.mpr ⟨c, by rwa [hid], ?_⟩⟩
          rw [if_pos hid]
        · exact hupdated.byConnectionId id' resp' hlookup
      · exact hupdated
  | connectionEstablished id peerId =>
      -- the id belongs to no connection yet
      have hnew : w.swarm.connections.lookup id = none := by
        rcases hi.established id peerId rfl with hdialing | hunused
        · exact hdial.apart id hdialing
        · rw [Option.eq_none_iff_forall_ne_some]
          exact fun c hc => hunused (hdial.usedConnections id c hc)
      have hkeep : ∀ id' c, w.swarm.connections.lookup id' = some c →
          (follow (.connectionEstablished id peerId) w.swarm).connections.lookup id' =
            some c := by
        intro id' c hc
        simp only [follow, lookup_insert]
        rw [if_neg, hc]
        rintro rfl
        rw [hnew] at hc
        cases hc
      refine ⟨?_, ?_⟩
      · intro id' resp hlookup
        obtain ⟨peerId', hc⟩ := h.byConnectionId id' resp hlookup
        exact ⟨peerId', hkeep _ _ hc⟩
      · intro peerId' resp hlookup
        obtain ⟨id', hc⟩ := h.byPeerId peerId' resp hlookup
        exact ⟨id', hkeep _ _ hc⟩
  | connectionClosed id peerId cause =>
      obtain ⟨closing, hclosed⟩ := hi.closed id peerId cause rfl
      refine ⟨?_, ?_⟩
      · intro id' resp hlookup
        obtain ⟨hne, hlookup⟩ := lookup_erase_some.mp hlookup
        obtain ⟨peerId', hc⟩ := h.byConnectionId id' resp hlookup
        exact ⟨peerId', lookup_erase_some.mpr ⟨hne, hc⟩⟩
      · intro peerId' resp hlookup
        obtain ⟨hne, hlookup⟩ := lookup_erase_some.mp hlookup
        obtain ⟨id', hc⟩ := h.byPeerId peerId' resp hlookup
        refine ⟨id', lookup_erase_some.mpr ⟨?_, hc⟩⟩
        rintro rfl
        rw [hclosed] at hc
        cases hc
        exact hne rfl
  | dial id resp refusal =>
      cases refusal <;> exact ⟨h.byConnectionId, h.byPeerId⟩
  | listenOn resp answer =>
      cases answer <;> exact ⟨h.byConnectionId, h.byPeerId⟩
  | removeListener id resp =>
      simp only [tablesAfter]
      split <;> exact ⟨h.byConnectionId, h.byPeerId⟩
  | _ => exact ⟨h.byConnectionId, h.byPeerId⟩

section Listen

variable {tables : Pending} {swarm : Swarm} (h : ListenInv tables swarm)

include h

/-- A new listener has an unused id. -/
theorem ListenInv.lookup_insert_new {new : ListenerId}
    (hunused : new ∉ swarm.usedListeners) (listener : Listener) {id : ListenerId}
    {found : Listener} (hfound : swarm.listeners.lookup id = some found) :
    (swarm.listeners.insert new listener).lookup id = some found := by
  rw [lookup_insert, if_neg, hfound]
  rintro rfl
  exact hunused (h.used id found hfound)

theorem ListenInv.insertNew {new : ListenerId} (hunused : new ∉ swarm.usedListeners)
    (listener : Listener) :
    ListenInv tables { swarm with
      usedListeners := new :: swarm.usedListeners
      listeners := swarm.listeners.insert new listener } := by
  refine ⟨?_, ?_, ?_⟩
  · intro id resp hlookup
    obtain ⟨removed, hfound⟩ := h.awaited id resp hlookup
    exact ⟨removed, h.lookup_insert_new hunused listener hfound⟩
  · intro id resp hlookup
    obtain ⟨awaited, hfound⟩ := h.removed id resp hlookup
    exact ⟨awaited, h.lookup_insert_new hunused listener hfound⟩
  · intro id found hfound
    rw [lookup_insert] at hfound
    split at hfound
    · next hid => exact List.mem_cons.mpr (Or.inl hid)
    · exact List.mem_cons_of_mem _ (h.used id found hfound)

theorem ListenInv.removeListener (id : ListenerId) :
    ListenInv tables (swarm.removeListener id) := by
  refine ⟨?_, ?_, ?_⟩
  · intro id' resp' hlookup
    obtain ⟨removed, hfound⟩ := h.awaited id' resp' hlookup
    refine ⟨if id' = id then true else removed,
      lookup_update_some.mpr ⟨_, hfound, ?_⟩⟩
    split <;> rfl
  · intro id' resp' hlookup
    obtain ⟨awaited, hfound⟩ := h.removed id' resp' hlookup
    refine ⟨awaited, lookup_update_some.mpr ⟨_, hfound, ?_⟩⟩
    split <;> rfl
  · intro id' listener hfound
    obtain ⟨old, hold, -⟩ := lookup_update_some.mp hfound
    exact h.used id' old hold

end Listen

theorem ListenInv.step (h : ListenInv w.task.toPending w.swarm)
    (hi : Contract w i) : ListenInv (tablesAfter i w) (follow i w.swarm) := by
  cases i with
  | listenOn resp answer =>
      cases answer with
      | error e => exact ⟨h.awaited, h.removed, h.used⟩
      | ok id =>
          have hnew := h.insertNew (hi.listened resp id rfl) ⟨true, false⟩
          refine ⟨?_, hnew.removed, hnew.used⟩
          intro id' resp' hlookup
          simp only [tablesAfter, lookup_insert] at hlookup
          split at hlookup
          · next hid =>
            subst hid
            exact ⟨false, lookup_insert_self _ _ _⟩
          · exact hnew.awaited id' resp' hlookup
  | behaviourListens id =>
      exact h.insertNew (hi.behaviourListened id rfl) ⟨false, false⟩
  | removeListener id resp =>
      have hupdated := h.removeListener id
      simp only [tablesAfter]
      split
      · next hopen =>
        refine ⟨hupdated.awaited, ?_, hupdated.used⟩
        intro id' resp' hlookup
        simp only [lookup_insert] at hlookup
        split at hlookup
        · next hid =>
          subst hid
          unfold Swarm.canRemove at hopen
          split at hopen
          · next listener hlistener =>
            refine ⟨listener.awaited, lookup_update_some.mpr ⟨_, hlistener, ?_⟩⟩
            rw [if_pos rfl]
          · cases hopen
        · exact hupdated.removed id' resp' hlookup
      · exact hupdated
  | newListenAddr id address =>
      refine ⟨?_, ?_, ?_⟩
      · intro id' resp' hlookup
        obtain ⟨hne, hlookup⟩ := lookup_erase_some.mp hlookup
        obtain ⟨removed, hfound⟩ := h.awaited id' resp' hlookup
        refine ⟨removed, lookup_update_some.mpr ⟨_, hfound, ?_⟩⟩
        rw [if_neg hne]
      · intro id' resp' hlookup
        obtain ⟨awaited, hfound⟩ := h.removed id' resp' hlookup
        refine ⟨if id' = id then false else awaited,
          lookup_update_some.mpr ⟨_, hfound, ?_⟩⟩
        split <;> rfl
      · intro id' listener hfound
        obtain ⟨old, hold, -⟩ := lookup_update_some.mp hfound
        exact h.used id' old hold
  | listenerClosed id reason =>
      refine ⟨?_, ?_, ?_⟩
      · intro id' resp' hlookup
        obtain ⟨hne, hlookup⟩ := lookup_erase_some.mp hlookup
        obtain ⟨removed, hfound⟩ := h.awaited id' resp' hlookup
        exact ⟨removed, lookup_erase_some.mpr ⟨hne, hfound⟩⟩
      · intro id' resp' hlookup
        obtain ⟨hne, hlookup⟩ := lookup_erase_some.mp hlookup
        obtain ⟨awaited, hfound⟩ := h.removed id' resp' hlookup
        exact ⟨awaited, lookup_erase_some.mpr ⟨hne, hfound⟩⟩
      · exact fun id' listener hfound =>
          h.used id' listener (lookup_erase_some.mp hfound).2
  | dial id resp refusal =>
      cases refusal <;> exact ⟨h.awaited, h.removed, h.used⟩
  | disconnectPeer peerId resp =>
      simp only [tablesAfter]
      split <;> exact ⟨h.awaited, h.removed, h.used⟩
  | disconnectConnection id resp =>
      simp only [tablesAfter]
      split <;> exact ⟨h.awaited, h.removed, h.used⟩
  | _ => exact ⟨h.awaited, h.removed, h.used⟩

end Step

/-! ## Every run -/

structure RunInv (w : World) : Prop where
  dials : DialInv w.task.toPending w.swarm
  closes : CloseInv w.task.toPending w.swarm
  listens : ListenInv w.task.toPending w.swarm
  balance : ∀ r, w.task.tally r = w.asked.count r
  distinct : w.asked.Nodup

theorem RunInv.step {w : World} {i : Input} (h : RunInv w) (hi : Contract w i) :
    RunInv (step i w) := by
  have htables : (serve i w).toPending = tablesAfter i w := (serve_tables i w).1
  refine ⟨?_, ?_, ?_, ?_, ?_⟩
  · rw [SwarmTask.step, htables]
    exact h.dials.step hi
  · rw [SwarmTask.step, htables]
    exact h.closes.step h.dials hi
  · rw [SwarmTask.step, htables]
    exact h.listens.step hi
  · intro r
    rw [SwarmTask.step, tally_serve, List.count_append, h.balance r]
  · rw [SwarmTask.step]
    refine h.distinct.append ?_ ?_
    · cases i.resp <;> simp
    · intro r hr hnew
      exact hi.fresh r (by simpa using hnew) hr

theorem runInv_of_reachable {contract : World → Input → Prop}
    (hcontract : ∀ w i, contract w i → Contract w i) {w : World}
    (h : service.Reachable contract w) : RunInv w := by
  refine h.invariant ?_ fun w i hw hi => hw.step (hcontract w i hi)
  rintro w rfl
  refine ⟨⟨?_, ?_, ?_, ?_⟩, ⟨?_, ?_⟩, ⟨?_, ?_, ?_⟩, ?_, List.nodup_nil⟩ <;>
    simp [World.new, Task.new, Swarm.new, Task.tally, Task.pending]

/-- No Disconnect is asked for while another one for the same peer or the same
connection waits. -/
structure Sole (w : World) (i : Input) : Prop where
  peer : ∀ peerId resp, i = .disconnectPeer peerId resp →
    w.task.pendingDisconnectionByPeerId.lookup peerId = none
  connection : ∀ id resp, i = .disconnectConnection id resp →
    w.task.pendingDisconnectionByConnectionId.lookup id = none

theorem RunInv.replacedBy_eq_none {w : World} {i : Input} (h : RunInv w)
    (hi : Contract w i) (hsole : Sole w i) : replacedBy i w = none := by
  cases i with
  | dial id resp refusal =>
      cases refusal with
      | some e => rfl
      | none =>
          rw [replacedBy, Option.eq_none_iff_forall_ne_some]
          intro resp' hlookup
          exact hi.dialed _ _ _ rfl
            (h.dials.usedDialing id (h.dials.dialing id resp' hlookup))
  | disconnectPeer peerId resp =>
      simp only [replacedBy, hsole.peer _ _ rfl, ite_self]
  | disconnectConnection id resp =>
      simp only [replacedBy, hsole.connection _ _ rfl, ite_self]
  | listenOn resp answer =>
      cases answer with
      | error e => rfl
      | ok id =>
          rw [replacedBy, Option.eq_none_iff_forall_ne_some]
          intro resp' hlookup
          obtain ⟨removed, hfound⟩ := h.listens.awaited id resp' hlookup
          exact hi.listened _ _ rfl (h.listens.used id _ hfound)
  | removeListener id resp =>
      simp only [replacedBy]
      split
      · next hopen =>
        rw [Option.eq_none_iff_forall_ne_some]
        intro resp' hlookup
        obtain ⟨awaited, hfound⟩ := h.listens.removed id resp' hlookup
        simp [Swarm.canRemove, hfound] at hopen
      · rfl
  | _ => rfl

/-- A second Disconnect replaces the sender of the first. -/
theorem RunInv.replacedBy_of_not_sole {w : World} {i : Input} (h : RunInv w)
    (hnot : ¬Sole w i) : ∃ r, replacedBy i w = some r := by
  by_contra hnone
  refine hnot ⟨?_, ?_⟩
  · rintro peerId resp rfl
    rw [Option.eq_none_iff_forall_ne_some]
    intro r hlookup
    obtain ⟨id, hc⟩ := h.closes.byPeerId peerId r hlookup
    have hconnected : w.swarm.isConnected peerId = true :=
      isConnected_iff.mpr ⟨id, _, hc, rfl⟩
    exact hnone ⟨r, by simp [replacedBy, hconnected, hlookup]⟩
  · rintro id resp rfl
    rw [Option.eq_none_iff_forall_ne_some]
    intro r hlookup
    obtain ⟨peerId, hc⟩ := h.closes.byConnectionId id r hlookup
    have hopen : w.swarm.hasConnection id = true := by simp [Swarm.hasConnection, hc]
    exact hnone ⟨r, by simp [replacedBy, hopen, hlookup]⟩

/-- libp2p owes no event: dials are over, nothing is closing, listeners have
reported an address and none is being removed. -/
structure Settled (swarm : Swarm) : Prop where
  dialing : swarm.dialing = []
  connections : ∀ id c, swarm.connections.lookup id = some c → c.closing = false
  listeners : ∀ id l, swarm.listeners.lookup id = some l →
    l.awaited = false ∧ l.removed = false

theorem values_eq_nil {K : Type} [DecidableEq K] {m : HashMap K ℕ}
    (h : ∀ k v, m.lookup k ≠ some v) : values m = [] := by
  refine List.eq_nil_iff_forall_not_mem.mpr fun v hv => ?_
  obtain ⟨k, hk⟩ := mem_values_iff.mp hv
  exact h k v hk

theorem RunInv.pending_eq_nil {w : World} (h : RunInv w) (hsettled : Settled w.swarm) :
    w.task.pending = [] := by
  have hdial : values w.task.pendingConnection = [] := by
    refine values_eq_nil fun id resp hlookup => ?_
    have hmem := h.dials.dialing id resp hlookup
    rw [hsettled.dialing] at hmem
    cases hmem
  have hconnection : values w.task.pendingDisconnectionByConnectionId = [] := by
    refine values_eq_nil fun id resp hlookup => ?_
    obtain ⟨peerId, hc⟩ := h.closes.byConnectionId id resp hlookup
    cases hsettled.connections id _ hc
  have hpeer : values w.task.pendingDisconnectionByPeerId = [] := by
    refine values_eq_nil fun peerId resp hlookup => ?_
    obtain ⟨id, hc⟩ := h.closes.byPeerId peerId resp hlookup
    cases hsettled.connections id _ hc
  have hlisten : values w.task.pendingListenOn = [] := by
    refine values_eq_nil fun id resp hlookup => ?_
    obtain ⟨removed, hfound⟩ := h.listens.awaited id resp hlookup
    cases (hsettled.listeners id _ hfound).1
  have hremove : values w.task.pendingRemoveListener = [] := by
    refine values_eq_nil fun id resp hlookup => ?_
    obtain ⟨awaited, hfound⟩ := h.listens.removed id resp hlookup
    cases (hsettled.listeners id _ hfound).2
  simp [Task.pending, hdial, hconnection, hpeer, hlisten, hremove]

theorem dropped_eq_nil {w : World}
    (h : service.Reachable (fun w i => Contract w i ∧ Sole w i) w) :
    w.task.dropped = [] := by
  induction h with
  | init hinit =>
      rw [hinit]
      rfl
  | step hw hi ih =>
      have hinv := runInv_of_reachable (fun _ _ h => h.1) hw
      change (serve _ _).dropped = []
      rw [(serve_tables _ _).2, ih, hinv.replacedBy_eq_none hi.1 hi.2]
      rfl

theorem RunInv.nodup_sent {w : World} (h : RunInv w) :
    (w.task.sent.map Prod.fst).Nodup := by
  refine List.nodup_iff_count_le_one.mpr fun r => ?_
  have hbalance := h.balance r
  have hone := List.nodup_iff_count_le_one.mp h.distinct r
  rw [Task.tally] at hbalance
  omega

/-- In runs without a second Disconnect for the same target, every responder is
sent one result or waits for one, and none waits when libp2p owes no event.  A
second Disconnect drops the responder of the first unanswered. -/
theorem swarm_commands_answered (w : World) :
    (service.Reachable (fun w i => Contract w i ∧ Sole w i) w →
      w.task.dropped = [] ∧ (w.task.sent.map Prod.fst).Nodup ∧
      (w.task.sent.map Prod.fst ++ w.task.pending).Perm w.asked ∧
      (Settled w.swarm → w.task.pending = [])) ∧
    ∀ i, service.Reachable Contract w → Contract w i → ¬Sole w i →
      ∃ r ∈ (step i w).task.dropped, r ∉ (step i w).task.sent.map Prod.fst ∧
        r ∉ (step i w).task.pending := by
  refine ⟨fun hw => ?_, fun i hw hi hnot => ?_⟩
  · have hinv := runInv_of_reachable (fun _ _ h => h.1) hw
    have hdropped := dropped_eq_nil hw
    refine ⟨hdropped, hinv.nodup_sent, ?_, hinv.pending_eq_nil⟩
    refine List.perm_iff_count.mpr fun r => ?_
    have hbalance := hinv.balance r
    rw [Task.tally, hdropped, List.count_nil] at hbalance
    rw [List.count_append]
    omega
  · have hinv := runInv_of_reachable (fun _ _ h => h) hw
    obtain ⟨r, hr⟩ := hinv.replacedBy_of_not_sole hnot
    have hmem : r ∈ (step i w).task.dropped := by
      change r ∈ (serve i w).dropped
      rw [(serve_tables i w).2, hr]
      exact List.mem_append_right _ (List.mem_singleton_self r)
    have hnext := hinv.step hi
    have hbalance := hnext.balance r
    have hone := List.nodup_iff_count_le_one.mp hnext.distinct r
    have hpos := List.count_pos_iff.mpr hmem
    rw [Task.tally] at hbalance
    refine ⟨r, hmem, ?_, ?_⟩
    · rw [← List.count_eq_zero]
      omega
    · rw [← List.count_eq_zero]
      omega

/-! ## Concrete runs -/

/-- Check the contract. -/
def contract (w : World) (i : Input) : Bool :=
  (match i.resp with
    | some resp => decide (resp ∉ w.asked)
    | none => true) &&
  match i with
  | .dial id _ _ | .behaviourDials id => decide (id ∉ w.swarm.usedConnections)
  | .listenOn _ (.ok id) | .behaviourListens id =>
      decide (id ∉ w.swarm.usedListeners)
  | .connectionEstablished id _ =>
      decide (id ∈ w.swarm.dialing ∨ id ∉ w.swarm.usedConnections)
  | .outgoingConnectionError id _ => decide (id ∈ w.swarm.dialing)
  | .connectionClosed id peerId _ =>
      (w.swarm.connections.lookup id).any fun c => c.peerId == peerId
  | .newListenAddr id _ | .listenerClosed id _ =>
      decide (id ∈ w.swarm.listeners)
  | _ => true

theorem contract_of_check (w : World) (i : Input) (h : contract w i = true) :
    Contract w i := by
  obtain ⟨hresp, hi⟩ := Bool.and_eq_true_iff.mp h
  constructor
  · intro resp heq
    rw [heq] at hresp
    exact of_decide_eq_true hresp
  · rintro id resp refusal rfl
    exact of_decide_eq_true hi
  · rintro resp id rfl
    exact of_decide_eq_true hi
  · rintro id rfl
    exact of_decide_eq_true hi
  · rintro id rfl
    exact of_decide_eq_true hi
  · rintro id peerId rfl
    exact of_decide_eq_true hi
  · rintro id error rfl
    exact of_decide_eq_true hi
  · rintro id peerId cause rfl
    obtain ⟨c, hc, hpeer⟩ := (Option.any_eq_true _ _).mp hi
    refine ⟨c.closing, ?_⟩
    rw [hc, ← beq_iff_eq.mp hpeer]
  · rintro id address rfl
    exact of_decide_eq_true hi
  · rintro id reason rfl
    exact of_decide_eq_true hi

/-- Check that a Disconnect is the only one for its target. -/
def sole (w : World) (i : Input) : Bool :=
  match i with
  | .disconnectPeer peerId _ =>
      (w.task.pendingDisconnectionByPeerId.lookup peerId).isNone
  | .disconnectConnection id _ =>
      (w.task.pendingDisconnectionByConnectionId.lookup id).isNone
  | _ => true

theorem sole_of_check (w : World) (i : Input)
    (h : (contract w i && sole w i) = true) : Contract w i ∧ Sole w i := by
  obtain ⟨hcontract, hsole⟩ := Bool.and_eq_true_iff.mp h
  refine ⟨contract_of_check w i hcontract, ?_, ?_⟩
  · rintro peerId resp rfl
    exact Option.isNone_iff_eq_none.mp hsole
  · rintro id resp rfl
    exact Option.isNone_iff_eq_none.mp hsole

/-- One connection is closed by its peer and by its id at once, and a listener
is removed before it has an address. -/
def closedTwoWays : List Input :=
  [.dial 0 0 none, .connectionEstablished 0 7, .disconnectPeer 7 1,
    .disconnectConnection 0 2, .listenOn 3 (.ok 0), .removeListener 0 4,
    .connectionClosed 0 7 none, .listenerClosed 0 (.ok ())]

theorem swarm_commands_answered_closedTwoWays :
    ∃ w, service.Reachable (fun w i => Contract w i ∧ Sole w i) w ∧
      w.task.dropped = [] ∧ w.task.pending = [] ∧
      (w.task.sent.map Prod.fst).Perm [0, 1, 2, 3, 4] := by
  obtain ⟨w, hw, hasked, hdialing, hconnections, hlisteners⟩ :=
    Service.exists_reachable_of_run (S := service) sole_of_check World.new rfl
      closedTwoWays
      (fun w => w.asked = [0, 1, 2, 3, 4] ∧ w.swarm.dialing = [] ∧
        w.swarm.connections.entries = [] ∧ w.swarm.listeners.entries = [])
      (by decide)
  have hmain := (swarm_commands_answered w).1 hw
  have hsettled : Settled w.swarm := by
    refine ⟨hdialing, ?_, ?_⟩
    · intro id c hc
      rw [lookup_eq_some_iff, hconnections] at hc
      cases hc
    · intro id l hl
      rw [lookup_eq_some_iff, hlisteners] at hl
      cases hl
  have hpending := hmain.2.2.2 hsettled
  have hperm := hmain.2.2.1
  rw [hpending, List.append_nil, hasked] at hperm
  exact ⟨w, hw, hmain.1, hpending, hperm⟩

/-- A second Disconnect for a peer before the first is answered. -/
theorem second_disconnect_drops_first :
    ∃ w, service.Reachable Contract w ∧ w.task.dropped = [1] ∧
      w.task.sent.map Prod.fst = [0, 2] ∧ w.task.pending = [] ∧
      w.asked = [0, 1, 2] :=
  Service.exists_reachable_of_run (S := service) contract_of_check World.new rfl
    [.dial 0 0 none, .connectionEstablished 0 7, .disconnectPeer 7 1,
      .disconnectPeer 7 2, .connectionClosed 0 7 none]
    (fun w => w.task.dropped = [1] ∧ w.task.sent.map Prod.fst = [0, 2] ∧
      w.task.pending = [] ∧ w.asked = [0, 1, 2]) (by decide)

end Connexa.SwarmTask
