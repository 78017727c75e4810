import Connexa.Support.Standing
import Connexa.PeerStore.Retention

/-!
# What the memory store remembers

Each table of the store holds what the inputs put into it and did not take out
since.  An address goes by `remove`, `remove_address` or its timer; a timer is set
when the last connection with the address closes and goes when it fires, or when
the address is inserted or connected again.
-/

namespace Connexa.PeerStore

open HashMap

/-! ## Registers -/

/-- The open connections. -/
def connections : Register Input (PeerId × ConnectionId × Multiaddr) where
  enters _ i x := i = .connectionEstablished x.1 x.2.1 x.2.2
  leaves _ i x :=
    match i with
    | .connectionEstablished peerId connectionId _
    | .connectionClosed peerId connectionId _ =>
        x.1 = peerId ∧ x.2.1 = connectionId
    | _ => False

/-- The addresses, by peer. -/
def book : Register Input (PeerId × Multiaddr) where
  enters _ i key :=
    match i with
    | .insert peerId addr | .newExternalAddrOfPeer peerId addr
    | .connectionEstablished peerId _ addr => key = (peerId, addr)
    | _ => False
  leaves _ i key :=
    match i with
    | .remove peerId => key.1 = peerId
    | .removeAddress peerId addr => key = (peerId, addr)
    | .poll ready => key ∈ ready
    | _ => False

/-- The persistent peers.  A peer is one from when an address of it is learned
until it is left without addresses. -/
def persistents : Register Input PeerId where
  enters _ i peerId := ∃ addr, i.Learns peerId addr
  leaves past i peerId := ∀ addr, ¬book.Holds (past ++ [i]) (peerId, addr)

/-- The clean-up timers.  One is set when a connection closes and no other one
with the address is left, unless the peer is persistent. -/
def timers : Register Input (PeerId × Multiaddr) where
  enters past i key :=
    (∃ connectionId, i = .connectionClosed key.1 connectionId key.2) ∧
      (∀ other, ¬connections.Holds (past ++ [i]) (key.1, other, key.2)) ∧
      ¬persistents.Holds past key.1
  leaves _ i key :=
    match i with
    | .insert peerId addr | .connectionEstablished peerId _ addr =>
        key = (peerId, addr)
    | .poll ready => key ∈ ready
    | _ => False

/-- Timers that are found ready are pending. -/
def Due (store : MemoryStore) (i : Input) : Prop :=
  ∀ ready, i = .poll ready → ∀ key ∈ ready, key ∈ store.timer

variable {store : MemoryStore} {i : Input} {peerId : PeerId} {addr : Multiaddr}
  {key : PeerId × Multiaddr} {past : List Input}

/-! ## What a step does to each table -/

theorem stored_serve (hdue : Due store i) :
    Stored (serve i store) peerId addr ↔
      book.enters past i (peerId, addr) ∨
        Stored store peerId addr ∧ ¬book.leaves past i (peerId, addr) := by
  cases i with
  | insert p a => exact stored_insertLastAt.trans (by simp [book, Stored])
  | remove p =>
      simp only [serve, MemoryStore.remove]
      split
      · exact stored_erase.trans (by simp [book, Stored, and_comm])
      · next hnone =>
        refine ⟨fun h => Or.inr ⟨h, ?_⟩, fun h => (h.resolve_left id).1⟩
        rintro rfl
        obtain ⟨list, hlist, -⟩ := stored_iff.mp h
        cases hnone.symm.trans hlist
  | removeAddress p a => exact stored_removeAddress.trans (by simp [book, and_comm])
  | newExternalAddrOfPeer p a => exact stored_insertLastAt.trans (by simp [book, Stored])
  | connectionEstablished p c a =>
      exact stored_insertLastAt.trans (by simp [book, Stored])
  | connectionClosed p c a =>
      exact ⟨fun h => Or.inr ⟨h, id⟩, fun h => (h.resolve_left id).1⟩
  | poll ready =>
      refine stored_poll.trans ?_
      have hpending : (peerId, addr) ∈ ready ∧ (peerId, addr) ∈ store.timer ↔
          (peerId, addr) ∈ ready :=
        and_iff_left_of_imp (hdue ready rfl _)
      simp [book, hpending]

theorem remove_timer : (store.remove peerId).2.timer = store.timer := by
  unfold MemoryStore.remove
  split <;> rfl

theorem remove_connections :
    (store.remove peerId).2.connections = store.connections := by
  unfold MemoryStore.remove
  split <;> rfl

theorem poll_connections {ready : List (PeerId × Multiaddr)} :
    (store.poll ready).connections = store.connections := by
  induction ready generalizing store with
  | nil => rfl
  | cons fired rest ih =>
      refine ih.trans ?_
      unfold MemoryStore.timerFired
      split
      · exact removeAddress_connections
      · rfl

theorem lookup_connections_serve {connectionId : ConnectionId} :
    (serve i store).connections.lookup (peerId, connectionId) = some addr ↔
      connections.enters past i (peerId, connectionId, addr) ∨
        store.connections.lookup (peerId, connectionId) = some addr ∧
          ¬connections.leaves past i (peerId, connectionId, addr) := by
  cases i with
  | connectionEstablished p c a =>
      simp only [serve, MemoryStore.connectionEstablished, lookup_insertLast, connections,
        Prod.mk.injEq, Input.connectionEstablished.injEq]
      split
      · next hkey => simp [hkey]
      · next hkey =>
        refine ⟨fun h => Or.inr ⟨h, hkey⟩, fun h => (h.resolve_left ?_).1⟩
        exact fun hnew => hkey ⟨hnew.1.symm, hnew.2.1.symm⟩
  | connectionClosed p c a =>
      exact lookup_erase_some.trans (by simp [connections, and_comm])
  | remove p => simp [serve, remove_connections, connections]
  | removeAddress p a => simp [serve, removeAddress_connections, connections]
  | poll ready => simp [serve, poll_connections, connections]
  | insert p a => simp [serve, MemoryStore.insert, connections]
  | newExternalAddrOfPeer p a =>
      simp [serve, MemoryStore.newExternalAddrOfPeer, connections]

/-- A timer is set by the close of the last connection with the address. -/
theorem mem_timer_serve (past : List Input) :
    key ∈ (serve i store).timer ↔
      ((∃ connectionId, i = .connectionClosed key.1 connectionId key.2) ∧
        (∀ other, (serve i store).connections.lookup (key.1, other) ≠ some key.2) ∧
        key.1 ∉ store.persistent) ∨
      key ∈ store.timer ∧ ¬timers.leaves past i key := by
  cases i with
  | insert p a => exact Finset.mem_erase.trans (by simp [timers, and_comm])
  | remove p => simp [serve, remove_timer, timers]
  | removeAddress p a => simp [serve, removeAddress_timer, timers]
  | newExternalAddrOfPeer p a => simp [serve, MemoryStore.newExternalAddrOfPeer, timers]
  | connectionEstablished p c a =>
      exact Finset.mem_erase.trans (by simp [timers, and_comm])
  | connectionClosed p c a =>
      refine mem_timer_connectionClosed.trans (or_congr ?_ ?_)
      · constructor
        · rintro ⟨rfl, hpersistent, hgone⟩
          exact ⟨⟨c, rfl⟩, hgone, hpersistent⟩
        · rintro ⟨⟨d, heq⟩, hgone, hpersistent⟩
          cases heq
          exact ⟨rfl, hpersistent, hgone⟩
      · exact (and_iff_left id).symm
  | poll ready => exact poll_timer.trans (by simp [timers])

/-- No peer is kept without addresses, and none is persistent without any. -/
structure Sound (store : MemoryStore) : Prop where
  nonempty : NoEmpty store.peers
  known : ∀ peerId ∈ store.persistent, peerId ∈ store.peers

theorem peers_timerFired (h : peerId ∈ (store.timerFired key).peers) :
    peerId ∈ store.peers := by
  unfold MemoryStore.timerFired at h
  split at h
  · rcases removeAddress_cases key.1 key.2
        { store with timer := store.timer.erase key } with
      ⟨-, heq, -⟩ | ⟨hstored, -, persistent, heq, -⟩
    · rwa [heq] at h
    · rw [heq] at h
      by_cases hpeer : peerId = key.1
      · rw [hpeer]
        exact mem_of_stored hstored
      · exact (mem_prune_of_ne hpeer).mp h
  · exact h

theorem peers_poll {ready : List (PeerId × Multiaddr)}
    (h : peerId ∈ (store.poll ready).peers) : peerId ∈ store.peers := by
  induction ready generalizing store with
  | nil => exact h
  | cons fired rest ih => exact peers_timerFired (ih h)

theorem Sound.timerFired (h : Sound store) (key : PeerId × Multiaddr) :
    Sound (store.timerFired key) ∧
      ((store.timerFired key).persistent ⊆ store.persistent) ∧
      ∀ p ∈ store.persistent, p ∈ (store.timerFired key).peers →
        p ∈ (store.timerFired key).persistent := by
  unfold MemoryStore.timerFired
  split
  · have hpersistent := @persistent_removeAddress
      { store with timer := store.timer.erase key } key.1 key.2 h.known
    exact ⟨⟨noEmpty_removeAddress h.nonempty, hpersistent.1⟩, hpersistent.2⟩
  · exact ⟨h, subset_rfl, fun p hp _ => hp⟩

theorem Sound.poll (h : Sound store) (ready : List (PeerId × Multiaddr)) :
    Sound (store.poll ready) ∧
      ((store.poll ready).persistent ⊆ store.persistent) ∧
      ∀ p ∈ store.persistent, p ∈ (store.poll ready).peers →
        p ∈ (store.poll ready).persistent := by
  induction ready generalizing store with
  | nil => exact ⟨h, subset_rfl, fun p hp _ => hp⟩
  | cons fired rest ih =>
      obtain ⟨hfired, hsub, hkept⟩ := h.timerFired fired
      obtain ⟨hrest, hsub', hkept'⟩ := ih hfired
      exact ⟨hrest, hsub'.trans hsub, fun p hp hpeer =>
        hkept' p (hkept p hp (peers_poll hpeer)) hpeer⟩

theorem mem_persistent_serve (h : Sound store) :
    peerId ∈ (serve i store).persistent ↔
      (∃ addr, i.Learns peerId addr) ∨
        peerId ∈ store.persistent ∧ peerId ∈ (serve i store).peers := by
  have hlearns : ∀ p a, (∃ addr, Input.Learns (.insert p a) peerId addr) ↔
    peerId = p := by
    simp [Input.Learns, eq_comm]
  have hreports : ∀ p a,
      (∃ addr, Input.Learns (.newExternalAddrOfPeer p a) peerId addr) ↔ peerId = p := by
    simp [Input.Learns, eq_comm]
  cases i with
  | insert p a =>
      rw [hlearns]
      refine Finset.mem_insert.trans (or_congr Iff.rfl ?_)
      exact (and_iff_left_of_imp fun hp =>
        mem_insertLastAt.mpr (Or.inr (h.known _ hp))).symm
  | newExternalAddrOfPeer p a =>
      rw [hreports]
      refine Finset.mem_insert.trans (or_congr Iff.rfl ?_)
      exact (and_iff_left_of_imp fun hp =>
        mem_insertLastAt.mpr (Or.inr (h.known _ hp))).symm
  | remove p =>
      simp only [serve, MemoryStore.remove, Input.Learns, reduceCtorEq, or_self,
        exists_false, false_or]
      split
      · rw [Finset.mem_erase, AList.mem_erase, and_comm]
        exact and_congr_right fun hp => (and_iff_left (h.known _ hp)).symm
      · exact (and_iff_left_of_imp (h.known _)).symm
  | removeAddress p a =>
      have hkept := @persistent_removeAddress store p a h.known
      simp only [serve, Input.Learns, reduceCtorEq, or_self, exists_false, false_or]
      exact ⟨fun hp => ⟨hkept.2.1 hp, hkept.1 _ hp⟩, fun hp => hkept.2.2 _ hp.1 hp.2⟩
  | connectionEstablished p c a =>
      simp only [serve, Input.Learns, reduceCtorEq, or_self, exists_false, false_or]
      exact (and_iff_left_of_imp fun hp =>
        mem_insertLastAt.mpr (Or.inr (h.known _ hp))).symm
  | connectionClosed p c a =>
      simp only [serve, Input.Learns, reduceCtorEq, or_self, exists_false, false_or]
      exact (and_iff_left_of_imp (h.known _)).symm
  | poll ready =>
      obtain ⟨hsound, hsub, hkept⟩ := h.poll ready
      simp only [serve, Input.Learns, reduceCtorEq, or_self, exists_false, false_or]
      exact ⟨fun hp => ⟨hsub hp, hsound.known _ hp⟩, fun hp => hkept _ hp.1 hp.2⟩

theorem Sound.serve (h : Sound store) (i : Input) : Sound (serve i store) := by
  refine ⟨?_, fun p hp => ?_⟩
  · cases i with
    | insert p a => exact h.nonempty.insertLastAt
    | newExternalAddrOfPeer p a => exact h.nonempty.insertLastAt
    | connectionEstablished p c a => exact h.nonempty.insertLastAt
    | connectionClosed p c a => exact h.nonempty
    | removeAddress p a => exact noEmpty_removeAddress h.nonempty
    | poll ready => exact (h.poll ready).1.nonempty
    | remove p =>
        simp only [PeerStore.serve, MemoryStore.remove]
        split
        · exact fun q list hlist => h.nonempty q list (lookup_erase_some.mp hlist).2
        · exact h.nonempty
  · rcases (mem_persistent_serve h).mp hp with ⟨a, rfl | rfl⟩ | ⟨-, hpeer⟩
    · exact mem_insertLastAt.mpr (Or.inl rfl)
    · exact mem_insertLastAt.mpr (Or.inl rfl)
    · exact hpeer

/-- A peer that is kept has an address. -/
theorem Sound.mem_peers_iff (h : Sound store) :
    peerId ∈ store.peers ↔ ∃ addr, Stored store peerId addr := by
  refine ⟨fun hmem => ?_, fun ⟨addr, hstored⟩ => mem_of_stored hstored⟩
  obtain ⟨list, hlist⟩ := mem_iff_exists_lookup.mp hmem
  obtain ⟨addr, haddr⟩ := List.exists_mem_of_length_pos
    (Nat.pos_of_ne_zero (h.nonempty peerId list hlist))
  exact ⟨addr.1, stored_iff.mpr ⟨list, hlist, List.mem_map_of_mem haddr⟩⟩

/-! ## Runs -/

/-- The store holds what the registers do after the inputs. -/
structure Remembers (store : MemoryStore) (inputs : List Input) : Prop where
  open_connections : ∀ peerId connectionId addr,
    store.connections.lookup (peerId, connectionId) = some addr ↔
      connections.Holds inputs (peerId, connectionId, addr)
  addresses : ∀ peerId addr, Stored store peerId addr ↔ book.Holds inputs (peerId, addr)
  timer : ∀ key, key ∈ store.timer ↔ timers.Holds inputs key
  persistent : ∀ peerId, peerId ∈ store.persistent ↔ persistents.Holds inputs peerId
  sound : Sound store

theorem Remembers.serve {inputs : List Input} (h : Remembers store inputs) {i : Input}
    (hdue : Due store i) : Remembers (serve i store) (inputs ++ [i]) := by
  have hsound := h.sound.serve i
  have hconnections : ∀ p c a,
      (PeerStore.serve i store).connections.lookup (p, c) = some a ↔
        connections.Holds (inputs ++ [i]) (p, c, a) := by
    intro p c a
    rw [Register.holds_snoc, ← h.open_connections]
    exact lookup_connections_serve
  have haddresses : ∀ p a, Stored (PeerStore.serve i store) p a ↔
      book.Holds (inputs ++ [i]) (p, a) := by
    intro p a
    rw [Register.holds_snoc, ← h.addresses]
    exact stored_serve hdue
  refine ⟨hconnections, haddresses, fun key => ?_, fun p => ?_, hsound⟩
  · rw [Register.holds_snoc, ← h.timer, mem_timer_serve inputs]
    refine or_congr (and_congr_right fun _ =>
      and_congr ?_ (not_congr (h.persistent _))) Iff.rfl
    exact forall_congr' fun c => not_congr (hconnections _ _ _)
  · rw [Register.holds_snoc, ← h.persistent, mem_persistent_serve h.sound,
      hsound.mem_peers_iff]
    refine or_congr Iff.rfl (and_congr_right fun _ => ?_)
    simp only [persistents, not_forall, not_not, haddresses]

end Connexa.PeerStore
