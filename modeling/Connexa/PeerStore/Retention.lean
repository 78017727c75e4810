import Connexa.Support.History
import Connexa.PeerStore.Memory

/-!
# What the memory store keeps, and for how long

An address that only a connection brought is kept while it is connected, and
after that until its timer fires.  An address that was learned explicitly makes
its peer persistent, for which no timer is set; a timer that was set before has
to be gone by then, or it removes the address all the same.
-/

namespace Connexa.PeerStore

open HashMap

/-- The address is in the store. -/
def Stored (store : MemoryStore) (peerId : PeerId) (addr : Multiaddr) : Prop :=
  lookupAt store.peers peerId addr = some ()

variable {store : MemoryStore} {peerId peerId' : PeerId} {addr addr' : Multiaddr}

theorem stored_iff {peers : HashMap PeerId (HashMap Multiaddr Unit)} :
    lookupAt peers peerId addr = some () ↔
      ∃ list, peers.lookup peerId = some list ∧ addr ∈ list.keys := by
  unfold lookupAt
  rw [Option.bind_eq_some_iff]
  refine exists_congr fun list => and_congr_right fun _ => ?_
  rw [AList.mem_keys.symm, mem_iff_exists_lookup]
  exact ⟨fun h => ⟨(), h⟩, fun ⟨_, h⟩ => h⟩

theorem Stored.address (h : Stored store peerId addr) :
    ∃ list, store.address peerId = .ok list ∧ addr ∈ list := by
  obtain ⟨list, hlist, hmem⟩ := stored_iff.mp h
  exact ⟨list.keys, by simp [MemoryStore.address, hlist], hmem⟩

/-! ## What each operation does to the addresses -/

theorem stored_insertLastAt {peers : HashMap PeerId (HashMap Multiaddr Unit)} :
    lookupAt (insertLastAt peers peerId addr ()) peerId' addr' = some () ↔
      (peerId' = peerId ∧ addr' = addr) ∨ lookupAt peers peerId' addr' = some () := by
  rw [lookupAt_insertLastAt]
  split
  · next hkey => exact iff_of_true rfl (Or.inl hkey)
  · next hkey => exact ⟨Or.inr, fun h => h.resolve_left hkey⟩

theorem stored_erase {peers : HashMap PeerId (HashMap Multiaddr Unit)} :
    lookupAt (peers.erase peerId) peerId' addr' = some () ↔
      peerId' ≠ peerId ∧ lookupAt peers peerId' addr' = some () := by
  simp only [lookupAt, lookup_erase]
  split
  · next h => simp [h]
  · next h => simp [h]

theorem mem_insertLastAt {peers : HashMap PeerId (HashMap Multiaddr Unit)} :
    peerId' ∈ insertLastAt peers peerId addr () ↔ peerId' = peerId ∨ peerId' ∈ peers := by
  rw [insertLastAt, mem_insertLast]

/-- What taking out an address does, whoever asks for it. -/
theorem removeAddress_cases (peerId : PeerId) (addr : Multiaddr)
    (store : MemoryStore) :
    (¬Stored store peerId addr ∧ (store.removeAddress peerId addr).2 = store ∧
      ∃ error, (store.removeAddress peerId addr).1 = .error error) ∨
    (Stored store peerId addr ∧ (store.removeAddress peerId addr).1 = .ok () ∧
      ∃ persistent, (store.removeAddress peerId addr).2 =
        { store with
          peers := prune (shiftRemoveAt store.peers peerId addr) peerId
          persistent := persistent } ∧
        ((persistent = store.persistent ∧
            peerId ∈ prune (shiftRemoveAt store.peers peerId addr) peerId) ∨
          (persistent = store.persistent.erase peerId ∧
            peerId ∉ prune (shiftRemoveAt store.peers peerId addr) peerId))) := by
  unfold MemoryStore.removeAddress Stored lookupAt
  split
  · next hnone => simp [hnone]
  · next list hlist =>
    split
    · next hnone => simp [hlist, hnone]
    · next u hu =>
      refine Or.inr ⟨by simpa [hlist] using hu, rfl, _, rfl, ?_⟩
      have hlookup : (shiftRemoveAt store.peers peerId addr).lookup peerId =
          some (list.erase addr) := by
        rw [lookup_shiftRemoveAt, if_pos rfl, hlist, Option.map_some]
      split
      · next hlen =>
        refine Or.inr ⟨rfl, ?_⟩
        rw [prune, hlookup]
        simp [hlen, mem_iff_exists_lookup]
      · next hlen =>
        refine Or.inl ⟨rfl, ?_⟩
        rw [prune, hlookup]
        simp [hlen, mem_iff_exists_lookup, hlookup]

theorem stored_removeAddress :
    Stored (store.removeAddress peerId addr).2 peerId' addr' ↔
      ¬(peerId' = peerId ∧ addr' = addr) ∧ Stored store peerId' addr' := by
  rcases removeAddress_cases peerId addr store with
    ⟨hnot, heq, -⟩ | ⟨-, -, persistent, heq, -⟩
  · rw [heq]
    refine ⟨fun h => ⟨?_, h⟩, And.right⟩
    rintro ⟨rfl, rfl⟩
    exact hnot h
  · rw [heq]
    simp only [Stored, lookupAt_prune, lookupAt_shiftRemoveAt]
    split
    · next hkey => simp [hkey]
    · next hkey => simp [hkey]

theorem mem_of_stored (h : Stored store peerId addr) : peerId ∈ store.peers := by
  obtain ⟨list, hlist, -⟩ := stored_iff.mp h
  exact mem_of_lookup hlist

theorem mem_prune_of_ne {peers : HashMap PeerId (HashMap Multiaddr Unit)}
    (hne : peerId' ≠ peerId) :
    peerId' ∈ prune (shiftRemoveAt peers peerId addr) peerId ↔ peerId' ∈ peers := by
  refine Iff.trans ?_ (mem_shiftRemoveAt (k := peerId) (i := addr))
  unfold prune
  split
  · rfl
  · split
    · simp [AList.mem_erase, hne]
    · rfl

/-- A peer stays persistent while it has an address, and only then. -/
theorem persistent_removeAddress
    (hknown : ∀ p ∈ store.persistent, p ∈ store.peers) :
    (∀ p ∈ (store.removeAddress peerId addr).2.persistent,
      p ∈ (store.removeAddress peerId addr).2.peers) ∧
    ((store.removeAddress peerId addr).2.persistent ⊆ store.persistent) ∧
    ∀ p ∈ store.persistent, p ∈ (store.removeAddress peerId addr).2.peers →
      p ∈ (store.removeAddress peerId addr).2.persistent := by
  rcases removeAddress_cases peerId addr store with
    ⟨-, heq, -⟩ | ⟨-, -, persistent, heq, ⟨rfl, hmem⟩ | ⟨rfl, hmem⟩⟩
  · rw [heq]
    exact ⟨hknown, subset_rfl, fun p hp _ => hp⟩
  · rw [heq]
    refine ⟨fun p hp => ?_, subset_rfl, fun p hp _ => hp⟩
    by_cases hpeer : p = peerId
    · rwa [hpeer]
    · exact (mem_prune_of_ne hpeer).mpr (hknown p hp)
  · rw [heq]
    refine ⟨fun p hp => ?_, Finset.erase_subset _ _, fun p hp hin => ?_⟩
    · obtain ⟨hpeer, hp⟩ := Finset.mem_erase.mp hp
      exact (mem_prune_of_ne hpeer).mpr (hknown p hp)
    · refine Finset.mem_erase.mpr ⟨?_, hp⟩
      rintro rfl
      exact hmem hin

theorem removeAddress_connections :
    (store.removeAddress peerId addr).2.connections = store.connections := by
  rcases removeAddress_cases peerId addr store with
    ⟨-, heq, -⟩ | ⟨-, -, persistent, heq, -⟩ <;> rw [heq]

theorem removeAddress_timer :
    (store.removeAddress peerId addr).2.timer = store.timer := by
  rcases removeAddress_cases peerId addr store with
    ⟨-, heq, -⟩ | ⟨-, -, persistent, heq, -⟩ <;> rw [heq]

theorem noEmpty_removeAddress (h : NoEmpty store.peers) :
    NoEmpty (store.removeAddress peerId addr).2.peers := by
  rcases removeAddress_cases peerId addr store with
    ⟨-, heq, -⟩ | ⟨-, -, persistent, heq, -⟩
  · rwa [heq]
  · rw [heq]
    exact h.shiftRemoveAt_prune

theorem stillConnected_iff
    {connections : HashMap (PeerId × ConnectionId) Multiaddr} :
    MemoryStore.stillConnected peerId addr connections = true ↔
      ∃ connectionId, connections.lookup (peerId, connectionId) = some addr := by
  unfold MemoryStore.stillConnected
  rw [any_entries_iff]
  constructor
  · rintro ⟨⟨peerId', connectionId⟩, addr', hlookup, hkey⟩
    simp only [Bool.and_eq_true, beq_iff_eq] at hkey
    obtain ⟨rfl, rfl⟩ := hkey
    exact ⟨connectionId, hlookup⟩
  · rintro ⟨connectionId, hlookup⟩
    exact ⟨(peerId, connectionId), addr, hlookup, by simp⟩

theorem mem_timer_connectionClosed {connectionId : ConnectionId}
    {key : PeerId × Multiaddr} :
    key ∈ (store.connectionClosed peerId connectionId addr).timer ↔
      (key = (peerId, addr) ∧ peerId ∉ store.persistent ∧
        ∀ other, (store.connections.erase (peerId, connectionId)).lookup
          (peerId, other) ≠ some addr) ∨
      key ∈ store.timer := by
  have hstill : (!MemoryStore.stillConnected peerId addr
      (store.connections.erase (peerId, connectionId))) = true ↔
        ∀ other, (store.connections.erase (peerId, connectionId)).lookup
          (peerId, other) ≠ some addr := by
    rw [Bool.not_eq_true', ← Bool.not_eq_true, stillConnected_iff, not_exists]
  simp only [MemoryStore.connectionClosed]
  split
  · next hset =>
    rw [hstill] at hset
    simp [Finset.mem_insert, hset.1, hset.2]
  · next hset =>
    rw [hstill] at hset
    refine ⟨Or.inr, fun hmem => hmem.resolve_left ?_⟩
    exact fun hkey => hset ⟨hkey.2.2, hkey.2.1⟩

/-! ## Connected addresses -/

/-- What is kept for a set of live connections. -/
structure Kept (store : MemoryStore)
    (live : List (PeerId × ConnectionId × Multiaddr)) : Prop where
  tracked : ∀ peerId connectionId addr,
    store.connections.lookup (peerId, connectionId) = some addr ↔
      (peerId, connectionId, addr) ∈ live
  idle : ∀ peerId connectionId addr,
    (peerId, addr) ∈ store.timer → (peerId, connectionId, addr) ∉ live
  temporary : ∀ peerId addr, Stored store peerId addr →
    peerId ∉ store.persistent →
      (∃ connectionId, (peerId, connectionId, addr) ∈ live) ∨
        (peerId, addr) ∈ store.timer
  nonempty : NoEmpty store.peers
  known : ∀ peerId ∈ store.persistent, peerId ∈ store.peers

variable {live : List (PeerId × ConnectionId × Multiaddr)}

/-- Storing an address of a persistent peer. -/
theorem Kept.persist (h : Kept store live) (peerId : PeerId) (addr : Multiaddr)
    {timer : Finset (PeerId × Multiaddr)}
    (hsub : timer ⊆ store.timer)
    (htimer : ∀ p a, (p, a) ∈ store.timer → p ≠ peerId → (p, a) ∈ timer) :
    Kept
      { store with
        persistent := insert peerId store.persistent
        timer := timer
        peers := insertLastAt store.peers peerId addr () } live := by
  refine ⟨h.tracked, ?_, ?_, h.nonempty.insertLastAt, ?_⟩
  · exact fun p c a hmem => h.idle p c a (hsub hmem)
  · intro p a hstored hpersistent
    rw [Finset.mem_insert, not_or] at hpersistent
    have hold := (stored_insertLastAt.mp hstored).resolve_left
      fun hkey => hpersistent.1 hkey.1
    exact (h.temporary p a hold hpersistent.2).imp_right
      fun hmem => htimer p a hmem hpersistent.1
  · intro p hp
    rcases Finset.mem_insert.mp hp with rfl | hp
    · exact mem_insertLastAt.mpr (Or.inl rfl)
    · exact mem_insertLastAt.mpr (Or.inr (h.known p hp))

theorem Kept.insert (h : Kept store live) (peerId : PeerId) (addr : Multiaddr) :
    Kept (store.insert peerId addr).2 live := by
  refine h.persist peerId addr (Finset.erase_subset _ _) ?_
  intro p a hmem hne
  exact Finset.mem_erase.mpr ⟨fun hkey => hne (Prod.mk.inj hkey).1, hmem⟩

theorem Kept.newExternalAddrOfPeer (h : Kept store live) (peerId : PeerId)
    (addr : Multiaddr) : Kept (store.newExternalAddrOfPeer peerId addr) live :=
  h.persist peerId addr subset_rfl fun _ _ hmem _ => hmem

theorem Kept.remove (h : Kept store live) (peerId : PeerId) :
    Kept (store.remove peerId).2 live := by
  unfold MemoryStore.remove
  split
  · refine ⟨h.tracked, h.idle, ?_, ?_, ?_⟩
    · intro p a hstored hpersistent
      obtain ⟨hne, hstored⟩ := stored_erase.mp hstored
      refine h.temporary p a hstored fun hp => hpersistent ?_
      exact Finset.mem_erase.mpr ⟨hne, hp⟩
    · intro p list hlist
      exact h.nonempty p list (lookup_erase_some.mp hlist).2
    · intro p hp
      obtain ⟨hne, hp⟩ := Finset.mem_erase.mp hp
      exact AList.mem_erase.mpr ⟨hne, h.known p hp⟩
  · exact h

/-- Taking out an address, together with its timer if it has fired. -/
theorem Kept.removeAddress (h : Kept store live) (peerId : PeerId)
    (addr : Multiaddr) {timer : Finset (PeerId × Multiaddr)}
    (hsub : timer ⊆ store.timer)
    (htimer : ∀ key ∈ store.timer, key ≠ (peerId, addr) → key ∈ timer) :
    Kept (MemoryStore.removeAddress peerId addr { store with timer := timer }).2
      live := by
  have hpersistent :=
    @persistent_removeAddress { store with timer := timer } peerId addr h.known
  refine ⟨?_, ?_, ?_, noEmpty_removeAddress h.nonempty, hpersistent.1⟩
  · rw [removeAddress_connections]
    exact h.tracked
  · rw [removeAddress_timer]
    exact fun p c a hmem => h.idle p c a (hsub hmem)
  · intro p a hstored hnot
    obtain ⟨hne, hold⟩ := stored_removeAddress.mp hstored
    rw [removeAddress_timer]
    have hbefore : p ∉ store.persistent :=
      fun hp => hnot (hpersistent.2.2 p hp (mem_of_stored hstored))
    refine (h.temporary p a hold hbefore).imp_right fun hmem => ?_
    exact htimer _ hmem fun hkey => hne (Prod.mk.inj hkey)

theorem Kept.timerFired (h : Kept store live) (key : PeerId × Multiaddr) :
    Kept (store.timerFired key) live := by
  unfold MemoryStore.timerFired
  split
  · refine h.removeAddress key.1 key.2 (Finset.erase_subset _ _) ?_
    exact fun other hmem hne => Finset.mem_erase.mpr ⟨hne, hmem⟩
  · exact h

theorem Kept.poll (h : Kept store live) (ready : List (PeerId × Multiaddr)) :
    Kept (store.poll ready) live := by
  induction ready generalizing store with
  | nil => exact h
  | cons key rest ih => exact ih (h.timerFired key)

theorem Kept.connectionEstablished (h : Kept store live) (peerId : PeerId)
    (connectionId : ConnectionId) (addr : Multiaddr)
    (hunused : ∀ p a, (p, connectionId, a) ∉ live) :
    Kept (store.connectionEstablished peerId connectionId addr)
      (live ++ [(peerId, connectionId, addr)]) := by
  refine ⟨?_, ?_, ?_, h.nonempty.insertLastAt, ?_⟩
  · intro p c a
    rw [List.mem_append, List.mem_singleton, ← h.tracked]
    simp only [MemoryStore.connectionEstablished, lookup_insertLast, Prod.mk.injEq]
    split
    · next hkey =>
      obtain ⟨rfl, rfl⟩ := hkey
      rw [h.tracked]
      simp [hunused, eq_comm]
    · next hkey =>
      refine ⟨Or.inl, fun hmem => hmem.resolve_right ?_⟩
      exact fun hnew => hkey ⟨hnew.1, hnew.2.1⟩
  · intro p c a hmem
    obtain ⟨hne, hmem⟩ := Finset.mem_erase.mp hmem
    rw [List.mem_append, List.mem_singleton, not_or]
    refine ⟨h.idle p c a hmem, fun hnew => hne ?_⟩
    cases hnew
    rfl
  · intro p a hstored hpersistent
    rcases stored_insertLastAt.mp hstored with ⟨rfl, rfl⟩ | hold
    · exact Or.inl ⟨connectionId, by simp⟩
    · by_cases hkey : (p, a) = (peerId, addr)
      · cases hkey
        exact Or.inl ⟨connectionId, by simp⟩
      · refine (h.temporary p a hold hpersistent).imp ?_ ?_
        · exact fun ⟨c, hc⟩ => ⟨c, List.mem_append_left _ hc⟩
        · exact fun hmem => Finset.mem_erase.mpr ⟨hkey, hmem⟩
  · exact fun p hp => mem_insertLastAt.mpr (Or.inr (h.known p hp))

theorem Kept.connectionClosed (h : Kept store live) (peerId : PeerId)
    (connectionId : ConnectionId) (addr : Multiaddr)
    (hreported : (peerId, connectionId, addr) ∈ live) :
    Kept (store.connectionClosed peerId connectionId addr)
      (live.filter (· ≠ (peerId, connectionId, addr))) := by
  have htracked : ∀ p c a,
      (store.connections.erase (peerId, connectionId)).lookup (p, c) = some a ↔
        (p, c, a) ∈ live.filter (· ≠ (peerId, connectionId, addr)) := by
    intro p c a
    rw [lookup_erase_some, List.mem_filter, h.tracked]
    constructor
    · rintro ⟨hne, hmem⟩
      refine ⟨hmem, decide_eq_true fun heq => hne ?_⟩
      cases heq
      rfl
    · rintro ⟨hmem, hne⟩
      refine ⟨fun hkey => ?_, hmem⟩
      cases hkey
      -- the id determines the address
      have hsame := (h.tracked _ _ _).mpr hmem
      rw [(h.tracked _ _ _).mpr hreported] at hsame
      cases hsame
      exact of_decide_eq_true hne rfl
  refine ⟨htracked, ?_, ?_, h.nonempty, h.known⟩
  · intro p c a hmem
    rcases mem_timer_connectionClosed.mp hmem with ⟨hkey, -, hgone⟩ | hmem
    · cases hkey
      exact fun hlive => hgone c ((htracked _ _ _).mpr hlive)
    · exact fun hlive => h.idle p c a hmem (List.mem_of_mem_filter hlive)
  · intro p a hstored hpersistent
    rcases h.temporary p a hstored hpersistent with ⟨c, hlive⟩ | hmem
    · by_cases hother : ∃ c, (p, c, a) ∈
          live.filter (· ≠ (peerId, connectionId, addr))
      · exact Or.inl hother
      · -- this was the last connection with the address
        have hclosed : (p, c, a) = (peerId, connectionId, addr) := by
          by_contra hne
          exact hother ⟨c, List.mem_filter.mpr ⟨hlive, decide_eq_true hne⟩⟩
        cases hclosed
        refine Or.inr (mem_timer_connectionClosed.mpr (Or.inl ⟨rfl, hpersistent, ?_⟩))
        exact fun c hlookup => hother ⟨c, (htracked _ _ _).mp hlookup⟩
    · exact Or.inr (mem_timer_connectionClosed.mpr (Or.inr hmem))

/-! ## Timers that fire -/

variable {key : PeerId × Multiaddr} {ready : List (PeerId × Multiaddr)}

theorem timerFired_timer : (store.timerFired key).timer = store.timer.erase key := by
  unfold MemoryStore.timerFired
  split
  · exact removeAddress_timer
  · next hmem => exact (Finset.erase_eq_of_notMem hmem).symm

theorem stored_timerFired :
    Stored (store.timerFired key) peerId addr ↔
      Stored store peerId addr ∧ ¬((peerId, addr) = key ∧ key ∈ store.timer) := by
  unfold MemoryStore.timerFired
  split
  · next hmem =>
    rw [stored_removeAddress, and_comm, iff_true_intro hmem, and_true, Prod.ext_iff]
    rfl
  · next hmem => exact ⟨fun h => ⟨h, fun hkey => hmem hkey.2⟩, And.left⟩

/-- A poll takes out the timers that it finds ready. -/
theorem poll_timer :
    key ∈ (store.poll ready).timer ↔ key ∈ store.timer ∧ key ∉ ready := by
  induction ready generalizing store with
  | nil => simp [MemoryStore.poll]
  | cons fired rest ih =>
      unfold MemoryStore.poll at ih ⊢
      rw [List.foldl_cons, ih, timerFired_timer, Finset.mem_erase, List.mem_cons, not_or]
      tauto

/-- A poll takes out the addresses whose timers it finds ready, and no others. -/
theorem stored_poll :
    Stored (store.poll ready) peerId addr ↔
      Stored store peerId addr ∧
        ¬((peerId, addr) ∈ ready ∧ (peerId, addr) ∈ store.timer) := by
  induction ready generalizing store with
  | nil => simp [MemoryStore.poll]
  | cons fired rest ih =>
      unfold MemoryStore.poll at ih ⊢
      rw [List.foldl_cons, ih, stored_timerFired, timerFired_timer, Finset.mem_erase,
        List.mem_cons]
      by_cases hfired : (peerId, addr) = fired
      · subst hfired
        tauto
      · tauto

/-! ## Every run -/

theorem kept_fromIter (iter : List (PeerId × Multiaddr)) :
    Kept (fromIter iter) [] := by
  have hempty : Kept .empty [] := by
    refine ⟨?_, ?_, ?_, noEmpty_empty, ?_⟩
    · simp [MemoryStore.empty]
    · simp
    · simp [Stored, MemoryStore.empty, lookupAt]
    · simp [MemoryStore.empty]
  unfold fromIter
  generalize MemoryStore.empty = store at hempty ⊢
  induction iter generalizing store with
  | nil => exact hempty
  | cons e rest ih =>
      exact ih _ (hempty.persist e.1 e.2 subset_rfl fun _ _ hmem _ => hmem)

/-- The connections of a run were established in it. -/
structure RunInv (w : World) : Prop where
  kept : Kept w.store w.live
  established : ∀ peerId connectionId addr,
    (peerId, connectionId, addr) ∈ w.live →
      ∃ store, (store, .connectionEstablished peerId connectionId addr) ∈ w.history

theorem RunInv.step {w : World} {i : Input} (h : RunInv w) (hi : Contract w i) :
    RunInv (step i w) := by
  constructor
  · cases i with
    | insert peerId addr => exact h.kept.insert peerId addr
    | remove peerId => exact h.kept.remove peerId
    | removeAddress peerId addr =>
        exact h.kept.removeAddress peerId addr subset_rfl fun _ hmem _ => hmem
    | newExternalAddrOfPeer peerId addr =>
        exact h.kept.newExternalAddrOfPeer peerId addr
    | connectionEstablished peerId connectionId addr =>
        refine h.kept.connectionEstablished peerId connectionId addr ?_
        intro p a hmem
        obtain ⟨store, hstore⟩ := h.established p connectionId a hmem
        exact hi.unused _ _ _ rfl store p a hstore
    | connectionClosed peerId connectionId addr =>
        exact h.kept.connectionClosed peerId connectionId addr
          (hi.reported _ _ _ rfl)
    | poll ready => exact h.kept.poll ready
  · intro p c a hmem
    have hold : (p, c, a) ∈ w.live → ∃ store,
        (store, .connectionEstablished p c a) ∈ (PeerStore.step i w).history := by
      intro hmem
      obtain ⟨store, hstore⟩ := h.established p c a hmem
      exact ⟨store, List.mem_append_left _ hstore⟩
    cases i with
    | connectionEstablished peerId connectionId addr =>
        rcases List.mem_append.mp hmem with hmem | hmem
        · exact hold hmem
        · cases List.mem_singleton.mp hmem
          exact ⟨w.store, List.mem_append_right _ (List.mem_singleton_self _)⟩
    | connectionClosed peerId connectionId addr =>
        exact hold (List.mem_of_mem_filter hmem)
    | _ => exact hold hmem

theorem runInv_of_reachable {w : World} (h : service.Reachable Contract w) :
    RunInv w := by
  refine h.invariant ?_ fun w i hw hi => hw.step hi
  rintro w ⟨iter, rfl⟩
  exact ⟨kept_fromIter iter, by simp [World.new]⟩

/-- Connected addresses are kept, the others of a peer that is not persistent
wait for their timer and go when it fires, and nothing is stored for a peer
without addresses. -/
theorem connected_addresses_kept {w : World} (h : service.Reachable Contract w) :
    (∀ peerId connectionId addr, (peerId, connectionId, addr) ∈ w.live →
      (peerId, addr) ∉ w.store.timer ∧
      ∀ ready, Stored w.store peerId addr →
        Stored (w.store.poll ready) peerId addr) ∧
    (∀ peerId addr, Stored w.store peerId addr → peerId ∉ w.store.persistent →
      (∃ connectionId, (peerId, connectionId, addr) ∈ w.live) ∨
        (peerId, addr) ∈ w.store.timer) ∧
    (∀ peerId addr, (peerId, addr) ∈ w.store.timer →
      ∀ ready, (peerId, addr) ∈ ready →
        ¬Stored (w.store.poll ready) peerId addr ∧
        (peerId, addr) ∉ (w.store.poll ready).timer) ∧
    (∀ peerId list, w.store.peers.lookup peerId = some list → len list ≠ 0) ∧
    ∀ peerId ∈ w.store.persistent, peerId ∈ w.store.peers := by
  have hkept := (runInv_of_reachable h).kept
  refine ⟨?_, hkept.temporary, ?_, hkept.nonempty, hkept.known⟩
  · intro peerId connectionId addr hlive
    have htimer : (peerId, addr) ∉ w.store.timer :=
      fun hmem => hkept.idle peerId connectionId addr hmem hlive
    exact ⟨htimer, fun ready hstored =>
      stored_poll.mpr ⟨hstored, fun hfired => htimer hfired.2⟩⟩
  · intro peerId addr htimer ready hready
    exact ⟨fun hstored => (stored_poll.mp hstored).2 ⟨hready, htimer⟩,
      fun hmem => (poll_timer.mp hmem).2 hready⟩

/-- Check the contract of the swarm. -/
def contract (w : World) (i : Input) : Bool :=
  match i with
  | .connectionEstablished _ connectionId _ => w.history.all fun
      | (_, .connectionEstablished _ used _) => decide (used ≠ connectionId)
      | _ => true
  | .connectionClosed peerId connectionId addr =>
      decide ((peerId, connectionId, addr) ∈ w.live)
  | _ => true

theorem contract_of_check (w : World) (i : Input) (h : contract w i = true) :
    Contract w i := by
  constructor
  · rintro peerId connectionId addr rfl store peerId' addr' hmem
    simpa using List.all_eq_true.mp h _ hmem
  · rintro peerId connectionId addr rfl
    exact of_decide_eq_true h

/-- Two connections share an address, of which the first is closed; the only
connection with another address is closed too. -/
def closeOneOfTwo : List Input :=
  [.connectionEstablished 8 0 [.tcp 1], .connectionEstablished 8 1 [.tcp 1],
    .connectionEstablished 9 2 [.tcp 2], .connectionClosed 8 0 [.tcp 1],
    .connectionClosed 9 2 [.tcp 2], .poll [(8, [.tcp 1])]]

/-- The next poll takes out the address that is not connected any more. -/
theorem connected_addresses_kept_closeOneOfTwo :
    ∃ w, service.Reachable Contract w ∧ (8, [.tcp 1]) ∉ w.store.timer ∧
      Stored w.store 8 [.tcp 1] ∧ Stored w.store 9 [.tcp 2] ∧
      Stored (w.store.poll [(9, [.tcp 2]), (8, [.tcp 1])]) 8 [.tcp 1] ∧
      ¬Stored (w.store.poll [(9, [.tcp 2]), (8, [.tcp 1])]) 9 [.tcp 2] ∧
      7 ∈ w.store.peers := by
  obtain ⟨w, hw, hlive, hstored, hgone, htimer, hpersistent⟩ :=
    Service.exists_reachable_of_run (S := service) contract_of_check
      (World.new [(7, [.tcp 3])]) ⟨_, rfl⟩ closeOneOfTwo
      (fun w => (8, 1, [.tcp 1]) ∈ w.live ∧
        lookupAt w.store.peers 8 [.tcp 1] = some () ∧
        lookupAt w.store.peers 9 [.tcp 2] = some () ∧
        (9, [.tcp 2]) ∈ w.store.timer ∧ 7 ∈ w.store.persistent) (by decide)
  obtain ⟨hconnected, -, hfired, -, hknown⟩ := connected_addresses_kept hw
  obtain ⟨hidle, hkept⟩ := hconnected 8 1 [.tcp 1] hlive
  exact ⟨w, hw, hidle, hstored, hgone, hkept _ hstored,
    (hfired 9 [.tcp 2] htimer _ List.mem_cons_self).1, hknown 7 hpersistent⟩

/-! ## Explicitly learned addresses -/

/-- The input adds the address explicitly. -/
def Input.Learns (i : Input) (peerId : PeerId) (addr : Multiaddr) : Prop :=
  i = .insert peerId addr ∨ i = .newExternalAddrOfPeer peerId addr

/-- The input is a call that takes the address out of the store. -/
def Input.TakesOut (i : Input) (store : MemoryStore) (peerId : PeerId)
    (addr : Multiaddr) : Prop :=
  (i = .remove peerId ∧ ∃ list, (store.remove peerId).1 = .ok list ∧ addr ∈ list) ∨
    (i = .removeAddress peerId addr ∧ (store.removeAddress peerId addr).1 = .ok ())

/-- The address was added explicitly, and no call has taken it out since. -/
def Explicit (history : List (MemoryStore × Input)) (peerId : PeerId)
    (addr : Multiaddr) : Prop :=
  ∃ before store i after, history = before ++ (store, i) :: after ∧
    i.Learns peerId addr ∧ ∀ e ∈ after, ¬e.2.TakesOut e.1 peerId addr

theorem explicit_snoc {history : List (MemoryStore × Input)} {i : Input} :
    Explicit (history ++ [(store, i)]) peerId addr ↔
      i.Learns peerId addr ∨
        (Explicit history peerId addr ∧ ¬i.TakesOut store peerId addr) := by
  constructor
  · rintro ⟨before, store', j, after, heq, hlearns, hafter⟩
    rcases snoc_eq_append_cons_iff.mp heq with
      ⟨rest, rfl, rfl⟩ | ⟨rfl, hlast, rfl⟩
    · refine Or.inr ⟨⟨before, store', j, rest, rfl, hlearns, ?_⟩, ?_⟩
      · exact fun e he => hafter e (List.mem_append_left _ he)
      · exact hafter _ (List.mem_append_right _ (List.mem_singleton_self _))
    · cases hlast
      exact Or.inl hlearns
  · rintro (hlearns | ⟨⟨before, store', j, after, rfl, hlearns, hafter⟩, hkept⟩)
    · exact ⟨history, store, i, [], rfl, hlearns, by simp⟩
    · refine ⟨before, store', j, after ++ [(store, i)], by simp, hlearns, ?_⟩
      intro e he
      rcases List.mem_append.mp he with he | he
      · exact hafter e he
      · rw [List.mem_singleton.mp he]
        exact hkept

/-- No external address is reported while its clean-up timer is pending. -/
def Timely (w : World) (i : Input) : Prop :=
  ∀ peerId addr, i = .newExternalAddrOfPeer peerId addr →
    (peerId, addr) ∉ w.store.timer

/-- How an explicitly learned address stands in the store. -/
structure Held (store : MemoryStore) (peerId : PeerId) (addr : Multiaddr) :
    Prop where
  stored : Stored store peerId addr
  persistent : peerId ∈ store.persistent
  idle : (peerId, addr) ∉ store.timer

theorem held_of_learns {w : World} {i : Input} (hi : Timely w i)
    (h : i.Learns peerId addr) : Held (serve i w.store) peerId addr := by
  rcases h with rfl | rfl
  · refine ⟨stored_insertLastAt.mpr (Or.inl ⟨rfl, rfl⟩), ?_, ?_⟩
    · exact Finset.mem_insert_self _ _
    · exact Finset.notMem_erase _ _
  · refine ⟨stored_insertLastAt.mpr (Or.inl ⟨rfl, rfl⟩), ?_, hi peerId addr rfl⟩
    exact Finset.mem_insert_self _ _

theorem Held.removeAddress_of_ne (h : Held store peerId addr)
    (hne : ¬(peerId = peerId' ∧ addr = addr')) {timer : Finset (PeerId × Multiaddr)}
    (hsub : timer ⊆ store.timer) :
    Held (MemoryStore.removeAddress peerId' addr' { store with timer := timer }).2
      peerId addr := by
  have hstored : Stored (MemoryStore.removeAddress peerId' addr'
      { store with timer := timer }).2 peerId addr :=
    stored_removeAddress.mpr ⟨hne, h.stored⟩
  refine ⟨hstored, ?_, ?_⟩
  · rcases removeAddress_cases peerId' addr' { store with timer := timer } with
      ⟨-, heq, -⟩ | ⟨-, -, persistent, heq, ⟨rfl, -⟩ | ⟨rfl, hnot⟩⟩
    · rw [heq]
      exact h.persistent
    · rw [heq]
      exact h.persistent
    · rw [heq] at hstored ⊢
      refine Finset.mem_erase.mpr ⟨?_, h.persistent⟩
      rintro rfl
      exact hnot (mem_of_stored hstored)
  · rw [removeAddress_timer]
    exact fun hmem => h.idle (hsub hmem)

theorem Held.timerFired (h : Held store peerId addr)
    (key : PeerId × Multiaddr) : Held (store.timerFired key) peerId addr := by
  unfold MemoryStore.timerFired
  split
  · next hmem =>
    refine h.removeAddress_of_ne ?_ (Finset.erase_subset _ _)
    rintro ⟨rfl, rfl⟩
    exact h.idle hmem
  · exact h

theorem Held.poll (h : Held store peerId addr)
    (ready : List (PeerId × Multiaddr)) : Held (store.poll ready) peerId addr := by
  induction ready generalizing store with
  | nil => exact h
  | cons key rest ih => exact ih (h.timerFired key)

/-- Only a call that takes the address out ends this. -/
theorem Held.serve {i : Input} (h : Held store peerId addr)
    (hi : ¬i.TakesOut store peerId addr) : Held (serve i store) peerId addr := by
  cases i with
  | insert p a =>
      refine ⟨stored_insertLastAt.mpr (Or.inr h.stored), ?_, ?_⟩
      · exact Finset.mem_insert_of_mem h.persistent
      · exact fun hmem => h.idle (Finset.mem_of_mem_erase hmem)
  | remove p =>
      simp only [PeerStore.serve, MemoryStore.remove]
      split
      · next list hlist =>
        have hne : peerId ≠ p := by
          rintro rfl
          obtain ⟨list', hlist', hmem⟩ := stored_iff.mp h.stored
          refine hi (Or.inl ⟨rfl, list'.keys, ?_, hmem⟩)
          simp [MemoryStore.remove, hlist']
        exact ⟨stored_erase.mpr ⟨hne, h.stored⟩,
          Finset.mem_erase.mpr ⟨hne, h.persistent⟩, h.idle⟩
      · exact h
  | removeAddress p a =>
      refine h.removeAddress_of_ne ?_ subset_rfl
      rintro ⟨rfl, rfl⟩
      rcases removeAddress_cases peerId addr store with
        ⟨hnot, -⟩ | ⟨-, hok, -⟩
      · exact hnot h.stored
      · exact hi (Or.inr ⟨rfl, hok⟩)
  | newExternalAddrOfPeer p a =>
      exact ⟨stored_insertLastAt.mpr (Or.inr h.stored),
        Finset.mem_insert_of_mem h.persistent, h.idle⟩
  | connectionEstablished p c a =>
      refine ⟨stored_insertLastAt.mpr (Or.inr h.stored), h.persistent, ?_⟩
      exact fun hmem => h.idle (Finset.mem_of_mem_erase hmem)
  | connectionClosed p c a =>
      refine ⟨h.stored, h.persistent, fun hmem => ?_⟩
      rcases mem_timer_connectionClosed.mp hmem with ⟨hkey, hnot, -⟩ | hmem
      · cases hkey
        exact hnot h.persistent
      · exact h.idle hmem
  | poll ready => exact h.poll ready

theorem held_of_explicit {w : World} (h : service.Reachable Timely w)
    (hexplicit : Explicit w.history peerId addr) :
    Held w.store peerId addr := by
  revert hexplicit
  induction h with
  | init hinit =>
      obtain ⟨iter, rfl⟩ := hinit
      rintro ⟨before, store, i, after, heq, -⟩
      simp [World.new] at heq
  | step _ hi ih =>
      intro hexplicit
      rcases explicit_snoc.mp hexplicit with hlearns | ⟨hold, hkept⟩
      · exact held_of_learns hi hlearns
      · exact (ih hold).serve hkept

/-- In runs that report no external address while its clean-up timer is
pending, an explicitly learned address is returned until a call takes it out.
An address that is reported earlier is gone as soon as the timer fires. -/
theorem explicit_addresses_returned (w : World) :
    (service.Reachable Timely w →
      ∀ peerId addr, Explicit w.history peerId addr →
        ∃ list, w.store.address peerId = .ok list ∧ addr ∈ list) ∧
    ∀ i, service.Reachable (fun _ _ => True) w → ¬Timely w i →
      ∃ peerId addr, Explicit
          (step (.poll [(peerId, addr)]) (step i w)).history peerId addr ∧
        ∀ list, (step (.poll [(peerId, addr)]) (step i w)).store.address peerId =
          .ok list → addr ∉ list := by
  refine ⟨?_, ?_⟩
  · exact fun hw peerId addr hexplicit =>
      (held_of_explicit hw hexplicit).stored.address
  · intro i _ hi
    simp only [Timely, not_forall, not_not] at hi
    obtain ⟨peerId, addr, rfl, htimer⟩ := hi
    refine ⟨peerId, addr, explicit_snoc.mpr (Or.inr ⟨?_, ?_⟩), ?_⟩
    · exact explicit_snoc.mpr (Or.inl (Or.inr rfl))
    · rintro (⟨hcall, -⟩ | ⟨hcall, -⟩) <;> cases hcall
    · intro list hlist hmem
      have hfired : (step (.poll [(peerId, addr)])
          (step (.newExternalAddrOfPeer peerId addr) w)).store =
          (MemoryStore.removeAddress peerId addr
            { w.store.newExternalAddrOfPeer peerId addr with
              timer := w.store.timer.erase (peerId, addr) }).2 :=
        if_pos htimer
      rw [hfired] at hlist
      have hstored : Stored (MemoryStore.removeAddress peerId addr
          { w.store.newExternalAddrOfPeer peerId addr with
            timer := w.store.timer.erase (peerId, addr) }).2 peerId addr := by
        unfold MemoryStore.address at hlist
        split at hlist
        · cases hlist
        · next addrs haddrs =>
          cases hlist
          exact stored_iff.mpr ⟨addrs, haddrs, hmem⟩
      exact (stored_removeAddress.mp hstored).1 ⟨rfl, rfl⟩

/-- Check that an external address is not reported too early. -/
def timely (w : World) (i : Input) : Bool :=
  match i with
  | .newExternalAddrOfPeer peerId addr => decide ((peerId, addr) ∉ w.store.timer)
  | _ => true

theorem timely_of_check (w : World) (i : Input) (h : timely w i = true) :
    Timely w i := by
  rintro peerId addr rfl
  exact of_decide_eq_true h

/-- An address is stored by hand while its timer is pending, and reported
after that. -/
def insertThenReport : List Input :=
  [.connectionEstablished 8 0 [.tcp 1], .connectionClosed 8 0 [.tcp 1],
    .insert 8 [.tcp 1], .newExternalAddrOfPeer 8 [.tcp 1], .poll [(8, [.tcp 1])]]

theorem explicit_of_inputs {history : List (MemoryStore × Input)}
    {before after : List Input} {i : Input}
    (h : history.map Prod.snd = before ++ i :: after)
    (hlearns : i.Learns peerId addr)
    (hafter : ∀ j ∈ after, j ≠ .remove peerId ∧ j ≠ .removeAddress peerId addr) :
    Explicit history peerId addr := by
  obtain ⟨pre, rest, rfl, -, hrest⟩ := List.map_eq_append_iff.mp h
  obtain ⟨⟨store, j⟩, post, rfl, rfl, hpost⟩ := List.map_eq_cons_iff.mp hrest
  refine ⟨pre, store, j, post, rfl, hlearns, ?_⟩
  intro e he htakes
  have hnot := hafter e.2 (by rw [← hpost]; exact List.mem_map_of_mem he)
  rcases htakes with ⟨hcall, -⟩ | ⟨hcall, -⟩
  · exact hnot.1 hcall
  · exact hnot.2 hcall

theorem explicit_addresses_returned_insertThenReport :
    ∃ w, service.Reachable Timely w ∧ Explicit w.history 8 [.tcp 1] ∧
      ∃ list, w.store.address 8 = .ok list ∧ [.tcp 1] ∈ list := by
  obtain ⟨w, hw, hhistory⟩ :=
    Service.exists_reachable_of_run (S := service) timely_of_check
      (World.new []) ⟨_, rfl⟩ insertThenReport
      (fun w => w.history.map Prod.snd =
        [.connectionEstablished 8 0 [.tcp 1], .connectionClosed 8 0 [.tcp 1]] ++
          .insert 8 [.tcp 1] ::
            [.newExternalAddrOfPeer 8 [.tcp 1], .poll [(8, [.tcp 1])]])
      (by decide)
  have hexplicit := explicit_of_inputs hhistory (Or.inl rfl) (by simp)
  exact ⟨w, hw, hexplicit, (explicit_addresses_returned w).1 hw 8 _ hexplicit⟩

/-- The timer of an earlier connection removes an address that was reported
since. -/
theorem reported_address_expires :
    ∃ w, service.Reachable Contract w ∧ Explicit w.history 8 [.tcp 1] ∧
      w.store.address 8 = .error (.notFound "peer not found") := by
  obtain ⟨w, hw, hhistory, hpeers⟩ :=
    Service.exists_reachable_of_run (S := service) contract_of_check
      (World.new []) ⟨_, rfl⟩
      [.connectionEstablished 8 0 [.tcp 1], .connectionClosed 8 0 [.tcp 1],
        .newExternalAddrOfPeer 8 [.tcp 1], .poll [(8, [.tcp 1])]]
      (fun w => w.history.map Prod.snd =
          [.connectionEstablished 8 0 [.tcp 1], .connectionClosed 8 0 [.tcp 1]] ++
            .newExternalAddrOfPeer 8 [.tcp 1] :: [.poll [(8, [.tcp 1])]] ∧
        w.store.peers.lookup 8 = none) (by decide)
  refine ⟨w, hw, explicit_of_inputs hhistory (Or.inr rfl) (by simp), ?_⟩
  simp [MemoryStore.address, hpeers]

end Connexa.PeerStore
