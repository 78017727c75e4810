import Connexa.Support.Standing
import Connexa.Task.SwarmAnswers

/-!
# The addresses of a listener

The task keeps the addresses of its listeners in a table of its own, next to
libp2p's.  `GetListeningAddress` is answered from that table.
-/

namespace Connexa.SwarmTask

open HashMap

/-- The addresses of a listener, as libp2p reports them. -/
def announcements (id : ListenerId) : Board (World × Input) Multiaddr where
  puts x :=
    match x.2 with
    | .newListenAddr listenerId address => if listenerId = id then [address] else []
    | _ => []
  takes x address :=
    match x.2 with
    | .expiredListenAddr listenerId expired =>
        decide (listenerId = id ∧ expired = address)
    | .listenerClosed listenerId _ => decide (listenerId = id)
    | .removeListener listenerId _ => decide (listenerId = id) && x.1.swarm.canRemove id
    | _ => false

/-- What the table holds for a listener with the addresses. -/
def listed (addrs : List Multiaddr) : Option (List Multiaddr) :=
  if addrs = [] then none else some addrs

/-- What `GetListeningAddress` is answered for a listener with the addresses. -/
def addressAnswer (addrs : List Multiaddr) : Except Error (List Multiaddr) :=
  if addrs = [] then .error (.notFound "listener") else .ok addrs

variable {w : World} {i : Input} {id : ListenerId} {addrs : List Multiaddr}

/-- Inputs that do not touch the table. -/
theorem lookup_serve_of_same
    (hsame : (serve i w).listenerAddresses = w.task.listenerAddresses)
    (htakes : ∀ address, (announcements id).takes (w, i) address = false)
    (hputs : (announcements id).puts (w, i) = [])
    (h : w.task.listenerAddresses.lookup id = listed addrs) :
    (serve i w).listenerAddresses.lookup id =
      listed (addrs.filter (fun address => !(announcements id).takes (w, i) address) ++
        (announcements id).puts (w, i)) := by
  have hfilter : addrs.filter (fun address => !(announcements id).takes (w, i) address) =
      addrs := List.filter_eq_self.mpr fun address _ => by rw [htakes]; rfl
  rw [hsame, h, hputs, hfilter, List.append_nil]

@[simp] theorem sendTo_listenerAddresses (resp : Option ℕ) (response : Response)
    (task : Task) : (task.sendTo resp response).listenerAddresses =
      task.listenerAddresses := rfl

/-- What a step makes of the table. -/
theorem lookup_serve (h : w.task.listenerAddresses.lookup id = listed addrs) :
    (serve i w).listenerAddresses.lookup id =
      listed (addrs.filter (fun address => !(announcements id).takes (w, i) address) ++
        (announcements id).puts (w, i)) := by
  cases i with
  | dial connectionId resp refusal =>
      refine lookup_serve_of_same ?_ (fun _ => rfl) rfl h
      cases refusal <;> rfl
  | disconnectPeer peerId resp =>
      refine lookup_serve_of_same ?_ (fun _ => rfl) rfl h
      simp only [serve, Task.disconnectPeer]
      split <;> rfl
  | disconnectConnection connectionId resp =>
      refine lookup_serve_of_same ?_ (fun _ => rfl) rfl h
      simp only [serve, Task.disconnectConnection]
      split <;> rfl
  | listenOn resp answer =>
      refine lookup_serve_of_same ?_ (fun _ => rfl) rfl h
      cases answer <;> rfl
  | getListeningAddress known resp =>
      refine lookup_serve_of_same ?_ (fun _ => rfl) rfl h
      simp only [serve, Task.getListeningAddress]
      split <;> rfl
  | connectionClosed connectionId peerId cause =>
      refine lookup_serve_of_same ?_ (fun _ => rfl) rfl h
      simp only [serve, Task.connectionClosed]
      split <;> rfl
  | removeListener listenerId resp =>
      simp only [serve, Task.removeListener, announcements, List.append_nil]
      by_cases hremoved : w.swarm.canRemove listenerId = true
      · rw [if_pos hremoved]
        change (w.task.listenerAddresses.erase listenerId).lookup id = _
        rw [lookup_erase, h]
        by_cases hid : listenerId = id
        · subst hid
          simp [hremoved, listed]
        · simp [hid, Ne.symm hid]
      · rw [if_neg hremoved]
        by_cases hid : listenerId = id
        · subst hid
          simp [Task.send, hremoved, h]
        · simp [Task.send, hid, h]
  | newListenAddr listenerId address =>
      simp only [serve, Task.newListenAddr, sendTo_listenerAddresses, announcements,
        Bool.not_false, List.filter_true]
      rw [lookup_insert]
      by_cases hid : listenerId = id
      · subst hid
        have haddrs : (listed addrs).getD [] = addrs := by
          by_cases hnil : addrs = []
          · simp [listed, hnil]
          · simp [listed, hnil]
        rw [if_pos rfl, if_pos rfl, h, haddrs, listed, if_neg (by simp)]
      · rw [if_neg (Ne.symm hid), if_neg hid, List.append_nil, h]
  | expiredListenAddr listenerId address =>
      simp only [serve, Task.expiredListenAddr, announcements, List.append_nil]
      by_cases hid : listenerId = id
      · subst hid
        have hkept : addrs.filter
            (fun known => !decide (listenerId = listenerId ∧ address = known)) =
              addrs.filter (· ≠ address) :=
          List.filter_congr fun known _ => by simp [eq_comm]
        rw [hkept]
        by_cases hnil : addrs = []
        · simp [h, hnil, listed]
        · simp only [h, listed, if_neg hnil]
          split
          · exact (lookup_erase _ _ _).trans (if_pos rfl)
          · exact lookup_insert_self _ _ _
      · have hkept : addrs.filter
            (fun known => !decide (listenerId = id ∧ address = known)) = addrs :=
          List.filter_eq_self.mpr fun known _ => by simp [hid]
        rw [hkept, ← h]
        split
        · rfl
        · dsimp only
          split
          · exact (lookup_erase _ _ _).trans (if_neg (Ne.symm hid))
          · exact (lookup_insert _ _ _ _).trans (if_neg (Ne.symm hid))
  | listenerClosed listenerId reason =>
      simp only [serve, Task.listenerClosed, sendTo_listenerAddresses, announcements,
        List.append_nil]
      rw [lookup_erase, h]
      by_cases hid : listenerId = id
      · subst hid
        simp [listed]
      · simp [hid, Ne.symm hid]
  | _ => exact lookup_serve_of_same rfl (fun _ => rfl) rfl h

theorem listenOn_of_sendTo {task : Task} {resp : ℕ} {target : Option ℕ}
    {response : Response}
    (h : (resp, .listenOn (.ok id)) ∈ (task.sendTo target response).sent)
    (hother : response ≠ .listenOn (.ok id)) :
    (resp, .listenOn (.ok id)) ∈ task.sent := by
  rcases List.mem_append.mp h with h | h
  · exact h
  · obtain ⟨r, -, heq⟩ := Option.map_eq_some_iff.mp (Option.mem_toList.mp h)
    cases heq
    exact absurd rfl hother

theorem listenOn_of_send {task : Task} {resp r : ℕ} {response : Response}
    (h : (resp, .listenOn (.ok id)) ∈ (task.send r response).sent)
    (hother : response ≠ .listenOn (.ok id)) :
    (resp, .listenOn (.ok id)) ∈ task.sent :=
  @listenOn_of_sendTo id task resp (some r) response h hother

/-- Nothing but an address report answers `ListenOn` with a listener. -/
theorem listenOn_serve {resp : ℕ} (h : (resp, .listenOn (.ok id)) ∈ (serve i w).sent) :
    (resp, .listenOn (.ok id)) ∈ w.task.sent ∨ ∃ address,
    i = .newListenAddr id address := by
  cases i with
  | dial connectionId r refusal =>
      cases refusal with
      | none => exact Or.inl h
      | some e => exact Or.inl (listenOn_of_send h (by simp))
  | disconnectPeer peerId r =>
      simp only [serve, Task.disconnectPeer] at h
      split at h
      · exact Or.inl h
      · exact Or.inl (listenOn_of_send h (by simp))
  | disconnectConnection connectionId r =>
      simp only [serve, Task.disconnectConnection] at h
      split at h
      · exact Or.inl h
      · exact Or.inl (listenOn_of_send h (by simp))
  | listenOn r answer =>
      cases answer with
      | error e => exact Or.inl (listenOn_of_send h (by simp))
      | ok known => exact Or.inl h
  | getListeningAddress known r =>
      simp only [serve, Task.getListeningAddress] at h
      split at h
      · exact Or.inl (listenOn_of_send h (by simp))
      · exact Or.inl (listenOn_of_send h (by simp))
  | removeListener listenerId r =>
      simp only [serve, Task.removeListener] at h
      split at h
      · exact Or.inl h
      · exact Or.inl (listenOn_of_send h (by simp))
  | connectionEstablished connectionId peerId =>
      exact Or.inl (listenOn_of_sendTo h (by simp))
  | outgoingConnectionError connectionId error =>
      exact Or.inl (listenOn_of_sendTo h (by simp))
  | connectionClosed connectionId peerId cause =>
      simp only [serve, Task.connectionClosed] at h
      split at h
      · exact Or.inl (listenOn_of_send h (by simp))
      · exact Or.inl (listenOn_of_send h (by simp))
      · exact Or.inl (listenOn_of_send (listenOn_of_send h (by simp)) (by simp))
      · exact Or.inl h
  | newListenAddr listenerId address =>
      by_cases hid : listenerId = id
      · exact Or.inr ⟨address, by rw [hid]⟩
      · refine Or.inl (listenOn_of_sendTo h fun heq => hid ?_)
        cases heq
        rfl
  | expiredListenAddr listenerId address =>
      simp only [serve, Task.expiredListenAddr] at h
      split at h <;> exact Or.inl h
  | listenerClosed listenerId reason =>
      exact Or.inl (listenOn_of_sendTo (listenOn_of_sendTo h (by simp)) (by simp))
  | _ => exact Or.inl h

/-- A listener is open until it is reported closed. -/
theorem mem_listeners_follow {swarm : Swarm} (h : id ∈ swarm.listeners)
    (hopen : ∀ reason, i ≠ .listenerClosed id reason) :
    id ∈ (follow i swarm).listeners := by
  obtain ⟨listener, hlookup⟩ := mem_iff_exists_lookup.mp h
  cases i with
  | listenOn r answer =>
      cases answer with
      | error e => exact h
      | ok known => exact (AList.mem_insert _).mpr (Or.inr h)
  | behaviourListens known => exact (AList.mem_insert _).mpr (Or.inr h)
  | removeListener known r =>
      exact mem_of_lookup (lookup_update_some.mpr ⟨listener, hlookup, rfl⟩)
  | newListenAddr known address =>
      exact mem_of_lookup (lookup_update_some.mpr ⟨listener, hlookup, rfl⟩)
  | listenerClosed known reason =>
      refine AList.mem_erase.mpr ⟨fun heq => hopen reason ?_, h⟩
      rw [heq]
  | _ => exact h

/-- How the table stands in a run. -/
structure AddressInv (trace : List (World × Input)) (w : World) : Prop where
  table : ∀ id,
    w.task.listenerAddresses.lookup id = listed ((announcements id).standing trace)
  listening : ∀ id, (announcements id).standing trace ≠ [] → id ∈ w.swarm.listeners
  answered : ∀ resp id, (resp, .listenOn (.ok id)) ∈ w.task.sent →
    ∃ x ∈ trace, ∃ address, x.2 = .newListenAddr id address

theorem AddressInv.listening_step {trace : List (World × Input)} (h : AddressInv trace w)
    (hi : Contract w i)
    (hstands : (announcements id).standing (trace ++ [(w, i)]) ≠ []) :
    id ∈ (follow i w.swarm).listeners := by
  rw [Board.standing_snoc] at hstands
  by_cases hreport : ∃ address, i = .newListenAddr id address
  · obtain ⟨address, rfl⟩ := hreport
    exact mem_listeners_follow (hi.announced _ _ rfl) nofun
  · have hputs : (announcements id).puts (w, i) = [] := by
      cases i with
      | newListenAddr known address =>
          exact if_neg fun heq => hreport ⟨address, by rw [heq]⟩
      | _ => rfl
    rw [hputs, List.append_nil] at hstands
    refine mem_listeners_follow (h.listening id fun hnil => hstands ?_) ?_
    · rw [hnil, List.filter_nil]
    · rintro reason rfl
      refine hstands (List.filter_eq_nil_iff.mpr fun address _ => ?_)
      simp [announcements]

theorem addressInv_of_traced {trace : List (World × Input)}
    (h : service.Traced Contract trace w) : AddressInv trace w := by
  induction h with
  | init h =>
      cases h
      exact ⟨fun id => rfl, fun id hid => absurd rfl hid, nofun⟩
  | @step trace w i hw hi ih =>
      refine ⟨fun id => ?_, fun id => ih.listening_step hi, fun resp id hsent => ?_⟩
      · rw [Board.standing_snoc]
        exact lookup_serve (ih.table id)
      · rcases listenOn_serve hsent with hold | ⟨address, rfl⟩
        · obtain ⟨x, hx, hreport⟩ := ih.answered _ _ hold
          exact ⟨x, List.mem_append_left _ hx, hreport⟩
        · exact ⟨_, List.mem_append_right _ (List.mem_singleton_self _), address, rfl⟩

/-- `GetListeningAddress` is answered with the addresses that libp2p reported for
the listener, in order, but for those that it reported expired since and those
from before the listener was closed or removed; with none left the listener is
not found.  The table has no entries for closed listeners, and a listener that
`ListenOn` was answered with has reported an address. -/
theorem listening_addresses_told {trace : List (World × Input)}
    (h : service.Traced Contract trace w) :
    (∀ id resp, w.task.getListeningAddress id resp =
      w.task.send resp (.listeningAddress
        (addressAnswer ((announcements id).standing trace)))) ∧
    (∀ id, id ∈ w.task.listenerAddresses → id ∈ w.swarm.listeners) ∧
    ∀ resp id, (resp, .listenOn (.ok id)) ∈ w.task.sent →
      ∃ x ∈ trace, ∃ address, x.2 = .newListenAddr id address := by
  have hinv := addressInv_of_traced h
  refine ⟨fun id resp => ?_, fun id hid => ?_, hinv.answered⟩
  · unfold Task.getListeningAddress
    rw [hinv.table id]
    by_cases hnil : (announcements id).standing trace = []
    · simp [listed, addressAnswer, hnil]
    · simp [listed, addressAnswer, hnil]
  · obtain ⟨addrs, haddrs⟩ := mem_iff_exists_lookup.mp hid
    refine hinv.listening id fun hnil => ?_
    rw [hinv.table id, hnil] at haddrs
    cases haddrs

/-- A listener reports two addresses, one of them twice, and loses the other. -/
def twoAddresses : List Input :=
  [.listenOn 0 (.ok 3), .newListenAddr 3 [.tcp 1], .newListenAddr 3 [.tcp 2],
    .newListenAddr 3 [.tcp 1], .expiredListenAddr 3 [.tcp 2]]

theorem listening_addresses_told_twoAddresses :
    ∃ trace w, service.Traced Contract trace w ∧ trace.map Prod.snd = twoAddresses ∧
      w.task.getListeningAddress 3 1 =
        w.task.send 1 (.listeningAddress (.ok [[.tcp 1], [.tcp 1]])) := by
  obtain ⟨trace, w, hinputs, htrace, -⟩ :=
    Service.exists_traced_of_run (S := service) contract_of_check World.new rfl
      twoAddresses (fun _ => True) (by decide)
  have hanswer := (listening_addresses_told htrace).1 3 1
  refine ⟨trace, w, htrace, hinputs, hanswer.trans ?_⟩
  obtain ⟨x₁, trace, rfl, h₁, hinputs⟩ := List.map_eq_cons_iff.mp hinputs
  obtain ⟨x₂, trace, rfl, h₂, hinputs⟩ := List.map_eq_cons_iff.mp hinputs
  obtain ⟨x₃, trace, rfl, h₃, hinputs⟩ := List.map_eq_cons_iff.mp hinputs
  obtain ⟨x₄, trace, rfl, h₄, hinputs⟩ := List.map_eq_cons_iff.mp hinputs
  obtain ⟨x₅, trace, rfl, h₅, hinputs⟩ := List.map_eq_cons_iff.mp hinputs
  cases List.map_eq_nil_iff.mp hinputs
  congr 2
  simp [Board.standing, announcements, h₁, h₂, h₃, h₄, h₅, addressAnswer]

end Connexa.SwarmTask
