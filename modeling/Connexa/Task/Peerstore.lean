import Connexa.PeerStore.Tables

/-!
# Peer store commands of the task

The functions follow the `PeerstoreCommand` part of `process_command` and the
`peerstore_ops` of `poll` in `task.rs`, for the in-memory store, and the
behaviour in `behaviour/peer_store.rs`.  The futures of that store are ready when
they are made: their results are those of the moment of the command.  They are
sent when the task polls its set of futures.
-/

namespace Connexa.PeerstoreTask

open HashMap PeerStore

/-! ## The store's behaviour -/

/-- `MemoryStore::list_all` -/
def listAll (store : MemoryStore) : List (PeerId × List Multiaddr) :=
  store.peers.entries.map fun e => (e.1, e.2.keys)

inductive PeerstoreCommand where
  | add (peerId : PeerId) (addr : Multiaddr)
  | removeAddress (peerId : PeerId) (addr : Multiaddr)
  | remove (peerId : PeerId)
  | list (peerId : PeerId)
  | listAll
  deriving DecidableEq

inductive Error where
  | disabled (protocol : String)
  | io (error : IoError)
  deriving DecidableEq

/-- What is sent to a responder. -/
inductive Response where
  | unit (result : Except Error Unit)
  | addresses (result : Except Error (List Multiaddr))
  | peers (result : Except Error (List (PeerId × List Multiaddr)))
  deriving DecidableEq

namespace PeerstoreCommand

/-- The answer when the store is not enabled. -/
def refused : PeerstoreCommand → Response
  | add _ _ | removeAddress _ _ => .unit (.error (.disabled "peerstore"))
  | remove _ | list _ => .addresses (.error (.disabled "peerstore"))
  | listAll => .peers (.error (.disabled "peerstore"))

/-- The call that the command makes, with the result of its future. -/
def call (command : PeerstoreCommand) (store : MemoryStore) : Response × MemoryStore :=
  match command with
  | add peerId addr =>
      (.unit ((store.insert peerId addr).1.mapError .io), (store.insert peerId addr).2)
  | removeAddress peerId addr =>
      (.unit ((store.removeAddress peerId addr).1.mapError .io),
        (store.removeAddress peerId addr).2)
  | remove peerId =>
      (.addresses ((store.remove peerId).1.mapError .io), (store.remove peerId).2)
  | list peerId => (.addresses ((store.address peerId).mapError .io), store)
  | listAll => (.peers (.ok (PeerstoreTask.listAll store)), store)

/-- What the call is for the store. -/
def input : PeerstoreCommand → Option PeerStore.Input
  | add peerId addr => some (.insert peerId addr)
  | removeAddress peerId addr => some (.removeAddress peerId addr)
  | remove peerId => some (.remove peerId)
  | list _ | listAll => none

end PeerstoreCommand

/-! ## The task -/

structure Task where
  /-- The store of the behaviour, if it is enabled. -/
  peerStore : Option MemoryStore
  /-- Futures that hold a responder and its result. -/
  peerstoreOps : List (ℕ × Response)
  /-- The results that were sent, in order. -/
  sent : List (ℕ × Response)

def processCommand (command : PeerstoreCommand) (resp : ℕ) (task : Task) : Task :=
  match task.peerStore with
  | none => { task with sent := task.sent ++ [(resp, command.refused)] }
  | some store =>
      { task with
        peerStore := some (command.call store).2
        peerstoreOps := task.peerstoreOps ++ [(resp, (command.call store).1)] }

inductive Input where
  | command (command : PeerstoreCommand) (resp : ℕ)
  /-- A swarm event, a poll of the behaviour, or a call of the application's own
  callbacks on it. -/
  | behaviour (input : PeerStore.Input)
  /-- The end of a poll of the task.  All futures are found ready; `done` is the
  order in which the set finds them. -/
  | pollOps (done : List (ℕ × Response))
  deriving DecidableEq

def serve (i : Input) (task : Task) : Task :=
  match i with
  | .command command resp => processCommand command resp task
  | .behaviour input =>
      { task with peerStore := task.peerStore.map (PeerStore.serve input) }
  | .pollOps done => { task with peerstoreOps := [], sent := task.sent ++ done }

structure World where
  task : Task
  /-- The responders of the commands so far. -/
  asked : List ℕ

def World.new (enabled : Bool) : World where
  task := ⟨if enabled then some .empty else none, [], []⟩
  asked := []

def step (i : Input) (w : World) : World where
  task := serve i w.task
  asked :=
    match i with
    | .command _ resp => w.asked ++ [resp]
    | _ => w.asked

def service : Service World Input where
  init w := ∃ enabled, w = World.new enabled
  step := step

/-- Each command has a responder of its own, and only timers that are pending are
found ready. -/
structure Contract (w : World) (i : Input) : Prop where
  fresh : ∀ command resp, i = .command command resp → resp ∉ w.asked
  ready : ∀ done, i = .pollOps done → done.Perm w.task.peerstoreOps
  due : ∀ input, i = .behaviour input →
    ∀ store, w.task.peerStore = some store → Due store input

/-! ## What the store is told -/

def Input.input : Input → Option PeerStore.Input
  | .command c _ => c.input
  | .behaviour input => some input
  | .pollOps _ => none

/-- What the store was told so far. -/
def told (trace : List (World × Input)) : List PeerStore.Input :=
  trace.filterMap fun x => x.2.input

/-! ## Answers -/

/-- The addresses of a peer, in some order. -/
structure Lists (known : Multiaddr → Prop) (addrs : List Multiaddr) : Prop where
  nonempty : addrs ≠ []
  nodup : addrs.Nodup
  mem_iff : ∀ addr, addr ∈ addrs ↔ known addr

/-- What a command is answered by a store with the known addresses. -/
def Answers (known : PeerId → Multiaddr → Prop) :
    PeerstoreCommand → Response → Prop
  | .add peerId addr, response =>
      (known peerId addr ∧
        response = .unit (.error (.io (.alreadyExists "address already exists")))) ∨
      (¬known peerId addr ∧ response = .unit (.ok ()))
  | .removeAddress peerId addr, response =>
      (known peerId addr ∧ response = .unit (.ok ())) ∨
      (¬known peerId addr ∧ (∃ other, known peerId other) ∧
        response = .unit (.error (.io (.notFound "address not found")))) ∨
      ((∀ other, ¬known peerId other) ∧
        response = .unit (.error (.io (.notFound "peer not found"))))
  | .remove peerId, response | .list peerId, response =>
      (∃ addrs, Lists (known peerId) addrs ∧ response = .addresses (.ok addrs)) ∨
      ((∀ addr, ¬known peerId addr) ∧
        response = .addresses (.error (.io (.notFound "peer not found"))))
  | .listAll, response =>
      ∃ list, (list.map Prod.fst).Nodup ∧ (∀ e ∈ list, Lists (known e.1) e.2) ∧
        (∀ peerId addr, known peerId addr → peerId ∈ list.map Prod.fst) ∧
        response = .peers (.ok list)

section Calls

variable {store : MemoryStore} {inputs : List PeerStore.Input}
  {command : PeerstoreCommand} {peerId : PeerId}

theorem call_snd :
    (command.call store).2 =
      match command.input with
      | none => store
      | some input => PeerStore.serve input store := by
  cases command <;> rfl

/-- What the store has for a peer. -/
theorem lists_of_lookup {addrs : HashMap Multiaddr Unit} (h : Remembers store inputs)
    (hlookup : store.peers.lookup peerId = some addrs) :
    Lists (fun addr => book.Holds inputs (peerId, addr)) addrs.keys := by
  refine ⟨fun hnil => h.sound.nonempty peerId addrs hlookup ?_, addrs.nodupKeys,
    fun addr => ?_⟩
  · rw [len, ← List.length_map, ← List.keys]
    exact List.length_eq_zero_iff.mpr hnil
  · rw [← h.addresses, Stored, stored_iff, hlookup]
    simp

theorem not_holds_of_lookup (h : Remembers store inputs)
    (hlookup : store.peers.lookup peerId = none) (addr : Multiaddr) :
    ¬book.Holds inputs (peerId, addr) := by
  rw [← h.addresses, Stored, stored_iff, hlookup]
  simp

/-- A call is answered from what the book holds. -/
theorem answers_call (h : Remembers store inputs) :
    Answers (fun peerId addr => book.Holds inputs (peerId, addr)) command
      (command.call store).1 := by
  cases command with
  | add p a =>
      simp only [Answers, PeerstoreCommand.call, MemoryStore.insert,
        ← h.addresses, Stored]
      cases hlookup : lookupAt store.peers p a with
      | none => exact Or.inr ⟨by simp, rfl⟩
      | some u => exact Or.inl ⟨rfl, rfl⟩
  | removeAddress p a =>
      cases hlookup : store.peers.lookup p with
      | none =>
          refine Or.inr (Or.inr ⟨not_holds_of_lookup h hlookup, ?_⟩)
          simp [PeerstoreCommand.call, MemoryStore.removeAddress, hlookup,
            Except.mapError]
      | some addrs =>
          have hlists := lists_of_lookup h hlookup
          cases haddr : addrs.lookup a with
          | none =>
              obtain ⟨other, hother⟩ := List.exists_mem_of_ne_nil _ hlists.nonempty
              refine Or.inr (Or.inl ⟨fun hholds => ?_,
                ⟨other, (hlists.mem_iff other).mp hother⟩, ?_⟩)
              · exact AList.lookup_eq_none.mp haddr ((hlists.mem_iff a).mpr hholds)
              · simp [PeerstoreCommand.call, MemoryStore.removeAddress, hlookup, haddr,
                  Except.mapError]
          | some u =>
              refine Or.inl ⟨(hlists.mem_iff a).mp (mem_of_lookup haddr), ?_⟩
              simp [PeerstoreCommand.call, MemoryStore.removeAddress, hlookup, haddr,
                Except.mapError]
  | remove p =>
      cases hlookup : store.peers.lookup p with
      | none =>
          refine Or.inr ⟨not_holds_of_lookup h hlookup, ?_⟩
          simp [PeerstoreCommand.call, MemoryStore.remove, hlookup, Except.mapError]
      | some addrs =>
          refine Or.inl ⟨addrs.keys, lists_of_lookup h hlookup, ?_⟩
          simp [PeerstoreCommand.call, MemoryStore.remove, hlookup, Except.mapError]
  | list p =>
      cases hlookup : store.peers.lookup p with
      | none =>
          refine Or.inr ⟨not_holds_of_lookup h hlookup, ?_⟩
          simp [PeerstoreCommand.call, MemoryStore.address, hlookup, Except.mapError]
      | some addrs =>
          refine Or.inl ⟨addrs.keys, lists_of_lookup h hlookup, ?_⟩
          simp [PeerstoreCommand.call, MemoryStore.address, hlookup, Except.mapError]
  | listAll =>
      refine ⟨listAll store, ?_, fun e he => ?_, fun p a hholds => ?_, rfl⟩
      · have hkeys := store.peers.nodupKeys
        simpa [listAll, List.NodupKeys, List.keys, Function.comp_def] using hkeys
      · obtain ⟨entry, hentry, rfl⟩ := List.mem_map.mp he
        exact lists_of_lookup h (AList.mem_lookup_iff.mpr hentry)
      · obtain ⟨addrs, hlookup, -⟩ := stored_iff.mp ((h.addresses p a).mpr hholds)
        have hmem : (⟨p, addrs⟩ : Σ _ : PeerId, HashMap Multiaddr Unit) ∈
            store.peers.entries := AList.mem_lookup_iff.mp hlookup
        exact List.mem_map.mpr ⟨_, List.mem_map_of_mem hmem, rfl⟩

end Calls

/-! ## Runs -/

/-- The response is what the responder's command has to be answered. -/
def Answered (trace : List (World × Input)) (op : ℕ × Response) : Prop :=
  ∃ before w command after, trace = before ++ (w, .command command op.1) :: after ∧
    if w.task.peerStore.isSome then
      Answers (fun peerId addr => book.Holds (told before) (peerId, addr)) command op.2
    else op.2 = command.refused

structure RunInv (trace : List (World × Input)) (w : World) : Prop where
  remembers : ∀ store, w.task.peerStore = some store → Remembers store (told trace)
  answered : ∀ op ∈ w.task.sent ++ w.task.peerstoreOps, Answered trace op
  asked : ((w.task.sent ++ w.task.peerstoreOps).map Prod.fst).Perm w.asked
  distinct : w.asked.Nodup

variable {trace : List (World × Input)} {w : World} {i : Input}

theorem Answered.snoc {op : ℕ × Response} (h : Answered trace op) (x : World × Input) :
    Answered (trace ++ [x]) op := by
  obtain ⟨before, w, command, after, rfl, hresponse⟩ := h
  exact ⟨before, w, command, after ++ [x], by simp, hresponse⟩

theorem peerStore_serve (i : Input) (task : Task) :
    (serve i task).peerStore = task.peerStore.map fun store =>
      match i.input with
      | none => store
      | some input => PeerStore.serve input store := by
  cases i with
  | command command resp =>
      simp only [serve, processCommand]
      cases task.peerStore with
      | none => rfl
      | some store => exact congrArg some call_snd
  | behaviour input => rfl
  | pollOps done => simp [serve, Input.input]

theorem told_snoc : told (trace ++ [(w, i)]) = told trace ++ i.input.toList := by
  rw [told, List.filterMap_append, ← told]
  cases hinput : i.input <;> simp [hinput]

/-- The calls of the task's commands find no timers ready. -/
theorem Contract.due_input (hi : Contract w i) {input : PeerStore.Input}
    (hinput : i.input = some input) {store : MemoryStore}
    (hstore : w.task.peerStore = some store) : Due store input := by
  cases i with
  | command command resp =>
      rintro ready rfl
      cases command <;> cases hinput
  | behaviour input' =>
      cases hinput
      exact hi.due _ rfl store hstore
  | pollOps done => cases hinput

/-- What a step does to the store is in the trace. -/
theorem RunInv.remembers_step (h : RunInv trace w) (hi : Contract w i)
    {store : MemoryStore} (hstore : (serve i w.task).peerStore = some store) :
    Remembers store (told (trace ++ [(w, i)])) := by
  rw [peerStore_serve] at hstore
  obtain ⟨before, hbefore, rfl⟩ := Option.map_eq_some_iff.mp hstore
  have hremembers := h.remembers before hbefore
  rw [told_snoc]
  cases hinput : i.input with
  | none => rwa [Option.toList_none, List.append_nil]
  | some input => exact hremembers.serve (hi.due_input hinput hbefore)

/-- A command is answered, at once or by its future. -/
theorem RunInv.answered_step (h : RunInv trace w)
    (command : PeerstoreCommand) (resp : ℕ) :
    ∃ response, Answered (trace ++ [(w, .command command resp)]) (resp, response) ∧
      (((processCommand command resp w.task).sent = w.task.sent ++ [(resp, response)] ∧
        (processCommand command resp w.task).peerstoreOps = w.task.peerstoreOps) ∨
      ((processCommand command resp w.task).sent = w.task.sent ∧
        (processCommand command resp w.task).peerstoreOps =
          w.task.peerstoreOps ++ [(resp, response)])) := by
  unfold processCommand
  cases hstore : w.task.peerStore with
  | none =>
      refine ⟨command.refused, ⟨trace, w, command, [], rfl, ?_⟩, Or.inl ⟨rfl, rfl⟩⟩
      simp [hstore]
  | some store =>
      refine ⟨(command.call store).1, ⟨trace, w, command, [], rfl, ?_⟩, Or.inr ⟨rfl, rfl⟩⟩
      rw [hstore, Option.isSome_some, if_pos rfl]
      exact answers_call (h.remembers store hstore)

theorem RunInv.step (h : RunInv trace w) (hi : Contract w i) :
    RunInv (trace ++ [(w, i)]) (step i w) := by
  have hold : ∀ op ∈ w.task.sent ++ w.task.peerstoreOps,
    Answered (trace ++ [(w, i)]) op :=
    fun op hop => (h.answered op hop).snoc (w, i)
  cases i with
  | command command resp =>
      obtain ⟨response, hanswered, hsent⟩ := h.answered_step command resp
      have hperm : ((processCommand command resp w.task).sent ++
          (processCommand command resp w.task).peerstoreOps).Perm
            ((w.task.sent ++ w.task.peerstoreOps) ++ [(resp, response)]) := by
        rcases hsent with ⟨hsent, hops⟩ | ⟨hsent, hops⟩
        · rw [hsent, hops, List.append_assoc, List.append_assoc]
          exact List.perm_append_comm.append_left _
        · rw [hsent, hops, List.append_assoc]
      refine ⟨fun store => h.remembers_step hi, fun op hop => ?_, ?_, ?_⟩
      · rcases List.mem_append.mp (hperm.mem_iff.mp hop) with hop | hop
        · exact hold op hop
        · rw [List.mem_singleton.mp hop]
          exact hanswered
      · refine (hperm.map Prod.fst).trans ?_
        rw [List.map_append]
        exact h.asked.append_right _
      · exact List.nodup_append_comm.mp
          (List.nodup_cons.mpr ⟨hi.fresh _ _ rfl, h.distinct⟩)
  | behaviour input =>
      exact ⟨fun store => h.remembers_step hi, hold, h.asked, h.distinct⟩
  | pollOps done =>
      have hperm :
          (w.task.sent ++ done ++ []).Perm (w.task.sent ++ w.task.peerstoreOps) := by
        rw [List.append_nil]
        exact (hi.ready done rfl).append_left _
      exact ⟨fun store => h.remembers_step hi, fun op hop =>
        hold op (hperm.mem_iff.mp hop),
        (hperm.map Prod.fst).trans h.asked, h.distinct⟩

/-- Check the contract. -/
def contract (w : World) (i : Input) : Bool :=
  match i with
  | .command _ resp => decide (resp ∉ w.asked)
  | .behaviour (.poll ready) => w.task.peerStore.all fun store =>
      decide (∀ key ∈ ready, key ∈ store.timer)
  | .behaviour _ => true
  | .pollOps done => decide (done.Perm w.task.peerstoreOps)

theorem contract_of_check (w : World) (i : Input) (h : contract w i = true) :
    Contract w i := by
  constructor
  · rintro command resp rfl
    exact of_decide_eq_true h
  · rintro done rfl
    exact of_decide_eq_true h
  · rintro input rfl store hstore ready rfl
    simpa [contract, hstore] using h

end Connexa.PeerstoreTask
