import Connexa.Multiaddr
import Connexa.Support.Lines
import Connexa.Support.Runs

/-!
# The rendezvous part of the task

The functions follow `task/rendezvous.rs`, and `fail_pending_rendezvous` of
`task/swarm.rs`.  Registrations and discoveries are two request lines, with the
peer of a key as its group; `pending_rendezvous_register` and
`pending_rendezvous_discover` are their queues.  The requests in flight are
those of libp2p's rendezvous client, which the task does not see.
-/

namespace Connexa.Rendezvous

/-- `libp2p::rendezvous::Namespace` -/
abbrev Namespace := String

/-- `libp2p::rendezvous::Cookie` -/
structure Cookie where
  id : BitVec 64
  ns : Option Namespace
  deriving DecidableEq

/-- The error codes of the protocol. -/
inductive ErrorCode where
  | invalidNamespace
  | invalidSignedPeerRecord
  | invalidTtl
  | invalidCookie
  | notAuthorized
  | internalError
  | unavailable
  deriving DecidableEq

/-- Why the client refuses to start a registration. -/
inductive RegisterError where
  | noExternalAddresses
  | failedToMakeRecord
  deriving DecidableEq

inductive Error where
  /-- `Error::Disabled` for the rendezvous protocol. -/
  | disabled
  /-- `io::Error::other` around the client's error. -/
  | other (error : RegisterError)
  | rendezvous (code : ErrorCode)
  | notConnected (peerId : PeerId)
  deriving DecidableEq

structure Registration where
  peerId : PeerId
  addresses : List Multiaddr
  ns : Namespace
  ttl : ℕ

abbrev RegisterResponse := Except Error Unit

/-- `RendezvousDiscoverResponse` -/
abbrev DiscoverResponse := Except Error (Cookie × List (PeerId × List Multiaddr))

abbrev RegisterKey := PeerId × Namespace

abbrev DiscoverKey := PeerId × Option Namespace

abbrev RegisterLine := Line RegisterKey (Option ℕ) PeerId RegisterResponse

abbrev DiscoverLine :=
  Line DiscoverKey (Option Cookie × Option ℕ) PeerId DiscoverResponse

structure Task where
  /-- The behaviour has a rendezvous client. -/
  enabled : Bool
  register : RegisterLine
  discover : DiscoverLine
  /-- The answers to `Unregister` commands. -/
  unregistered : List (ℕ × RegisterResponse)

def Task.new (enabled : Bool) : Task where
  enabled := enabled
  register := .empty
  discover := .empty
  unregistered := []

/-! ## Commands -/

inductive Command where
  | register (ns : Namespace) (peerId : PeerId) (ttl : Option ℕ) (resp : ℕ)
  | unregister (ns : Namespace) (peerId : PeerId) (resp : ℕ)
  | discover (ns : Option Namespace) (peerId : PeerId) (cookie : Option Cookie)
      (ttl : Option ℕ) (resp : ℕ)
  deriving DecidableEq

/-- The refusal of `start_rendezvous_discovery`, if it does not start one. -/
def startRendezvousDiscovery (task : Task) : Option DiscoverResponse :=
  if task.enabled then none else some (.error .disabled)

/-- The refusal of `start_rendezvous_registration`; `answer` is the client's. -/
def startRendezvousRegistration (task : Task) (answer : Option RegisterError) :
    Option RegisterResponse :=
  if task.enabled then answer.map fun error => .error (.other error)
  else some (.error .disabled)

def processRendezvousCommand (command : Command) (answer : Option RegisterError)
    (task : Task) : Task :=
  match command with
  | .register ns peerId ttl resp =>
      { task with
        register := task.register.ask (peerId, ns) ttl resp
          (startRendezvousRegistration task answer) }
  | .unregister _ _ resp =>
      { task with
        unregistered := task.unregistered ++
          [(resp, if task.enabled then .ok () else .error .disabled)] }
  | .discover ns peerId cookie ttl resp =>
      { task with
        discover := task.discover.ask (peerId, ns) (cookie, ttl) resp
          (startRendezvousDiscovery task) }

/-! ## Completions -/

/-- `RendezvousClientEvent` -/
inductive ClientEvent where
  | discovered (rendezvousNode : PeerId) (registrations : List Registration)
      (cookie : Cookie)
  | discoverFailed (rendezvousNode : PeerId) (ns : Option Namespace)
      (error : ErrorCode)
  | registered (rendezvousNode : PeerId) (ttl : ℕ) (ns : Namespace)
  | registerFailed (rendezvousNode : PeerId) (ns : Namespace) (error : ErrorCode)
  | expired (peer : PeerId)

/-- `discovered_peers` -/
def discoveredPeers (registrations : List Registration) :
    List (PeerId × List Multiaddr) :=
  registrations.map fun registration =>
    (registration.peerId, registration.addresses)

def finishRendezvousDiscovery (key : DiscoverKey) (result : DiscoverResponse)
    (task : Task) : Task :=
  { task with
    discover := task.discover.finish key result
      fun _ => startRendezvousDiscovery task }

/-- `answers n` is the client's answer to the attempt with number `n`. -/
def finishRendezvousRegistration (key : RegisterKey) (result : RegisterResponse)
    (answers : ℕ → Option RegisterError) (task : Task) : Task :=
  { task with
    register := task.register.finish key result
      fun n => startRendezvousRegistration task (answers n) }

def processRendezvousClientEvent (event : ClientEvent)
    (answers : ℕ → Option RegisterError) (task : Task) : Task :=
  match event with
  | .discovered rendezvousNode registrations cookie =>
      finishRendezvousDiscovery (rendezvousNode, cookie.ns)
        (.ok (cookie, discoveredPeers registrations)) task
  | .discoverFailed rendezvousNode ns error =>
      finishRendezvousDiscovery (rendezvousNode, ns)
        (.error (.rendezvous error)) task
  | .registered rendezvousNode _ ns =>
      finishRendezvousRegistration (rendezvousNode, ns) (.ok ()) answers task
  | .registerFailed rendezvousNode ns error =>
      finishRendezvousRegistration (rendezvousNode, ns)
        (.error (.rendezvous error)) answers task
  | .expired _ => task

/-! ## Disconnections -/

def failPendingRendezvous (peerId : PeerId) (task : Task) : Task :=
  { task with
    discover := task.discover.failGroup Prod.fst peerId (.error (.notConnected peerId))
    register :=
      task.register.failGroup Prod.fst peerId (.error (.notConnected peerId)) }

/-- The rendezvous part of `ConnectionClosed`. -/
def connectionClosed (peerId : PeerId) (numEstablished : ℕ) (task : Task) : Task :=
  if numEstablished = 0 then failPendingRendezvous peerId task else task

/-! ## Runs -/

inductive Input where
  /-- A command; `answer` is the client's answer if a request is started. -/
  | command (command : Command) (answer : Option RegisterError)
  /-- The client reports the completion of the request with number `id`. -/
  | event (id : ℕ) (event : ClientEvent) (answers : ℕ → Option RegisterError)
  /-- The client renews a registration. -/
  | renew (key : RegisterKey)
  | connectionClosed (peerId : PeerId) (numEstablished : ℕ)

/-- What the completion means for the request that it completes. -/
def clientReports (id : ℕ) (event : ClientEvent) (task : Task) : Task :=
  match event with
  | .discovered _ registrations cookie =>
      { task with
        discover := task.discover.leave id
          (.ok (cookie, discoveredPeers registrations)) }
  | .discoverFailed _ _ error =>
      { task with discover := task.discover.leave id (.error (.rendezvous error)) }
  | .registered _ _ _ => { task with register := task.register.leave id (.ok ()) }
  | .registerFailed _ _ error =>
      { task with register := task.register.leave id (.error (.rendezvous error)) }
  | .expired _ => task

/-- The requests to a peer belong to a connection that is closed. -/
def disconnect (peerId : PeerId) (numEstablished : ℕ) (task : Task) : Task :=
  if numEstablished = 0 then
    { task with
      discover := task.discover.disconnect Prod.fst peerId
      register := task.register.disconnect Prod.fst peerId }
  else task

/-- Note the responder of a command. -/
def recordCommand (command : Command) (task : Task) : Task :=
  match command with
  | .register ns peerId _ resp =>
      { task with register := task.register.record (.asked (peerId, ns) resp) }
  | .unregister _ _ _ => task
  | .discover ns peerId _ _ resp =>
      { task with discover := task.discover.record (.asked (peerId, ns) resp) }

def step (i : Input) (task : Task) : Task :=
  match i with
  | .command command answer =>
      processRendezvousCommand command answer (recordCommand command task)
  | .event id event answers =>
      processRendezvousClientEvent event answers (clientReports id event task)
  | .renew key => { task with register := task.register.start key none }
  | .connectionClosed peerId numEstablished =>
      connectionClosed peerId numEstablished
        (disconnect peerId numEstablished task)

def service : Service Task Input where
  init task := ∃ enabled, task = Task.new enabled
  step := step

/-! ## What the client promises -/

/-- The event reports a request in flight, with its peer and the namespace that
the client knows; the cookie of `Discovered` is the node's. -/
def ClientEvent.Reports (event : ClientEvent) (id : ℕ) (task : Task) : Prop :=
  match event with
  | .discovered rendezvousNode _ _ =>
      ∃ r ∈ task.discover.inFlight, r.id = id ∧ r.key.1 = rendezvousNode
  | .discoverFailed rendezvousNode ns _ =>
      ∃ r ∈ task.discover.inFlight, r.id = id ∧ r.key = (rendezvousNode, ns)
  | .registered rendezvousNode _ ns =>
      ∃ r ∈ task.register.inFlight, r.id = id ∧ r.key = (rendezvousNode, ns)
  | .registerFailed rendezvousNode ns _ =>
      ∃ r ∈ task.register.inFlight, r.id = id ∧ r.key = (rendezvousNode, ns)
  | .expired _ => True

/-- The responders of commands are their own. -/
def Command.Fresh (command : Command) (task : Task) : Prop :=
  match command with
  | .register _ _ _ resp => resp ∉ (Line.asked task.register.log).map Prod.snd
  | .unregister _ _ _ => True
  | .discover _ _ _ _ resp => resp ∉ (Line.asked task.discover.log).map Prod.snd

/-- Commands have their own responders, and are read when the requests of closed
connections were reported; the client reports each request once. -/
structure Contract (task : Task) (i : Input) : Prop where
  fresh : ∀ command answer, i = .command command answer → command.Fresh task
  drained : ∀ command answer, i = .command command answer →
    (∀ r ∈ task.discover.inFlight, r.stale = false) ∧
      ∀ r ∈ task.register.inFlight, r.stale = false
  reported : ∀ id event answers, i = .event id event answers →
    event.Reports id task

/-- The cookie of `Discovered` names the namespace that was asked for, unless
the connection of the request is closed. -/
def HonestCookie (task : Task) (i : Input) : Prop :=
  ∀ id rendezvousNode registrations cookie answers,
    i = .event id (.discovered rendezvousNode registrations cookie) answers →
      ∀ r ∈ task.discover.inFlight, r.id = id → r.stale = false →
        r.key.2 = cookie.ns

/-- A renewal is not reported while a command for its key waits. -/
def Undisturbed (task : Task) (i : Input) : Prop :=
  ∀ id event answers, i = .event id event answers →
    ∀ rendezvousNode ns,
      ((∃ ttl, event = .registered rendezvousNode ttl ns) ∨
        ∃ error, event = .registerFailed rendezvousNode ns error) →
      ∀ r ∈ task.register.inFlight, r.id = id → r.command = none →
        task.register.queues.lookup (rendezvousNode, ns) = none

/-- The client starts no requests by itself. -/
def Unrenewed (_ : Task) (i : Input) : Prop :=
  ∀ key, i ≠ .renew key

/-! ## Concrete runs -/

instance (event : ClientEvent) (id : ℕ) (task : Task) :
    Decidable (event.Reports id task) :=
  match event with
  | .discovered _ _ _ => List.decidableBEx _ _
  | .discoverFailed _ _ _ => List.decidableBEx _ _
  | .registered _ _ _ => List.decidableBEx _ _
  | .registerFailed _ _ _ => List.decidableBEx _ _
  | .expired _ => isTrue trivial

instance (command : Command) (task : Task) : Decidable (command.Fresh task) :=
  match command with
  | .register _ _ _ resp =>
      inferInstanceAs (Decidable (resp ∉ (Line.asked task.register.log).map Prod.snd))
  | .unregister _ _ _ => isTrue trivial
  | .discover _ _ _ _ resp =>
      inferInstanceAs (Decidable (resp ∉ (Line.asked task.discover.log).map Prod.snd))

/-- Check the contract. -/
def contract (task : Task) (i : Input) : Bool :=
  match i with
  | .command command _ => decide (command.Fresh task) &&
      decide (∀ r ∈ task.discover.inFlight, r.stale = false) &&
      decide (∀ r ∈ task.register.inFlight, r.stale = false)
  | .event id event _ => decide (event.Reports id task)
  | _ => true

theorem contract_of_check (task : Task) (i : Input) (h : contract task i = true) :
    Contract task i := by
  constructor
  · rintro command answer rfl
    simp only [contract, Bool.and_eq_true, decide_eq_true_eq] at h
    exact h.1.1
  · rintro command answer rfl
    simp only [contract, Bool.and_eq_true, decide_eq_true_eq] at h
    exact ⟨h.1.2, h.2⟩
  · rintro id event answers rfl
    exact of_decide_eq_true h

/-- Check that the cookie is that of the request. -/
def honestCookie (task : Task) (i : Input) : Bool :=
  match i with
  | .event id (.discovered _ _ cookie) _ =>
      decide (∀ r ∈ task.discover.inFlight, r.id = id → r.stale = false →
        r.key.2 = cookie.ns)
  | _ => true

theorem honestCookie_of_check (task : Task) (i : Input)
    (h : honestCookie task i = true) : HonestCookie task i := by
  rintro id rendezvousNode registrations cookie answers rfl
  exact of_decide_eq_true h

/-- Check that the client does not renew. -/
def unrenewed (i : Input) : Bool :=
  match i with
  | .renew _ => false
  | _ => true

end Connexa.Rendezvous
