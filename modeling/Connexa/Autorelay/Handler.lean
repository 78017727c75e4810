import Mathlib.Data.Finset.SDiff
import Connexa.Autorelay.Runs

/-!
# The connection handler

`behaviour/autorelay/handler.rs` watches the protocols of the remote and reports
to the behaviour whether the HOP protocol is among them.  Its reports travel in
order: they wait in the handler until it is polled, then in the swarm until the
behaviour is called.  `Link` is one connection with both ends and everything
under way between them.
-/

namespace Connexa.Autorelay

open HashMap

/-- `relay::HOP_PROTOCOL_NAME`. -/
def hopProtocolName : String :=
  "/libp2p/circuit/relay/0.2.0/hop"

/-- `ProtocolsChange`: protocols that the remote added or removed. -/
inductive ProtocolsChange where
  | added (protocols : List String)
  | removed (protocols : List String)
  deriving DecidableEq

/-- The connection events the handler distinguishes. -/
inductive ConnectionEvent where
  | remoteProtocolsChange (change : ProtocolsChange)
  | other
  deriving DecidableEq

/-- libp2p's `SupportedProtocols`. -/
structure SupportedProtocols (S : Type) where
  default : S
  iter : S → List String
  onProtocolsChange : ProtocolsChange → S → Bool × S

/-- The set holds what was added and not removed, and reports every change. -/
structure SupportedProtocols.Lawful {S : Type} (sp : SupportedProtocols S) :
    Prop where
  default : sp.iter sp.default = []
  added : ∀ protocols s name,
    name ∈ sp.iter (sp.onProtocolsChange (.added protocols) s).2 ↔
      name ∈ sp.iter s ∨ name ∈ protocols
  removed : ∀ protocols s name,
    name ∈ sp.iter (sp.onProtocolsChange (.removed protocols) s).2 ↔
      name ∈ sp.iter s ∧ name ∉ protocols
  reported : ∀ change s, (sp.onProtocolsChange change s).1 = false →
    ∀ name, name ∈ sp.iter (sp.onProtocolsChange change s).2 ↔ name ∈ sp.iter s

structure Handler (S : Type) where
  events : List HandlerOut
  supported : Bool
  supportedProtocol : S

variable {S : Type} (sp : SupportedProtocols S)

/-- `Handler::default`. -/
def Handler.default : Handler S where
  events := []
  supported := false
  supportedProtocol := sp.default

def onConnectionEvent (event : ConnectionEvent) (h : Handler S) : Handler S :=
  match event with
  | .remoteProtocolsChange protocol =>
      let (change, supportedProtocol) :=
        sp.onProtocolsChange protocol h.supportedProtocol
      let h := { h with supportedProtocol := supportedProtocol }
      if change then
        let valid := (sp.iter h.supportedProtocol).any (hopProtocolName == ·)
        match valid, h.supported with
        | true, false =>
            { h with supported := true, events := h.events ++ [.supported] }
        | false, true =>
            { h with supported := false, events := h.events ++ [.unsupported] }
        | true, true => h
        | _, _ => h
      else h
  | .other => h

/-- `Handler::poll`: the next event, if there is one. -/
def Handler.poll (h : Handler S) : Option HandlerOut × Handler S :=
  match h.events with
  | event :: rest => (some event, { h with events := rest })
  | [] => (none, h)

/-! ## What the handler has seen -/

/-- The protocols of the remote after one more change. -/
def ProtocolsChange.apply (protocols : Finset String) :
    ProtocolsChange → Finset String
  | .added names => protocols ∪ names.toFinset
  | .removed names => protocols \ names.toFinset

/-- The protocols of the remote after the changes. -/
def remoteProtocols (changes : List ProtocolsChange) : Finset String :=
  changes.foldl ProtocolsChange.apply ∅

theorem remoteProtocols_snoc (changes : List ProtocolsChange)
    (change : ProtocolsChange) :
    remoteProtocols (changes ++ [change]) =
      change.apply (remoteProtocols changes) := by
  simp [remoteProtocols]

/-- The HOP protocol was added at some point. -/
def HopSeen (changes : List ProtocolsChange) : Prop :=
  ∃ names, ProtocolsChange.added names ∈ changes ∧ hopProtocolName ∈ names

/-- What the handler reports when the flag changes. -/
def handlerOut (supported : Bool) : HandlerOut :=
  if supported then .supported else .unsupported

/-- The handler after the changes: `emitted` are the events of the past that
are still queued or were already polled. -/
structure HandlerInv (changes : List ProtocolsChange) (emitted : List HandlerOut)
    (h : Handler S) : Prop where
  protocols : ∀ name, name ∈ sp.iter h.supportedProtocol ↔
    name ∈ remoteProtocols changes
  supported : h.supported = true ↔ hopProtocolName ∈ remoteProtocols changes
  reports : Reports .unsupported emitted (handlerOut h.supported)
  seen : emitted ≠ [] → HopSeen changes

variable {sp}

theorem HopSeen.append {changes : List ProtocolsChange}
    (h : HopSeen changes) (more : List ProtocolsChange) :
    HopSeen (changes ++ more) := by
  obtain ⟨names, hmem, hhop⟩ := h
  exact ⟨names, List.mem_append_left _ hmem, hhop⟩

/-- A protocol of the remote was added. -/
theorem hopSeen_of_mem {changes : List ProtocolsChange}
    (h : hopProtocolName ∈ remoteProtocols changes) : HopSeen changes := by
  induction changes using List.reverseRecOn with
  | nil => cases h
  | append_singleton changes change ih =>
      rw [remoteProtocols_snoc] at h
      cases change with
      | added names =>
          rcases Finset.mem_union.mp h with h | h
          · exact (ih h).append _
          · exact ⟨names, List.mem_append_right _ (List.mem_singleton_self _),
              List.mem_toFinset.mp h⟩
      | removed names => exact (ih (Finset.mem_sdiff.mp h).1).append _

theorem HandlerInv.default (hsp : sp.Lawful) :
    HandlerInv sp [] [] (Handler.default sp) where
  protocols := by
    intro name
    simp [Handler.default, hsp.default, remoteProtocols]
  supported := by
    simp [Handler.default, remoteProtocols]
  reports := Reports.nil
  seen := fun h => absurd rfl h

theorem mem_onProtocolsChange (hsp : sp.Lawful) {changes : List ProtocolsChange}
    {s : S} (hs : ∀ name, name ∈ sp.iter s ↔ name ∈ remoteProtocols changes)
    (change : ProtocolsChange) (name : String) :
    name ∈ sp.iter (sp.onProtocolsChange change s).2 ↔
      name ∈ remoteProtocols (changes ++ [change]) := by
  rw [remoteProtocols_snoc]
  cases change with
  | added names =>
      rw [hsp.added, hs, ProtocolsChange.apply, Finset.mem_union,
        List.mem_toFinset]
  | removed names =>
      rw [hsp.removed, hs, ProtocolsChange.apply, Finset.mem_sdiff,
        List.mem_toFinset]

/-- One change of the protocols: the handler appends what it now emits. -/
theorem HandlerInv.onConnectionEvent (hsp : sp.Lawful)
    {changes : List ProtocolsChange} {emitted : List HandlerOut}
    {h : Handler S} (hinv : HandlerInv sp changes emitted h)
    (change : ProtocolsChange) :
    ∃ more,
      (onConnectionEvent sp (.remoteProtocolsChange change) h).events =
        h.events ++ more ∧
      HandlerInv sp (changes ++ [change]) (emitted ++ more)
        (onConnectionEvent sp (.remoteProtocolsChange change) h) := by
  have hmem := mem_onProtocolsChange hsp hinv.protocols change
  have hreported := hsp.reported change h.supportedProtocol
  have hvalid : (sp.iter (sp.onProtocolsChange change h.supportedProtocol).2).any
      (hopProtocolName == ·) = true ↔
        hopProtocolName ∈ remoteProtocols (changes ++ [change]) := by
    rw [← hmem, List.any_eq_true]
    simp
  have hseen := fun hne => (hinv.seen hne).append [change]
  rcases hr : sp.onProtocolsChange change h.supportedProtocol with ⟨flag, s'⟩
  rw [hr] at hmem hreported hvalid
  simp only [Autorelay.onConnectionEvent, hr]
  cases flag with
  | false =>
      -- no change is reported, so the set is the one from before
      have hsame : hopProtocolName ∈ remoteProtocols (changes ++ [change]) ↔
          hopProtocolName ∈ remoteProtocols changes := by
        rw [← hmem, hreported rfl, hinv.protocols]
      refine ⟨[], by simp, hmem, ?_, ?_, ?_⟩
      · exact hinv.supported.trans hsame.symm
      · rw [List.append_nil]
        exact hinv.reports
      · rw [List.append_nil]
        exact hseen
  | true =>
      simp only [if_true]
      have hreports := hinv.reports
      cases hany : (sp.iter s').any (hopProtocolName == ·) <;>
        cases hsupported : h.supported <;> rw [hsupported] at hreports
      · have hgone := (not_congr hvalid).mp (ne_true_of_eq_false hany)
        refine ⟨[], by simp, hmem, iff_of_false nofun hgone, ?_, ?_⟩
        · rw [List.append_nil]
          exact hreports
        · rw [List.append_nil]
          exact hseen
      · have hgone := (not_congr hvalid).mp (ne_true_of_eq_false hany)
        refine ⟨[.unsupported], rfl, hmem, iff_of_false nofun hgone, ?_, ?_⟩
        · exact hreports.snoc (by decide)
        · intro _
          exact (hopSeen_of_mem (hinv.supported.mp hsupported)).append [change]
      · have hhop := hvalid.mp hany
        refine ⟨[.supported], rfl, hmem, iff_of_true rfl hhop, ?_, ?_⟩
        · exact hreports.snoc (by decide)
        · exact fun _ => hopSeen_of_mem hhop
      · refine ⟨[], by simp, hmem, iff_of_true rfl (hvalid.mp hany), ?_, ?_⟩
        · rw [List.append_nil]
          exact hreports
        · rw [List.append_nil]
          exact hseen

/-! ## One connection with both of its ends -/

/-- One connection: the behaviour and the handler, the changes the handler was
told about, and the reports that were polled and those that were delivered.
`isOpen` says that the behaviour was told about the connection. -/
structure Link (S : Type) where
  world : World
  handler : Handler S
  isOpen : Bool
  changes : List ProtocolsChange
  polled : List HandlerOut
  delivered : List HandlerOut

/-- All events the handler has emitted, in order. -/
def Link.emitted (l : Link S) : List HandlerOut :=
  l.delivered ++ l.polled ++ l.handler.events

/-- The input is no handler event of the connection, does not open or close it,
and gives it no address that ends in another peer. -/
structure Input.Elsewhere (i : Input) (p : PeerId) (k : ConnectionId) :
    Prop where
  handler : ∀ out, i ≠ .handler p k out
  established : ∀ endpoint, i.event? ≠ some (.connectionEstablished p k endpoint)
  closed : i.event? ≠ some (.connectionClosed p k)
  address : ∀ new, i.event? = some (.addressChange p k new) →
    ¬new.getRemoteAddress.EndsInOtherPeer p

/-- The states of the connection `(p, k)`: the handler sees changes and is
polled, the behaviour serves the reports in order and any other input in
between. -/
inductive Linked (sp : SupportedProtocols S) (c : Clock) (config : Config)
    (p : PeerId) (k : ConnectionId) : Link S → Prop where
  | start {w : World} (hw : Reachable c config .none w) :
      Linked sp c config p k ⟨w, Handler.default sp, false, [], [], []⟩
  | protocols {l : Link S} (hl : Linked sp c config p k l)
      (change : ProtocolsChange) :
      Linked sp c config p k { l with
        handler := onConnectionEvent sp (.remoteProtocolsChange change) l.handler
        changes := l.changes ++ [change] }
  | ignored {l : Link S} (hl : Linked sp c config p k l) :
      Linked sp c config p k { l with
        handler := onConnectionEvent sp .other l.handler }
  | poll {l : Link S} {event : HandlerOut} {h : Handler S}
      (hl : Linked sp c config p k l)
      (hpoll : l.handler.poll = (some event, h)) :
      Linked sp c config p k { l with
        handler := h
        polled := l.polled ++ [event] }
  | establish {l : Link S} {w : World} {endpoint : ConnectedPoint}
      {addresses : List Multiaddr} {change : Bool}
      (hl : Linked sp c config p k l) (hclosed : l.isOpen = false)
      (hdirect : endpoint.isRelayed = false)
      (hown : ¬endpoint.getRemoteAddress.EndsInOtherPeer p)
      (hstep : step c (.swarm (.connectionEstablished p k endpoint) addresses
        change) l.world = .ok w) :
      Linked sp c config p k { l with
        world := w
        isOpen := true }
  | deliver {l : Link S} {w : World} {event : HandlerOut}
      {rest : List HandlerOut} (hl : Linked sp c config p k l)
      (hopen : l.isOpen = true) (hpolled : l.polled = event :: rest)
      (hstep : step c (.handler p k event) l.world = .ok w) :
      Linked sp c config p k { l with
        world := w
        polled := rest
        delivered := l.delivered ++ [event] }
  | serve {l : Link S} {w : World} {i : Input}
      (hl : Linked sp c config p k l) (hi : i.Elsewhere p k)
      (hstep : step c i l.world = .ok w) :
      Linked sp c config p k { l with world := w }
  | shuffle {l : Link S} {w : World} (hl : Linked sp c config p k l)
      (hshuffle : Shuffled l.world w) :
      Linked sp c config p k { l with world := w }

/-! ## The connection in the behaviour -/

/-- The status that a report asks for. -/
def statusAfter : Option HandlerOut → RelayStatus
  | none => .pending
  | some .supported => .supported
  | some .unsupported => .notSupported

/-- The connection is tracked with this status and an address of its own. -/
def HasStatus (p : PeerId) (k : ConnectionId) (status : RelayStatus)
    (w : World) : Prop :=
  ∃ info, w.connections.lookup (p, k) = some info ∧
    info.relayStatus = status ∧ ¬info.addr.EndsInOtherPeer p

/-- Inputs elsewhere keep the status. -/
theorem HasStatus.act {c : Clock} {i : Input} {p : PeerId} {k : ConnectionId}
    {status : RelayStatus} {w w' : World} (h : HasStatus p k status w)
    (hi : i.Elsewhere p k) (hact : Act c i w w') : HasStatus p k status w' := by
  obtain ⟨info, hinfo, hstatus, hown⟩ := h
  have hkept : ∀ {key : PeerId × ConnectionId} {other : Connection},
      key ≠ (p, k) →
        (w.connections.insert key other).lookup (p, k) = some info := by
    intro key other hne
    rw [HashMap.lookup_insert, if_neg hne.symm]
    exact hinfo
  cases hact with
  | insertConnection peerId connectionId endpoint hevent =>
      refine ⟨info, hkept ?_, hstatus, hown⟩
      intro hkey
      cases hkey
      exact hi.established endpoint hevent
  | eraseConnection peerId connectionId hevent =>
      refine ⟨info, ?_, hstatus, hown⟩
      refine lookup_erase_some.mpr ⟨?_, hinfo⟩
      intro hkey
      cases hkey
      exact hi.closed hevent
  | setEndpoint peerId connectionId connection new hevent hlookup =>
      by_cases hkey : (peerId, connectionId) = (p, k)
      · cases hkey
        rw [hinfo, Option.some_inj] at hlookup
        subst hlookup
        exact ⟨_, lookup_insert_self _ _ _, hstatus, hi.address new hevent⟩
      · exact ⟨info, hkept hkey, hstatus, hown⟩
  | setRelayStatus peerId connectionId connection status' hhandler hlookup =>
      refine ⟨info, hkept ?_, hstatus, hown⟩
      intro hkey
      cases hkey
      obtain ⟨out, rfl⟩ := hhandler
      exact hi.handler out rfl
  | disqualify peerId connectionId connection hlookup hends =>
      refine ⟨info, hkept ?_, hstatus, hown⟩
      intro hkey
      cases hkey
      rw [hinfo, Option.some_inj] at hlookup
      subst hlookup
      exact hown hends
  | _ => exact ⟨info, hinfo, hstatus, hown⟩

theorem HasStatus.acts {c : Clock} {i : Input} {p : PeerId} {k : ConnectionId}
    {status : RelayStatus} {w w' : World} (h : HasStatus p k status w)
    (hi : i.Elsewhere p k) (hacts : Acts c i w w') :
    HasStatus p k status w' := by
  induction hacts with
  | refl => exact h
  | tail _ hact ih => exact ih.act hi hact

/-- Without an event and without a handler nothing happens to the connection. -/
theorem Input.elsewhere_of_event_eq_none {i : Input} (hi : i.event? = none)
    (hhandler : ∀ p k out, i ≠ .handler p k out) (p : PeerId)
    (k : ConnectionId) : i.Elsewhere p k where
  handler := hhandler p k
  established := by
    intro endpoint
    rw [hi]
    exact nofun
  closed := by
    rw [hi]
    exact nofun
  address := by
    intro new
    rw [hi]
    exact nofun

theorem HasStatus.step {c : Clock} {i : Input} {p : PeerId} {k : ConnectionId}
    {status : RelayStatus} {w w' : World} (h : HasStatus p k status w)
    (hi : i.Elsewhere p k) (hstep : Autorelay.step c i w = .ok w') :
    HasStatus p k status w' := by
  obtain ⟨u, himplied, hown⟩ := (serve_acts c i _).of_eq_ok hstep
  have hrecord : HasStatus p k status (w.record (.input i)) := h
  have hu := hrecord.acts (Input.elsewhere_of_event_eq_none
    (i := .setStatus none) rfl (fun _ _ _ => nofun) p k) himplied
  exact hu.acts hi hown

theorem meetReservationTarget_hasStatus (c : Clock) {p : PeerId}
    {k : ConnectionId} {status : RelayStatus} {w : World}
    (h : HasStatus p k status w) :
    Ensures (meetReservationTarget c w) (HasStatus p k status) :=
  (meetReservationTarget_ensures c .removeAllReservations w).mono fun _ hacts =>
    h.acts (Input.elsewhere_of_event_eq_none (i := .removeAllReservations) rfl
      (fun _ _ _ => nofun) p k) hacts

theorem updateRelayAvailability_hasStatus {p : PeerId} {k : ConnectionId}
    {status : RelayStatus} {w : World} (h : HasStatus p k status w) :
    HasStatus p k status (updateRelayAvailability w) := by
  rw [updateRelayAvailability]
  split <;> exact h

/-- A report of the handler sets the status it asks for. -/
theorem onConnectionHandlerEvent_hasStatus (c : Clock) {p : PeerId}
    {k : ConnectionId} {status : RelayStatus} {w : World}
    (h : HasStatus p k status w) (out : HandlerOut) :
    Ensures (onConnectionHandlerEvent c p k out w)
      (HasStatus p k (statusAfter (some out))) := by
  obtain ⟨info, hinfo, hstatus, hown⟩ := h
  unfold onConnectionHandlerEvent
  rw [hinfo]
  dsimp only
  cases out with
  | supported =>
      dsimp only
      split
      · next hsupported => exact ⟨info, hinfo, hsupported, hown⟩
      · have hset : HasStatus p k .supported { w with
            connections := w.connections.insert (p, k)
              { info with relayStatus := .supported } } :=
          ⟨_, lookup_insert_self _ _ _, rfl, hown⟩
        apply (meetReservationTarget_hasStatus c hset).bind
        exact fun u hu => updateRelayAvailability_hasStatus hu
  | unsupported =>
      apply updateRelayAvailability_hasStatus
      have hset : HasStatus p k .notSupported { w with
          connections := w.connections.insert (p, k)
            { info with relayStatus := .notSupported } } :=
        ⟨_, lookup_insert_self _ _ _, rfl, hown⟩
      split
      · exact hset
      · obtain ⟨events, history, hframe⟩ := queueRemoveListeners_frame
          (listenersOf { w with
            connections := w.connections.insert (p, k)
              { info with relayStatus := .notSupported } }.toBehaviour p)
          { w with
            connections := w.connections.insert (p, k)
              { info with relayStatus := .notSupported } }
        rw [hframe]
        exact hset

/-- A direct connection is tracked as pending. -/
theorem onConnectionEstablished_hasStatus {p : PeerId} {k : ConnectionId}
    {endpoint : ConnectedPoint} (hdirect : endpoint.isRelayed = false)
    (hown : ¬endpoint.getRemoteAddress.EndsInOtherPeer p) (w : World) :
    HasStatus p k .pending (onConnectionEstablished p k endpoint w) := by
  have hset : HasStatus p k .pending { w with
      connections := w.connections.insert (p, k)
        (Connection.disqualifyConnectionIfRelayed ⟨endpoint, .pending⟩) } := by
    refine ⟨_, lookup_insert_self _ _ _, ?_, ?_⟩
    · simp [Connection.disqualifyConnectionIfRelayed, hdirect]
    · rw [Connection.disqualifyConnectionIfRelayed, hdirect]
      exact hown
  unfold onConnectionEstablished
  dsimp only
  split <;> split <;> exact hset

theorem step_established_hasStatus {c : Clock} {p : PeerId} {k : ConnectionId}
    {endpoint : ConnectedPoint} {addresses : List Multiaddr} {change : Bool}
    {w w' : World} (hdirect : endpoint.isRelayed = false)
    (hown : ¬endpoint.getRemoteAddress.EndsInOtherPeer p)
    (hstep : step c (.swarm (.connectionEstablished p k endpoint) addresses
      change) w = .ok w') : HasStatus p k .pending w' := by
  refine Ensures.of_eq_ok ?_ hstep
  rw [step, serve, onSwarmEvent]
  apply (onExternalAddresses_ensures c addresses change _).bind
  exact fun u _ => onConnectionEstablished_hasStatus hdirect hown u

/-! ## Both ends agree -/

/-- The handler is as its changes ask for, the behaviour as the reports do that
were delivered. -/
structure LinkInv (sp : SupportedProtocols S) (p : PeerId) (k : ConnectionId)
    (l : Link S) : Prop where
  handler : HandlerInv sp l.changes l.emitted l.handler
  unopened : l.isOpen = false → l.delivered = []
  status : l.isOpen = true →
    HasStatus p k (statusAfter l.delivered.getLast?) l.world

theorem Handler.poll_eq_some {h h' : Handler S} {event : HandlerOut}
    (hpoll : h.poll = (some event, h')) :
    h.events = event :: h'.events ∧ h' = { h with events := h'.events } := by
  unfold poll at hpoll
  split at hpoll
  · next rest hevents =>
    cases hpoll
    exact ⟨hevents, rfl⟩
  · cases hpoll

theorem Linked.inv (hsp : sp.Lawful) {c : Clock} {config : Config} {p : PeerId}
    {k : ConnectionId} {l : Link S} (h : Linked sp c config p k l) :
    LinkInv sp p k l := by
  induction h with
  | start hw => exact ⟨HandlerInv.default hsp, fun _ => rfl, nofun⟩
  | @protocols l hl change ih =>
      obtain ⟨more, hevents, hhandler⟩ :=
        ih.handler.onConnectionEvent hsp change
      refine ⟨?_, ih.unopened, ih.status⟩
      rw [Link.emitted, hevents, ← List.append_assoc]
      exact hhandler
  | ignored hl ih => exact ⟨ih.handler, ih.unopened, ih.status⟩
  | @poll l event h' hl hpoll ih =>
      obtain ⟨hevents, hsame⟩ := Handler.poll_eq_some hpoll
      refine ⟨?_, ih.unopened, ih.status⟩
      have hemitted : Link.emitted { l with
          handler := h', polled := l.polled ++ [event] } = l.emitted := by
        simp [Link.emitted, hevents]
      rw [hemitted]
      have hhandler := ih.handler
      rw [hsame]
      exact ⟨hhandler.protocols, hhandler.supported, hhandler.reports,
        hhandler.seen⟩
  | establish hl hclosed hdirect hown hstep ih =>
      refine ⟨ih.handler, nofun, fun _ => ?_⟩
      have hpending := step_established_hasStatus hdirect hown hstep
      rw [ih.unopened hclosed]
      exact hpending
  | @deliver l w event rest hl hopen hpolled hstep ih =>
      have hemitted : Link.emitted { l with
          world := w, polled := rest, delivered := l.delivered ++ [event] } =
            l.emitted := by
        simp [Link.emitted, hpolled]
      refine ⟨?_, ?_, fun _ => ?_⟩
      · rw [hemitted]
        exact ih.handler
      · intro hclosed
        rw [hopen] at hclosed
        cases hclosed
      · rw [List.getLast?_concat]
        have hrecord : HasStatus p k _ (l.world.record
            (.input (.handler p k event))) := ih.status hopen
        exact (onConnectionHandlerEvent_hasStatus c hrecord event).of_eq_ok hstep
  | serve hl hi hstep ih =>
      exact ⟨ih.handler, ih.unopened, fun hopen => (ih.status hopen).step hi hstep⟩
  | shuffle hl hshuffle ih =>
      refine ⟨ih.handler, ih.unopened, fun hopen => ?_⟩
      obtain ⟨info, hinfo, hstatus, hown⟩ := ih.status hopen
      refine ⟨info, ?_, hstatus, hown⟩
      rw [lookup_of_sameEntries hshuffle.connections]
      exact hinfo

/-- The reports alternate, `Supported` first.  Once all of them are delivered,
the behaviour takes the connection for a relay exactly if the remote has the
HOP protocol; while the protocol was never seen, it waits. -/
theorem handler_and_behaviour_agree (hsp : sp.Lawful) {c : Clock}
    {config : Config} {p : PeerId} {k : ConnectionId} {l : Link S}
    (h : Linked sp c config p k l) :
    l.emitted.IsChain (· ≠ ·) ∧
    (∀ first, l.emitted.head? = some first → first = .supported) ∧
    (l.handler.events = [] → l.polled = [] → l.emitted ≠ [] →
      ∃ info, l.world.connections.lookup (p, k) = some info ∧
        (info.relayStatus = .supported ↔
          hopProtocolName ∈ remoteProtocols l.changes)) ∧
    (¬HopSeen l.changes → l.isOpen = true →
      ∃ info, l.world.connections.lookup (p, k) = some info ∧
        info.relayStatus = .pending) := by
  have hinv := h.inv hsp
  refine ⟨hinv.handler.reports.isChain, ?_, ?_, ?_⟩
  · intro first hfirst
    have hne := hinv.handler.reports.head_ne hfirst
    cases first with
    | supported => rfl
    | unsupported => exact absurd rfl hne
  · intro hevents hpolled hemitted
    have hdelivered : l.emitted = l.delivered := by
      rw [Link.emitted, hevents, hpolled, List.append_nil, List.append_nil]
    have hopen : l.isOpen = true := by
      by_contra hclosed
      apply hemitted
      rw [hdelivered, hinv.unopened (Bool.eq_false_of_not_eq_true hclosed)]
    obtain ⟨info, hinfo, hstatus, -⟩ := hinv.status hopen
    refine ⟨info, hinfo, ?_⟩
    obtain ⟨last, hlast⟩ := Option.ne_none_iff_exists'.mp
      (mt List.getLast?_eq_none_iff.mp (hdelivered ▸ hemitted))
    have hnow := hinv.handler.reports.now_eq
    rw [hdelivered, hlast] at hnow
    rw [hstatus, hlast, ← hinv.handler.supported]
    cases hsupported : l.handler.supported with
    | true =>
        rw [hsupported] at hnow
        cases hnow
        exact iff_of_true rfl rfl
    | false =>
        rw [hsupported] at hnow
        cases hnow
        exact iff_of_false nofun nofun
  · intro hunseen hopen
    have hnone : l.emitted = [] := by
      by_contra hne
      exact hunseen (hinv.handler.seen hne)
    have hdelivered : l.delivered = [] := by
      rw [Link.emitted, List.append_assoc] at hnone
      exact (List.append_eq_nil_iff.mp hnone).1
    obtain ⟨info, hinfo, hstatus, -⟩ := hinv.status hopen
    rw [hdelivered] at hstatus
    exact ⟨info, hinfo, hstatus⟩

/-- A set of protocols as a list without repetitions. -/
def listProtocols : SupportedProtocols (List String) where
  default := []
  iter := id
  onProtocolsChange
    | .added names, s => (names.any fun name => decide (name ∉ s), names ∪ s)
    | .removed names, s =>
        (s.any fun name => decide (name ∈ names),
          s.filter fun name => decide (name ∉ names))

theorem listProtocols_lawful : listProtocols.Lawful where
  default := rfl
  added := by
    intro names s name
    change name ∈ names ∪ s ↔ name ∈ s ∨ name ∈ names
    rw [List.mem_union_iff, or_comm]
  removed := by
    intro names s name
    change name ∈ s.filter _ ↔ name ∈ s ∧ name ∉ names
    rw [List.mem_filter, decide_eq_true_eq]
  reported := by
    intro change s hsame name
    cases change with
    | added names =>
        change (names.any fun name => decide (name ∉ s)) = false at hsame
        rw [List.any_eq_false] at hsame
        change name ∈ names ∪ s ↔ name ∈ s
        rw [List.mem_union_iff, or_iff_right_iff_imp]
        intro hmem
        simpa using hsame name hmem
    | removed names =>
        change (s.any fun name => decide (name ∈ names)) = false at hsame
        rw [List.any_eq_false] at hsame
        change name ∈ s.filter _ ↔ name ∈ s
        rw [List.mem_filter, and_iff_left_iff_imp]
        intro hmem
        simpa using hsame name hmem

/-- The state after a call that does not panic. -/
def stepped (i : Input) (w : World) : World :=
  (step steadyClock i w).toOption.getD w

theorem step_eq_stepped {i : Input} {w : World}
    (h : (step steadyClock i w).isOk = true) :
    step steadyClock i w = .ok (stepped i w) := by
  unfold stepped
  cases hstep : step steadyClock i w with
  | error e =>
      rw [hstep] at h
      cases h
  | ok w' => rfl

/-- The remote has the HOP protocol, drops it and adds it again; the reports
arrive one by one. -/
theorem handler_and_behaviour_agree_dropsAndAdds :
    ∃ l, Linked listProtocols steadyClock Config.default 7 0 l ∧
      l.emitted = [.supported, .unsupported, .supported] ∧
      l.handler.events = [] ∧ l.polled = [] ∧
      ∃ info, l.world.connections.lookup (7, 0) = some info ∧
        info.relayStatus = .supported := by
  have hw : Reachable steadyClock Config.default .none
      (World.fresh Config.default 0 0 0) :=
    .new (show newWithConfig steadyClock Config.default 0 0 0 = _ from rfl)
  have h : Linked listProtocols steadyClock Config.default 7 0 _ := .start hw
  have h := h.protocols (.added ["/ipfs/id/1.0.0", hopProtocolName])
  have h := h.poll rfl
  have hown : ¬(ConnectedPoint.dialer [.tcp 4001]).getRemoteAddress.EndsInOtherPeer
      7 := by
    rintro ⟨other, hlast, -⟩
    cases hlast
  have hestablished : step steadyClock
      (.swarm (.connectionEstablished 7 0 (.dialer [.tcp 4001])) [] false)
      (World.fresh Config.default 0 0 0) = _ := step_eq_stepped (by decide)
  have h := h.establish rfl rfl hown hestablished
  have h := h.deliver rfl rfl (step_eq_stepped (by decide))
  have h := h.protocols (.removed [hopProtocolName])
  have h := h.poll rfl
  have h := h.deliver rfl rfl (step_eq_stepped (by decide))
  have h := h.protocols (.added [hopProtocolName])
  have h := h.poll rfl
  have h := h.deliver rfl rfl (step_eq_stepped (by decide))
  obtain ⟨info, hinfo, hiff⟩ := (handler_and_behaviour_agree
    listProtocols_lawful h).2.2.1 rfl rfl (by decide)
  exact ⟨_, h, rfl, rfl, rfl, info, hinfo, hiff.mpr (by decide)⟩

end Connexa.Autorelay
