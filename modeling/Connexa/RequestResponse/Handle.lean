import Connexa.RequestResponse.Registration

/-!
# Protocols by name

The methods of `ConnexaRequestResponse` take a protocol by its name and send a
command to the node's task, which looks the protocol up.  A command without a
protocol means the first one.  A name that is not a valid protocol becomes such a
command on the way: `OptionalStreamProtocol` forgets why the conversion failed.
-/

namespace Connexa.RequestResponse

/-- A protocol given as `String` or `&String`. -/
inductive Name where
  | owned (name : String)
  | borrowed (name : String)

def Name.text : Name → String
  | .owned name => name
  | .borrowed name => name

/-- What is sent along: bytes in some form, or a closure that makes them. -/
inductive Payload where
  | bytes (bytes : Bytes)
  | closure (result : Except IoError Bytes)

/-- Nothing comes of it: the closure fails, or there are no bytes. -/
def Payload.Missing : Payload → Prop
  | .bytes data => data = []
  | .closure (.error _) => True
  | .closure (.ok data) => data = []

/-- The errors of `error.rs` that a call can return before a behaviour is asked. -/
inductive CallError where
  | channelClosed
  /-- `Disabled { protocol: Protocol::RequestResponse }` -/
  | disabled
  | invalidConfig (text : String)
  | io (error : IoError)
  deriving DecidableEq

/-- `RequestResponseCommand` -/
inductive Command (P : Type) where
  | sendRequests (protocol : Option P) (peers : List PeerId) (request : Bytes)
  | sendRequest (protocol : Option P) (peerId : PeerId) (request : Bytes)
  | sendResponse (protocol : Option P) (peerId : PeerId) (requestId : InboundRequestId)
      (response : Bytes)
  | listenForRequests (protocol : Option P)

def Command.protocol {P : Type} : Command P → Option P
  | .sendRequests protocol _ _ => protocol
  | .sendRequest protocol _ _ => protocol
  | .sendResponse protocol _ _ _ => protocol
  | .listenForRequests protocol => protocol

/-- The calls of the handle with a protocol's name. -/
inductive Call where
  | listenForRequests (protocol : Name)
  | sendRequests (peers : List PeerId) (protocol : Name) (request : Payload)
  | sendRequest (peerId : PeerId) (protocol : Name) (request : Payload)
  | sendResponse (peerId : PeerId) (requestId : InboundRequestId) (protocol : Name)
      (response : Payload)

def Call.name : Call → Name
  | .listenForRequests protocol => protocol
  | .sendRequests _ protocol _ => protocol
  | .sendRequest _ protocol _ => protocol
  | .sendResponse _ _ protocol _ => protocol

/-- The node: whether its task runs, and its behaviours. -/
structure Node (P : Type) where
  running : Bool
  registry : Registry P (Service P)

section Methods

variable {P : Type} (protocols : StreamProtocols P)

/-- `OptionalStreamProtocol::from` -/
def optionalStreamProtocol : Name → Option P
  | .owned protocol => (protocols.tryFromOwned protocol).toOption
  | .borrowed protocol => (protocols.tryFromOwned protocol).toOption

/-- `(protocol, payload).into_request()` -/
def intoRequest (protocol : Name) : Payload → Except CallError (Option P × Bytes)
  | .bytes request => .ok (optionalStreamProtocol protocols protocol, request)
  | .closure (.error e) => .error (.io e)
  | .closure (.ok request) => .ok (optionalStreamProtocol protocols protocol, request)

/-- The methods of the handle up to the command that they send. -/
def Call.command : Call → Except CallError (Command P)
  | .listenForRequests protocol =>
      .ok (.listenForRequests (optionalStreamProtocol protocols protocol))
  | .sendRequests peers protocol request => do
      let peers := peers.eraseDups
      let (protocol, request) ← intoRequest protocols protocol request
      if peers.isEmpty then throw (.invalidConfig "no peers were provided")
      if request.isEmpty then throw (.invalidConfig "request is empty")
      return .sendRequests protocol peers request
  | .sendRequest peerId protocol request => do
      let (protocol, request) ← intoRequest protocols protocol request
      if request.isEmpty then throw (.invalidConfig "request is empty")
      return .sendRequest protocol peerId request
  | .sendResponse peerId requestId protocol response => do
      let (protocol, response) ← intoRequest protocols protocol response
      if response.isEmpty then throw (.invalidConfig "response is empty")
      return .sendResponse protocol peerId requestId response

variable [DecidableEq P]

/-- `process_request_response_command`, up to the behaviour that it asks. -/
def Registry.processCommand (r : Registry P (Service P)) (command : Command P) :
    Except CallError (Service P) :=
  match r.requestResponse command.protocol with
  | none => .error .disabled
  | some rr => .ok rr

/-- Which behaviour a call is carried out by. -/
def Node.carriesOut (node : Node P) (call : Call) :
    Except CallError (Service P × Command P) := do
  let command ← call.command protocols
  if ¬node.running then throw .channelClosed
  let rr ← node.registry.processCommand command
  return (rr, command)

end Methods

/-! ## Nodes that run -/

section Running

variable {P : Type} [DecidableEq P]

/-- Something happens to the behaviour in a slot. -/
def Registry.modify (r : Registry P (Service P)) (index : ℕ) (f : Behaviour → Behaviour) :
    Registry P (Service P) :=
  match r.slots.get index with
  | some (some service) =>
      { r with slots :=
        r.slots.set index (some { service with state := f service.state }) }
  | _ => r

/-- The behaviours of a node at any time after it was built. -/
inductive Running (protocols : StreamProtocols P) (b : Builder) :
    Registry P (Service P) → Prop where
  | built {r : Registry P (Service P)} (h : b.build protocols = .ok r) :
      Running protocols b r
  | step {r : Registry P (Service P)} (hr : Running protocols b r) (index : ℕ)
      (f : Behaviour → Behaviour) : Running protocols b (r.modify index f)

/-- Which protocol a look-up ends at. -/
def Registry.route (r : Registry P (Service P)) (protocol : Option P) : Option P :=
  (r.requestResponse protocol).map (·.protocol)

omit [DecidableEq P] in
theorem modify_get (r : Registry P (Service P)) (index j : ℕ)
    (f : Behaviour → Behaviour) :
    ((r.modify index f).slots.get j).map (Option.map Service.protocol) =
      (r.slots.get j).map (Option.map Service.protocol) := by
  unfold Registry.modify
  split
  · next service hslot =>
    have hindex : index < 10 := by
      by_contra hge
      rw [Slots.get_eq_none (by omega)] at hslot
      cases hslot
    by_cases hj : j = index
    · subst hj
      rw [Slots.get_set_self _ _ hindex, hslot]
      rfl
    · rw [Slots.get_set_of_ne _ _ hj]
  · rfl

theorem modify_getProtocol (r : Registry P (Service P)) (index : ℕ)
    (f : Behaviour → Behaviour) : (r.modify index f).getProtocol = r.getProtocol := by
  unfold Registry.modify
  split <;> rfl

theorem route_none (r : Registry P (Service P)) :
    r.route none = ((r.slots.get 0).map (Option.map Service.protocol)).join := rfl

theorem route_some (r : Registry P (Service P)) (p : P) :
    r.route (some p) = (r.getProtocol p).bind fun index =>
      ((r.slots.get index).map (Option.map Service.protocol)).join := by
  simp only [Registry.route, Registry.requestResponse]
  cases r.getProtocol p with
  | none => rfl
  | some index =>
      cases hslot : r.slots.get index with
      | none => simp [hslot]
      | some slot => simp [hslot]

/-- Nothing that happens to the behaviours changes the routes. -/
theorem modify_route (r : Registry P (Service P)) (index : ℕ) (f : Behaviour → Behaviour)
    (protocol : Option P) : (r.modify index f).route protocol = r.route protocol := by
  cases protocol with
  | none => rw [route_none, route_none, modify_get]
  | some p =>
      rw [route_some, route_some, modify_getProtocol]
      simp only [modify_get]

variable {protocols : StreamProtocols P} {r : Registry P (Service P)}

theorem Running.route_eq {b : Builder} (h : Running protocols b r) :
    ∃ r₀, b.build protocols = .ok r₀ ∧ ∀ protocol,
      r.route protocol = r₀.route protocol := by
  induction h with
  | built h => exact ⟨_, h, fun _ => rfl⟩
  | step _ index f ih =>
      obtain ⟨r₀, hbuild, hroute⟩ := ih
      exact ⟨r₀, hbuild, fun protocol => (modify_route _ index f protocol).trans
        (hroute protocol)⟩

/-- A named protocol is routed to itself or nowhere. -/
theorem Running.eq_of_route_some {b : Builder}
    (hb : b = .new ∨ ∃ configs, b = .withRequestResponse configs)
    (h : Running protocols b r) {p q : P}
    (hroute : r.route (some p) = some q) : q = p := by
  obtain ⟨r₀, hbuild, heq⟩ := h.route_eq
  rw [heq] at hroute
  rcases hb with rfl | ⟨configs, rfl⟩
  · cases hbuild
    cases hroute
  · have hfirst := requestResponse_some_of_build hbuild p
    cases hfind : (effective configs).find? (·.isFor protocols p) with
    | none =>
        rw [hfind] at hfirst
        rw [Registry.route, hfirst] at hroute
        cases hroute
    | some config =>
        rw [hfind] at hfirst
        obtain ⟨service, hservice, hslot⟩ := hfirst
        rw [Registry.route, hslot] at hroute
        cases hroute
        have hfor := List.find?_some hfind
        obtain ⟨protocol, hok, hprotocol⟩ := service_protocol_of_new hservice
        exact hprotocol.trans ((isFor_iff hok).mp hfor).symm

/-- Without a protocol the first one is meant, and that is a valid one. -/
theorem Running.route_none_of_enabled {configs : List RequestResponseConfig}
    (h : Running protocols (.withRequestResponse configs) r) :
    ∃ name p, protocols.tryFromOwned name = .ok p ∧ r.route none = some p := by
  obtain ⟨r₀, hbuild, heq⟩ := h.route_eq
  obtain ⟨config, service, -, hservice, hslot⟩ := requestResponse_none_of_build hbuild
  obtain ⟨protocol, hok, hprotocol⟩ := service_protocol_of_new hservice
  refine ⟨config.protocol, protocol, hok, ?_⟩
  rw [heq, Registry.route, hslot]
  exact congrArg some hprotocol

theorem Running.route_of_new (h : Running protocols .new r) (protocol : Option P) :
    r.route protocol = none := by
  obtain ⟨r₀, hbuild, heq⟩ := h.route_eq
  cases hbuild
  rw [heq]
  cases protocol with
  | none => rfl
  | some p => rfl

end Running

/-! ## Calls by name -/

section Calls

variable {P : Type} {protocols : StreamProtocols P}

/-- The call fails before it sends a command: there are no peers to ask, or nothing
to send. -/
def Call.Rejected : Call → Prop
  | .listenForRequests _ => False
  | .sendRequests peers _ request => peers = [] ∨ request.Missing
  | .sendRequest _ _ request => request.Missing
  | .sendResponse _ _ _ response => response.Missing

theorem optionalStreamProtocol_eq (name : Name) :
    optionalStreamProtocol protocols name =
      (protocols.tryFromOwned name.text).toOption := by
  cases name with
  | owned name => rfl
  | borrowed name => rfl

theorem intoRequest_cases (name : Name) (payload : Payload) :
    (payload.Missing ∧ ∃ e, intoRequest protocols name payload = .error e) ∨
    ∃ data, intoRequest protocols name payload =
        .ok (optionalStreamProtocol protocols name, data) ∧
      (payload.Missing ↔ data.isEmpty = true) := by
  cases payload with
  | bytes data => exact Or.inr ⟨data, rfl, List.isEmpty_iff.symm⟩
  | closure result =>
      cases result with
      | error e => exact Or.inl ⟨trivial, _, rfl⟩
      | ok data => exact Or.inr ⟨data, rfl, List.isEmpty_iff.symm⟩

/-- A call is rejected or sends a command with the protocol its name stands for. -/
theorem Call.command_cases (protocols : StreamProtocols P) (call : Call) :
    (call.Rejected ∧ ∃ e, call.command protocols = .error e) ∨
    (¬call.Rejected ∧ ∃ command, call.command protocols = .ok command ∧
      command.protocol = (protocols.tryFromOwned call.name.text).toOption) := by
  cases call with
  | listenForRequests name =>
      exact Or.inr ⟨id, _, rfl, optionalStreamProtocol_eq name⟩
  | sendRequests peers name request =>
      simp only [Call.command, Call.Rejected]
      rcases intoRequest_cases name request with ⟨hmissing, e, he⟩ |
        ⟨data, hdata, hmissing⟩
      · exact Or.inl ⟨Or.inr hmissing, e, by rw [he]; rfl⟩
      · rw [hdata, hmissing]
        cases peers with
        | nil => exact Or.inl ⟨Or.inl rfl, _, rfl⟩
        | cons peer rest =>
            cases hempty : data.isEmpty with
            | true =>
                refine Or.inl ⟨Or.inr rfl, .invalidConfig "request is empty", ?_⟩
                simp [List.eraseDups_cons, hempty, bind, Except.bind, throw, throwThe,
                  MonadExceptOf.throw]
            | false =>
                refine Or.inr
                  ⟨by simp, .sendRequests (optionalStreamProtocol protocols name)
                  (peer :: rest).eraseDups data, ?_, optionalStreamProtocol_eq name⟩
                simp [List.eraseDups_cons, hempty, bind, Except.bind, pure, Except.pure]
  | sendRequest peerId name request =>
      simp only [Call.command, Call.Rejected]
      rcases intoRequest_cases name request with ⟨hmissing, e, he⟩ |
        ⟨data, hdata, hmissing⟩
      · exact Or.inl ⟨hmissing, e, by rw [he]; rfl⟩
      · rw [hdata, hmissing]
        cases hempty : data.isEmpty with
        | true =>
            refine Or.inl ⟨rfl, .invalidConfig "request is empty", ?_⟩
            simp [hempty, bind, Except.bind, throw, throwThe, MonadExceptOf.throw]
        | false =>
            refine Or.inr ⟨nofun,
              .sendRequest (optionalStreamProtocol protocols name) peerId
              data, ?_, optionalStreamProtocol_eq name⟩
            simp [hempty, bind, Except.bind, pure, Except.pure]
  | sendResponse peerId requestId name response =>
      simp only [Call.command, Call.Rejected]
      rcases intoRequest_cases name response with ⟨hmissing, e, he⟩ |
        ⟨data, hdata, hmissing⟩
      · exact Or.inl ⟨hmissing, e, by rw [he]; rfl⟩
      · rw [hdata, hmissing]
        cases hempty : data.isEmpty with
        | true =>
            refine Or.inl ⟨rfl, .invalidConfig "response is empty", ?_⟩
            simp [hempty, bind, Except.bind, throw, throwThe, MonadExceptOf.throw]
        | false =>
            refine Or.inr ⟨nofun,
              .sendResponse (optionalStreamProtocol protocols name) peerId
              requestId data, ?_, optionalStreamProtocol_eq name⟩
            simp [hempty, bind, Except.bind, pure, Except.pure]

variable [DecidableEq P]

/-- A call that a behaviour carries out is carried out by the one whose protocol was
named. -/
def Faithful (protocols : StreamProtocols P) (node : Node P) (call : Call) : Prop :=
  ∀ service command, node.carriesOut protocols call = .ok (service, command) →
    protocols.asRef service.protocol = call.name.text

theorem carriesOut_of_error {node : Node P} {call : Call} {e : CallError}
    (h : call.command protocols = .error e) :
    node.carriesOut protocols call = .error e := by
  rw [Node.carriesOut, h]
  rfl

/-- A command is carried out by the behaviour at the end of its route. -/
theorem carriesOut_of_command {node : Node P} {call : Call} {command : Command P}
    (h : call.command protocols = .ok command) :
    node.carriesOut protocols call =
      if node.running then
        match node.registry.requestResponse command.protocol with
        | none => .error .disabled
        | some service => .ok (service, command)
      else .error .channelClosed := by
  rw [Node.carriesOut, h]
  cases hrunning : node.running with
  | false => rfl
  | true =>
      simp only [Registry.processCommand, bind, Except.bind]
      cases node.registry.requestResponse command.protocol with
      | none => rfl
      | some service => rfl

/-- What carries a call out stands on the route of the call's name. -/
theorem route_of_carriesOut {node : Node P} {call : Call} {service : Service P}
    {command : Command P} (h : node.carriesOut protocols call = .ok (service, command)) :
    ¬call.Rejected ∧ node.running = true ∧
      node.registry.route (protocols.tryFromOwned call.name.text).toOption =
        some service.protocol := by
  rcases call.command_cases protocols with
    ⟨-, e, he⟩ | ⟨haccepted, command', hcommand, hprotocol⟩
  · rw [carriesOut_of_error he] at h
    cases h
  · rw [carriesOut_of_command hcommand] at h
    split at h
    · next hrunning =>
      split at h
      · cases h
      · next service' hservice =>
        cases h
        rw [← hprotocol, Registry.route, hservice]
        exact ⟨haccepted, hrunning, rfl⟩
    · cases h

/-- An invalid name is forgotten and the first protocol takes its place. -/
theorem not_faithful_of_invalid {configs : List RequestResponseConfig}
    {r : Registry P (Service P)} (hr : Running protocols (.withRequestResponse configs) r)
    {call : Call} (hinvalid : ∀ p, protocols.tryFromOwned call.name.text ≠ .ok p)
    (haccepted : ¬call.Rejected) : ¬Faithful protocols ⟨true, r⟩ call := by
  intro hfaithful
  rcases call.command_cases protocols with ⟨hrejected, -⟩ |
    ⟨-, command, hcommand, hprotocol⟩
  · exact haccepted hrejected
  · obtain ⟨name, p, hname, hfirst⟩ := hr.route_none_of_enabled
    have hnone : command.protocol = none := by
      rw [hprotocol]
      cases hconverted : protocols.tryFromOwned call.name.text with
      | error e => rfl
      | ok q => exact absurd hconverted (hinvalid q)
    obtain ⟨service, hservice, rfl⟩ := Option.map_eq_some_iff.mp hfirst
    have hcarried :
        (Node.mk true r).carriesOut protocols call = .ok (service, command) := by
      rw [carriesOut_of_command hcommand, hnone]
      simp only [if_true, hservice]
    have hsame := hfaithful service command hcarried
    rw [protocols.asRef_of_ok hname] at hsame
    exact hinvalid _ (hsame ▸ hname)

/-- A call by name is faithful exactly if the name is a valid protocol, or nothing
carries the call out: the node has no request-response or has stopped, or the call
is rejected. -/
theorem named_calls_faithful_iff {b : Builder}
    (hb : b = .new ∨ ∃ configs, b = .withRequestResponse configs)
    {r : Registry P (Service P)} (hr : Running protocols b r) (running : Bool)
    (call : Call) :
    Faithful protocols ⟨running, r⟩ call ↔
      (∃ p, protocols.tryFromOwned call.name.text = .ok p) ∨ b = .new ∨
        running = false ∨ call.Rejected := by
  constructor
  · intro hfaithful
    by_contra hcondition
    push Not at hcondition
    obtain ⟨hinvalid, hnew, hrunning, haccepted⟩ := hcondition
    obtain ⟨configs, rfl⟩ := hb.resolve_left hnew
    obtain rfl : running = true := Bool.eq_true_of_not_eq_false hrunning
    exact not_faithful_of_invalid hr hinvalid haccepted hfaithful
  · intro hcondition service command h
    obtain ⟨haccepted, hrunning, hservice⟩ := route_of_carriesOut h
    rcases hcondition with ⟨p, hp⟩ | rfl | rfl | hrejected
    · rw [hp] at hservice
      rw [hr.eq_of_route_some hb hservice]
      exact protocols.asRef_of_ok hp
    · rw [hr.route_of_new] at hservice
      cases hservice
    · cases hrunning
    · exact absurd hrejected haccepted

end Calls

/-- A request under the second of three registered names. -/
theorem named_calls_faithful_iff_repeated :
    ∃ r, Running slashProtocols (.withRequestResponse repeatedConfigs) r ∧
      Faithful slashProtocols ⟨true, r⟩ (.sendRequest 7 (.owned "/b") (.bytes [1])) ∧
      ∃ service command, (Node.mk true r).carriesOut slashProtocols
        (.sendRequest 7 (.owned "/b") (.bytes [1])) = .ok (service, command) ∧
          slashProtocols.asRef service.protocol = "/b" := by
  have hbuild : ∃ r, (Builder.withRequestResponse repeatedConfigs).build slashProtocols =
      .ok r ∧ ∃ service command, (Node.mk true r).carriesOut slashProtocols
        (.sendRequest 7 (.owned "/b") (.bytes [1])) = .ok (service, command) :=
    ⟨_, rfl, _, _, rfl⟩
  obtain ⟨r, hr, service, command, hcarried⟩ := hbuild
  have hfaithful : Faithful slashProtocols ⟨true, r⟩
      (.sendRequest 7 (.owned "/b") (.bytes [1])) :=
    (named_calls_faithful_iff (Or.inr ⟨_, rfl⟩) (.built hr) true _).mpr
      (Or.inl ⟨⟨"/b", by decide⟩, rfl⟩)
  exact ⟨r, .built hr, hfaithful, service, command, hcarried,
    hfaithful service command hcarried⟩

/-- Calls by the name of a protocol that is not valid. -/
def chatCalls : List Call :=
  [.listenForRequests (.owned "chat"), .sendRequests [7] (.borrowed "chat") (.bytes [1]),
    .sendRequest 7 (.owned "chat") (.bytes [1]),
    .sendResponse 7 0 (.borrowed "chat") (.bytes [1])]

/-- All of them reach the protocol that happens to be the first. -/
theorem invalid_names_reach_first_protocol :
    ∃ r, (Builder.withRequestResponse repeatedConfigs).build slashProtocols = .ok r ∧
      ∀ call ∈ chatCalls, ∃ service command,
        (Node.mk true r).carriesOut slashProtocols call = .ok (service, command) ∧
          slashProtocols.asRef service.protocol = "/a" ∧ call.name.text = "chat" := by
  refine ⟨_, rfl, ?_⟩
  intro call hcall
  simp only [chatCalls, List.mem_cons, List.not_mem_nil, or_false] at hcall
  rcases hcall with rfl | rfl | rfl | rfl
  · exact ⟨_, _, rfl, rfl, rfl⟩
  · exact ⟨_, _, rfl, rfl, rfl⟩
  · exact ⟨_, _, rfl, rfl, rfl⟩
  · exact ⟨_, _, rfl, rfl, rfl⟩

end Connexa.RequestResponse
