import Connexa.Task.Listeners

/-!
# What listeners get

The three tables of listeners are three hubs.  What a listener gets depends on the
events of its own topic and on its own reads only.
-/

namespace Connexa.Listeners

open HashMap Mpsc

/-- The tables of listeners. -/
inductive Kind where
  | gossipsub
  | floodsub
  | connections
  deriving DecidableEq

namespace Kind

/-- What the listeners of a kind are registered by. -/
abbrev Key : Kind → Type
  | .gossipsub => TopicHash
  | .floodsub => Topic
  | .connections => Unit

abbrev Event : Kind → Type
  | .gossipsub => GossipsubEvent
  | .floodsub => FloodsubEvent
  | .connections => ConnexaSwarmEvent

instance instDecidableEqKey : (kind : Kind) → DecidableEq kind.Key
  | .gossipsub => inferInstanceAs (DecidableEq String)
  | .floodsub => inferInstanceAs (DecidableEq String)
  | .connections => inferInstanceAs (DecidableEq Unit)

end Kind

/-! ## Runs -/

inductive Input where
  | gossipsub (resp : ℕ) (command : GossipsubCommand)
  | floodsub (resp : ℕ) (command : FloodsubCommand)
  | listener (resp : ℕ)
  | gossipsubEvent (notice : GossipsubNotice)
  | floodsubEvent (notice : FloodsubNotice)
  | swarmEvent (event : SwarmEvent)
  | cleanup
  /-- The owner of a channel polls it, or drops it. -/
  | read (kind : Kind) (i : ℕ)
  | drop (kind : Kind) (i : ℕ)

/-- What the owner of a channel does. -/
def World.atReader (kind : Kind) (i : ℕ) (f : Reader kind.Event → Reader kind.Event)
    (w : World) : World :=
  match kind with
  | .gossipsub => { w with gossipsubChannels := w.gossipsubChannels.modify i f }
  | .floodsub => { w with floodsubChannels := w.floodsubChannels.modify i f }
  | .connections => { w with connectionChannels := w.connectionChannels.modify i f }

def step (w : World) : Input → World
  | .gossipsub resp command => processGossipsubCommand resp command w
  | .floodsub resp command => processFloodsubCommand resp command w
  | .listener resp => Listeners.listener resp w
  | .gossipsubEvent notice => processGossipsubEvent notice w
  | .floodsubEvent notice => processFloodsubEvent notice w
  | .swarmEvent event => processSwarmEvent event w
  | .cleanup => Listeners.cleanup w
  | .read kind i => w.atReader kind i Reader.read
  | .drop kind i => w.atReader kind i Reader.drop

def run (inputs : List Input) (w : World) : World :=
  inputs.foldl step w

/-! ## The task as hubs -/

/-- The senders of a topic. -/
def senders (listeners : HashMap String (List ℕ)) (topic : String) : List ℕ :=
  (listeners.lookup topic).getD []

theorem senders_pushAt (topic : String) (tx : ℕ)
    (listeners : HashMap String (List ℕ)) :
    senders (pushAt topic tx listeners) =
      Function.update (senders listeners) topic (senders listeners topic ++ [tx]) := by
  funext t
  rw [senders, pushAt, lookup_insert, Function.update_apply]
  split <;> rfl

theorem senders_retainOpen {E : Type} (channels : List (Reader E))
    (listeners : HashMap String (List ℕ)) :
    senders (retainOpen channels listeners) =
      fun t => (senders listeners t).filter (Hub.isOpen channels) := by
  funext t
  have hlookup : ∀ chs, (retainOpen channels listeners).lookup t = some chs ↔
      (∃ all, listeners.lookup t = some all ∧
        all.filter (Hub.isOpen channels) = chs) ∧ (!chs.isEmpty) = true := by
    intro chs
    rw [retainOpen, lookup_retain_some, lookup_update_some]
  rw [senders, senders]
  cases hall : listeners.lookup t with
  | none =>
      cases hkept : (retainOpen channels listeners).lookup t with
      | none => rfl
      | some chs =>
          obtain ⟨⟨all, hsome, -⟩, -⟩ := (hlookup chs).mp hkept
          rw [hall] at hsome
          cases hsome
  | some all =>
      rw [Option.getD_some]
      cases hopen : all.filter (Hub.isOpen channels) with
      | nil =>
          cases hkept : (retainOpen channels listeners).lookup t with
          | none => rfl
          | some chs =>
              obtain ⟨⟨all', hsome, rfl⟩, hne⟩ := (hlookup chs).mp hkept
              rw [hall] at hsome
              cases hsome
              rw [hopen] at hne
              cases hne
      | cons ch rest =>
          rw [(hlookup (ch :: rest)).mpr ⟨⟨all, hall, hopen⟩, rfl⟩]
          rfl

namespace World

/-- The hub of a kind. -/
def hub (w : World) : (kind : Kind) → Hub kind.Key kind.Event
  | .gossipsub => ⟨senders w.task.gossipsubListener, w.gossipsubChannels⟩
  | .floodsub => ⟨senders w.task.floodsubListener, w.floodsubChannels⟩
  | .connections => ⟨fun _ => w.task.connectionListeners, w.connectionChannels⟩

/-- The receivers of a kind. -/
def channels (w : World) (kind : Kind) : List (Reader kind.Event) :=
  (w.hub kind).readers

/-- Whether listeners of a kind are taken. -/
def enabled (w : World) : Kind → Bool
  | .gossipsub => w.gossipsub
  | .floodsub => w.floodsub
  | .connections => true

end World

/-- What the listeners are told of an event of the swarm. -/
def SwarmEvent.event : SwarmEvent → Option ConnexaSwarmEvent
  | .connectionEstablished peerId connectionId endpoint numEstablished =>
      some (.connectionEstablished peerId connectionId endpoint numEstablished)
  | .connectionClosed peerId connectionId endpoint numEstablished cause =>
      some (.connectionClosed peerId connectionId endpoint numEstablished cause)
  | .incomingConnection connectionId localAddr sendBackAddr =>
      some (.incomingConnection connectionId localAddr sendBackAddr)
  | .incomingConnectionError peerId connectionId localAddr sendBackAddr error =>
      some (.incomingConnectionError connectionId localAddr sendBackAddr error peerId)
  | .outgoingConnectionError connectionId peerId error =>
      some (.outgoingConnectionError connectionId peerId error)
  | .newListenAddr listenerId address => some (.newListenAddr listenerId address)
  | .expiredListenAddr listenerId address =>
      some (.listenAddrExpired listenerId address)
  | .listenerClosed listenerId addresses =>
      some (.listenAddrClosed listenerId addresses)
  | .listenerError => none
  | .dialing => none
  | .newExternalAddrCandidate => none
  | .externalAddrConfirmed address => some (.newExternalAddr address)
  | .externalAddrExpired address => some (.externalAddrExpired address)
  | .newExternalAddrOfPeer peerId address => some (.externalAddrOfPeer peerId address)

/-- Closed listeners are forgotten first. -/
def SwarmEvent.retains : SwarmEvent → Bool
  | .connectionEstablished _ _ _ _ => true
  | .connectionClosed _ _ _ _ _ => true
  | _ => false

/-- What an input tells the listeners of a topic; a floodsub message that names a
topic twice is told twice. -/
def told : (kind : Kind) → kind.Key → Input → List kind.Event
  | .gossipsub, topic, .gossipsubEvent notice =>
      (notice.event.filter fun e => e.1 = topic).toList.map Prod.snd
  | .floodsub, topic, .floodsubEvent notice =>
      List.replicate (notice.event.1.count topic) notice.event.2
  | .connections, _, .swarmEvent event => event.event.toList
  | _, _, _ => []

/-- What the owner of a channel does. -/
def act (kind : Kind) (i : ℕ) : Input → List (Hearing kind.Event)
  | .read kind' j => if kind' = kind ∧ j = i then [.read] else []
  | .drop kind' j => if kind' = kind ∧ j = i then [.dropped] else []
  | _ => []

/-- What happens to a listener. -/
def hearings (kind : Kind) (key : kind.Key) (i : ℕ) (inputs : List Input) :
    List (Hearing kind.Event) :=
  inputs.flatMap fun input => (told kind key input).map .told ++ act kind i input

/-- What an input is to the hub of a kind. -/
def hubEvents (enabled : Kind → Bool) :
    (kind : Kind) → Input → List (HubEvent kind.Key kind.Event)
  | .gossipsub, .gossipsub _ (.gossipsubListener topic) =>
      if enabled .gossipsub then [.joined topic 50] else []
  | .gossipsub, .gossipsubEvent notice =>
      notice.event.toList.map fun e => .told e.1 e.2
  | .gossipsub, .cleanup => [.swept]
  | .gossipsub, .read .gossipsub i => [.read i]
  | .gossipsub, .drop .gossipsub i => [.dropped i]
  | .floodsub, .floodsub _ (.floodsubListener topic) =>
      if enabled .floodsub then [.joined topic 50] else []
  | .floodsub, .floodsubEvent notice =>
      notice.event.1.map fun topic => .told topic notice.event.2
  | .floodsub, .cleanup => [.swept]
  | .floodsub, .read .floodsub i => [.read i]
  | .floodsub, .drop .floodsub i => [.dropped i]
  | .connections, .listener _ => [.joined () 50]
  | .connections, .swarmEvent event =>
      (if event.retains then [.swept] else []) ++ event.event.toList.map (.told ())
  | .connections, .cleanup => [.swept]
  | .connections, .read .connections i => [.read i]
  | .connections, .drop .connections i => [.dropped i]
  | _, _ => []

/-! ## What the functions do to the hubs -/

theorem processGossipsubEvent_eq (notice : GossipsubNotice) (w : World) :
    processGossipsubEvent notice w =
      { w with
        gossipsubChannels := notice.event.toList.foldl
          (fun channels e =>
            Hub.tell e.2 (senders w.task.gossipsubListener e.1) channels)
          w.gossipsubChannels } := by
  unfold processGossipsubEvent
  cases notice.event with
  | none => rfl
  | some e =>
      simp only [Option.toList, List.foldl_cons, List.foldl_nil, senders]
      cases w.task.gossipsubListener.lookup e.1 with
      | _ => rfl

theorem processFloodsubEvent_eq (notice : FloodsubNotice) (w : World) :
    processFloodsubEvent notice w =
      { w with
        floodsubChannels := notice.event.1.foldl
          (fun channels topic =>
            Hub.tell notice.event.2 (senders w.task.floodsubListener topic) channels)
          w.floodsubChannels } := by
  simp only [processFloodsubEvent]
  generalize notice.event.1 = topics
  induction topics generalizing w with
  | nil => rfl
  | cons topic rest ih =>
      rw [List.foldl_cons, ih, List.foldl_cons, senders]
      cases w.task.floodsubListener.lookup topic with
      | _ => rfl

theorem processSwarmEvent_eq (event : SwarmEvent) (w : World) :
    processSwarmEvent event w =
      event.event.toList.foldl (fun w e => w.tellConnectionListeners e)
        (if event.retains then w.retainConnectionListeners else w) := by
  cases event with
  | _ => rfl

theorem hub_send (resp : ℕ) (response : Response) (w : World) (kind : Kind) :
    (w.send resp response).hub kind = w.hub kind := by
  cases kind with
  | _ => rfl

/-- A gossipsub command adds a listener and sends its receiver, or only answers. -/
theorem gossipsubCommand_cases (resp : ℕ) (command : GossipsubCommand) (w : World) :
    (∃ topic, command = .gossipsubListener topic ∧ w.gossipsub = true ∧
      processGossipsubCommand resp command w =
        { w with
          task :=
            { w.task with
              gossipsubListener :=
                pushAt topic w.gossipsubChannels.length w.task.gossipsubListener
              sent := w.task.sent ++
                [(resp, .receiver (.ok w.gossipsubChannels.length))] }
          gossipsubChannels := w.gossipsubChannels ++ [Reader.new 50] }) ∨
      hubEvents w.enabled .gossipsub (.gossipsub resp command) = [] ∧
        ∃ response, processGossipsubCommand resp command w = w.send resp response := by
  obtain ⟨task, gossipsubChannels, floodsubChannels, connectionChannels, gossipsub,
    floodsub⟩ := w
  cases gossipsub with
  | false =>
      refine Or.inr ⟨?_, _, rfl⟩
      cases command with
      | _ => rfl
  | true =>
      cases command with
      | gossipsubListener topic => exact Or.inl ⟨topic, rfl, rfl, rfl⟩
      | subscribe topic answer =>
          rcases answer with e | isNew
          · exact Or.inr ⟨rfl, _, rfl⟩
          · cases isNew with
            | _ => exact Or.inr ⟨rfl, _, rfl⟩
      | unsubscribe topic answer =>
          cases answer with
          | _ => exact Or.inr ⟨rfl, _, rfl⟩
      | publish answer =>
          cases answer with
          | _ => exact Or.inr ⟨rfl, _, rfl⟩
      | _ => exact Or.inr ⟨rfl, _, rfl⟩

theorem hub_gossipsubCommand (resp : ℕ) (command : GossipsubCommand) (w : World)
    (kind : Kind) :
    (processGossipsubCommand resp command w).hub kind =
      (w.hub kind).run (hubEvents w.enabled kind (.gossipsub resp command)) := by
  rcases gossipsubCommand_cases resp command w with
    ⟨topic, rfl, henabled, heq⟩ | ⟨hevents, response, heq⟩
  · rw [heq]
    cases kind with
    | gossipsub =>
        have hevents : hubEvents w.enabled .gossipsub
            (.gossipsub resp (.gossipsubListener topic)) = [.joined topic 50] :=
          if_pos henabled
        rw [hevents]
        exact congrArg (fun s => (⟨s, w.gossipsubChannels ++ [Reader.new 50]⟩ : Hub _ _))
          (senders_pushAt topic _ _)
    | floodsub => rfl
    | connections => rfl
  · rw [heq, hub_send]
    cases kind with
    | gossipsub =>
        rw [hevents]
        rfl
    | floodsub => rfl
    | connections => rfl

/-- A floodsub command adds a listener and sends its receiver, or only answers. -/
theorem floodsubCommand_cases (resp : ℕ) (command : FloodsubCommand) (w : World) :
    (∃ topic, command = .floodsubListener topic ∧ w.floodsub = true ∧
      processFloodsubCommand resp command w =
        { w with
          task :=
            { w.task with
              floodsubListener :=
                pushAt topic w.floodsubChannels.length w.task.floodsubListener
              sent := w.task.sent ++
                [(resp, .receiver (.ok w.floodsubChannels.length))] }
          floodsubChannels := w.floodsubChannels ++ [Reader.new 50] }) ∨
      hubEvents w.enabled .floodsub (.floodsub resp command) = [] ∧
        ∃ response, processFloodsubCommand resp command w = w.send resp response := by
  obtain ⟨task, gossipsubChannels, floodsubChannels, connectionChannels, gossipsub,
    floodsub⟩ := w
  cases floodsub with
  | false =>
      refine Or.inr ⟨?_, _, rfl⟩
      cases command with
      | _ => rfl
  | true =>
      cases command with
      | floodsubListener topic => exact Or.inl ⟨topic, rfl, rfl, rfl⟩
      | subscribe topic answer =>
          cases answer with
          | _ => exact Or.inr ⟨rfl, _, rfl⟩
      | unsubscribe topic answer =>
          cases answer with
          | _ => exact Or.inr ⟨rfl, _, rfl⟩
      | _ => exact Or.inr ⟨rfl, _, rfl⟩

theorem hub_floodsubCommand (resp : ℕ) (command : FloodsubCommand) (w : World)
    (kind : Kind) :
    (processFloodsubCommand resp command w).hub kind =
      (w.hub kind).run (hubEvents w.enabled kind (.floodsub resp command)) := by
  rcases floodsubCommand_cases resp command w with
    ⟨topic, rfl, henabled, heq⟩ | ⟨hevents, response, heq⟩
  · rw [heq]
    cases kind with
    | floodsub =>
        have hevents : hubEvents w.enabled .floodsub
            (.floodsub resp (.floodsubListener topic)) = [.joined topic 50] :=
          if_pos henabled
        rw [hevents]
        exact congrArg (fun s => (⟨s, w.floodsubChannels ++ [Reader.new 50]⟩ : Hub _ _))
          (senders_pushAt topic _ _)
    | gossipsub => rfl
    | connections => rfl
  · rw [heq, hub_send]
    cases kind with
    | floodsub =>
        rw [hevents]
        rfl
    | gossipsub => rfl
    | connections => rfl

/-- Telling the listeners of one topic after the other. -/
theorem run_told {K E : Type} [DecidableEq K] (hub : Hub K E) (news : List (K × E)) :
    hub.run (news.map fun n => .told n.1 n.2) =
      { hub with
        readers := news.foldl
          (fun readers n => Hub.tell n.2 (hub.senders n.1) readers) hub.readers } := by
  induction news generalizing hub with
  | nil => rfl
  | cons n rest ih => exact ih (hub.step (.told n.1 n.2))

theorem hub_swarmEvent (event : SwarmEvent) (w : World) (kind : Kind) :
    (processSwarmEvent event w).hub kind =
      (w.hub kind).run (hubEvents w.enabled kind (.swarmEvent event)) := by
  rw [processSwarmEvent_eq]
  cases kind with
  | connections =>
      cases event with
      | _ => rfl
  | _ =>
      cases event with
      | _ => rfl

theorem hub_step (w : World) (input : Input) (kind : Kind) :
    (step w input).hub kind = (w.hub kind).run (hubEvents w.enabled kind input) := by
  cases input with
  | gossipsub resp command => exact hub_gossipsubCommand resp command w kind
  | floodsub resp command => exact hub_floodsubCommand resp command w kind
  | listener resp =>
      cases kind with
      | _ => rfl
  | gossipsubEvent notice =>
      rw [step, processGossipsubEvent_eq]
      cases kind with
      | gossipsub => exact (run_told (w.hub .gossipsub) notice.event.toList).symm
      | floodsub => rfl
      | connections => rfl
  | floodsubEvent notice =>
      rw [step, processFloodsubEvent_eq]
      cases kind with
      | gossipsub => rfl
      | floodsub =>
          have hrun := run_told (w.hub .floodsub)
            (notice.event.1.map fun topic => (topic, notice.event.2))
          rw [List.map_map, List.foldl_map] at hrun
          exact hrun.symm
      | connections => rfl
  | swarmEvent event => exact hub_swarmEvent event w kind
  | cleanup =>
      cases kind with
      | gossipsub =>
          simp only [step, cleanup, World.hub, senders_retainOpen]
          rfl
      | floodsub =>
          simp only [step, cleanup, World.hub, senders_retainOpen]
          rfl
      | connections => rfl
  | read kind' i =>
      cases kind with
      | _ =>
          cases kind' with
          | _ => rfl
  | drop kind' i =>
      cases kind with
      | _ =>
          cases kind' with
          | _ => rfl

theorem enabled_step (w : World) (input : Input) :
    (step w input).enabled = w.enabled := by
  cases input with
  | gossipsub resp command =>
      rcases gossipsubCommand_cases resp command w with
        ⟨topic, rfl, henabled, heq⟩ | ⟨hevents, response, heq⟩
      · rw [step, heq]
        rfl
      · rw [step, heq]
        rfl
  | floodsub resp command =>
      rcases floodsubCommand_cases resp command w with
        ⟨topic, rfl, henabled, heq⟩ | ⟨hevents, response, heq⟩
      · rw [step, heq]
        rfl
      · rw [step, heq]
        rfl
  | gossipsubEvent notice =>
      rw [step, processGossipsubEvent_eq]
      rfl
  | floodsubEvent notice =>
      rw [step, processFloodsubEvent_eq]
      rfl
  | swarmEvent event =>
      cases event with
      | _ => rfl
  | read kind i =>
      cases kind with
      | _ => rfl
  | drop kind i =>
      cases kind with
      | _ => rfl
  | listener resp => rfl
  | cleanup => rfl

/-! ## Runs of one listener -/

theorem enabled_run (inputs : List Input) (w : World) :
    (run inputs w).enabled = w.enabled := by
  induction inputs generalizing w with
  | nil => rfl
  | cons input rest ih => exact (ih (step w input)).trans (enabled_step w input)

theorem hub_run (inputs : List Input) (w : World) (kind : Kind) :
    (run inputs w).hub kind =
      (w.hub kind).run (inputs.flatMap (hubEvents w.enabled kind)) := by
  induction inputs generalizing w with
  | nil => rfl
  | cons input rest ih =>
      refine (ih (step w input)).trans ?_
      rw [enabled_step, hub_step, List.flatMap_cons]
      exact (List.foldl_append ..).symm

theorem filterMap_told {K E : Type} [DecidableEq K] (key : K) (i : ℕ) (e : E)
    (topics : List K) :
    (topics.map fun topic => HubEvent.told topic e).filterMap (Hub.hearing key i) =
      (List.replicate (topics.count key) e).map .told := by
  induction topics with
  | nil => rfl
  | cons topic rest ih =>
      rw [List.map_cons, List.filterMap_cons, Hub.hearing]
      by_cases htopic : topic = key
      · rw [if_pos htopic, htopic, List.count_cons_self, List.replicate_succ,
          List.map_cons, ← ih]
      · rw [if_neg htopic, List.count_cons_of_ne htopic, ← ih]

/-- To the hub an input is what it tells the topic, and what the owner does. -/
theorem filterMap_hubEvents (enabled : Kind → Bool) (kind : Kind) (key : kind.Key)
    (i : ℕ) (input : Input) :
    (hubEvents enabled kind input).filterMap (Hub.hearing key i) =
      (told kind key input).map .told ++ act kind i input := by
  cases input with
  | gossipsub resp command =>
      cases kind with
      | gossipsub =>
          cases command with
          | gossipsubListener topic =>
              simp only [hubEvents]
              split <;> rfl
          | _ => rfl
      | _ => rfl
  | floodsub resp command =>
      cases kind with
      | floodsub =>
          cases command with
          | floodsubListener topic =>
              simp only [hubEvents]
              split <;> rfl
          | _ => rfl
      | _ => rfl
  | gossipsubEvent notice =>
      cases kind with
      | gossipsub =>
          simp only [hubEvents, told, act, List.append_nil]
          cases notice.event with
          | none => rfl
          | some e =>
              simp only [Option.toList, List.map_cons, List.map_nil, Hub.hearing,
                List.filterMap_cons, List.filterMap_nil, Option.filter]
              by_cases htopic : e.1 = key
              · simp [htopic]
              · simp [htopic]
      | _ => rfl
  | floodsubEvent notice =>
      cases kind with
      | floodsub =>
          exact (filterMap_told key i notice.event.2 notice.event.1).trans
            (List.append_nil _).symm
      | _ => rfl
  | swarmEvent event =>
      cases kind with
      | connections =>
          cases event with
          | _ => rfl
      | _ => rfl
  | read kind' j =>
      by_cases hj : j = i
      · cases kind with
        | _ =>
            cases kind' with
            | _ => simp [hubEvents, Hub.hearing, told, act, hj]
      · cases kind with
        | _ =>
            cases kind' with
            | _ => simp [hubEvents, Hub.hearing, told, act, hj]
  | drop kind' j =>
      by_cases hj : j = i
      · cases kind with
        | _ =>
            cases kind' with
            | _ => simp [hubEvents, Hub.hearing, told, act, hj]
      · cases kind with
        | _ =>
            cases kind' with
            | _ => simp [hubEvents, Hub.hearing, told, act, hj]
  | listener resp =>
      cases kind with
      | _ => rfl
  | cleanup =>
      cases kind with
      | _ => rfl

theorem heard_hubEvents (enabled : Kind → Bool) (kind : Kind) (key : kind.Key)
    (i : ℕ) (inputs : List Input) :
    Hub.heard key i (inputs.flatMap (hubEvents enabled kind)) =
      hearings kind key i inputs := by
  rw [Hub.heard, List.filterMap_flatMap]
  exact congrArg (inputs.flatMap ·) (funext (filterMap_hubEvents enabled kind key i))

theorem event_act (kind : Kind) (i : ℕ) (input : Input) :
    (act kind i input).filterMap Hearing.event = [] := by
  cases input with
  | read kind' j =>
      simp only [act]
      split <;> rfl
  | drop kind' j =>
      simp only [act]
      split <;> rfl
  | _ => rfl

theorem events_hearings (kind : Kind) (key : kind.Key) (i : ℕ) (inputs : List Input) :
    (hearings kind key i inputs).filterMap Hearing.event =
      inputs.flatMap (told kind key) := by
  rw [hearings, List.filterMap_flatMap]
  refine congrArg (inputs.flatMap ·) (funext fun input => ?_)
  have htold : ((told kind key input).map Hearing.told).filterMap Hearing.event =
      told kind key input := by
    rw [List.filterMap_map]
    exact List.filterMap_some
  rw [List.filterMap_append, htold, event_act, List.append_nil]

/-- The command that asks for a listener. -/
def listen : (kind : Kind) → kind.Key → ℕ → Input
  | .gossipsub, topic, resp => .gossipsub resp (.gossipsubListener topic)
  | .floodsub, topic, resp => .floodsub resp (.floodsubListener topic)
  | .connections, _, resp => .listener resp

theorem hubEvents_listen {enabled : Kind → Bool} {kind : Kind}
    (henabled : enabled kind = true) (key : kind.Key) (resp : ℕ) :
    hubEvents enabled kind (listen kind key resp) = [.joined key 50] := by
  cases kind with
  | gossipsub => exact if_pos henabled
  | floodsub => exact if_pos henabled
  | connections => rfl

theorem sent_listen {w : World} {kind : Kind} (henabled : w.enabled kind = true)
    (key : kind.Key) (resp : ℕ) :
    (step w (listen kind key resp)).task.sent =
      w.task.sent ++ [(resp, .receiver (.ok (w.channels kind).length))] := by
  cases kind with
  | gossipsub =>
      have hgossipsub : w.gossipsub = true := henabled
      simp only [step, listen, processGossipsubCommand, hgossipsub]
      rfl
  | floodsub =>
      have hfloodsub : w.floodsub = true := henabled
      simp only [step, listen, processFloodsubCommand, hfloodsub]
      rfl
  | connections => rfl

theorem hub_new (gossipsub floodsub : Bool) (kind : Kind) :
    (World.new gossipsub floodsub).hub kind = Hub.empty := by
  cases kind with
  | _ => rfl

/-- A listener of a topic is answered with a channel of its own.  Whatever else
happens, it gets what a channel of fifty messages gets from the events of its topic
since then: some of them, in their order and as often as they name the topic, and
all of them if it keeps up. -/
theorem listeners_hear (gossipsub floodsub : Bool) (before after : List Input)
    (kind : Kind) (key : kind.Key) (resp i : ℕ)
    (henabled : (World.new gossipsub floodsub).enabled kind = true)
    (hi : ((run before (.new gossipsub floodsub)).channels kind).length = i) :
    (run (before ++ [listen kind key resp]) (.new gossipsub floodsub)).task.sent =
        (run before (.new gossipsub floodsub)).task.sent ++
          [(resp, .receiver (.ok i))] ∧
      ∃ reader : Reader kind.Event,
        ((run (before ++ listen kind key resp :: after)
          (.new gossipsub floodsub)).channels kind)[i]? = some reader ∧
        reader = (Reader.new 50).hearAll (hearings kind key i after) ∧
        reader.messages.Sublist (after.flatMap (told kind key)) ∧
        ((Reader.new 50).KeepsUp (hearings kind key i after) →
          reader.messages = after.flatMap (told kind key)) := by
  constructor
  · rw [run, List.foldl_append, ← hi]
    exact sent_listen ((congrFun (enabled_run before _) kind).trans henabled) key resp
  · have hbefore := hub_run before (.new gossipsub floodsub) kind
    have hall := hub_run (before ++ listen kind key resp :: after)
      (.new gossipsub floodsub) kind
    rw [hub_new] at hbefore hall
    rw [List.flatMap_append, List.flatMap_cons, hubEvents_listen henabled,
      List.singleton_append] at hall
    have hreader := Hub.run_joined
      (before.flatMap (hubEvents (World.new gossipsub floodsub).enabled kind))
      (after.flatMap (hubEvents (World.new gossipsub floodsub).enabled kind)) key 50
    rw [← hall, ← hbefore, show (Hub.readers _).length = i from hi,
      heard_hubEvents] at hreader
    refine ⟨_, hreader, rfl, ?_, fun hkeeps => ?_⟩
    · rw [← events_hearings kind key i]
      exact Reader.messages_hearAll_sublist _ _
    · rw [← events_hearings kind key i]
      exact Reader.messages_hearAll rfl hkeeps

/-- Two listeners of a floodsub topic, the second of which comes late and then goes,
and a message that names the topic twice. -/
def twoTopics : List Input :=
  [.floodsubEvent (.subscribed 7 "a"), .floodsub 1 (.floodsubListener "a"),
    .read .floodsub 0, .drop .floodsub 1, .cleanup,
    .floodsubEvent (.message 7 [1] [0] ["a", "b", "a"])]

theorem listeners_hear_twoTopics :
    ∃ reader : Reader FloodsubEvent,
      ((run (listen .floodsub "a" 0 :: twoTopics) (.new false true)).channels
        .floodsub)[0]? = some reader ∧
      reader.yielded = [.subscribed 7] ∧
      reader.messages = [.subscribed 7, .message ⟨7, [1], [0]⟩,
        .message ⟨7, [1], [0]⟩] := by
  obtain ⟨-, reader, hreader, heq, -, hall⟩ :=
    listeners_hear false true [] twoTopics .floodsub "a" 0 0 rfl rfl
  refine ⟨reader, hreader, ?_, ?_⟩
  · rw [heq]
    rfl
  · exact hall ⟨by decide, by decide, by decide, trivial⟩

end Connexa.Listeners
