import Connexa.Task.KademliaCommands

/-!
# Every DHT command is answered

The four tables are one desk whose tickets are the queries.  A command is answered
at once, or by the first report on its own query that ends it.
-/

namespace Connexa.KademliaCommands

open HashMap
open KademliaTask (Key)
open KademliaQueries (QueryId)

/-- The tables of pending commands. -/
inductive Kind where
  | putRecord
  | putProviderRecord
  | findClosestPeer
  | bootstrap
  deriving DecidableEq

namespace Task

/-- The table of a kind. -/
def table (task : Task) : Kind → HashMap QueryId ℕ
  | .putRecord => task.pendingDhtPutRecord
  | .putProviderRecord => task.pendingDhtPutProviderRecord
  | .findClosestPeer => task.pendingDhtFindClosestPeer
  | .bootstrap => task.pendingDhtBootstrap

/-- The tables as one desk. -/
def desk (task : Task) : Desk (Kind × QueryId) Response where
  waiting := fun query => (task.table query.1).lookup query.2
  sent := task.sent

/-- What the responder was sent. -/
def sentTo (resp : ℕ) (task : Task) : List Response :=
  (task.sent.filter fun s => s.1 = resp).map Prod.snd

/-- The responder waits for a query. -/
def Awaits (task : Task) (resp : ℕ) : Prop :=
  ∃ kind id, (task.table kind).lookup id = some resp

end Task

/-! ## What becomes of a command -/

/-- A command is answered at once, or it has started a query. -/
inductive Fate where
  | atOnce (response : Response)
  | query (kind : Kind) (id : QueryId)
  deriving DecidableEq

/-- What becomes of a command when Kademlia is enabled. -/
def Command.fateIn (kad : Kad) : Command → Fate
  | .findPeer id => .query .findClosestPeer id
  | .bootstrap _ none => .atOnce (.unit (.error (.dht .noKnownPeers)))
  | .bootstrap true (some _) => .atOnce (.unit (.ok ()))
  | .bootstrap false (some id) => .query .bootstrap id
  | .provide (.error e) => .atOnce (.unit (.error (.dht (.store e))))
  | .provide (.ok id) => .query .putProviderRecord id
  | .stopProviding => .atOnce (.unit (.ok ()))
  | .setDHTMode _ _ => .atOnce (.unit (.ok ()))
  | .dhtMode => .atOnce (.mode (.ok kad.mode))
  | .addAddress routing => .atOnce (.unit
      (if routing = .failed then .error (.routing .addAddress) else .ok ()))
  | .removeAddress removed => .atOnce (.unit
      (if removed then .ok () else .error (.routing .removeAddress)))
  | .removePeer removed => .atOnce (.unit
      (if removed then .ok () else .error (.routing .removePeer)))
  | .put _ (.error e) => .atOnce (.unit (.error (.dht (.store e))))
  | .put _ (.ok id) => .query .putRecord id
  | .putTo key id =>
      if kad.records.contains key then .query .putRecord id
      else .atOnce (.unit (.error (.notFound "record")))
  | .remove key => .atOnce (.unit
      (if kad.records.contains key then .ok () else .error (.notFound "record")))

def Command.fate (command : Command) : Option Kad → Fate
  | none => .atOnce (command.error .disabled)
  | some kad => command.fateIn kad

/-- The end of a query, and its result. -/
def Input.ends : Input → Option ((Kind × QueryId) × Response)
  | .progressed id (.bootstrap ok) last =>
      if last then
        some ((.bootstrap, id), .unit (if ok then .ok () else .error .timeout))
      else none
  | .progressed id (.getClosestPeers (some peers)) _ =>
      some ((.findClosestPeer, id), .peers (.ok peers))
  | .progressed id (.getClosestPeers none) _ =>
      some ((.findClosestPeer, id), .peers (.error .timeout))
  | .progressed id (.startProviding result) _ =>
      some ((.putProviderRecord, id),
        .unit (result.mapError fun e => .dht (.addProvider e)))
  | .progressed id (.putRecord result) _ =>
      some ((.putRecord, id), .unit (result.mapError fun e => .dht (.putRecord e)))
  | _ => none

/-- The result of the query that comes first. -/
def firstResult (kind : Kind) (id : QueryId) : List Input → Option Response
  | [] => none
  | i :: rest =>
      match i.ends with
      | some (query, response) =>
          if query = (kind, id) then some response else firstResult kind id rest
      | none => firstResult kind id rest

/-! ## The task as a desk -/

/-- What an input is to the desk. -/
def event (kad : Option Kad) : Input → Option (DeskEvent (Kind × QueryId) Response)
  | .command resp command =>
      match command.fate kad with
      | .atOnce response => some (.answered resp response)
      | .query kind id => some (.opened resp (kind, id))
  | i => i.ends.map fun e => .reported e.1 e.2

theorem desk_send (resp : ℕ) (response : Response) (task : Task) :
    (task.send resp response).desk = task.desk.step (.answered resp response) := by
  rfl

/-- A responder goes to a table. -/
theorem desk_insert {task task' : Task} {kind : Kind} {id : QueryId} {resp : ℕ}
    (htable : ∀ k, task'.table k =
      if k = kind then (task.table kind).insert id resp else task.table k)
    (hsent : task'.sent = task.sent) :
    task'.desk = task.desk.step (.opened resp (kind, id)) := by
  simp only [Desk.step, Task.desk, Desk.mk.injEq, hsent, and_true]
  funext query
  rw [htable, Function.update_apply]
  by_cases hkind : query.1 = kind
  · rw [if_pos hkind, lookup_insert]
    simp [Prod.ext_iff, hkind]
  · rw [if_neg hkind, if_neg fun h => hkind (congrArg Prod.fst h)]

theorem desk_command (resp : ℕ) (command : Command) (w : World) :
    (processKademliaCommand command resp w).task.desk =
      match command.fate w.kad with
      | .atOnce response => w.task.desk.step (.answered resp response)
      | .query kind id => w.task.desk.step (.opened resp (kind, id)) := by
  obtain ⟨task, kad⟩ := w
  cases kad with
  | none => exact desk_send ..
  | some kad =>
      cases command with
      | findPeer id => exact desk_insert (fun k => by cases k <;> rfl) rfl
      | bootstrap isLazy answer =>
          cases answer with
          | none => exact desk_send ..
          | some id =>
              cases isLazy with
              | true => exact desk_send ..
              | false => exact desk_insert (fun k => by cases k <;> rfl) rfl
      | provide answer =>
          cases answer with
          | error e => exact desk_send ..
          | ok id => exact desk_insert (fun k => by cases k <;> rfl) rfl
      | put key answer =>
          cases answer with
          | error e => exact desk_send ..
          | ok id => exact desk_insert (fun k => by cases k <;> rfl) rfl
      | putTo key id =>
          by_cases hkey : key ∈ kad.records
          · simp only [processKademliaCommand, Command.fate, Command.fateIn,
              List.contains_eq_mem, decide_eq_true_eq, hkey,
              not_true_eq_false, if_false, if_true]
            exact desk_insert (fun k => by cases k <;> rfl) rfl
          · simp only [processKademliaCommand, Command.fate, Command.fateIn,
              List.contains_eq_mem, decide_eq_true_eq, hkey,
              not_false_eq_true, if_true, if_false]
            exact desk_send ..
      | remove key =>
          by_cases hkey : key ∈ kad.records
          · simp only [processKademliaCommand, Command.fate, Command.fateIn,
              List.contains_eq_mem, decide_eq_true_eq, hkey,
              not_true_eq_false, if_false, if_true]
            exact desk_send ..
          · simp only [processKademliaCommand, Command.fate, Command.fateIn,
              List.contains_eq_mem, decide_eq_true_eq, hkey,
              not_false_eq_true, if_true, if_false]
            exact desk_send ..
      | addAddress routing =>
          cases routing with
          | _ => exact desk_send ..
      | removeAddress removed =>
          cases removed with
          | _ => exact desk_send ..
      | removePeer removed =>
          cases removed with
          | _ => exact desk_send ..
      | _ => exact desk_send ..

/-- A responder is taken out of a table and sent the response. -/
theorem desk_sendTo {task task' : Task} (kind : Kind) {id : QueryId}
    {response : Response}
    (htable : ∀ k, task'.table k =
      if k = kind then (task.table kind).erase id else task.table k)
    (hsent : task'.sent = task.sent) :
    (task'.sendTo ((task.table kind).lookup id) response).desk =
      task.desk.step (.reported (kind, id) response) := by
  have hwaiting : task'.desk.waiting =
      Function.update task.desk.waiting (kind, id) none := by
    funext query
    simp only [Task.desk, htable, Function.update_apply]
    by_cases hkind : query.1 = kind
    · rw [if_pos hkind, lookup_erase]
      simp [Prod.ext_iff, hkind]
    · rw [if_neg hkind, if_neg fun h => hkind (congrArg Prod.fst h)]
  cases hlookup : (task.table kind).lookup id with
  | none =>
      have hsame : Function.update task.desk.waiting (kind, id) none =
          task.desk.waiting := by
        rw [← hlookup]
        exact Function.update_eq_self (kind, id) task.desk.waiting
      have hstep : task.desk.step (.reported (kind, id) response) = task.desk := by
        simp only [Desk.step, Task.desk, hlookup]
      rw [hstep]
      change (⟨task'.desk.waiting, task'.sent⟩ : Desk _ _) = _
      rw [hwaiting, hsame, hsent]
      rfl
  | some resp =>
      have hstep : task.desk.step (.reported (kind, id) response) =
          ⟨Function.update task.desk.waiting (kind, id) none,
            task.sent ++ [(resp, response)]⟩ := by
        simp only [Desk.step, Task.desk, hlookup]
      rw [hstep, ← hwaiting, ← hsent]
      rfl

theorem desk_progressed (id : QueryId) (result : QueryResult) (last : Bool)
    (task : Task) :
    (outboundQueryProgressed id result last task).desk =
      match (Input.progressed id result last).ends with
      | some (query, response) => task.desk.step (.reported query response)
      | none => task.desk := by
  cases result with
  | bootstrap ok =>
      cases last with
      | true => exact desk_sendTo .bootstrap (fun k => by cases k <;> rfl) rfl
      | false => rfl
  | getClosestPeers peers =>
      cases peers with
      | _ =>
          exact desk_sendTo .findClosestPeer (fun k => by cases k <;> rfl) rfl
  | startProviding result =>
      exact desk_sendTo .putProviderRecord (fun k => by cases k <;> rfl) rfl
  | putRecord result =>
      exact desk_sendTo .putRecord (fun k => by cases k <;> rfl) rfl
  | _ => rfl

theorem desk_step (w : World) (i : Input) :
    (step w i).task.desk = w.task.desk.run (event w.kad i).toList := by
  cases i with
  | command resp command =>
      refine (desk_command resp command w).trans ?_
      simp only [event]
      cases command.fate w.kad with
      | _ => rfl
  | progressed id result last =>
      refine (desk_progressed id result last w.task).trans ?_
      simp only [event]
      cases (Input.progressed id result last).ends with
      | _ => rfl
  | kadChanges kad => rfl

/-! ## Runs -/

/-- What the inputs are to the desk. -/
def trace : List Input → World → List (DeskEvent (Kind × QueryId) Response)
  | [], _ => []
  | i :: rest, w => (event w.kad i).toList ++ trace rest (step w i)

theorem trace_append (before after : List Input) (w : World) :
    trace (before ++ after) w = trace before w ++ trace after (run before w) := by
  induction before generalizing w with
  | nil => rfl
  | cons i rest ih =>
      rw [List.cons_append, trace, trace, ih, List.append_assoc]
      rfl

theorem desk_run (inputs : List Input) (w : World) :
    (run inputs w).task.desk = w.task.desk.run (trace inputs w) := by
  induction inputs generalizing w with
  | nil => rfl
  | cons i rest ih =>
      change (run rest (step w i)).task.desk = _
      rw [ih, desk_step, trace, Desk.run, Desk.run, Desk.run, List.foldl_append]

theorem firstReport_trace (kind : Kind) (id : QueryId) (inputs : List Input)
    (w : World) :
    Desk.firstReport (kind, id) (trace inputs w) = firstResult kind id inputs := by
  induction inputs generalizing w with
  | nil => rfl
  | cons i rest ih =>
      rw [trace, firstResult]
      cases i with
      | command resp command =>
          have hends : (Input.command resp command).ends = none := rfl
          rw [hends, ← ih (step w (.command resp command)), event]
          cases command.fate w.kad with
          | _ => rfl
      | kadChanges kad => exact ih _
      | progressed id' result last =>
          simp only [event]
          cases (Input.progressed id' result last).ends with
          | none => exact ih _
          | some e =>
              rw [← ih (step w (.progressed id' result last))]
              rfl

/-- The responder of a command. -/
def Input.resp : Input → Option ℕ
  | .command resp _ => some resp
  | _ => none

/-- The query that libp2p has started for a command. -/
def Input.started : Input → Option QueryId
  | .command _ (.findPeer id) => some id
  | .command _ (.bootstrap _ answer) => answer
  | .command _ (.provide (.ok id)) => some id
  | .command _ (.put _ (.ok id)) => some id
  | .command _ (.putTo _ id) => some id
  | _ => none

/-- Every command has its own responder, and every query its own id. -/
structure Distinct (inputs : List Input) : Prop where
  responders : (inputs.filterMap Input.resp).Nodup
  queries : (inputs.filterMap Input.started).Nodup

theorem resp_event (kad : Option Kad) (i : Input) :
    (event kad i).toList.filterMap DeskEvent.resp = i.resp.toList := by
  cases i with
  | command resp command =>
      simp only [event]
      cases command.fate kad with
      | _ => rfl
  | progressed id result last =>
      simp only [event]
      cases (Input.progressed id result last).ends with
      | _ => rfl
  | kadChanges kad => rfl

theorem started_of_query {resp : ℕ} {command : Command} {kad : Option Kad}
    {kind : Kind} {id : QueryId} (h : command.fate kad = .query kind id) :
    (Input.command resp command).started = some id := by
  cases kad with
  | none => cases h
  | some kad =>
      cases command with
      | findPeer id' =>
          cases h
          rfl
      | bootstrap isLazy answer =>
          cases answer with
          | none => cases h
          | some id' =>
              cases isLazy with
              | true => cases h
              | false =>
                  cases h
                  rfl
      | provide answer =>
          cases answer with
          | error e => cases h
          | ok id' =>
              cases h
              rfl
      | put key answer =>
          cases answer with
          | error e => cases h
          | ok id' =>
              cases h
              rfl
      | putTo key id' =>
          simp only [Command.fate, Command.fateIn] at h
          split at h
          · cases h
            rfl
          · cases h
      | _ => cases h

theorem opens_event (kad : Option Kad) (i : Input) :
    (((event kad i).toList.filterMap DeskEvent.opens).map Prod.snd).Sublist
      i.started.toList := by
  cases i with
  | command resp command =>
      simp only [event]
      cases hfate : command.fate kad with
      | atOnce response => exact List.nil_sublist _
      | query kind id =>
          rw [started_of_query hfate]
          exact List.Sublist.refl _
  | progressed id result last =>
      simp only [event]
      cases (Input.progressed id result last).ends with
      | _ => exact List.nil_sublist _
  | kadChanges kad => exact List.nil_sublist _

theorem Distinct.orderly {inputs : List Input} (h : Distinct inputs) (w : World) :
    Desk.Orderly (trace inputs w) := by
  have hresps : ∀ w, (trace inputs w).filterMap DeskEvent.resp =
      inputs.filterMap Input.resp := by
    clear h w
    intro w
    induction inputs generalizing w with
    | nil => rfl
    | cons i rest ih =>
        rw [trace, List.filterMap_append, ih, resp_event,
          Oneshot.filterMap_cons_toList]
  have hopens : ∀ w, (((trace inputs w).filterMap DeskEvent.opens).map
      Prod.snd).Sublist (inputs.filterMap Input.started) := by
    clear h w hresps
    intro w
    induction inputs generalizing w with
    | nil => exact List.nil_sublist _
    | cons i rest ih =>
        rw [trace, List.filterMap_append, List.map_append,
          Oneshot.filterMap_cons_toList]
        exact (opens_event w.kad i).append (ih _)
  exact ⟨hresps w ▸ h.responders, (h.queries.sublist (hopens w)).of_map⟩

/-- Every DHT command is sent one answer: at once, or the first result of its own
query; until that result it waits for it, and it is sent nothing else.  A command
on a disabled Kademlia is refused, and a lazy bootstrap does not wait. -/
theorem dht_commands_answered (kad : Option Kad) (before after : List Input)
    (resp : ℕ) (command : Command)
    (h : Distinct (before ++ .command resp command :: after)) :
    (run (before ++ .command resp command :: after) (.new kad)).task.sentTo resp =
        (match command.fate (run before (.new kad)).kad with
        | .atOnce response => [response]
        | .query kind id => (firstResult kind id after).toList) ∧
      ((run (before ++ .command resp command :: after) (.new kad)).task.Awaits resp ↔
        ∃ kind id, command.fate (run before (.new kad)).kad = .query kind id ∧
          firstResult kind id after = none) := by
  have horderly := h.orderly (.new kad)
  have hdesk := desk_run (before ++ .command resp command :: after) (.new kad)
  have htrace : trace (before ++ .command resp command :: after) (.new kad) =
      trace before (.new kad) ++
        ((event (run before (.new kad)).kad (.command resp command)).toList ++
          trace after (step (run before (.new kad)) (.command resp command))) :=
    trace_append before _ _
  have hawaits : ∀ task : Task, task.Awaits resp ↔
      ∃ query, task.desk.waiting query = some resp := by
    intro task
    constructor
    · rintro ⟨kind, id, h⟩
      exact ⟨(kind, id), h⟩
    · rintro ⟨query, h⟩
      exact ⟨query.1, query.2, h⟩
  have hnew : (World.new kad).task.desk = Desk.empty := by
    simp only [Task.desk, Desk.empty, Desk.mk.injEq]
    refine ⟨funext fun query => ?_, rfl⟩
    cases query.1 with
    | _ => rfl
  rw [hawaits, show Task.sentTo resp _ = Desk.sentTo resp (Task.desk _) from rfl,
    hdesk, hnew]
  cases hfate : command.fate (run before (.new kad)).kad with
  | atOnce response =>
      have hevent : (event (run before (.new kad)).kad
          (.command resp command)).toList = [.answered resp response] := by
        simp only [event, hfate, Option.toList]
      rw [htrace, hevent, List.singleton_append] at horderly ⊢
      obtain ⟨hsent, hwaiting⟩ := Desk.run_reply horderly rfl
      refine ⟨hsent, ?_, ?_⟩
      · rintro ⟨query, hquery⟩
        cases ((hwaiting query).mp hquery).1
      · rintro ⟨kind, id, hkind, -⟩
        cases hkind
  | query kind id =>
      have hevent : (event (run before (.new kad)).kad
          (.command resp command)).toList = [.opened resp (kind, id)] := by
        simp only [event, hfate, Option.toList]
      rw [htrace, hevent, List.singleton_append] at horderly ⊢
      obtain ⟨hsent, hwaiting⟩ := Desk.run_reply horderly rfl
      simp only [Desk.replyTo, firstReport_trace] at hsent hwaiting
      refine ⟨hsent, ?_, ?_⟩
      · rintro ⟨query, hquery⟩
        exact ⟨kind, id, rfl, ((hwaiting query).mp hquery).2⟩
      · rintro ⟨kind', id', hkind, hnone⟩
        cases hkind
        exact ⟨(kind, id), (hwaiting (kind, id)).mpr ⟨rfl, hnone⟩⟩

/-- A bootstrap that goes on after its first report, and a record that is stored
for a peer while its removal is refused. -/
def bootstrapTwice : List Input :=
  [.command 1 (.put [7] (.ok 1)), .progressed 0 (.bootstrap true) false,
    .command 2 (.remove [8]), .progressed 1 (.putRecord (.ok ())) true,
    .progressed 0 (.bootstrap true) true, .command 3 (.putTo [7] 2)]

theorem dht_commands_answered_bootstrapTwice :
    (run (.command 0 (.bootstrap false (some 0)) :: bootstrapTwice)
        (.new (some ⟨[], .client⟩))).task.sentTo 0 = [.unit (.ok ())] ∧
      (run (bootstrapTwice.take 2) (.new (some ⟨[], .client⟩))).task.Awaits 1 := by
  have hbootstrap := dht_commands_answered (some ⟨[], .client⟩) [] bootstrapTwice 0
    (.bootstrap false (some 0)) ⟨by decide, by decide⟩
  have hput := dht_commands_answered (some ⟨[], .client⟩) []
    [.progressed 0 (.bootstrap true) false] 1 (.put [7] (.ok 1))
    ⟨by decide, by decide⟩
  exact ⟨hbootstrap.1, hput.2.mpr ⟨.putRecord, 1, rfl, rfl⟩⟩

end Connexa.KademliaCommands
