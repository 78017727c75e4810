import Connexa.Task.Kademlia
import Mathlib.Logic.Relation

/-!
# Only accepted records are stored

Every event that was made with a confirmation holds the one sender of a channel
whose receiver is in one of the task's sets.  An event in the hands of the task
on its way from one place to another is kept in the account `Inv` as well.
-/

namespace Connexa.KademliaTask

open HashMap Oneshot

/-! ## The account -/

/-- The receivers of a kind. -/
def receiversOf (sets : HashMap Key (List ℕ)) (set : List ℕ) : List ℕ :=
  set ++ (values sets).flatten

namespace World

variable (w : World)

def recordReceivers : List ℕ :=
  receiversOf w.task.dhtPutRecordReceiver w.task.dhtPutRecordGlobalReceiver

def providerReceivers : List ℕ :=
  receiversOf w.task.dhtProviderRecordReceiver
    w.task.dhtProviderRecordGlobalReceiver

/-- The events in the channels and with the clients. -/
def events : List DHTEvent :=
  w.mailbox.map Prod.snd ++ (values w.held).map Held.event

end World

namespace DHTEvent

/-- The event has a sender. -/
def confirms (event : DHTEvent) : Bool :=
  event.recordSender.isSome || event.providerSender.isSome

/-- An event as the task sends it: with a sender exactly if it carries a
record. -/
def Delivered (event : DHTEvent) : Prop :=
  event.confirms = event.carries

theorem confirms_clone (event : DHTEvent) : event.clone.confirms = false := by
  cases event <;> rfl

theorem recordSender_clone (event : DHTEvent) :
    event.clone.recordSender = none := by
  cases event <;> rfl

theorem providerSender_clone (event : DHTEvent) :
    event.clone.providerSender = none := by
  cases event <;> rfl

end DHTEvent

/-- The account, with the events that are in nobody's hands yet. -/
structure Inv (hand : List DHTEvent) (w : World) : Prop where
  calm : w.panicked = false
  records : Balanced w.nextChannel w.recordChannels
    ((hand ++ w.events).filterMap DHTEvent.recordSender) w.recordReceivers
    w.acceptedRecords w.task.stored
  providers : Balanced w.nextChannel w.providerChannels
    ((hand ++ w.events).filterMap DHTEvent.providerSender) w.providerReceivers
    w.acceptedProviders w.task.provided
  mail : ∀ m ∈ w.mailbox, m.2.Delivered
  handles : ∀ id h, w.held.lookup id = some h →
    h.event.confirms = (h.original && h.event.carries)
  used : ∀ id h, w.held.lookup id = some h → id < w.nextHandle

section Account

variable {hand : List DHTEvent} {w : World} {event : DHTEvent}

/-- Events may change hands. -/
theorem Inv.move {hand' : List DHTEvent} {w' : World} (h : Inv hand w)
    (hevents : (hand ++ w.events).Perm (hand' ++ w'.events))
    (hcalm : w'.panicked = w.panicked) (hnext : w'.nextChannel = w.nextChannel)
    (hrecords : w'.recordChannels = w.recordChannels)
    (hproviders : w'.providerChannels = w.providerChannels)
    (htask : w'.task = w.task)
    (haccepted : w'.acceptedRecords = w.acceptedRecords)
    (haccepted' : w'.acceptedProviders = w.acceptedProviders)
    (hmail : ∀ m ∈ w'.mailbox, m.2.Delivered)
    (hhandles : ∀ id h, w'.held.lookup id = some h →
      h.event.confirms = (h.original && h.event.carries))
    (hused : ∀ id h, w'.held.lookup id = some h → id < w'.nextHandle) :
    Inv hand' w' where
  calm := hcalm.trans h.calm
  records := by
    have hbalanced := h.records.perm (hevents.filterMap _) (List.Perm.refl _)
    simp only [World.recordReceivers, hnext, hrecords, htask, haccepted]
    exact hbalanced
  providers := by
    have hbalanced := h.providers.perm (hevents.filterMap _) (List.Perm.refl _)
    simp only [World.providerReceivers, hnext, hproviders, htask, haccepted']
    exact hbalanced
  mail := hmail
  handles := hhandles
  used := hused

/-! ## Using a handle up -/

/-- The value that an event of records sends. -/
def sentRecord (record : RecordHandle Record → Option (ℕ × Record)) :
    DHTEvent → Option Record
  | .putRecord _ handle => (record handle).map Prod.snd
  | .provideRecord _ => none

def sentProvider
    (provider : RecordHandle ProviderRecord → Option (ℕ × ProviderRecord)) :
    DHTEvent → Option ProviderRecord
  | .putRecord _ _ => none
  | .provideRecord handle => (provider handle).map Prod.snd

/-- What is sent goes through the handle's own sender. -/
def Own {R : Type} (send : RecordHandle R → Option (ℕ × R)) : Prop :=
  ∀ handle ch value, send handle = some (ch, value) → handle.confirm = some ch

/-- The account of one kind when one of its handles is used up. -/
theorem balanced_settle {R : Type} {next : ℕ} {state : ℕ → Outcome R}
    {senders receivers : List ℕ} {given taken : List R} {handle : RecordHandle R}
    {sent : Option (ℕ × R)}
    (h : Balanced next state (handle.confirm.toList ++ senders) receivers given
      taken)
    (hsent : ∀ ch value, sent = some (ch, value) → handle.confirm = some ch) :
    Balanced next (handle.settle sent state) senders receivers
      (given ++ (sent.map Prod.snd).toList) taken := by
  cases sent with
  | some e =>
      obtain ⟨ch, value⟩ := e
      rw [hsent ch value rfl] at h
      exact h.send value
  | none =>
      simp only [RecordHandle.settle, Option.map_none, Option.toList_none,
        List.append_nil]
      cases hconfirm : handle.confirm with
      | none =>
          rw [hconfirm] at h
          exact h
      | some ch =>
          rw [hconfirm] at h
          exact h.cancel

theorem Inv.settle (h : Inv (event :: hand) w)
    {record : RecordHandle Record → Option (ℕ × Record)}
    {provider : RecordHandle ProviderRecord → Option (ℕ × ProviderRecord)}
    (hrecord : Own record) (hprovider : Own provider) :
    Inv hand
      (World.settle record provider event
        { w with
          acceptedRecords := w.acceptedRecords ++ (sentRecord record event).toList
          acceptedProviders :=
            w.acceptedProviders ++ (sentProvider provider event).toList }) := by
  have hrecords := h.records
  have hproviders := h.providers
  rw [List.cons_append, filterMap_cons_toList] at hrecords hproviders
  cases event with
  | putRecord source handle =>
      refine ⟨h.calm, balanced_settle hrecords (hrecord handle), ?_, h.mail,
        h.handles, h.used⟩
      change Balanced _ _ _ _ (w.acceptedProviders ++ []) _
      rw [List.append_nil]
      exact hproviders
  | provideRecord handle =>
      refine ⟨h.calm, ?_, balanced_settle hproviders (hprovider handle), h.mail,
        h.handles, h.used⟩
      change Balanced _ _ _ _ (w.acceptedRecords ++ []) _
      rw [List.append_nil]
      exact hrecords

/-- A dropped event sends nothing. -/
theorem Inv.drop (h : Inv (event :: hand) w) : Inv hand (w.drop event) := by
  have hdrop := @Inv.settle hand w event h (fun _ => none) (fun _ => none)
    (fun _ _ _ h => by cases h) (fun _ _ _ h => by cases h)
  cases event with
  | putRecord source handle =>
      simp only [sentRecord, sentProvider, Option.map_none, Option.toList_none,
        List.append_nil] at hdrop
      exact hdrop
  | provideRecord handle =>
      simp only [sentRecord, sentProvider, Option.map_none, Option.toList_none,
        List.append_nil] at hdrop
      exact hdrop

theorem Inv.trySend (h : Inv (event :: hand) w) (hevent : event.Delivered)
    (full : ListenerId → Bool) (listener : ListenerId) :
    Inv hand (w.trySend full listener event) := by
  unfold World.trySend
  split
  · exact h.drop
  · refine h.move ?_ rfl rfl rfl rfl rfl rfl rfl ?_ h.handles h.used
    · simp only [World.events, List.map_append, List.map_cons, List.map_nil]
      rw [List.perm_iff_count]
      intro e
      simp only [List.count_append, List.count_cons, List.count_nil]
      omega
    · intro m hm
      rcases List.mem_append.mp hm with hm | hm
      · exact h.mail m hm
      · rw [List.mem_singleton.mp hm]
        exact hevent

/-! ## Requests -/

/-- The receivers that a request adds. -/
theorem receiversOf_insertAt (key : Key) (rx : ℕ) (sets : HashMap Key (List ℕ))
    (set : List ℕ) :
    (receiversOf (insertAt key rx sets) set).Perm (rx :: receiversOf sets set) := by
  have hvalues : (values sets).flatten.Perm
      ((sets.lookup key).getD [] ++ (values (sets.erase key)).flatten) := by
    have hperm := (values_perm_erase sets key).flatten
    cases hlookup : sets.lookup key with
    | none => simpa [hlookup] using hperm
    | some l => simpa [hlookup] using hperm
  simp only [receiversOf, insertAt, values_insert, List.flatten_cons]
  calc set ++ (rx :: (sets.lookup key).getD [] ++ (values (sets.erase key)).flatten)
    _ |>.Perm (rx :: (set ++ ((sets.lookup key).getD [] ++
          (values (sets.erase key)).flatten))) := List.perm_middle
    _ |>.Perm (rx :: (set ++ (values sets).flatten)) :=
        (hvalues.symm.append_left set).cons rx

/-- A new channel for records, its receiver in one of the sets. -/
theorem Inv.createRecord {task : Task} {handle : RecordHandle Record}
    {source : PeerId} (h : Inv hand w)
    (hconfirm : handle.confirm = some w.nextChannel)
    (hreceivers : (receiversOf task.dhtPutRecordReceiver
      task.dhtPutRecordGlobalReceiver).Perm (w.nextChannel :: w.recordReceivers))
    (hproviders : receiversOf task.dhtProviderRecordReceiver
      task.dhtProviderRecordGlobalReceiver = w.providerReceivers)
    (hstored : task.stored = w.task.stored)
    (hprovided : task.provided = w.task.provided) :
    Inv (.putRecord source handle :: hand)
      { w with nextChannel := w.nextChannel + 1, task := task } where
  calm := h.calm
  records := by
    change Balanced _ _ _ (receiversOf _ _) _ task.stored
    rw [List.cons_append, filterMap_cons_toList, DHTEvent.recordSender, hconfirm,
      hstored]
    exact h.records.create.perm (List.Perm.refl _) hreceivers.symm
  providers := by
    change Balanced _ _ _ (receiversOf _ _) _ task.provided
    rw [List.cons_append, filterMap_cons_toList, DHTEvent.providerSender,
      hproviders, hprovided]
    exact h.providers.skip
  mail := h.mail
  handles := h.handles
  used := h.used

/-- A new channel for provider records, its receiver in one of the sets. -/
theorem Inv.createProvider {task : Task} {handle : RecordHandle ProviderRecord}
    (h : Inv hand w) (hconfirm : handle.confirm = some w.nextChannel)
    (hreceivers : (receiversOf task.dhtProviderRecordReceiver
      task.dhtProviderRecordGlobalReceiver).Perm
        (w.nextChannel :: w.providerReceivers))
    (hrecords : receiversOf task.dhtPutRecordReceiver
      task.dhtPutRecordGlobalReceiver = w.recordReceivers)
    (hstored : task.stored = w.task.stored)
    (hprovided : task.provided = w.task.provided) :
    Inv (.provideRecord handle :: hand)
      { w with nextChannel := w.nextChannel + 1, task := task } where
  calm := h.calm
  records := by
    change Balanced _ _ _ (receiversOf _ _) _ task.stored
    rw [List.cons_append, filterMap_cons_toList, DHTEvent.recordSender, hrecords,
      hstored]
    exact h.records.skip
  providers := by
    change Balanced _ _ _ (receiversOf _ _) _ task.provided
    rw [List.cons_append, filterMap_cons_toList, DHTEvent.providerSender, hconfirm,
      hprovided]
    exact h.providers.create.perm (List.Perm.refl _) hreceivers.symm
  mail := h.mail
  handles := h.handles
  used := h.used

/-- The kind fits the event: its confirmations can be set, and their channels are
those of the account. -/
structure Serves (kind : Kind) (event : DHTEvent) : Prop where
  confirm : ∀ w, Inv [] w → ∃ event',
    kind.setConfirmation event w.nextChannel = some event' ∧ event'.Delivered ∧
      Inv [event'] { w with
        nextChannel := w.nextChannel + 1
        task := kind.insertGlobal w.nextChannel w.task } ∧
      ∀ key, Inv [event'] { w with
        nextChannel := w.nextChannel + 1
        task := kind.insertKeyed key w.nextChannel w.task }

theorem serves_putRecord (source : PeerId) (record : Record) :
    Serves putRecordKind (.putRecord source ⟨some record, none⟩) := by
  constructor
  intro w h
  refine ⟨_, rfl, rfl, ?_, fun key => ?_⟩
  · exact h.createRecord rfl (List.Perm.refl _) rfl rfl rfl
  · exact h.createRecord rfl (receiversOf_insertAt _ _ _ _) rfl rfl rfl

theorem serves_addProvider (record : ProviderRecord) :
    Serves addProviderKind (.provideRecord ⟨some record, none⟩) := by
  constructor
  intro w h
  refine ⟨_, rfl, rfl, ?_, fun key => ?_⟩
  · exact h.createProvider rfl (List.Perm.refl _) rfl rfl rfl
  · exact h.createProvider rfl (receiversOf_insertAt _ _ _ _) rfl rfl rfl

/-- Clones are free. -/
theorem Inv.clone (h : Inv hand w) : Inv (event.clone :: hand) w where
  calm := h.calm
  records := by
    rw [List.cons_append, filterMap_cons_toList, DHTEvent.recordSender_clone]
    exact h.records
  providers := by
    rw [List.cons_append, filterMap_cons_toList, DHTEvent.providerSender_clone]
    exact h.providers
  mail := h.mail
  handles := h.handles
  used := h.used

theorem delivered_clone (hcarries : event.carries = false) :
    event.clone.Delivered := by
  cases event <;> exact hcarries.symm

/-- Sending does not look at the task. -/
theorem trySend_task (full : ListenerId → Bool) (listener : ListenerId)
    (task : Task) :
    { w.trySend full listener event with task := task } =
      World.trySend full listener event { w with task := task } := by
  unfold World.trySend
  split
  · cases event <;> rfl
  · rfl

theorem task_trySend (full : ListenerId → Bool) (listener : ListenerId) :
    (w.trySend full listener event).task = w.task := by
  unfold World.trySend
  split
  · cases event <;> rfl
  · rfl

variable {kind : Kind}

theorem inv_offerGlobal {carries : Bool} (full : ListenerId → Bool)
    (hserves : carries = true → Serves kind event)
    (hcarries : event.carries = carries) (listeners : List ListenerId)
    (h : Inv [] w) :
    ∃ w', offerGlobal kind full event carries listeners w = some w' ∧
      Inv [] w' := by
  induction listeners generalizing w with
  | nil => exact ⟨w, rfl, h⟩
  | cons listener rest ih =>
      cases carries with
      | true =>
          obtain ⟨event', hset, hdelivered, hinv, -⟩ := (hserves rfl).confirm w h
          simp only [offerGlobal, if_true, hset]
          exact ih (hinv.trySend hdelivered full listener)
      | false =>
          simp only [offerGlobal, Bool.false_eq_true, if_false]
          exact ih (h.clone.trySend (delivered_clone hcarries) full listener)

theorem inv_offerKeyed (full : ListenerId → Bool) (hserves : Serves kind event)
    (key : Key) (listeners : List ListenerId) (h : Inv [] w) :
    ∃ w', offerKeyed kind full event key listeners w = some w' ∧ Inv [] w' := by
  induction listeners generalizing w with
  | nil => exact ⟨w, rfl, h⟩
  | cons listener rest ih =>
      obtain ⟨event', hset, hdelivered, -, hinv⟩ := hserves.confirm w h
      simp only [offerKeyed, hset, task_trySend, trySend_task]
      exact ih ((hinv key).trySend hdelivered full listener)

theorem inv_processRequest (full : ListenerId → Bool) (key : Option Key)
    (hserves : key.isSome = true → Serves kind event)
    (hcarries : event.carries = key.isSome) (h : Inv [] w) :
    ∃ w', processRequest kind full event key w = some w' ∧ Inv [] w' := by
  obtain ⟨w', hglobal, hinv⟩ := inv_offerGlobal full hserves hcarries
    w.task.dhtEventGlobalSender h
  simp only [processRequest, hglobal, Option.bind_eq_bind, Option.bind_some]
  cases key with
  | none => exact ⟨w', rfl, hinv⟩
  | some key =>
      cases hsenders : w'.task.dhtEventSender.lookup key with
      | none => exact ⟨w', by simp [hsenders], hinv⟩
      | some senders =>
          simp only [hsenders]
          exact inv_offerKeyed full (hserves rfl) key senders hinv

/-! ## Clients -/

/-- An event gets into the hands of a client. -/
theorem Inv.keep (h : Inv (event :: hand) w) {original : Bool}
    (hevent : event.confirms = (original && event.carries)) :
    Inv hand { w with
      nextHandle := w.nextHandle + 1
      held := w.held.insert w.nextHandle ⟨event, original⟩ } := by
  have hfree : w.held.lookup w.nextHandle = none := by
    rw [Option.eq_none_iff_forall_not_mem]
    exact fun held hheld => lt_irrefl _ (h.used _ held hheld)
  refine h.move ?_ rfl rfl rfl rfl rfl rfl rfl h.mail ?_ ?_
  · simp only [World.events, values_insert, erase_of_lookup_eq_none hfree,
      List.map_cons]
    rw [List.perm_iff_count]
    intro e
    simp only [List.count_append, List.count_cons]
    omega
  · intro id held hheld
    rw [HashMap.lookup_insert] at hheld
    split at hheld
    · cases hheld
      exact hevent
    · exact h.handles id held hheld
  · intro id held hheld
    rw [HashMap.lookup_insert] at hheld
    split at hheld
    · next heq =>
      rw [heq]
      exact Nat.lt_succ_self _
    · exact Nat.lt_succ_of_lt (h.used id held hheld)

theorem Inv.receive (h : Inv [] w) (listener : ListenerId) :
    Inv [] (w.receive listener) := by
  unfold World.receive
  split
  · exact h
  · next m hm =>
    have hmem : m ∈ w.mailbox := List.mem_of_find?_eq_some hm
    have htaken : Inv [m.2] { w with mailbox := w.mailbox.erase m } := by
      refine h.move ?_ rfl rfl rfl rfl rfl rfl rfl ?_ h.handles h.used
      · exact ((List.perm_cons_erase hmem).map Prod.snd).append_right _
      · exact fun m' hm' => h.mail m' (List.mem_of_mem_erase hm')
    refine htaken.keep ?_
    rw [Bool.true_and]
    exact h.mail m hmem

theorem Inv.cloneHandle (h : Inv [] w) (handle : ℕ) : Inv [] (w.clone handle) := by
  unfold World.clone
  split
  · exact h
  · next held _ =>
    refine h.clone.keep ?_
    rw [held.event.confirms_clone, Bool.false_and]

theorem Inv.dropAll {events : List (ListenerId × DHTEvent)}
    (h : Inv (events.map Prod.snd ++ hand) w) :
    Inv hand (events.foldl (fun w m => w.drop m.2) w) := by
  induction events generalizing w with
  | nil => exact h
  | cons m rest ih => exact ih (Inv.drop h)

theorem Inv.close (h : Inv [] w) (listener : ListenerId) :
    Inv [] (w.close listener) := by
  refine Inv.dropAll ?_
  refine h.move ?_ rfl rfl rfl rfl rfl rfl rfl ?_ h.handles h.used
  · simp only [World.events, List.nil_append, List.append_nil]
    rw [← List.append_assoc, ← List.map_append]
    exact ((List.filter_append_perm _ _).symm.map Prod.snd).append_right _
  · exact fun m hm => h.mail m (List.mem_of_mem_filter hm)

theorem own_sendRecord (decision : Decision) : Own decision.sendRecord := by
  intro handle ch value hsend
  cases decision with
  | accept =>
      simp only [Decision.sendRecord, RecordHandle.accept] at hsend
      split at hsend
      · next hconfirm _ =>
        cases hsend
        exact hconfirm
      · cases hsend
  | acceptRecordWith record =>
      obtain ⟨ch', hconfirm, heq⟩ := Option.map_eq_some_iff.mp hsend
      cases heq
      exact hconfirm
  | _ => cases hsend

theorem own_sendProvider (decision : Decision) : Own decision.sendProvider := by
  intro handle ch value hsend
  cases decision with
  | accept =>
      simp only [Decision.sendProvider, RecordHandle.accept] at hsend
      split at hsend
      · next hconfirm _ =>
        cases hsend
        exact hconfirm
      · cases hsend
  | acceptProviderWith record =>
      obtain ⟨ch', hconfirm, heq⟩ := Option.map_eq_some_iff.mp hsend
      cases heq
      exact hconfirm
  | _ => cases hsend

/-- The acceptance of a delivered handle is what is sent, and nothing is sent for
a clone. -/
theorem accepted_eq_sent {original : Bool}
    (h : event.confirms = (original && event.carries)) (decision : Decision) :
    (if original then (decision.acceptedRecord event).toList else []) =
        (sentRecord decision.sendRecord event).toList ∧
      (if original then (decision.acceptedProvider event).toList else []) =
        (sentProvider decision.sendProvider event).toList := by
  cases event with
  | putRecord source handle =>
      obtain ⟨record, confirm⟩ := handle
      have hconfirm : confirm.isSome = (original && record.isSome) := by
        simpa [DHTEvent.confirms, DHTEvent.recordSender, DHTEvent.providerSender,
          DHTEvent.carries] using h
      refine ⟨?_, by cases decision <;> simp [Decision.acceptedProvider,
        sentProvider]⟩
      cases original <;> cases record <;> cases confirm <;> cases decision <;>
        simp_all [Decision.acceptedRecord, sentRecord, Decision.sendRecord,
          RecordHandle.accept, RecordHandle.acceptWith]
  | provideRecord handle =>
      obtain ⟨record, confirm⟩ := handle
      have hconfirm : confirm.isSome = (original && record.isSome) := by
        simpa [DHTEvent.confirms, DHTEvent.recordSender, DHTEvent.providerSender,
          DHTEvent.carries] using h
      refine ⟨by cases decision <;> simp [Decision.acceptedRecord, sentRecord],
        ?_⟩
      cases original <;> cases record <;> cases confirm <;> cases decision <;>
        simp_all [Decision.acceptedProvider, sentProvider, Decision.sendProvider,
          RecordHandle.accept, RecordHandle.acceptWith]

theorem Inv.conclude (h : Inv [] w) (handle : ℕ) (decision : Decision) :
    Inv [] (w.conclude handle decision) := by
  unfold World.conclude
  split
  · exact h
  · next held hheld =>
    have htaken : Inv [held.event] { w with held := w.held.erase handle } := by
      refine h.move ?_ rfl rfl rfl rfl rfl rfl rfl h.mail ?_ ?_
      · have hperm := values_perm_erase w.held handle
        rw [hheld] at hperm
        have hevents := hperm.map Held.event
        simp only [World.events, List.nil_append]
        rw [List.perm_iff_count] at hevents ⊢
        intro e
        have hcount := hevents e
        simp only [List.count_append, List.map_append, Option.toList_some,
          List.map_cons, List.map_nil] at hcount ⊢
        omega
      · intro id held' hheld'
        exact h.handles id held' (lookup_erase_some.mp hheld').2
      · intro id held' hheld'
        exact h.used id held' (lookup_erase_some.mp hheld').2
    obtain ⟨hrecords, hproviders⟩ :=
      accepted_eq_sent (h.handles handle held hheld) decision
    simp only [hrecords, hproviders]
    exact htaken.settle (own_sendRecord decision) (own_sendProvider decision)

/-! ## Polling -/

/-- The receiver that leaves the set of a key. -/
theorem receiversOf_takeAt {key : Key} {ch : ℕ} {sets : HashMap Key (List ℕ)}
    (hch : ch ∈ (sets.lookup key).getD []) (set : List ℕ) :
    (receiversOf sets set).Perm (ch :: receiversOf (takeAt key ch sets) set) := by
  have hvalues := (values_perm_erase sets key).flatten
  cases hlookup : sets.lookup key with
  | none => simp [hlookup] at hch
  | some l =>
      rw [hlookup, Option.getD_some] at hch
      rw [hlookup, Option.toList_some, List.singleton_append,
        List.flatten_cons] at hvalues
      have hperm : (l ++ (values (sets.erase key)).flatten).Perm
          (ch :: (l.erase ch ++ (values (sets.erase key)).flatten)) :=
        (List.perm_cons_erase hch).append_right _
      simp only [receiversOf, takeAt, hlookup, Option.getD_some, values_insert,
        List.flatten_cons]
      calc set ++ (values sets).flatten
        _ |>.Perm (set ++ (ch :: (l.erase ch ++
              (values (sets.erase key)).flatten))) :=
            (hvalues.trans hperm).append_left set
        _ |>.Perm (ch :: (set ++ (l.erase ch ++
              (values (sets.erase key)).flatten))) := List.perm_middle

theorem receiversOf_erase {ch : ℕ} {set : List ℕ} (hch : ch ∈ set)
    (sets : HashMap Key (List ℕ)) :
    (receiversOf sets set).Perm (ch :: receiversOf sets (set.erase ch)) :=
  (List.perm_cons_erase hch).append_right _

/-- A receiver for records is used up. -/
theorem Inv.takeRecord (h : Inv [] w) {ch : ℕ} {task : Task}
    (hready : w.recordChannels ch ≠ .pending)
    (hreceivers : w.recordReceivers.Perm (ch ::
      receiversOf task.dhtPutRecordReceiver task.dhtPutRecordGlobalReceiver))
    (hproviders : receiversOf task.dhtProviderRecordReceiver
      task.dhtProviderRecordGlobalReceiver = w.providerReceivers)
    (hstored : task.stored =
      w.task.stored ++ (w.recordChannels ch).value.toList)
    (hprovided : task.provided = w.task.provided) :
    Inv [] { w with task := task } where
  calm := h.calm
  records := by
    change Balanced _ _ _ (receiversOf _ _) _ task.stored
    rw [hstored]
    exact (h.records.perm (List.Perm.refl _) hreceivers).take hready
  providers := by
    change Balanced _ _ _ (receiversOf _ _) _ task.provided
    rw [hproviders, hprovided]
    exact h.providers
  mail := h.mail
  handles := h.handles
  used := h.used

/-- A receiver for provider records is used up. -/
theorem Inv.takeProvider (h : Inv [] w) {ch : ℕ} {task : Task}
    (hready : w.providerChannels ch ≠ .pending)
    (hreceivers : w.providerReceivers.Perm (ch ::
      receiversOf task.dhtProviderRecordReceiver
        task.dhtProviderRecordGlobalReceiver))
    (hrecords : receiversOf task.dhtPutRecordReceiver
      task.dhtPutRecordGlobalReceiver = w.recordReceivers)
    (hstored : task.stored = w.task.stored)
    (hprovided : task.provided =
      w.task.provided ++ (w.providerChannels ch).value.toList) :
    Inv [] { w with task := task } where
  calm := h.calm
  records := by
    change Balanced _ _ _ (receiversOf _ _) _ task.stored
    rw [hrecords, hstored]
    exact h.records
  providers := by
    change Balanced _ _ _ (receiversOf _ _) _ task.provided
    rw [hprovided]
    exact (h.providers.perm (List.Perm.refl _) hreceivers).take hready
  mail := h.mail
  handles := h.handles
  used := h.used

theorem Inv.poll (h : Inv [] w) :
    (∀ key ch, Inv [] (w.pollPutRecord key ch)) ∧
      (∀ ch, Inv [] (w.pollPutRecordGlobal ch)) ∧
      (∀ key ch, Inv [] (w.pollProviderRecord key ch)) ∧
      ∀ ch, Inv [] (w.pollProviderRecordGlobal ch) := by
  refine ⟨fun key ch => ?_, fun ch => ?_, fun key ch => ?_, fun ch => ?_⟩
  · unfold World.pollPutRecord
    split
    · next hch =>
      exact h.takeRecord hch.2 (receiversOf_takeAt hch.1 _) rfl rfl rfl
    · exact h
  · unfold World.pollPutRecordGlobal
    split
    · next hch =>
      exact h.takeRecord hch.2 (receiversOf_erase hch.1 _) rfl rfl rfl
    · exact h
  · unfold World.pollProviderRecord
    split
    · next hch =>
      exact h.takeProvider hch.2 (receiversOf_takeAt hch.1 _) rfl rfl rfl
    · exact h
  · unfold World.pollProviderRecordGlobal
    split
    · next hch =>
      exact h.takeProvider hch.2 (receiversOf_erase hch.1 _) rfl rfl rfl
    · exact h

/-! ## Runs -/

theorem Inv.step (h : Inv [] w) (i : Input) : Inv [] (step i w) := by
  cases i with
  | listen key =>
      cases key <;>
        exact ⟨h.calm, h.records, h.providers, h.mail, h.handles, h.used⟩
  | cleanup => exact ⟨h.calm, h.records, h.providers, h.mail, h.handles, h.used⟩
  | putRecord source record full =>
      have hserves : (record.map Record.key).isSome = true →
          Serves putRecordKind (.putRecord source ⟨record, none⟩) := by
        intro hsome
        cases record with
        | none => cases hsome
        | some record => exact serves_putRecord source record
      obtain ⟨w', hprocess, hinv⟩ := inv_processRequest full _ hserves
        (by simp [DHTEvent.carries]) h
      simp only [KademliaTask.step, hprocess]
      exact hinv
  | addProvider record full =>
      have hserves : (record.map ProviderRecord.key).isSome = true →
          Serves addProviderKind (.provideRecord ⟨record, none⟩) := by
        intro hsome
        cases record with
        | none => cases hsome
        | some record => exact serves_addProvider record
      obtain ⟨w', hprocess, hinv⟩ := inv_processRequest full _ hserves
        (by simp [DHTEvent.carries]) h
      simp only [KademliaTask.step, hprocess]
      exact hinv
  | receive listener => exact h.receive listener
  | close listener => exact h.close listener
  | clone handle => exact h.cloneHandle handle
  | conclude handle decision => exact h.conclude handle decision
  | pollPutRecord key ch => exact h.poll.1 key ch
  | pollPutRecordGlobal ch => exact h.poll.2.1 ch
  | pollProviderRecord key ch => exact h.poll.2.2.1 key ch
  | pollProviderRecordGlobal ch => exact h.poll.2.2.2 ch

end Account

theorem inv_of_reachable {w : World}
    (hw : service.Reachable (fun _ _ => True) w) : Inv [] w := by
  refine hw.invariant ?_ fun w i h _ => h.step i
  rintro w rfl
  exact ⟨rfl, .nil 0, .nil 0, nofun, fun _ _ h => (by cases h),
    fun _ _ h => (by cases h)⟩

/-! ## What a poll leaves behind -/

/-- No receiver has anything to deliver. -/
def Drained (w : World) : Prop :=
  (∀ ch ∈ w.recordReceivers, w.recordChannels ch = .pending) ∧
    ∀ ch ∈ w.providerReceivers, w.providerChannels ch = .pending

/-- A receiver for records is used up, and what it delivers is stored. -/
structure TakesRecord (ch : ℕ) (w w' : World) : Prop where
  stored : w'.task.stored = w.task.stored ++ (w.recordChannels ch).value.toList
  provided : w'.task.provided = w.task.provided
  receivers : w.recordReceivers.Perm (ch :: w'.recordReceivers)
  others : w'.providerReceivers = w.providerReceivers

/-- A receiver for provider records is used up, and what it delivers is stored. -/
structure TakesProvider (ch : ℕ) (w w' : World) : Prop where
  stored : w'.task.stored = w.task.stored
  provided : w'.task.provided =
    w.task.provided ++ (w.providerChannels ch).value.toList
  receivers : w.providerReceivers.Perm (ch :: w'.providerReceivers)
  others : w'.recordReceivers = w.recordReceivers

/-- The four loops use up every receiver that is ready. -/
structure Serving (w : World) : Prop where
  putRecord : ∀ key, ∀ ch ∈ (w.task.dhtPutRecordReceiver.lookup key).getD [],
    w.recordChannels ch ≠ .pending → TakesRecord ch w (w.pollPutRecord key ch)
  putRecordGlobal : ∀ ch ∈ w.task.dhtPutRecordGlobalReceiver,
    w.recordChannels ch ≠ .pending → TakesRecord ch w (w.pollPutRecordGlobal ch)
  providerRecord : ∀ key,
    ∀ ch ∈ (w.task.dhtProviderRecordReceiver.lookup key).getD [],
      w.providerChannels ch ≠ .pending →
        TakesProvider ch w (w.pollProviderRecord key ch)
  providerRecordGlobal : ∀ ch ∈ w.task.dhtProviderRecordGlobalReceiver,
    w.providerChannels ch ≠ .pending →
      TakesProvider ch w (w.pollProviderRecordGlobal ch)

theorem serving (w : World) : Serving w where
  putRecord := by
    intro key ch hch hready
    rw [World.pollPutRecord, if_pos ⟨hch, hready⟩]
    exact ⟨rfl, rfl, receiversOf_takeAt hch _, rfl⟩
  putRecordGlobal := by
    intro ch hch hready
    rw [World.pollPutRecordGlobal, if_pos ⟨hch, hready⟩]
    exact ⟨rfl, rfl, receiversOf_erase hch _, rfl⟩
  providerRecord := by
    intro key ch hch hready
    rw [World.pollProviderRecord, if_pos ⟨hch, hready⟩]
    exact ⟨rfl, rfl, receiversOf_takeAt hch _, rfl⟩
  providerRecordGlobal := by
    intro ch hch hready
    rw [World.pollProviderRecordGlobal, if_pos ⟨hch, hready⟩]
    exact ⟨rfl, rfl, receiversOf_erase hch _, rfl⟩

/-- One turn of one of the loops, for a receiver that is ready. -/
inductive Turn (w : World) : World → Prop where
  | putRecord (key : Key) (ch : ℕ)
      (hch : ch ∈ (w.task.dhtPutRecordReceiver.lookup key).getD [])
      (hready : w.recordChannels ch ≠ .pending) : Turn w (w.pollPutRecord key ch)
  | putRecordGlobal (ch : ℕ) (hch : ch ∈ w.task.dhtPutRecordGlobalReceiver)
      (hready : w.recordChannels ch ≠ .pending) : Turn w (w.pollPutRecordGlobal ch)
  | providerRecord (key : Key) (ch : ℕ)
      (hch : ch ∈ (w.task.dhtProviderRecordReceiver.lookup key).getD [])
      (hready : w.providerChannels ch ≠ .pending) :
      Turn w (w.pollProviderRecord key ch)
  | providerRecordGlobal (ch : ℕ)
      (hch : ch ∈ w.task.dhtProviderRecordGlobalReceiver)
      (hready : w.providerChannels ch ≠ .pending) :
      Turn w (w.pollProviderRecordGlobal ch)

/-- A poll of the task: its loops take turns, in any order, until no receiver is
ready. -/
def Polled (w w' : World) : Prop :=
  Relation.ReflTransGen Turn w w' ∧ Drained w'

section Polling

variable {w w' : World}

theorem Turn.takes (h : Turn w w') :
    (∃ ch, TakesRecord ch w w') ∨ ∃ ch, TakesProvider ch w w' := by
  cases h with
  | putRecord key ch hch hready =>
      exact Or.inl ⟨ch, (serving w).putRecord key ch hch hready⟩
  | putRecordGlobal ch hch hready =>
      exact Or.inl ⟨ch, (serving w).putRecordGlobal ch hch hready⟩
  | providerRecord key ch hch hready =>
      exact Or.inr ⟨ch, (serving w).providerRecord key ch hch hready⟩
  | providerRecordGlobal ch hch hready =>
      exact Or.inr ⟨ch, (serving w).providerRecordGlobal ch hch hready⟩

theorem Turn.lt (h : Turn w w') :
    w'.recordReceivers.length + w'.providerReceivers.length <
      w.recordReceivers.length + w.providerReceivers.length := by
  rcases h.takes with ⟨ch, htakes⟩ | ⟨ch, htakes⟩
  · have hlength := htakes.receivers.length_eq
    rw [List.length_cons] at hlength
    rw [htakes.others]
    omega
  · have hlength := htakes.receivers.length_eq
    rw [List.length_cons] at hlength
    rw [htakes.others]
    omega

theorem Turn.inv (h : Turn w w') (hinv : Inv [] w) : Inv [] w' := by
  cases h with
  | putRecord key ch _ _ => exact hinv.poll.1 key ch
  | putRecordGlobal ch _ _ => exact hinv.poll.2.1 ch
  | providerRecord key ch _ _ => exact hinv.poll.2.2.1 key ch
  | providerRecordGlobal ch _ _ => exact hinv.poll.2.2.2 ch

theorem Turn.accepted (h : Turn w w') :
    w'.acceptedRecords = w.acceptedRecords ∧
      w'.acceptedProviders = w.acceptedProviders := by
  cases h with
  | putRecord key ch _ _ =>
      unfold World.pollPutRecord
      split <;> exact ⟨rfl, rfl⟩
  | putRecordGlobal ch _ _ =>
      unfold World.pollPutRecordGlobal
      split <;> exact ⟨rfl, rfl⟩
  | providerRecord key ch _ _ =>
      unfold World.pollProviderRecord
      split <;> exact ⟨rfl, rfl⟩
  | providerRecordGlobal ch _ _ =>
      unfold World.pollProviderRecordGlobal
      split <;> exact ⟨rfl, rfl⟩

theorem mem_receiversOf_iff {ch : ℕ} {sets : HashMap Key (List ℕ)} {set : List ℕ} :
    ch ∈ receiversOf sets set ↔
      ch ∈ set ∨ ∃ key, ch ∈ (sets.lookup key).getD [] := by
  rw [receiversOf, List.mem_append, List.mem_flatten]
  refine or_congr Iff.rfl ⟨?_, ?_⟩
  · rintro ⟨l, hl, hch⟩
    obtain ⟨key, hkey⟩ := mem_values_iff.mp hl
    exact ⟨key, by rwa [hkey]⟩
  · rintro ⟨key, hch⟩
    cases hkey : sets.lookup key with
    | none => simp [hkey] at hch
    | some l =>
        rw [hkey, Option.getD_some] at hch
        exact ⟨l, mem_values_iff.mpr ⟨key, hkey⟩, hch⟩

theorem exists_turn (h : ¬Drained w) : ∃ w', Turn w w' := by
  simp only [Drained, not_and_or, not_forall] at h
  rcases h with ⟨ch, hch, hready⟩ | ⟨ch, hch, hready⟩
  · rcases mem_receiversOf_iff.mp hch with hch | ⟨key, hch⟩
    · exact ⟨_, .putRecordGlobal ch hch hready⟩
    · exact ⟨_, .putRecord key ch hch hready⟩
  · rcases mem_receiversOf_iff.mp hch with hch | ⟨key, hch⟩
    · exact ⟨_, .providerRecordGlobal ch hch hready⟩
    · exact ⟨_, .providerRecord key ch hch hready⟩

/-- The loops of a poll end: every turn uses up a receiver. -/
theorem exists_polled (w : World) : ∃ w', Polled w w' := by
  induction hn : w.recordReceivers.length + w.providerReceivers.length
    using Nat.strong_induction_on generalizing w with
  | _ n ih =>
      by_cases hdrained : Drained w
      · exact ⟨w, .refl, hdrained⟩
      · obtain ⟨w₁, hturn⟩ := exists_turn hdrained
        have hlt := hturn.lt
        obtain ⟨w', hturns, hdrained'⟩ := ih _ (by omega) w₁ rfl
        exact ⟨w', hturns.head hturn, hdrained'⟩

theorem waiting_eq_nil {R : Type} {state : ℕ → Outcome R} {receivers : List ℕ}
    (h : ∀ ch ∈ receivers, state ch = .pending) : waiting state receivers = [] := by
  rw [waiting, List.filterMap_eq_nil_iff]
  intro ch hch
  rw [h ch hch]
  rfl

theorem Drained.accounts (h : Drained w) (hinv : Inv [] w) :
    w.acceptedRecords.Perm w.task.stored ∧
      w.acceptedProviders.Perm w.task.provided := by
  have hstored := hinv.records.balance
  have hprovided := hinv.providers.balance
  rw [waiting_eq_nil h.1, List.append_nil] at hstored
  rw [waiting_eq_nil h.2, List.append_nil] at hprovided
  exact ⟨hstored, hprovided⟩

/-- After a poll the store has got all that was accepted before it. -/
theorem Polled.accounts (h : Polled w w') (hinv : Inv [] w) :
    w.acceptedRecords.Perm w'.task.stored ∧
      w.acceptedProviders.Perm w'.task.provided := by
  obtain ⟨hturns, hdrained⟩ := h
  have hkept : Inv [] w' ∧ w'.acceptedRecords = w.acceptedRecords ∧
      w'.acceptedProviders = w.acceptedProviders := by
    clear hdrained
    induction hturns with
    | refl => exact ⟨hinv, rfl, rfl⟩
    | tail _ hturn ih =>
        obtain ⟨hinv', hrecords, hproviders⟩ := ih
        exact ⟨hturn.inv hinv', hturn.accepted.1.trans hrecords,
          hturn.accepted.2.trans hproviders⟩
  obtain ⟨hinv', hrecords, hproviders⟩ := hkept
  rw [← hrecords, ← hproviders]
  exact hdrained.accounts hinv'

end Polling

/-- The store gets the values that delivered handles were accepted with, each one
once, and nothing else.  What it has not got yet waits at a receiver.  A turn of
a poll takes a receiver that is ready and stores what it delivers, and the turns
end: after every poll the store has got all of them. -/
theorem stored_iff_accepted (w : World)
    (hw : service.Reachable (fun _ _ => True) w) :
    w.panicked = false ∧
    w.acceptedRecords.Perm
      (w.task.stored ++ waiting w.recordChannels w.recordReceivers) ∧
    w.acceptedProviders.Perm
      (w.task.provided ++ waiting w.providerChannels w.providerReceivers) ∧
    (Drained w → w.acceptedRecords.Perm w.task.stored ∧
      w.acceptedProviders.Perm w.task.provided) ∧
    Serving w ∧ (∃ w', Polled w w') ∧
    ∀ w', Polled w w' → w.acceptedRecords.Perm w'.task.stored ∧
      w.acceptedProviders.Perm w'.task.provided := by
  have h := inv_of_reachable hw
  exact ⟨h.calm, h.records.balance, h.providers.balance, fun hw => hw.accounts h,
    serving w, exists_polled w, fun w' hw' => hw'.accounts h⟩

def sampleRecord (value : UInt8) : Record :=
  ⟨[1], [value], none, none⟩

def sampleProvider : ProviderRecord :=
  ⟨[1], 7, none, []⟩

/-- Of three listeners one has a full channel; one accepts another record, after it
has tried to accept a clone, and one rejects.  Of a provider record for the same
key the listener of the key accepts its handle, and another one is still held. -/
def threeListeners : List Input :=
  [.listen none, .listen (some [1]), .listen none,
    .putRecord 7 (some (sampleRecord 2)) (fun listener => listener == 2),
    .receive 0, .clone 0, .conclude 1 .accept, .receive 1,
    .conclude 0 (.acceptRecordWith (sampleRecord 3)), .conclude 2 .reject,
    .addProvider (some sampleProvider) (fun listener => listener == 2),
    .receive 0, .receive 1, .conclude 4 .accept]

/-- Nothing is stored before the task is polled, and what was accepted after it. -/
theorem stored_iff_accepted_threeListeners :
    ∃ w, service.Reachable (fun _ _ => True) w ∧ w.task.stored = [] ∧
      w.task.provided = [] ∧ w.providerChannels 3 = .pending ∧
      ∃ w', Polled w w' ∧ w'.task.stored.Perm [sampleRecord 3] ∧
        w'.task.provided.Perm [sampleProvider] := by
  obtain ⟨w, hw, hrecords, hproviders, hstored, hprovided, hpending⟩ :=
    @Service.exists_reachable_of_run World Input service (fun _ _ => True)
      (fun _ _ => true) (fun _ _ _ => trivial) World.new rfl threeListeners
      (fun w => w.acceptedRecords = [sampleRecord 3] ∧
        w.acceptedProviders = [sampleProvider] ∧ w.task.stored = [] ∧
        w.task.provided = [] ∧ w.providerChannels 3 = .pending) _ (by decide)
  obtain ⟨-, -, -, -, -, ⟨w', hpolled⟩, haccounts⟩ := stored_iff_accepted w hw
  obtain ⟨hafter, hafter'⟩ := haccounts w' hpolled
  rw [hrecords] at hafter
  rw [hproviders] at hafter'
  exact ⟨w, hw, hstored, hprovided, hpending, w', hpolled, hafter.symm, hafter'.symm⟩

end Connexa.KademliaTask
