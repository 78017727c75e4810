import Connexa.Task.Rendezvous

/-!
# Who gets the answers of a rendezvous node

Both lines of the task are orderly as long as every completion is attributed to
the key of its request and meets a queue only if it was started for it.  The
first fails when the cookie of a `Discovered` event names another namespace,
the second when a renewal is reported while a command for its key waits.
-/

namespace Connexa.Rendezvous

open Line

/-- The result for commands whose peer was disconnected. -/
def notConnected {α : Type} (peerId : PeerId) : Except Error α :=
  .error (.notConnected peerId)

variable {task : Task} {i : Input}

/-! ## Discoveries -/

structure DiscoverInv (task : Task) : Prop where
  orderly : Orderly Prod.fst notConnected task.discover
  commanded : Commanded task.discover

theorem DiscoverInv.finish (h : DiscoverInv task) {r : Request DiscoverKey}
    (hr : r ∈ task.discover.inFlight) {key : DiscoverKey}
    (hkey : r.stale = false → r.key = key) (hpeer : r.key.1 = key.1)
    (result : DiscoverResponse) (refusals : ℕ → Option DiscoverResponse) :
    Orderly Prod.fst notConnected
      (Line.finish key result refusals (task.discover.leave r.id result)) := by
  cases hstale : r.stale with
  | false =>
      rw [← hkey hstale]
      refine h.orderly.finish hr (fun hnone => ?_) result refusals
      have hsome := h.commanded r hr
      rw [hnone] at hsome
      cases hsome
  | true =>
      have hdrained := h.orderly.drained r hr hstale
      have hnone : (task.discover.leave r.id result).queues.lookup key = none :=
        hdrained key hpeer.symm
      rw [finish_of_lookup_eq_none hnone]
      exact h.orderly.leave hr result (hdrained r.key rfl)

theorem DiscoverInv.step (h : DiscoverInv task) (hi : Contract task i)
    (hhonest : HonestCookie task i) : DiscoverInv (step i task) := by
  cases i with
  | command command answer =>
      cases command with
      | discover ns peerId cookie ttl resp =>
          refine ⟨?_, (h.commanded.record _).ask _ _ _ _⟩
          exact h.orderly.ask (hi.fresh _ _ rfl) (hi.drained _ _ rfl).1 _ _ _
      | _ => exact ⟨h.orderly, h.commanded⟩
  | event id event answers =>
      cases event with
      | discovered rendezvousNode registrations cookie =>
          refine ⟨?_, (h.commanded.leave _ _).finish _ _ _⟩
          obtain ⟨r, hr, rfl, rfl⟩ := hi.reported _ _ _ rfl
          have hkey : r.stale = false → r.key = (r.key.1, cookie.ns) :=
            fun hstale => Prod.ext rfl (hhonest _ _ _ _ _ rfl r hr rfl hstale)
          exact h.finish hr hkey rfl _ _
      | discoverFailed rendezvousNode ns error =>
          refine ⟨?_, (h.commanded.leave _ _).finish _ _ _⟩
          obtain ⟨r, hr, rfl, hkey⟩ := hi.reported _ _ _ rfl
          exact h.finish hr (fun _ => hkey) (by rw [hkey]) _ _
      | _ => exact ⟨h.orderly, h.commanded⟩
  | renew key => exact ⟨h.orderly, h.commanded⟩
  | connectionClosed peerId numEstablished =>
      simp only [Rendezvous.step, connectionClosed, disconnect]
      split
      · exact ⟨h.orderly.failGroup peerId, h.commanded.failGroup peerId _⟩
      · exact ⟨h.orderly, h.commanded⟩

/-! ## Registrations -/

abbrev RegisterInv (task : Task) : Prop :=
  Orderly Prod.fst notConnected task.register

theorem RegisterInv.step (h : RegisterInv task) (hi : Contract task i)
    (hundisturbed : Undisturbed task i) : RegisterInv (step i task) := by
  cases i with
  | command command answer =>
      cases command with
      | register ns peerId ttl resp =>
          exact h.ask (hi.fresh _ _ rfl) (hi.drained _ _ rfl).2 _ _ _
      | _ => exact h
  | event id event answers =>
      have hfinish : ∀ rendezvousNode ns result refusals,
          ((∃ ttl, event = .registered rendezvousNode ttl ns) ∨
            ∃ error, event = .registerFailed rendezvousNode ns error) →
          (∃ r ∈ task.register.inFlight, r.id = id ∧ r.key = (rendezvousNode, ns)) →
          Orderly Prod.fst notConnected (Line.finish (rendezvousNode, ns) result
            refusals (task.register.leave id result)) := by
        rintro rendezvousNode ns result refusals hevent ⟨r, hr, rfl, hkey⟩
        rw [← hkey]
        refine Orderly.finish h hr (fun hnone => ?_) result refusals
        rw [hkey]
        exact hundisturbed _ _ _ rfl _ _ hevent r hr rfl hnone
      cases event with
      | registered rendezvousNode ttl ns =>
          exact hfinish _ _ _ _ (Or.inl ⟨ttl, rfl⟩) (hi.reported _ _ _ rfl)
      | registerFailed rendezvousNode ns error =>
          exact hfinish _ _ _ _ (Or.inr ⟨error, rfl⟩) (hi.reported _ _ _ rfl)
      | _ => exact h
  | renew key => exact Orderly.renew h key
  | connectionClosed peerId numEstablished =>
      simp only [Rendezvous.step, connectionClosed, disconnect]
      split
      · exact Orderly.failGroup h peerId
      · exact h

theorem discoverInv_of_reachable {contract : Task → Input → Prop}
    (hcontract : ∀ task i, contract task i → Contract task i ∧ HonestCookie task i)
    (h : service.Reachable contract task) : DiscoverInv task := by
  refine h.invariant ?_ fun task i hinv hi =>
    hinv.step (hcontract _ _ hi).1 (hcontract _ _ hi).2
  rintro task ⟨enabled, rfl⟩
  exact ⟨orderly_empty _ _, nofun⟩

theorem registerInv_of_reachable
    (h : service.Reachable (fun t i => Contract t i ∧ Undisturbed t i) task) :
    RegisterInv task := by
  refine h.invariant ?_ fun task i hinv hi => hinv.step hi.1 hi.2
  rintro task ⟨enabled, rfl⟩
  exact orderly_empty _ _

/-- What the client promises when it starts only the task's requests and every
completion carries the namespace of its request. -/
structure Faithful (task : Task) (i : Input) : Prop extends Contract task i where
  honest : HonestCookie task i
  unrenewed : Unrenewed task i

/-- The client's answer to attempt number `n` of an input. -/
def Input.answer (i : Input) (n : ℕ) : Option RegisterError :=
  match i with
  | .command _ answer => answer
  | .event _ _ answers => answers n
  | _ => none

/-- Start errors are the client's own: a step refuses each of its attempts with what
the client answers to it, and without a client all of them. -/
structure Refuses (task : Task) (i : Input) : Prop where
  register : RefusedWith
    (fun n => if task.enabled then (i.answer n).map fun error => .error (.other error)
      else some (.error .disabled))
    task.register.log (step i task).register.log
  discover : RefusedWith
    (fun _ => if task.enabled then none else some (.error .disabled))
    task.discover.log (step i task).discover.log

theorem refuses (task : Task) (i : Input) : Refuses task i := by
  cases i with
  | command command answer =>
      cases command with
      | register ns peerId ttl resp =>
          refine ⟨?_, .of_eq rfl⟩
          exact (refusedWith_ask _ _ _ _ _).trans_left (refused_snoc rfl)
      | unregister ns peerId resp => exact ⟨.of_eq rfl, .of_eq rfl⟩
      | discover ns peerId cookie ttl resp =>
          refine ⟨.of_eq rfl, ?_⟩
          exact (refusedWith_ask _ _ _ _ _).trans_left (refused_snoc rfl)
  | event id event answers =>
      cases event with
      | discovered rendezvousNode registrations cookie =>
          refine ⟨.of_eq rfl, ?_⟩
          exact (refusedWith_finish _ _ _ _).trans_left (refused_snoc rfl)
      | discoverFailed rendezvousNode ns error =>
          refine ⟨.of_eq rfl, ?_⟩
          exact (refusedWith_finish _ _ _ _).trans_left (refused_snoc rfl)
      | registered rendezvousNode ttl ns =>
          refine ⟨?_, .of_eq rfl⟩
          exact (refusedWith_finish _ _ _ _).trans_left (refused_snoc rfl)
      | registerFailed rendezvousNode ns error =>
          refine ⟨?_, .of_eq rfl⟩
          exact (refusedWith_finish _ _ _ _).trans_left (refused_snoc rfl)
      | expired peer => exact ⟨.of_eq rfl, .of_eq rfl⟩
  | renew key => exact ⟨.of_eq (refused_snoc rfl), .of_eq rfl⟩
  | connectionClosed peerId numEstablished =>
      by_cases hclosed : numEstablished = 0
      · subst hclosed
        exact ⟨.of_eq ((refused_failGroup peerId _ _).trans (refused_snoc rfl)),
          .of_eq ((refused_failGroup peerId _ _).trans (refused_snoc rfl))⟩
      · constructor <;> simp only [step, connectionClosed, disconnect, if_neg hclosed]
        · exact .of_eq rfl
        · exact .of_eq rfl

instance : DecidableEq DiscoverResponse :=
  have : DecidableEq (Cookie × List (PeerId × List Multiaddr)) := inferInstance
  inferInstance

/-- A request that is not stale is that of the front of its queue. -/
theorem exists_front {K J R : Type} [DecidableEq K] {group : K → PeerId}
    {failure : PeerId → R} {l : Line K J PeerId R} (h : Orderly group failure l)
    {r : Request K} (hr : r ∈ l.own r.key) (hstale : r.stale = false) :
    ∃ job responder rest, r.command = some responder ∧
      l.queues.lookup r.key = some ((job, responder) :: rest) := by
  cases hqueue : l.queues.lookup r.key with
  | none =>
      have htrue := h.idle _ hqueue r hr
      rw [hstale] at htrue
      cases htrue
  | some queue =>
      cases queue with
      | nil => exact absurd rfl (h.nonempty _ _ hqueue)
      | cons first rest =>
          obtain ⟨id, hown⟩ := h.front _ first.1 first.2 rest hqueue
          rw [hown] at hr
          exact ⟨first.1, first.2, rest, by rw [List.mem_singleton.mp hr], rfl⟩

theorem DiscoverInv.mem_own (h : DiscoverInv task) {r : Request DiscoverKey}
    (hr : r ∈ task.discover.inFlight) : r ∈ task.discover.own r.key := by
  rw [h.commanded.own_eq]
  exact List.mem_filter.mpr ⟨hr, decide_eq_true rfl⟩

/-- Every answer of a node completes the command whose request it answers, and
no command waits without a request in flight. -/
structure Routed (task : Task) : Prop where
  own : ∀ id rendezvousNode registrations cookie answers,
    Contract task (.event id (.discovered rendezvousNode registrations cookie) answers) →
    HonestCookie task
      (.event id (.discovered rendezvousNode registrations cookie) answers) →
    ∀ r ∈ task.discover.inFlight, r.id = id → r.stale = false →
      ∃ responder, r.command = some responder ∧
        task.discover.log ++
          [.completed id (.ok (cookie, discoveredPeers registrations)),
            .answered r.key responder (.ok (cookie, discoveredPeers registrations))] <+:
          (step (.event id (.discovered rendezvousNode registrations cookie)
            answers) task).discover.log
  justified : Chronicle (Justified Prod.fst notConnected) task.discover.log
  complete : ∀ key, task.discover.own key = [] →
    forKey key (answered task.discover.log) = forKey key (asked task.discover.log)

theorem DiscoverInv.routed (h : DiscoverInv task) : Routed task where
  justified := h.orderly.justified
  complete := fun _ hquiet => h.orderly.answered_of_quiet hquiet
  own := by
    intro id rendezvousNode registrations cookie answers hi hhonest r hr hid hstale
    obtain ⟨job, responder, rest, hcommand, hqueue⟩ :=
      exists_front h.orderly (h.mem_own hr) hstale
    refine ⟨responder, hcommand, ?_⟩
    obtain ⟨r', hr', hid', hnode⟩ := hi.reported _ _ _ rfl
    have hsame : r' = r :=
      h.orderly.toNumbered.eq_of_id_eq hr hr' (hid'.trans hid.symm)
    have hkey : r.key = (rendezvousNode, cookie.ns) :=
      Prod.ext (hsame ▸ hnode) (hhonest _ _ _ _ _ rfl r hr hid hstale)
    rw [hkey] at hqueue ⊢
    rw [List.append_cons]
    exact finish_answers (l := task.discover.leave id _) hqueue _ _

/-- A cookie that names another namespace leaves the command of the answered
request without a request. -/
theorem DiscoverInv.waits_of_not_honest (h : DiscoverInv task)
    (hnot : ¬HonestCookie task i) :
    ∃ key responder, responder ∈ (Rendezvous.step i task).discover.waiting key ∧
      (Rendezvous.step i task).discover.own key = [] := by
  simp only [HonestCookie, not_forall] at hnot
  obtain ⟨id, rendezvousNode, registrations, cookie, answers, rfl, r, hr, rfl,
    hstale, hne⟩ := hnot
  obtain ⟨job, responder, rest, hcommand, hqueue⟩ :=
    exists_front h.orderly (h.mem_own hr) hstale
  have hkey : r.key ≠ (rendezvousNode, cookie.ns) :=
    fun heq => hne (congrArg Prod.snd heq)
  obtain ⟨hlookup, hown⟩ := (finish_frame (rendezvousNode, cookie.ns)
    (.ok (cookie, discoveredPeers registrations))
    (fun _ => startRendezvousDiscovery task)
    (task.discover.leave r.id (.ok (cookie, discoveredPeers registrations)))).2
      r.key hkey
  refine ⟨r.key, responder, ?_, ?_⟩
  · exact mem_waiting_of_lookup (hlookup.trans hqueue) List.mem_cons_self
  · refine hown.trans ?_
    obtain ⟨id, hfront⟩ := h.orderly.front _ _ _ _ hqueue
    have hmem := h.mem_own hr
    rw [own_leave, hfront] at *
    rw [List.mem_singleton.mp hmem]
    simp

/-- In runs whose `Discovered` events carry the namespace that was asked for,
every answer reaches its own command and no command is left without one.  A
cookie that names another namespace leaves a command behind at once. -/
theorem discoveries_routed (task : Task)
    (h : service.Reachable (fun t i => Contract t i ∧ HonestCookie t i) task) :
    Routed task ∧
      ∀ i, ¬HonestCookie task i →
        ∃ key responder, responder ∈ (step i task).discover.waiting key ∧
          (step i task).discover.own key = [] := by
  have hinv := discoverInv_of_reachable (fun _ _ hi => hi) h
  exact ⟨hinv.routed, fun i hnot => hinv.waits_of_not_honest hnot⟩

/-- Two namespaces are asked for, and the node answers the second request
first. -/
def twoNamespaces : List Input :=
  [.command (.discover (some "a") 7 none none 0) none,
    .command (.discover (some "b") 7 none none 1) none,
    .event 1 (.discovered 7 [] ⟨5, some "b"⟩) fun _ => none]

theorem honest_of_check (task : Task) (i : Input)
    (h : (contract task i && honestCookie task i) = true) :
    Contract task i ∧ HonestCookie task i := by
  simp only [Bool.and_eq_true] at h
  exact ⟨contract_of_check task i h.1, honestCookie_of_check task i h.2⟩

theorem discoveries_routed_twoNamespaces :
    ∃ task, service.Reachable (fun t i => Contract t i ∧ HonestCookie t i) task ∧
      Routed task ∧ answered task.discover.log = [((7, some "b"), 1)] ∧
      task.discover.waiting (7, some "a") = [0] := by
  obtain ⟨task, htask, hrun⟩ := Service.exists_reachable_of_run (S := service)
    honest_of_check (Task.new true) ⟨true, rfl⟩ twoNamespaces
    (fun task => answered task.discover.log = [((7, some "b"), 1)] ∧
      task.discover.waiting (7, some "a") = [0]) (by decide)
  exact ⟨task, htask, (discoveries_routed task htask).1, hrun⟩

/-- The answer for one namespace is given to the command for the other, whose
own request is still in flight; its own command is left behind. -/
theorem cookie_misroutes_answer :
    ∃ task, service.Reachable Contract task ∧
      task.discover.inFlight = [⟨1, (7, some "b"), some 1, false⟩] ∧
      answered task.discover.log = [((7, some "b"), 1)] ∧
      task.discover.waiting (7, some "a") = [0] := by
  exact Service.exists_reachable_of_run (S := service) contract_of_check
    (Task.new true) ⟨true, rfl⟩
    [.command (.discover (some "a") 7 none none 0) none,
      .command (.discover (some "b") 7 none none 1) none,
      .event 0 (.discovered 7 [] ⟨5, some "b"⟩) fun _ => none]
    (fun task => task.discover.inFlight = [⟨1, (7, some "b"), some 1, false⟩] ∧
      answered task.discover.log = [((7, some "b"), 1)] ∧
      task.discover.waiting (7, some "a") = [0]) (by decide)

/-! ## Renewals -/

/-- The command of a queue is answered by a report on a renewal of its key, and
its own request stays in flight. -/
def AnsweredByRenewal (before after : RegisterLine) : Prop :=
  ∃ key responder result renewal id,
    .started renewal key none ∈ before.log ∧
    before.log ++ [.completed renewal result, .answered key responder result] <+:
      after.log ∧
    ⟨id, key, some responder, false⟩ ∈ after.inFlight

theorem answeredByRenewal_finish {l : RegisterLine}
    (h : Orderly Prod.fst notConnected l) {r : Request RegisterKey}
    (hr : r ∈ l.inFlight) (hrenewal : r.command = none)
    (hqueue : l.queues.lookup r.key ≠ none) (result : RegisterResponse)
    (refusals : ℕ → Option RegisterResponse) :
    AnsweredByRenewal l
      (Line.finish r.key result refusals (l.leave r.id result)) := by
  obtain ⟨queue, hqueue⟩ := Option.ne_none_iff_exists'.mp hqueue
  cases queue with
  | nil => exact absurd rfl (h.nonempty _ _ hqueue)
  | cons first rest =>
      obtain ⟨job, responder⟩ := first
      obtain ⟨id, hown⟩ := h.front _ _ _ _ hqueue
      have hmem : (⟨id, r.key, some responder, false⟩ : Request RegisterKey) ∈
          l.own r.key := by
        rw [hown]
        exact List.mem_singleton_self _
      refine ⟨r.key, responder, result, r.id, id, ?_, ?_, ?_⟩
      · rw [← hrenewal]
        exact h.logged r hr
      · rw [List.append_cons]
        exact finish_answers (l := l.leave r.id result) hqueue result refusals
      · refine (finish_frame r.key result refusals _).1.subset ?_
        refine List.mem_filter.mpr ⟨List.mem_of_mem_filter hmem, decide_eq_true ?_⟩
        intro hid
        -- two requests with one number
        have hsame := h.toNumbered.eq_of_id_eq hr (List.mem_of_mem_filter hmem) hid
        rw [← hsame] at hrenewal
        cases hrenewal

/-- A renewal that is reported while a command for its key waits. -/
theorem RegisterInv.answeredByRenewal (h : RegisterInv task)
    (hi : Contract task i) (hnot : ¬Undisturbed task i) :
    AnsweredByRenewal task.register (Rendezvous.step i task).register := by
  simp only [Undisturbed, not_forall] at hnot
  obtain ⟨id, event, answers, rfl, rendezvousNode, ns, hevent, r, hr, rfl,
    hrenewal, hqueue⟩ := hnot
  have hkey : r.key = (rendezvousNode, ns) := by
    have hreported := hi.reported _ _ _ rfl
    rcases hevent with ⟨ttl, rfl⟩ | ⟨error, rfl⟩
    · obtain ⟨r', hr', hid, hkey⟩ := hreported
      rwa [Numbered.eq_of_id_eq h.toNumbered hr hr' hid] at hkey
    · obtain ⟨r', hr', hid, hkey⟩ := hreported
      rwa [Numbered.eq_of_id_eq h.toNumbered hr hr' hid] at hkey
  have hwaits : task.register.queues.lookup r.key ≠ none := by rwa [hkey]
  have hfinish := answeredByRenewal_finish h hr hrenewal hwaits
  rw [hkey] at hfinish
  rcases hevent with ⟨ttl, rfl⟩ | ⟨error, rfl⟩
  · exact hfinish _ _
  · exact hfinish _ _

/-- In runs in which no renewal is reported while a command for its key waits,
Register commands are answered by their own requests, at most one of which is
in flight for each key.  A renewal that is reported too early answers a command
in place of its own request. -/
theorem registrations_answered_by_own_request (task : Task)
    (h : service.Reachable (fun t i => Contract t i ∧ Undisturbed t i) task) :
    Chronicle (Justified Prod.fst notConnected) task.register.log ∧
      ((answered task.register.log).map Prod.snd).Nodup ∧
      (∀ key, (task.register.own key).length ≤ 1) ∧
      ∀ i, Contract task i → ¬Undisturbed task i →
        AnsweredByRenewal task.register (step i task).register := by
  have hinv := registerInv_of_reachable h
  exact ⟨hinv.justified, hinv.nodup_answered, hinv.single,
    fun i hi hnot => hinv.answeredByRenewal hi hnot⟩

/-- Check that a reported renewal meets no queue. -/
def undisturbed (task : Task) (i : Input) : Bool :=
  match i with
  | .event id (.registered rendezvousNode _ ns) _
  | .event id (.registerFailed rendezvousNode ns _) _ =>
      decide (∀ r ∈ task.register.inFlight, r.id = id → r.command = none →
        task.register.queues.lookup (rendezvousNode, ns) = none)
  | _ => true

theorem undisturbed_of_check (task : Task) (i : Input)
    (h : (contract task i && undisturbed task i) = true) :
    Contract task i ∧ Undisturbed task i := by
  rw [Bool.and_eq_true] at h
  refine ⟨contract_of_check task i h.1, ?_⟩
  rintro id event answers rfl rendezvousNode ns (⟨ttl, rfl⟩ | ⟨error, rfl⟩)
  · exact of_decide_eq_true h.2
  · exact of_decide_eq_true h.2

/-- A registration is renewed and the renewal answered before the next command. -/
def renewalBetweenCommands : List Input :=
  [.command (.register "a" 7 none 0) none, .event 0 (.registered 7 60 "a") fun _ => none,
    .renew (7, "a"), .event 1 (.registered 7 60 "a") fun _ => none,
    .command (.register "a" 7 none 1) none]

theorem registrations_answered_by_own_request_renewalBetweenCommands :
    ∃ task, service.Reachable (fun t i => Contract t i ∧ Undisturbed t i) task ∧
      Chronicle (Justified Prod.fst notConnected) task.register.log ∧
      (task.register.own (7, "a")).length ≤ 1 ∧
      answered task.register.log = [((7, "a"), 0)] ∧
      task.register.waiting (7, "a") = [1] := by
  obtain ⟨task, htask, hrun⟩ := Service.exists_reachable_of_run (S := service)
    undisturbed_of_check (Task.new true) ⟨true, rfl⟩ renewalBetweenCommands
    (fun task => answered task.register.log = [((7, "a"), 0)] ∧
      task.register.waiting (7, "a") = [1]) (by decide)
  have hmain := registrations_answered_by_own_request task htask
  exact ⟨task, htask, hmain.1, hmain.2.2.1 (7, "a"), hrun⟩

/-- The report on a renewal answers a command, and the next one is started: two
requests of the task are in flight for one key. -/
theorem renewal_answers_command :
    ∃ task, service.Reachable Contract task ∧
      task.register.own (7, "a") =
        [⟨2, (7, "a"), some 1, false⟩, ⟨3, (7, "a"), some 2, false⟩] ∧
      answered task.register.log = [((7, "a"), 0), ((7, "a"), 1)] :=
  Service.exists_reachable_of_run (S := service) contract_of_check
    (Task.new true) ⟨true, rfl⟩
    [.command (.register "a" 7 none 0) none,
      .event 0 (.registered 7 60 "a") fun _ => none, .renew (7, "a"),
      .command (.register "a" 7 none 1) none,
      .command (.register "a" 7 none 2) none,
      .event 1 (.registered 7 60 "a") fun _ => none]
    (fun task => task.register.own (7, "a") =
        [⟨2, (7, "a"), some 1, false⟩, ⟨3, (7, "a"), some 2, false⟩] ∧
      answered task.register.log = [((7, "a"), 0), ((7, "a"), 1)]) (by decide)

end Connexa.Rendezvous
