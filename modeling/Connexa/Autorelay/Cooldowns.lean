import Mathlib.Order.Monotone.Defs
import Connexa.Autorelay.Reservations

/-!
# Reservation cooldowns over whole runs

After a reservation of a peer failed, the peer has no reservation until its
cooldown entry is gone, and no path removes the entry before its deadline was
seen on the clock.
-/

namespace Connexa.Autorelay

open HashMap

/-- The request asks the relay `p` for a reservation. -/
def ListenOpts.Asks (opts : ListenOpts) (p : PeerId) : Prop :=
  ∃ base, opts.address = base ++ [.p2p p, .p2pCircuit]

/-- The instant was seen on the clock within the first `reads` readings. -/
def Passed (c : Clock) (reads : ℕ) (deadline : Instant) : Prop :=
  ∃ i < reads, deadline ≤ c.instant i

theorem Passed.mono {c : Clock} {reads reads' : ℕ} {deadline : Instant}
    (h : Passed c reads deadline) (hle : reads ≤ reads') :
    Passed c reads' deadline := by
  obtain ⟨i, hi, hdeadline⟩ := h
  exact ⟨i, lt_of_lt_of_le hi hle, hdeadline⟩

/-- The peer waits for a deadline not before the given one, without a
reservation. -/
def Waits (b : Behaviour) (p : PeerId) (deadline : Instant) : Prop :=
  (∃ limit, b.reservationCooldowns.lookup p = some limit ∧
    deadline ≤ limit) ∧
  ∀ id r, b.reservations.lookup id = some r → r.peerId ≠ p

/-- A queued request comes after the cooldowns of all earlier failures. -/
def RequestRested (c : Clock) (before : List Record) (r : Record) : Prop :=
  ∀ opts reads b, r = .queued (.listenOn opts) reads b →
    ∀ p t d, opts.Asks p → Record.reservationFailed p t d ∈ before →
      Passed c reads (t + d.nanos)

structure CooldownInv (c : Clock) (w : World) : Prop where
  reservations : ReservationInv w
  failures : ∀ p t d, Record.reservationFailed p t d ∈ w.history →
    Passed c w.reads (t + d.nanos) ∨ Waits w.toBehaviour p (t + d.nanos)
  requests : Chronicle (RequestRested c) w.history

theorem asks_iff {p q : PeerId} {id : ListenerId} {addr full : Multiaddr}
    (hfull : addr.withP2p p = .ok full) :
    ListenOpts.Asks ⟨id, full ++ [.p2pCircuit]⟩ q ↔ q = p := by
  obtain ⟨base, rfl⟩ : ∃ base, full = base ++ [.p2p p] :=
    List.getLast?_eq_some_iff.mp (Multiaddr.getLast?_withP2p hfull)
  unfold ListenOpts.Asks
  constructor
  · rintro ⟨base', h⟩
    rw [List.append_assoc] at h
    have htail := (List.append_inj' h rfl).2
    simp at htail
    exact htail.symm
  · rintro rfl
    exact ⟨base, List.append_assoc _ _ _⟩

theorem Waits.mono {b b' : Behaviour} {p : PeerId} {deadline : Instant}
    (h : Waits b p deadline)
    (hcooldown : b'.reservationCooldowns.lookup p =
      b.reservationCooldowns.lookup p)
    (hsub : ∀ id r', b'.reservations.lookup id = some r' →
      r'.peerId = p → ∃ id r, b.reservations.lookup id = some r ∧
        r.peerId = p) :
    Waits b' p deadline := by
  refine ⟨by rw [hcooldown]; exact h.1, ?_⟩
  intro id r' hr' hpeer
  obtain ⟨id, r, hr, hp⟩ := hsub id r' hr' hpeer
  exact h.2 id r hr hp

/-- Failures recorded before stay settled while cooldowns are kept. -/
theorem CooldownInv.failures_mono {c : Clock} {w w' : World}
    (h : CooldownInv c w) (hreads : w.reads ≤ w'.reads)
    (hcooldowns : ∀ p deadline, Waits w.toBehaviour p deadline →
      Passed c w'.reads deadline ∨ Waits w'.toBehaviour p deadline)
    {p : PeerId} {t : Instant} {d : Duration}
    (hmem : Record.reservationFailed p t d ∈ w.history) :
    Passed c w'.reads (t + d.nanos) ∨
      Waits w'.toBehaviour p (t + d.nanos) := by
  rcases h.failures p t d hmem with hpassed | hwaits
  · exact Or.inl (hpassed.mono hreads)
  · exact hcooldowns p _ hwaits

/-- A change that records neither a failure nor a request. -/
theorem CooldownInv.of_silent {c : Clock} {i : Input} {w w' : World}
    (h : CooldownInv c w) (hact : Act c i w w')
    (hhistory : w'.history = w.history ∨
      ∃ r, w'.history = w.history ++ [r] ∧
        (∀ opts reads b, r ≠ .queued (.listenOn opts) reads b) ∧
        ∀ p t d, r ≠ .reservationFailed p t d)
    (hcooldowns : ∀ p deadline, Waits w.toBehaviour p deadline →
      Passed c w'.reads deadline ∨ Waits w'.toBehaviour p deadline) :
    CooldownInv c w' where
  reservations := h.reservations.act hact
  failures := by
    intro p t d hmem
    apply h.failures_mono hact.reads_le hcooldowns
    rcases hhistory with heq | ⟨r, heq, -, hr⟩
    · rwa [heq] at hmem
    · rw [heq] at hmem
      rcases List.mem_append.mp hmem with hmem | hmem
      · exact hmem
      · exact absurd (List.mem_singleton.mp hmem).symm (hr p t d)
  requests := by
    rcases hhistory with heq | ⟨r, heq, hr, -⟩
    · rw [heq]
      exact h.requests
    · rw [heq]
      exact h.requests.snoc fun opts reads b hreq => absurd hreq (hr opts reads b)

/-- A rested peer waits for nothing. -/
theorem Waits.passed {c : Clock} {w : World} {p : PeerId} {deadline : Instant}
    (h : Waits w.toBehaviour p deadline) (hrested : Rested c w p) :
    Passed c w.reads deadline := by
  obtain ⟨limit, hlimit, hle⟩ := h.1
  obtain ⟨i, hi, hpassed⟩ := hrested limit hlimit
  exact ⟨i, hi, hle.trans hpassed⟩

theorem clearFailure_of_ne {p q : PeerId} (hne : p ≠ q) (w : World) :
    (clearFailure q w).reservationCooldowns.lookup p = w.reservationCooldowns.lookup p ∧
      (clearFailure q w).failureCounts.lookup p = w.failureCounts.lookup p :=
  ⟨AList.lookup_erase_ne hne, AList.lookup_erase_ne hne⟩

/-- Erasing the cooldown of a peer that does not wait. -/
theorem Waits.clearFailure {w : World} {p q : PeerId} {deadline : Instant}
    (h : Waits w.toBehaviour p deadline) (hne : p ≠ q) :
    Waits (clearFailure q w).toBehaviour p deadline := by
  exact h.mono (clearFailure_of_ne hne w).1 fun id r hr hpeer => ⟨id, r, hr, hpeer⟩

theorem CooldownInv.failReservation {c : Clock} {w : World}
    (h : CooldownInv c w) {id : ListenerId} {reservation : Reservation}
    {deadline : Instant}
    (hlookup : w.reservations.lookup id = some reservation)
    (hdeadline : (c.instant w.reads).checkedAdd
      (recordFailure reservation.peerId w).1 = some deadline)
    (hreservations : ReservationInv (cooledDown c reservation.peerId deadline
      (removeReservation id w).2)) :
    CooldownInv c
      (cooledDown c reservation.peerId deadline (removeReservation id w).2) where
  reservations := hreservations
  failures := by
    intro p t d hmem
    rcases List.mem_append.mp hmem with hmem | hmem
    · rcases h.failures p t d hmem with hpassed | hwaits
      · exact Or.inl (hpassed.mono (Nat.le_succ _))
      · -- the failed reservation was not one of a waiting peer
        have hne : p ≠ reservation.peerId := fun heq =>
          hwaits.2 id reservation hlookup heq.symm
        refine Or.inr (hwaits.mono ?_ ?_)
        · simp only [cooledDown, World.record, HashMap.lookup_insert]
          rw [if_neg hne]
          rfl
        · intro j r hr hpeer
          exact ⟨j, r, (lookup_erase_some.mp hr).2, hpeer⟩
    · cases List.mem_singleton.mp hmem
      obtain ⟨-, rfl⟩ := Instant.checkedAdd_eq_some.mp hdeadline
      refine Or.inr ⟨⟨_, lookup_insert_self _ _ _, le_refl _⟩, ?_⟩
      intro j r hr hpeer
      obtain ⟨hne, hr⟩ := lookup_erase_some.mp hr
      exact hne (h.reservations.distinct j id r reservation hr hlookup hpeer)
  requests := h.requests.snoc fun _ _ _ hreq => by cases hreq

theorem CooldownInv.openReservation {c : Clock} {w : World}
    (h : CooldownInv c w) {peerId : PeerId} {connectionId : ConnectionId}
    {info : Connection} {full : Multiaddr} (hrested : Rested c w peerId)
    (hfull : info.addr.withP2p peerId = .ok full)
    (hreservations :
      ReservationInv (openReservation w peerId connectionId info full)) :
    CooldownInv c (openReservation w peerId connectionId info full) where
  reservations := hreservations
  failures := by
    intro p t d hmem
    have hold : Record.reservationFailed p t d ∈ w.history := by
      rcases List.mem_append.mp hmem with hmem | hmem
      · exact hmem
      · cases List.mem_singleton.mp hmem
    rcases h.failures p t d hold with hpassed | hwaits
    · exact Or.inl hpassed
    · by_cases hpeer : p = peerId
      · subst hpeer
        exact Or.inl (hwaits.passed hrested)
      · refine Or.inr ⟨hwaits.1, ?_⟩
        intro id r hr
        simp only [Autorelay.openReservation, World.queue,
          HashMap.lookup_insert] at hr
        split at hr
        · cases hr
          exact Ne.symm hpeer
        · exact hwaits.2 id r hr
  requests := by
    apply h.requests.snoc
    intro opts reads b hreq p t d hasks hmem
    cases hreq
    obtain rfl := (asks_iff hfull).mp hasks
    rcases h.failures p t d hmem with hpassed | hwaits
    · exact hpassed
    · exact hwaits.passed hrested

theorem CooldownInv.act {c : Clock} {i : Input} {w w' : World}
    (h : CooldownInv c w) (hact : Act c i w w') : CooldownInv c w' := by
  have hact' := hact
  cases hact with
  | reserve peerId connectionId info full _ _ _ hrested _ _ hfull =>
      exact h.openReservation hrested hfull (h.reservations.act hact')
  | failReservation id reservation deadline _ _ hlookup hdeadline =>
      exact h.failReservation hlookup hdeadline (h.reservations.act hact')
  | clearFailure peerId _ _ hrested =>
      refine h.of_silent hact' (Or.inl rfl) fun p deadline hwaits => ?_
      by_cases hpeer : p = peerId
      · subst hpeer
        exact Or.inl (hwaits.passed hrested)
      · exact Or.inr (hwaits.clearFailure hpeer)
  | sweep now _ hread hnow =>
      refine h.of_silent hact' (Or.inl rfl) fun p deadline hwaits => ?_
      obtain ⟨limit, hlimit, hle⟩ := hwaits.1
      by_cases hlate : now < limit
      · refine Or.inr ⟨⟨limit, ?_, hle⟩, hwaits.2⟩
        exact lookup_retain_some.mpr ⟨hlimit, decide_eq_true hlate⟩
      · refine Or.inl ⟨w.reads - 1, Nat.sub_lt hread Nat.one_pos, ?_⟩
        rw [hnow] at hlate
        exact hle.trans (not_lt.mp hlate)
  | activate id addr reservation _ _ hlookup _ =>
      refine h.of_silent hact' (Or.inl rfl) fun p deadline hwaits => Or.inr ?_
      have hne : p ≠ reservation.peerId := fun heq =>
        hwaits.2 id reservation hlookup heq.symm
      refine Waits.clearFailure (hwaits.mono rfl ?_) hne
      intro j r hr hpeer
      simp only [HashMap.lookup_insert] at hr
      split at hr
      · cases hr
        exact ⟨id, reservation, hlookup, hpeer⟩
      · exact ⟨j, r, hr, hpeer⟩
  | removeReservation id =>
      refine h.of_silent hact' (Or.inl rfl) fun p deadline hwaits =>
        Or.inr (hwaits.mono rfl ?_)
      intro j r hr hpeer
      exact ⟨j, r, (lookup_erase_some.mp hr).2, hpeer⟩
  | _ =>
      refine h.of_silent hact' ?_ fun p deadline hwaits => Or.inr hwaits
      first
      | exact Or.inl rfl
      | exact Or.inr ⟨_, rfl, (fun _ _ _ hr => by cases hr),
          fun _ _ _ hr => by cases hr⟩

theorem CooldownInv.record {c : Clock} {w : World} (h : CooldownInv c w) (i : Input) :
    CooldownInv c (w.record (.input i)) := by
  refine ⟨h.reservations.record i, ?_, h.requests.snoc fun _ _ _ hreq => by cases hreq⟩
  intro p t d hmem
  rcases List.mem_append.mp hmem with hmem | hmem
  · exact h.failures p t d hmem
  · cases List.mem_singleton.mp hmem

theorem Reachable.cooldownInv
    {c : Clock} {config : Config} {contract : Contract} {w : World}
    (h : Reachable c config contract w) : CooldownInv c w := by
  refine h.of_acts ?_ (fun i w hw _ => hw.record i)
    (fun i w w' _ hw hact => hw.act hact) ?_
  · intro reads nextListener nextConnection
    exact ⟨ReservationInv.fresh config reads nextListener nextConnection,
      (fun p t d hmem => by cases hmem), Chronicle.nil⟩
  · intro w w' hw hshuffle
    refine ⟨hw.reservations.shuffle hshuffle, ?_, ?_⟩
    · intro p t d hmem
      rw [hshuffle.history_eq] at hmem
      rw [hshuffle.reads_eq]
      rcases hw.failures p t d hmem with hpassed | hwaits
      · exact Or.inl hpassed
      · refine Or.inr (hwaits.mono
          (lookup_of_sameEntries hshuffle.reservationCooldowns p) ?_)
        intro id r hr hpeer
        rw [lookup_of_sameEntries hshuffle.reservations] at hr
        exact ⟨id, r, hr, hpeer⟩
    · rw [hshuffle.history_eq]
      exact hw.requests

theorem Passed.le_last {c : Clock} (hclock : Monotone c.instant) {reads : ℕ}
    {deadline : Instant} (h : Passed c reads deadline) :
    deadline ≤ c.instant (reads - 1) := by
  obtain ⟨i, hi, hle⟩ := h
  exact hle.trans (hclock (Nat.le_sub_one_of_lt hi))

/-! ## Failures are put on record -/

/-- The input reports that the listener failed. -/
def Input.Fails (i : Input) (id : ListenerId) : Prop :=
  i.event? = some (.listenerError id) ∨
    i.event? = some (.listenerClosed id true)

/-- What a change of the status leaves of one reservation. -/
structure Undisturbed (id : ListenerId) (r : Reservation) (w u : World) :
    Prop where
  issued : ListenersIssued u
  reservation : u.reservations.lookup id = some r
  external : u.externalReservations = w.externalReservations
  counts : u.failureCounts = w.failureCounts
  config : u.config = w.config

theorem Undisturbed.act {c : Clock} {id : ListenerId} {r : Reservation}
    {w u u' : World} {requested : Option Status} (h : Undisturbed id r w u)
    (hact : Act c (.setStatus requested) u u') : Undisturbed id r w u' := by
  cases hact with
  | reserve peerId connectionId info full _ _ _ _ _ _ _ =>
      refine ⟨listenersIssued_openReservation h.issued _ _ _ _, ?_, h.external,
        h.counts, h.config⟩
      have hne : id ≠ u.nextListener :=
        ne_of_lt (h.issued id (mem_of_lookup h.reservation))
      simp only [Autorelay.openReservation, World.queue, HashMap.lookup_insert]
      rw [if_neg hne]
      exact h.reservation
  | allocate listeners connections =>
      exact ⟨fun j hj => Nat.lt_add_right _ (h.issued j hj), h.reservation,
        h.external, h.counts, h.config⟩
  | clearFailure peerId hi _ _ =>
      obtain ⟨k, hi⟩ := hi
      cases hi
  | failReservation j _ _ hi _ _ _ =>
      rcases hi with hi | ⟨_, hi⟩ <;> cases hi
  | removeExternal j _ hi _ => rcases hi with hi | ⟨_, hi⟩ <;> cases hi
  | removeReservation j hi _ => rcases hi with hi | ⟨_, hi⟩ <;> cases hi
  | sweep now hi _ _ =>
      obtain ⟨timerReady, hi⟩ := hi
      cases hi
  | activate j addr _ hi _ _ _ => cases hi
  | addExternal j addr _ hi _ _ _ => cases hi
  | _ => exact ⟨h.issued, h.reservation, h.external, h.counts, h.config⟩

theorem Undisturbed.acts {c : Clock} {id : ListenerId} {r : Reservation}
    {w u u' : World} {requested : Option Status} (h : Undisturbed id r w u)
    (hacts : Acts c (.setStatus requested) u u') : Undisturbed id r w u' := by
  induction hacts with
  | refl => exact h
  | tail _ hact ih => exact ih.act hact

theorem Acts.reads_le {c : Clock} {i : Input} {w w' : World}
    (h : Acts c i w w') : w.reads ≤ w'.reads := by
  induction h with
  | refl => exact le_refl _
  | tail _ hact ih => exact ih.trans hact.reads_le

/-- A failed reservation is put on record with the time of the failure and the
cooldown that `record_failure` returns. -/
theorem disableReservation_records
    {c : Clock} {id : ListenerId} {r : Reservation} {w w' : World}
    (hexternal : w.externalReservations.lookup id = none)
    (hlookup : w.reservations.lookup id = some r)
    (h : disableReservation c id true w = .ok w') :
    w.reads < w'.reads ∧ Record.reservationFailed r.peerId (c.instant w.reads)
      (recordFailure r.peerId w).1 ∈ w'.history := by
  have hfound : removeReservation id w = (some r, (removeReservation id w).2) :=
    Prod.ext hlookup rfl
  unfold disableReservation at h
  rw [hexternal] at h
  dsimp only at h
  rw [hfound] at h
  dsimp only [chargeFailure] at h
  rcases startReservationCooldown_cases c r.peerId (removeReservation id w).2
    with hstart | ⟨deadline, -, hstart⟩
  · rw [if_pos rfl, hstart] at h
    cases h
  · rw [if_pos rfl, hstart] at h
    have hmeet := (meetReservationTarget_ensures c .removeAllReservations _).after
      (recordPreviousRelay_acts c .removeAllReservations r.peerId r.address
        (cooledDown c r.peerId deadline (removeReservation id w).2))
    have hacts := hmeet.of_eq_ok h
    exact ⟨hacts.reads_le,
      hacts.mem_history (List.mem_append_right _ List.mem_cons_self)⟩

theorem step_records_failure
    {c : Clock} {i : Input} {id : ListenerId} {r : Reservation} {w w' : World}
    (hissued : ListenersIssued w) (hi : i.Fails id)
    (hexternal : w.externalReservations.lookup id = none)
    (hlookup : w.reservations.lookup id = some r)
    (h : step c i w = .ok w') :
    ∃ n, w.reads ≤ n ∧ n < w'.reads ∧
      Record.reservationFailed r.peerId (c.instant n)
        (recordFailure r.peerId w).1 ∈ w'.history := by
  obtain ⟨event, hevent, hdispatch⟩ : ∃ event, i.event? = some event ∧
      ∀ u, dispatchSwarmEvent c event u = disableReservation c id true u := by
    rcases hi with hi | hi
    · exact ⟨_, hi, fun _ => rfl⟩
    · exact ⟨_, hi, fun _ => rfl⟩
  obtain ⟨addresses, change, rfl⟩ := Input.eq_swarm hevent
  obtain ⟨u, hacts, hown⟩ := step_swarm_cases h
  have hstart : Undisturbed id r w (w.record (.input (.swarm event addresses change))) :=
    ⟨hissued, hlookup, rfl, rfl, rfl⟩
  have hu := hstart.acts hacts
  obtain ⟨hreads, hrecord⟩ := disableReservation_records
    (by rw [hu.external]; exact hexternal) hu.reservation ((hdispatch u).symm.trans hown)
  have hsame : (recordFailure r.peerId u).1 = (recordFailure r.peerId w).1 := by
    simp only [recordFailure, attemptsAfter, hu.counts, hu.config]
  rw [hsame] at hrecord
  exact ⟨u.reads, hacts.reads_le, hreads, hrecord⟩

/-- With a clock that does not run backwards, a failure of `p` at time `t`
with cooldown `d` keeps every later `ListenOn` for `p` until `t + d`. -/
theorem reservation_cooldowns_respected
    {c : Clock} (hclock : Monotone c.instant) {config : Config} {w : World}
    (h : Reachable c config .none w) :
    (∀ before after p t d opts reads b,
      w.history = before ++ .queued (.listenOn opts) reads b :: after →
        opts.Asks p → Record.reservationFailed p t d ∈ before →
          t + d.nanos ≤ c.instant (reads - 1)) ∧
    ∀ i id r w', i.Fails id → w.externalReservations.lookup id = none →
      w.reservations.lookup id = some r → step c i w = .ok w' →
        ∃ n, w.reads ≤ n ∧ n < w'.reads ∧
          Record.reservationFailed r.peerId (c.instant n)
            (recordFailure r.peerId w).1 ∈ w'.history := by
  have hinv := h.cooldownInv
  constructor
  · intro before after p t d opts reads b heq hasks hmem
    exact (hinv.requests before _ after heq opts reads b rfl p t d hasks
      hmem).le_last hclock
  · intro i id r w' hi hexternal hlookup hstep
    exact step_records_failure hinv.reservations.issued hi hexternal hlookup
      hstep

/-- The request or the failure that a line of the history reports. -/
def Record.summary (r : Record) :
    Option (ListenOpts × ℕ ⊕ PeerId × Instant × Duration) :=
  match r with
  | .queued (.listenOn opts) reads _ => some (.inl (opts, reads))
  | .reservationFailed p t d => some (.inr (p, t, d))
  | _ => none

theorem Record.eq_of_summary_request {r : Record} {opts : ListenOpts} {n : ℕ}
    (h : r.summary = some (.inl (opts, n))) :
    ∃ b, r = .queued (.listenOn opts) n b := by
  unfold Record.summary at h
  split at h <;> cases h
  exact ⟨_, rfl⟩

theorem Record.eq_of_summary_failure {r : Record} {p : PeerId} {t : Instant}
    {d : Duration} (h : r.summary = some (.inr (p, t, d))) :
    r = .reservationFailed p t d := by
  unfold Record.summary at h
  split at h <;> cases h
  rfl

/-- The relay `7` connects, its reservation fails, and the polls outlast the
cooldown. -/
def relayFails : List Input :=
  relayConnects 7 0 ++
    [.swarm (.listenerError 0) [] false, .poll false, .poll false, .poll false]

theorem reservation_cooldowns_respected_relayFails :
    ∃ w before after opts reads b t d,
      Reachable slowClock Config.default .none w ∧
      w.history = before ++ .queued (.listenOn opts) reads b :: after ∧
      opts.Asks 7 ∧ Record.reservationFailed 7 t d ∈ before ∧
      t + d.nanos ≤ slowClock.instant (reads - 1) := by
  have hclock : Monotone slowClock.instant :=
    fun m n h => Nat.mul_le_mul_right _ h
  obtain ⟨w, hw, hrun⟩ := exists_reachable_of_runNew
    (f := fun w => (w.history.map Record.summary).drop 5)
    (a := [some (.inr (7, 0, Duration.ofSecs 30 (by decide))), none, none, none,
      some (.inl (⟨1, [.tcp 4001, .p2p 7, .p2pCircuit]⟩, 4))])
    (fun i _ w _ => trivial)
    (show (runNew slowClock Config.default anyInput relayFails).map _ = _ by
      rfl)
  -- line up the summaries with the lines they come from
  rw [← List.map_drop] at hrun
  obtain ⟨failure, rest, hlist, hfailure, hrest⟩ := List.map_eq_cons_iff.mp hrun
  obtain ⟨middle, tail, rfl, -, htail⟩ := List.map_eq_append_iff.mp
    (show rest.map Record.summary = [none, none, none] ++ _ from hrest)
  obtain ⟨request, last, rfl, hrequest, -⟩ := List.map_eq_cons_iff.mp htail
  obtain ⟨b, rfl⟩ := Record.eq_of_summary_request hrequest
  obtain rfl := Record.eq_of_summary_failure hfailure
  have hhistory : w.history =
      (w.history.take 5 ++ .reservationFailed 7 0
        (Duration.ofSecs 30 (by decide)) :: middle) ++
          .queued (.listenOn ⟨1, [.tcp 4001, .p2p 7, .p2pCircuit]⟩) 4 b ::
            last := by
    rw [List.append_assoc, List.cons_append, ← hlist, List.take_append_drop]
  have hasks : ListenOpts.Asks ⟨1, [.tcp 4001, .p2p 7, .p2pCircuit]⟩ 7 :=
    ⟨[.tcp 4001], rfl⟩
  have hmem : Record.reservationFailed 7 0 (Duration.ofSecs 30 (by decide)) ∈
      w.history.take 5 ++ .reservationFailed 7 0
        (Duration.ofSecs 30 (by decide)) :: middle :=
    List.mem_append_right _ List.mem_cons_self
  exact ⟨w, _, last, _, 4, b, 0, _, hw, hhistory, hasks, hmem,
    (reservation_cooldowns_respected hclock hw).1 _ last 7 0 _ _ 4 b hhistory
      hasks hmem⟩

end Connexa.Autorelay
