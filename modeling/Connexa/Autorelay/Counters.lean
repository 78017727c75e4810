import Connexa.Autorelay.Backoff

/-!
# Failure counters are neither leaked nor lost

The counter of a peer is erased together with its cooldown, or where the last of its
cooldown and its connections goes.  Closing the last connection is the one call that
breaks this in between, so it is looked at as a whole.
-/

namespace Connexa.Autorelay

open HashMap

/-! ## Connections of a peer -/

theorem hasConnection_iff {b : Behaviour} {p : PeerId} :
    hasConnection b p = true ↔ ∃ k info, b.connections.lookup (p, k) = some info := by
  rw [hasConnection, any_entries_iff]
  constructor
  · rintro ⟨⟨q, k⟩, info, hlookup, hp⟩
    obtain rfl := of_decide_eq_true hp
    exact ⟨k, info, hlookup⟩
  · rintro ⟨k, info, hlookup⟩
    exact ⟨(p, k), info, hlookup, decide_eq_true rfl⟩

theorem hasConnection_insert {w : World} {p q : PeerId} {k : ConnectionId}
    {info : Connection} (h : hasConnection w.toBehaviour p = true) :
    hasConnection { w.toBehaviour with
      connections := w.connections.insert (q, k) info } p = true := by
  obtain ⟨j, old, hold⟩ := hasConnection_iff.mp h
  refine hasConnection_iff.mpr ⟨j, ?_⟩
  rw [HashMap.lookup_insert]
  split
  · exact ⟨info, rfl⟩
  · exact ⟨old, hold⟩

theorem hasConnection_erase_other {w : World} {p q : PeerId} {k : ConnectionId}
    (hne : q ≠ p) :
    hasConnection { w.toBehaviour with connections := w.connections.erase (p, k) } q =
      hasConnection w.toBehaviour q := by
  rw [Bool.eq_iff_iff, hasConnection_iff, hasConnection_iff]
  refine exists₂_congr fun j info => ?_
  rw [lookup_erase_some]
  exact and_iff_right fun heq => hne (congrArg Prod.fst heq)

/-- Only the swarm's report of a connection adds one. -/
theorem Act.hasConnection_of {c : Clock} {i : Input} {w w' : World} (h : Act c i w w')
    {p : PeerId} (hi : ∀ q k endpoint,
      i.event? ≠ some (.connectionEstablished q k endpoint))
    (hp : hasConnection w'.toBehaviour p = true) :
    hasConnection w.toBehaviour p = true := by
  obtain ⟨k, info', hinfo'⟩ := hasConnection_iff.mp hp
  rcases h.lookup_connections hinfo' with hinfo | ⟨endpoint, hevent, -⟩ | ⟨info, hinfo, -⟩
  · exact hasConnection_iff.mpr ⟨k, info', hinfo⟩
  · exact absurd hevent (hi p k endpoint)
  · exact hasConnection_iff.mpr ⟨k, info, hinfo⟩

/-! ## Every counter has something to wait for -/

/-- Every peer with a counter has a cooldown or a connection. -/
def CountersHeld (b : Behaviour) : Prop :=
  ∀ p ∈ b.failureCounts, p ∈ b.reservationCooldowns ∨ hasConnection b p = true

theorem CountersHeld.act {c : Clock} {i : Input} {w w' : World}
    (h : CountersHeld w.toBehaviour) (hact : Act c i w w')
    (hi : ∀ p k, i.event? ≠ some (.connectionClosed p k)) :
    CountersHeld w'.toBehaviour := by
  cases hact with
  | eraseConnection q k hevent => exact absurd hevent (hi q k)
  | clearFailure q hevent =>
      obtain ⟨k, hevent⟩ := hevent
      exact absurd hevent (hi q k)
  | insertConnection => exact fun p hp => (h p hp).imp_right hasConnection_insert
  | setEndpoint => exact fun p hp => (h p hp).imp_right hasConnection_insert
  | setRelayStatus => exact fun p hp => (h p hp).imp_right hasConnection_insert
  | disqualify => exact fun p hp => (h p hp).imp_right hasConnection_insert
  | failReservation id reservation deadline =>
      intro p hp
      by_cases heq : p = reservation.peerId
      · exact Or.inl ((AList.mem_insert _).mpr (Or.inl heq))
      · have hp : p ∈ w.failureCounts := ((AList.mem_insert _).mp hp).resolve_left heq
        exact (h p hp).imp_left fun hmem => (AList.mem_insert _).mpr (Or.inr hmem)
  | sweep now =>
      intro p hp
      obtain ⟨attempts, hlookup⟩ := mem_iff_exists_lookup.mp hp
      have hkept := (lookup_retain_some.mp hlookup).2
      rw [Bool.or_eq_true, decide_eq_true_eq] at hkept
      exact hkept
  | activate id addr reservation =>
      intro p hp
      obtain ⟨hne, hp⟩ := AList.mem_erase.mp hp
      exact (h p hp).imp_left fun hmem => AList.mem_erase.mpr ⟨hne, hmem⟩
  | _ => exact h

theorem CountersHeld.acts {c : Clock} {i : Input} {w w' : World}
    (h : CountersHeld w.toBehaviour) (hacts : Acts c i w w')
    (hi : ∀ p k, i.event? ≠ some (.connectionClosed p k)) :
    CountersHeld w'.toBehaviour := by
  induction hacts with
  | refl => exact h
  | tail _ hact ih => exact ih.act hact hi

theorem mem_of_reservationInCooldown {c : Clock} {p : PeerId} {w : World}
    (h : (reservationInCooldown c p w).1 = true) : p ∈ w.reservationCooldowns := by
  unfold reservationInCooldown at h
  split at h
  · cases h
  · next deadline hlookup => exact mem_of_lookup hlookup

/-- Where the last connection of a peer went, its counter goes or waits for the
cooldown. -/
theorem countersHeld_clearFailureIfGone {c : Clock} {p : PeerId} {w : World}
    (h : ∀ q ∈ w.failureCounts, q ≠ p →
      q ∈ w.reservationCooldowns ∨ hasConnection w.toBehaviour q = true) :
    CountersHeld (clearFailureIfGone c p w).toBehaviour := by
  have hsame := reservationInCooldown_behaviour c p w
  unfold clearFailureIfGone
  split
  · next hconnected =>
    intro q hq
    by_cases heq : q = p
    · exact Or.inr (heq ▸ hconnected)
    · exact h q hq heq
  · dsimp only
    split
    · next hcooling =>
      rw [hsame]
      intro q hq
      by_cases heq : q = p
      · exact Or.inl (heq ▸ mem_of_reservationInCooldown hcooling)
      · exact h q hq heq
    · intro q hq
      obtain ⟨hne, hq⟩ := AList.mem_erase.mp hq
      rw [hsame] at hq
      have hheld := h q hq hne
      rw [← hsame] at hheld
      exact hheld.imp_left fun hmem => AList.mem_erase.mpr ⟨hne, hmem⟩

theorem CountersHeld.onConnectionClosed {c : Clock} {w : World}
    (h : CountersHeld w.toBehaviour) (p : PeerId) (k : ConnectionId) :
    CountersHeld (onConnectionClosed c p k w).toBehaviour := by
  unfold Autorelay.onConnectionClosed
  split
  · exact h
  · next connection hlookup =>
    -- what follows the counter could as well be part of a poll
    have hrest : ∀ v, Acts c (.poll false) v (updateRelayAvailability
        (redialStaticRelay c p (recordClosedRelay c p connection v))) := fun v =>
      ((recordClosedRelay_acts c _ p connection v).trans
        (redialStaticRelay_acts c (Or.inr (Or.inr ⟨false, rfl⟩)) _)).trans
          (updateRelayAvailability_acts c _ _)
    refine CountersHeld.acts ?_ (hrest _) (by simp [Input.event?])
    refine countersHeld_clearFailureIfGone fun q hq hne => ?_
    exact (h q hq).imp_right fun hq => (hasConnection_erase_other hne).trans hq

theorem CountersHeld.step {c : Clock} {i : Input} {w w' : World}
    (hw : CountersHeld w.toBehaviour) (h : step c i w = .ok w') :
    CountersHeld w'.toBehaviour := by
  by_cases hi : ∃ p k, i.event? = some (.connectionClosed p k)
  · obtain ⟨p, k, hi⟩ := hi
    obtain ⟨addresses, change, rfl⟩ := Input.eq_swarm hi
    obtain ⟨u, himplied, hdispatch⟩ := step_swarm_cases h
    cases hdispatch
    exact (CountersHeld.acts (w := w.record _) hw himplied
      (by simp [Input.event?])).onConnectionClosed p k
  · push Not at hi
    obtain ⟨u, himplied, hown⟩ := (serve_acts c i _).of_eq_ok h
    exact (CountersHeld.acts (w := w.record _) hw himplied
      (by simp [Input.event?])).acts hown hi

theorem Reachable.countersHeld {c : Clock} {config : Config} {contract : Contract}
    {w : World} (h : Reachable c config contract w) : CountersHeld w.toBehaviour := by
  refine h.of_calls (P := fun w => CountersHeld w.toBehaviour) ?_ ?_
    (fun i w w' _ hw _ hstep => hw.step hstep) ?_
  · exact fun _ _ _ p hp => absurd hp (AList.notMem_empty p)
  · intro peerId address w hw
    exact (addStaticRelay_ensures c peerId address w).mono fun w' hacts =>
      hw.acts hacts (by simp [Input.event?])
  · intro w w' hw hshuffle p hp
    rw [mem_of_sameEntries hshuffle.failureCounts] at hp
    rw [mem_of_sameEntries hshuffle.reservationCooldowns]
    exact (hw p hp).imp_right fun hp => (List.Perm.any_eq hshuffle.connections).trans hp

/-! ## Why a counter is dropped -/

/-- The reservation of the peer becomes active. -/
def Activated (i : Input) (p : PeerId) (w w' : World) : Prop :=
  ∃ id addr r, i.event? = some (.newListenAddr id addr) ∧
    w'.reservations.lookup id = some r ∧ r.peerId = p ∧ r.status = .active ∧
    ∀ r₀, w.reservations.lookup id = some r₀ → r₀.status = .pending

/-- The peer is left without a connection, and the clock has shown the end of its
cooldown and of every cooldown that a failure of it ever started. -/
structure CooldownOver (c : Clock) (p : PeerId) (w w' : World) : Prop where
  gone : hasConnection w'.toBehaviour p = false
  erased : p ∉ w'.reservationCooldowns
  passed : ∀ deadline, w.reservationCooldowns.lookup p = some deadline →
    Passed c w'.reads deadline
  recorded : ∀ t d, Record.reservationFailed p t d ∈ w'.history →
    Passed c w'.reads (t + d.nanos)

/-- The input is no swarm event or reports that a connection closed. -/
def Input.OnlyCloses (i : Input) : Prop :=
  ∀ event, i.event? = some event → ∃ p k, event = .connectionClosed p k

/-- What became of the counter and the cooldown of a peer while such an input was
served from the state `w₀` on. -/
structure Watched (c : Clock) (p : PeerId) (w₀ w : World) : Prop where
  cooldown : ∀ deadline, w₀.reservationCooldowns.lookup p = some deadline →
    w.reservationCooldowns.lookup p = some deadline ∨ Passed c w.reads deadline
  counter : p ∈ w.failureCounts ∨
    hasConnection w.toBehaviour p = false ∧ p ∉ w.reservationCooldowns

/-- A peer without a cooldown has outlived the one it had. -/
theorem Watched.passed {c : Clock} {p : PeerId} {w₀ w : World} (h : Watched c p w₀ w)
    (hnone : p ∉ w.reservationCooldowns) {deadline : Instant}
    (hlookup : w₀.reservationCooldowns.lookup p = some deadline) :
    Passed c w.reads deadline :=
  (h.cooldown deadline hlookup).resolve_left fun hkept => hnone (mem_of_lookup hkept)

/-- A change of the state that leaves both maps as they are for the peer. -/
theorem Watched.of_kept {c : Clock} {i : Input} {p : PeerId} {w₀ w w' : World}
    (h : Watched c p w₀ w) (hact : Act c i w w') (hi : i.OnlyCloses)
    (hcooldown : w'.reservationCooldowns.lookup p = w.reservationCooldowns.lookup p)
    (hcounter : w'.failureCounts.lookup p = w.failureCounts.lookup p) :
    Watched c p w₀ w' := by
  refine ⟨fun deadline hlookup => ?_, ?_⟩
  · rw [hcooldown]
    exact (h.cooldown deadline hlookup).imp_right fun hpassed =>
      hpassed.mono hact.reads_le
  · rw [mem_congr_lookup hcounter, mem_congr_lookup hcooldown]
    refine h.counter.imp_right fun hover => ⟨?_, hover.2⟩
    refine Bool.eq_false_of_not_eq_true fun hconnected => ?_
    rw [hact.hasConnection_of (fun q k endpoint hevent => ?_) hconnected] at hover
    · cases hover.1
    · obtain ⟨_, _, hclosed⟩ := hi _ hevent
      cases hclosed

/-- What a sweep takes away is over. -/
theorem Watched.sweep {c : Clock} {p : PeerId} {now : Instant} {w₀ w : World}
    (h : Watched c p w₀ w) (hread : 0 < w.reads) (hnow : now = w.lastInstant c) :
    Watched c p w₀ (sweepCooldowns now w) := by
  constructor
  · intro deadline hlookup
    rcases h.cooldown deadline hlookup with hkept | hpassed
    · by_cases hlate : now < deadline
      · exact Or.inl (lookup_retain_some.mpr ⟨hkept, decide_eq_true hlate⟩)
      · refine Or.inr ⟨w.reads - 1, Nat.sub_lt hread Nat.one_pos, ?_⟩
        rw [hnow] at hlate
        exact not_lt.mp hlate
    · exact Or.inr hpassed
  · rcases h.counter with hcounter | ⟨hgone, hnone⟩
    · obtain ⟨attempts, hattempts⟩ := mem_iff_exists_lookup.mp hcounter
      by_cases hswept : p ∈ (sweepCooldowns now w).failureCounts
      · exact Or.inl hswept
      · refine Or.inr ?_
        -- the sweep keeps the counter of a peer with a connection or a cooldown
        by_contra hheld
        rw [not_and_or, Bool.not_eq_false, not_not, or_comm] at hheld
        refine hswept (mem_of_lookup (v := attempts)
          (lookup_retain_some.mpr ⟨hattempts, ?_⟩))
        rw [Bool.or_eq_true, decide_eq_true_eq]
        exact hheld
    · refine Or.inr ⟨hgone, fun hmem => ?_⟩
      obtain ⟨deadline, hdeadline⟩ := mem_iff_exists_lookup.mp hmem
      exact hnone (mem_of_lookup (lookup_retain_some.mp hdeadline).1)

theorem Watched.act {c : Clock} {i : Input} {p : PeerId} {w₀ w w' : World}
    (h : Watched c p w₀ w) (hact : Act c i w w') (hi : i.OnlyCloses) :
    Watched c p w₀ w' := by
  have hact' := hact
  cases hact with
  | failReservation id _ _ hdisables =>
      rcases hdisables with hevent | ⟨_, hevent⟩ <;>
        obtain ⟨_, _, hclosed⟩ := hi _ hevent <;>
        cases hclosed
  | activate id addr _ hevent =>
      obtain ⟨_, _, hclosed⟩ := hi _ hevent
      cases hclosed
  | clearFailure q hevent hgone hrested =>
      by_cases heq : p = q
      · subst heq
        refine ⟨fun deadline hlookup => Or.inr ?_, Or.inr ⟨hgone, fun hmem => ?_⟩⟩
        · exact (h.cooldown deadline hlookup).elim (hrested deadline) id
        · exact (AList.mem_erase.mp hmem).1 rfl
      · obtain ⟨hcooldown, hcounter⟩ := clearFailure_of_ne heq w
        exact h.of_kept hact' hi hcooldown hcounter
  | sweep now _ hread hnow => exact h.sweep hread hnow
  | _ => exact h.of_kept hact' hi rfl rfl

theorem Watched.acts {c : Clock} {i : Input} {p : PeerId} {w₀ w w' : World}
    (h : Watched c p w₀ w) (hacts : Acts c i w w') (hi : i.OnlyCloses) :
    Watched c p w₀ w' := by
  induction hacts with
  | refl => exact h
  | tail _ hact ih => exact ih.act hact hi

/-- Only an input that may clear counters takes one away. -/
theorem Acts.mem_failureCounts {c : Clock} {i : Input} {w w' : World} (hi : ¬i.Clears)
    (h : Acts c i w w') {p : PeerId} (hp : p ∈ w.failureCounts) :
    p ∈ w'.failureCounts := by
  induction h with
  | refl => exact hp
  | tail _ hact ih =>
      rcases hact.count_cases p with hkept | ⟨-, hcounted⟩ | ⟨hclears, -⟩
      · obtain ⟨attempts, hattempts⟩ := mem_iff_exists_lookup.mp ih
        exact mem_of_lookup (hkept.1.trans hattempts)
      · exact mem_of_lookup hcounted.1
      · exact absurd hclears hi

theorem not_clears_setStatus (status : Option Status) :
    ¬(Input.setStatus status).Clears := by
  simp [Input.Clears, Input.event?]

/-- A new listen address drops the counter of the reservation it belongs to. -/
theorem activated_of_newListenAddr {c : Clock} {id : ListenerId} {addr : Multiaddr}
    {addresses : List Multiaddr} {change : Bool} {p : PeerId} {w w' : World}
    (hissued : ListenersIssued w)
    (h : step c (.swarm (.newListenAddr id addr) addresses change) w = .ok w')
    (hmem : p ∈ w.failureCounts) (hgone : p ∉ w'.failureCounts) :
    Activated (.swarm (.newListenAddr id addr) addresses change) p w w' := by
  obtain ⟨u, himplied, hdispatch⟩ := step_swarm_cases h
  have hmem := himplied.mem_failureCounts (not_clears_setStatus none) (p := p) hmem
  have hw' : onNewListenAddr id addr u = w' := by
    cases hdispatch
    rfl
  unfold onNewListenAddr at hw'
  split at hw'
  · exact absurd (hw' ▸ hmem) hgone
  · split at hw'
    · next r hlookup =>
      split at hw'
      · next hpending =>
        have hp : p = r.peerId := by
          by_contra hne
          rw [← hw'] at hgone
          exact hgone (AList.mem_erase.mpr ⟨hne, hmem⟩)
        subst hw'
        refine ⟨id, addr, { r with status := .active }, rfl, lookup_insert_self _ _ _,
          hp.symm, rfl, fun r₀ hr₀ => ?_⟩
        have hstart : Undisturbed id r₀ w
            (w.record (.input (.swarm (.newListenAddr id addr) addresses change))) :=
          ⟨hissued, hr₀, rfl, rfl, rfl⟩
        cases hlookup.symm.trans (hstart.acts himplied).reservation
        exact hpending
      · exact absurd (hw' ▸ hmem) hgone
    · split at hw'
      · subst hw'
        exact absurd hmem hgone
      · exact absurd (hw' ▸ hmem) hgone

/-- A close or a poll drops the counter of a peer that is gone and whose cooldown is
over. -/
theorem cooldownOver_of_onlyCloses {c : Clock} {i : Input} {p : PeerId} {w w' : World}
    (hw' : CooldownInv c w') (hi : i.OnlyCloses) (h : step c i w = .ok w')
    (hmem : p ∈ w.failureCounts) (hgone : p ∉ w'.failureCounts) :
    CooldownOver c p w w' := by
  obtain ⟨u, himplied, hown⟩ := (serve_acts c i _).of_eq_ok h
  have hstart : Watched c p w (w.record (.input i)) :=
    ⟨fun _ hlookup => Or.inl hlookup, Or.inl hmem⟩
  have hend : Watched c p w w' :=
    (hstart.acts himplied (by simp [Input.OnlyCloses, Input.event?])).acts hown hi
  obtain ⟨hdisconnected, hnone⟩ := hend.counter.resolve_left hgone
  refine ⟨hdisconnected, hnone, fun deadline hlookup => hend.passed hnone hlookup, ?_⟩
  intro t d hrecord
  refine (hw'.failures p t d hrecord).resolve_right fun hwaits => ?_
  obtain ⟨limit, hlimit, -⟩ := hwaits.1
  exact hnone (mem_of_lookup hlimit)

/-- Every peer with a failure counter has a cooldown or a connection, and a counter is
dropped only when a reservation of the peer becomes active, or when the peer has no
connection and its cooldowns are over. -/
theorem failure_counters_accounted
    {c : Clock} {config : Config} {contract : Contract} {w : World}
    (h : Reachable c config contract w) :
    (∀ p ∈ w.failureCounts,
      p ∈ w.reservationCooldowns ∨ hasConnection w.toBehaviour p = true) ∧
    ∀ i p w', contract w i → step c i w = .ok w' →
      p ∈ w.failureCounts → p ∉ w'.failureCounts →
        Activated i p w w' ∨ CooldownOver c p w w' := by
  refine ⟨h.countersHeld, ?_⟩
  intro i p w' hcontract hstep hmem hgone
  have hw' := (h.step hcontract hstep).cooldownInv
  by_cases hi : i.Clears
  · rcases hi with ⟨q, k, hi⟩ | ⟨id, addr, hi⟩ | ⟨timerReady, rfl⟩
    · refine Or.inr (cooldownOver_of_onlyCloses hw' ?_ hstep hmem hgone)
      intro event hevent
      cases hi.symm.trans hevent
      exact ⟨q, k, rfl⟩
    · obtain ⟨addresses, change, rfl⟩ := Input.eq_swarm hi
      exact Or.inl (activated_of_newListenAddr
        h.cooldownInv.reservations.issued hstep hmem hgone)
    · exact Or.inr (cooldownOver_of_onlyCloses hw'
        (by simp [Input.OnlyCloses, Input.event?])
        hstep hmem hgone)
  · obtain ⟨u, himplied, hown⟩ := (serve_acts c i _).of_eq_ok hstep
    have hu := himplied.mem_failureCounts (not_clears_setStatus none) (p := p) hmem
    exact absurd (hown.mem_failureCounts hi hu) hgone

theorem failure_counters_accounted_relayFails :
    ∃ w w', Reachable slowClock Config.default .none w ∧
      step slowClock (.swarm (.connectionClosed 7 0) [] false) w = .ok w' ∧
      (7 ∈ w.reservationCooldowns ∨ hasConnection w.toBehaviour 7 = true) ∧
      CooldownOver slowClock 7 w w' := by
  obtain ⟨w, hw, hrun⟩ := exists_reachable_of_runNew
    (f := fun w => (w.failureCounts.lookup 7,
      (step slowClock (.swarm (.connectionClosed 7 0) [] false) w).toOption.map
        fun w' => w'.failureCounts.lookup 7))
    (a := (some 1, some none))
    (show ∀ i ∈ relayFails, ∀ w, anyInput w i = true → Contract.none w i from
      fun _ _ _ _ => trivial)
    (show (runNew slowClock Config.default anyInput relayFails).map _ = _ by rfl)
  obtain ⟨hcounted, hclosed⟩ := Prod.mk.inj hrun
  obtain ⟨w', hstep, hdropped⟩ := Option.map_eq_some_iff.mp hclosed
  generalize hx : step slowClock (.swarm (.connectionClosed 7 0) [] false) w = x at hstep
  cases x with
  | error e => cases hstep
  | ok v =>
      cases hstep
      have hmem : 7 ∈ w.failureCounts := mem_of_lookup hcounted
      obtain ⟨hheld, hdrops⟩ := failure_counters_accounted hw
      refine ⟨w, w', hw, hx, hheld 7 hmem, ?_⟩
      rcases hdrops _ 7 w' trivial hx hmem (AList.lookup_eq_none.mp hdropped) with
        ⟨_, _, _, hevent, -⟩ | hover
      · cases hevent
      · exact hover

end Connexa.Autorelay
