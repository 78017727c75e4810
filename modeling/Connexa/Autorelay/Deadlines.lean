import Mathlib.Data.Fintype.Card
import Connexa.Autorelay.Cooldowns

/-!
# Deadlines within the range of the clock

A deadline is the time of a failure plus a cooldown.  The cooldown of a failed dial is
the configured one; the cooldown of a failed reservation is at most twice the previous
one, and that one had to end before the reservation was opened.  So where the clock is
far from its end, only the configured cooldown itself can make an addition overflow.
-/

namespace Connexa.Autorelay

open HashMap

/-- Every reading is within the first third of the range. -/
def FarBelowEnd (c : Clock) : Prop :=
  ∀ n, 3 * c.instant n ≤ maxInstant

/-- The call ends normally. -/
def Succeeds {α : Type} (x : Except Panic α) : Prop :=
  ∃ a, x = .ok a

/-- No call panics, whatever comes in. -/
def NeverPanics (c : Clock) (config : Config) : Prop :=
  (∀ reads nextListener nextConnection,
      Succeeds (newWithConfig c config reads nextListener nextConnection)) ∧
    ∀ w, Reachable c config .none w → ∀ i, Succeeds (step c i w)

/-! ## Calls that add nothing to the clock -/

theorem Succeeds.bind {α β : Type} {x : Except Panic α} {f : α → Except Panic β}
    (h : Succeeds x) (hf : ∀ a, x = .ok a → Succeeds (f a)) : Succeeds (x >>= f) := by
  obtain ⟨a, rfl⟩ := h
  exact hf a rfl

theorem meetReservationTarget_succeeds (c : Clock) (w : World) :
    Succeeds (meetReservationTarget c w) := by
  obtain ⟨w', hw', -⟩ := meetReservationTarget_acts c (.poll false) w
  exact ⟨w', hw'⟩

theorem meetReservationTargetIf_succeeds (c : Clock) (condition : Bool) (w : World) :
    Succeeds (meetReservationTargetIf c condition w) := by
  unfold meetReservationTargetIf
  split
  · exact meetReservationTarget_succeeds c w
  · exact ⟨w, rfl⟩

theorem determineStatusFromExternalAddresses_succeeds (c : Clock) (w : World) :
    Succeeds (determineStatusFromExternalAddresses c w) := by
  unfold determineStatusFromExternalAddresses
  dsimp only
  split
  · split <;> exact ⟨_, rfl⟩
  · split
    · exact meetReservationTarget_succeeds c _
    · exact ⟨_, rfl⟩

theorem setStatus_succeeds (c : Clock) (status : Option Status) (w : World) :
    Succeeds (setStatus c status w) := by
  unfold setStatus
  refine Succeeds.bind ?_ fun w' _ => ⟨_, rfl⟩
  unfold applyStatus
  split
  · dsimp only
    split
    · exact meetReservationTargetIf_succeeds c _ _
    · exact ⟨_, rfl⟩
  · exact determineStatusFromExternalAddresses_succeeds c _

theorem addStaticRelay_succeeds (c : Clock) (peerId : PeerId) (address : Multiaddr)
    (w : World) : Succeeds (addStaticRelay c peerId address w) := by
  unfold addStaticRelay
  split
  · exact ⟨_, rfl⟩
  · exact (meetReservationTargetIf_succeeds c _ _).bind fun w' _ => ⟨_, rfl⟩

theorem onConnectionHandlerEvent_succeeds (c : Clock) (peerId : PeerId)
    (connectionId : ConnectionId) (out : HandlerOut) (w : World) :
    Succeeds (onConnectionHandlerEvent c peerId connectionId out w) := by
  unfold onConnectionHandlerEvent
  split
  · exact ⟨_, rfl⟩
  · split
    · split
      · exact ⟨_, rfl⟩
      · exact (meetReservationTarget_succeeds c _).bind fun w' _ => ⟨_, rfl⟩
    · exact ⟨_, rfl⟩

theorem pollCooldowns_succeeds (c : Clock) (timerReady : Bool) (w : World) :
    Succeeds (pollCooldowns c timerReady w) := by
  unfold pollCooldowns
  dsimp only
  split
  · exact (meetReservationTargetIf_succeeds c _ _).bind fun w' _ => ⟨_, rfl⟩
  · split <;> exact ⟨_, rfl⟩

theorem pollPass_succeeds (c : Clock) (timerReady : Bool) (w : World) :
    Succeeds (pollPass c timerReady w) := by
  unfold pollPass
  split
  · exact ⟨_, rfl⟩
  · refine (pollCooldowns_succeeds c timerReady w).bind ?_
    rintro ⟨again, w'⟩ -
    dsimp only
    split <;> exact ⟨_, rfl⟩

theorem addStaticRelays_succeeds (c : Clock)
    (relays : List (Σ _ : PeerId, List Multiaddr)) (w : World) :
    Succeeds (addStaticRelays c relays w) := by
  have haddresses : ∀ peerId addresses w,
      Succeeds (addStaticRelayAddresses c peerId addresses w) := by
    intro peerId addresses
    induction addresses with
    | nil => exact fun w => ⟨w, rfl⟩
    | cons address rest ih =>
        intro w
        exact (addStaticRelay_succeeds c peerId address w).bind fun r _ => ih r.2
  induction relays generalizing w with
  | nil => exact ⟨w, rfl⟩
  | cons relay rest ih =>
      exact (haddresses relay.1 relay.2 w).bind fun w' _ => ih w'

theorem onExternalAddresses_succeeds (c : Clock) (addresses : List Multiaddr)
    (change : Bool) (w : World) :
    Succeeds (onExternalAddresses c addresses change w) := by
  unfold onExternalAddresses
  dsimp only
  split
  · exact determineStatusFromExternalAddresses_succeeds c _
  · exact ⟨_, rfl⟩

/-! ## Cooldowns at most double -/

theorem cooldownFor_nanos (config : Config) (attempts : ℕ) :
    (cooldownFor config attempts).nanos =
      min (min (config.failureCooldown.nanos * 2 ^ min (attempts - 1) 20)
        maxDurationNanos)
        config.failureCooldownMax.nanos := by
  rw [cooldownFor, Duration.nanos_min, Nat.one_shiftLeft]
  rfl

theorem cooldownFor_one_le (config : Config) :
    (cooldownFor config 1).nanos ≤ config.failureCooldown.nanos := by
  rw [cooldownFor_nanos]
  simp

/-- One more failure at most doubles the cooldown. -/
theorem cooldownFor_succ_le (config : Config) (attempts : ℕ) :
    (cooldownFor config (min (attempts + 1) maxU32)).nanos ≤
      2 * (cooldownFor config attempts).nanos := by
  rw [cooldownFor_nanos, cooldownFor_nanos]
  have hexponent :
      min (min (attempts + 1) maxU32 - 1) 20 ≤ min (attempts - 1) 20 + 1 := by
    omega
  have hpower :
      config.failureCooldown.nanos * 2 ^ min (min (attempts + 1) maxU32 - 1) 20 ≤
      2 * (config.failureCooldown.nanos * 2 ^ min (attempts - 1) 20) := by
    calc
      _ ≤ config.failureCooldown.nanos * 2 ^ (min (attempts - 1) 20 + 1) :=
        Nat.mul_le_mul_left _ (Nat.pow_le_pow_right (by decide) hexponent)
      _ = 2 * (config.failureCooldown.nanos * 2 ^ min (attempts - 1) 20) := by
        rw [Nat.pow_succ, ← Nat.mul_assoc, Nat.mul_comm]
  omega

/-! ## Counted failures are on record -/

/-- The last of the counted failures of a peer, with its cooldown, is on record. -/
def CountsRecorded (w : World) : Prop :=
  ∀ p attempts, w.failureCounts.lookup p = some attempts →
    ∃ t, Record.reservationFailed p t (cooldownFor w.config attempts) ∈ w.history

theorem CountsRecorded.of_sub {w w' : World} (h : CountsRecorded w)
    (hcounts : ∀ p attempts, w'.failureCounts.lookup p = some attempts →
      w.failureCounts.lookup p = some attempts)
    (hconfig : w'.config = w.config)
    (hhistory : ∀ r ∈ w.history, r ∈ w'.history) : CountsRecorded w' := by
  intro p attempts hattempts
  obtain ⟨t, ht⟩ := h p attempts (hcounts p attempts hattempts)
  rw [hconfig]
  exact ⟨t, hhistory _ ht⟩

theorem CountsRecorded.act {c : Clock} {i : Input} {w w' : World}
    (h : CountsRecorded w) (hact : Act c i w w') : CountsRecorded w' := by
  have hconfig := hact.config_eq
  have hhistory := fun r (hr : r ∈ w.history) => hact.mem_history hr
  cases hact with
  | failReservation id reservation deadline _ _ hlookup hdeadline =>
      intro p attempts hattempts
      simp only [cooledDown, World.record, World.tick, recordFailure,
        HashMap.lookup_insert] at hattempts
      split at hattempts
      · next hp =>
        cases hattempts
        subst hp
        exact ⟨_, List.mem_append_right _ List.mem_cons_self⟩
      · obtain ⟨t, ht⟩ := h p attempts hattempts
        exact ⟨t, hhistory _ ht⟩
  | clearFailure peerId =>
      refine h.of_sub ?_ hconfig hhistory
      intro p attempts hattempts
      exact (lookup_erase_some.mp hattempts).2
  | activate id addr reservation =>
      refine h.of_sub ?_ hconfig hhistory
      intro p attempts hattempts
      exact (lookup_erase_some.mp hattempts).2
  | sweep now =>
      refine h.of_sub ?_ hconfig hhistory
      intro p attempts hattempts
      exact (lookup_retain_some.mp hattempts).1
  | _ => exact h.of_sub (fun _ _ hattempts => hattempts) hconfig hhistory

theorem CountsRecorded.record {w : World} (h : CountsRecorded w) (i : Input) :
    CountsRecorded (w.record (.input i)) :=
  h.of_sub (fun _ _ hattempts => hattempts) rfl
    fun _ hr => List.mem_append_left _ hr

theorem Reachable.countsRecorded {c : Clock} {config : Config} {contract : Contract}
    {w : World} (h : Reachable c config contract w) : CountsRecorded w := by
  refine h.of_acts ?_ (fun i w hw _ => hw.record i)
    (fun i w w' _ hw hact => hw.act hact) ?_
  · intro reads nextListener nextConnection p attempts hattempts
    simp [World.fresh, Behaviour.default] at hattempts
  · intro w w' hw hshuffle
    refine hw.of_sub ?_ hshuffle.config_eq ?_
    · intro p attempts hattempts
      rwa [lookup_of_sameEntries hshuffle.failureCounts] at hattempts
    · intro r hr
      rwa [hshuffle.history_eq]

theorem Reachable.failureCooldown_eq {c : Clock} {config : Config} {contract : Contract}
    {w : World} (h : Reachable c config contract w) :
    w.config.failureCooldown = config.failureCooldown := by
  rw [h.config_eq]

/-! ## Deadlines that fit -/

/-- What keeps the deadlines of the next call in range. -/
structure Punctual (c : Clock) (w : World) : Prop where
  cooldowns : CooldownInv c w
  counts : CountsRecorded w
  fits : ∀ n, c.instant n + w.config.failureCooldown.nanos ≤ maxInstant

theorem Punctual.record {c : Clock} {w : World} (h : Punctual c w) (i : Input) :
    Punctual c (w.record (.input i)) :=
  ⟨h.cooldowns.record i, h.counts.record i, h.fits⟩

theorem Punctual.acts {c : Clock} {i : Input} {w w' : World} (h : Punctual c w)
    (hacts : Acts c i w w') : Punctual c w' := by
  induction hacts with
  | refl => exact h
  | tail _ hact ih =>
      refine ⟨ih.cooldowns.act hact, ih.counts.act hact, ?_⟩
      rw [hact.config_eq]
      exact ih.fits

theorem add_double_le {t u d last : ℕ} (ht : 3 * t ≤ last) (hu : 3 * u ≤ last)
    (hd : d ≤ 2 * u) : t + d ≤ last := by
  omega

/-- The failure of an open reservation has a deadline: the previous cooldown of its peer
is over. -/
theorem Punctual.cooldown_fits {c : Clock} {w : World} (h : Punctual c w)
    (hclock : FarBelowEnd c) {id : ListenerId} {r : Reservation}
    (hlookup : w.reservations.lookup id = some r) :
    c.instant w.reads + (recordFailure r.peerId w).1.nanos ≤ maxInstant := by
  change c.instant w.reads +
    (cooldownFor w.config (attemptsAfter w.toBehaviour r.peerId)).nanos ≤ maxInstant
  unfold attemptsAfter
  cases hcount : w.failureCounts.lookup r.peerId with
  | none =>
      exact le_trans (Nat.add_le_add_left (cooldownFor_one_le w.config) _)
        (h.fits w.reads)
  | some attempts =>
      obtain ⟨t, ht⟩ := h.counts r.peerId attempts hcount
      rcases h.cooldowns.failures _ _ _ ht with ⟨n, -, hpassed⟩ | hwaits
      · have hprevious := le_trans (Nat.le_add_left _ t) hpassed
        have hdouble := (cooldownFor_succ_le w.config attempts).trans
          (Nat.mul_le_mul_left 2 hprevious)
        exact add_double_le (hclock w.reads) (hclock n) hdouble
      · exact absurd rfl (hwaits.2 id r hlookup)

theorem checkedAdd_succeeds {t : Instant} {d : Duration} (h : t + d.nanos ≤ maxInstant) :
    t.checkedAdd d = some (t + d.nanos) :=
  Instant.checkedAdd_eq_some.mpr ⟨h, rfl⟩

theorem Punctual.disableReservation_succeeds {c : Clock} {w : World} (h : Punctual c w)
    (hclock : FarBelowEnd c) (id : ListenerId) (failed : Bool) :
    Succeeds (disableReservation c id failed w) := by
  unfold disableReservation
  split
  · exact meetReservationTarget_succeeds c _
  · split
    · exact ⟨_, rfl⟩
    · next reservation v hfound =>
      have hlookup : w.reservations.lookup id = some reservation :=
        congrArg Prod.fst hfound
      have hv : (removeReservation id w).2 = v := congrArg Prod.snd hfound
      refine Succeeds.bind ?_ fun u _ => meetReservationTarget_succeeds c _
      unfold chargeFailure
      split
      · have hadd := checkedAdd_succeeds (h.cooldown_fits hclock hlookup)
        unfold startReservationCooldown
        dsimp only
        split
        · next hnone =>
          rw [← hv] at hnone
          cases hnone.symm.trans hadd
        · exact ⟨_, rfl⟩
      · exact ⟨_, rfl⟩

theorem Punctual.onDialFailure_succeeds {c : Clock} {w : World} (h : Punctual c w)
    (peerId : PeerId) (connectionId : ConnectionId) :
    Succeeds (onDialFailure c peerId connectionId w) := by
  unfold onDialFailure
  split
  · dsimp only
    split
    · rw [checkedAdd_succeeds (h.fits w.reads)]
      exact ⟨_, rfl⟩
    · exact ⟨_, rfl⟩
  · exact ⟨_, rfl⟩

theorem Punctual.dispatchSwarmEvent_succeeds {c : Clock} {w : World} (h : Punctual c w)
    (hclock : FarBelowEnd c) (event : FromSwarm) :
    Succeeds (dispatchSwarmEvent c event w) := by
  cases event with
  | listenerError id => exact h.disableReservation_succeeds hclock id true
  | listenerClosed id reasonIsErr =>
      exact h.disableReservation_succeeds hclock id reasonIsErr
  | dialFailure peerId connectionId =>
      cases peerId with
      | none => exact ⟨_, rfl⟩
      | some peerId => exact h.onDialFailure_succeeds peerId connectionId
  | _ => exact ⟨_, rfl⟩

theorem Punctual.serve_succeeds {c : Clock} {w : World} (h : Punctual c w)
    (hclock : FarBelowEnd c) (i : Input) : Succeeds (serve c i w) := by
  cases i with
  | setStatus status => exact setStatus_succeeds c status w
  | addStaticRelay peerId address =>
      exact (addStaticRelay_succeeds c peerId address w).bind fun r _ => ⟨_, rfl⟩
  | swarm event addresses change =>
      refine (onExternalAddresses_succeeds c addresses change w).bind ?_
      intro u hu
      have hacts := (onExternalAddresses_ensures c addresses change w).of_eq_ok hu
      exact (h.acts hacts).dispatchSwarmEvent_succeeds hclock event
  | handler peerId connectionId out =>
      exact onConnectionHandlerEvent_succeeds c peerId connectionId out w
  | poll timerReady => exact (pollPass_succeeds c timerReady w).bind fun r _ => ⟨_, rfl⟩
  | _ => exact ⟨_, rfl⟩

theorem neverPanics_of_fits {c : Clock} {config : Config} (hclock : FarBelowEnd c)
    (hfits : ∀ n, c.instant n + config.failureCooldown.nanos ≤ maxInstant) :
    NeverPanics c config := by
  refine ⟨fun _ _ _ => addStaticRelays_succeeds c _ _, ?_⟩
  intro w hw i
  have hpunctual : Punctual c w := by
    refine ⟨hw.cooldownInv, hw.countsRecorded, ?_⟩
    rw [hw.failureCooldown_eq]
    exact hfits
  exact (hpunctual.record i).serve_succeeds hclock i

/-! ## A dial that fails -/

/-- Nothing is connected, no dial has failed, and the clock was not read since the
reading `n`. -/
structure Unused (n : ℕ) (w : World) : Prop where
  reads : w.reads = n
  connections : w.connections = ∅
  dialCooldowns : w.staticDialCooldowns = ∅

theorem meetReservationTarget_of_no_connections {c : Clock} {w : World}
    (h : w.connections = ∅) : meetReservationTarget c w = .ok w := by
  cases hstatus : w.status with
  | disable => exact if_pos hstatus
  | enable =>
      have hcollect : collectCandidates c (coveredPeers w.toBehaviour)
          w.connections.entries ⟨∅, ∅⟩ w = (⟨∅, ∅⟩, w) := by
        rw [h]
        rfl
      have hroom : roomMade c w = w := by
        unfold roomMade candidatesOf
        rw [hcollect]
        exact if_pos (Or.inl (Nat.zero_sub _))
      have hnobody : selection (candidatesOf c w) (budget w.toBehaviour) = [] := by
        unfold candidatesOf
        rw [hcollect]
        exact List.take_nil
      rw [meetReservationTarget_eq hstatus, hroom, hnobody]
      split
      · rfl
      · next hbudget =>
        refine if_pos ?_
        unfold budget at hbudget
        omega

theorem hasDirectConnection_of_no_connections {b : Behaviour} (h : b.connections = ∅)
    (p : PeerId) : hasDirectConnection b p = false := by
  rw [hasDirectConnection, h]
  rfl

theorem Unused.staticDialInCooldown_eq {c : Clock} {n : ℕ} {w : World} (h : Unused n w)
    (p : PeerId) : staticDialInCooldown c p w = (false, w) := by
  rw [staticDialInCooldown, h.dialCooldowns]
  rfl

theorem queueStaticDial_of_unused {c : Clock} {n : ℕ} {w : World} {p : PeerId}
    {addresses : List Multiaddr} (h : Unused n w) (hstatic : p ∈ w.staticRelays)
    (hne : addresses ≠ []) (hpending : p ∉ w.pendingStaticDials) :
    queueStaticDial c p addresses w =
      (true, { w with
        nextConnection := w.nextConnection + 1
        pendingStaticDials := w.pendingStaticDials.insert p w.nextConnection }.queue
          (.dial ⟨p, addresses, w.nextConnection⟩)) := by
  have hdirect := hasDirectConnection_of_no_connections h.connections p
  unfold queueStaticDial
  rw [if_neg (by simp [hstatic, hne, hdirect]), h.staticDialInCooldown_eq]
  exact if_neg (by simp [hpending])

theorem Unused.queueStaticDial {c : Clock} {n : ℕ} {w : World} (h : Unused n w)
    (p : PeerId) (addresses : List Multiaddr) :
    Unused n (queueStaticDial c p addresses w).2 := by
  unfold Autorelay.queueStaticDial
  rw [h.staticDialInCooldown_eq]
  dsimp only
  split
  · exact h
  · split
    · exact h
    · exact ⟨h.reads, h.connections, h.dialCooldowns⟩

theorem Unused.addStaticRelay {c : Clock} {n : ℕ} {w : World} (h : Unused n w)
    (p : PeerId) (address : Multiaddr) :
    Ensures (Prod.snd <$> addStaticRelay c p address w) (Unused n) := by
  unfold Autorelay.addStaticRelay
  split
  · exact h
  · have hinsert : Unused n { w with
        staticRelays := w.staticRelays.insert p
          (addressesWith w.toBehaviour p address) } :=
      ⟨h.reads, h.connections, h.dialCooldowns⟩
    have hdial :=
      hinsert.queueStaticDial (c := c) p (addressesWith w.toBehaviour p address)
    dsimp only
    generalize Autorelay.queueStaticDial c p (addressesWith w.toBehaviour p address) _ = r
      at hdial
    obtain ⟨queued, u⟩ := r
    have hmeet : meetReservationTargetIf c (!queued) u = .ok u := by
      unfold meetReservationTargetIf
      split
      · exact meetReservationTarget_of_no_connections hdial.connections
      · rfl
    dsimp only
    rw [hmeet]
    exact ⟨hdial.reads, hdial.connections, hdial.dialCooldowns⟩

/-- A new behaviour whose next reading is the given one. -/
theorem exists_unused (c : Clock) (config : Config) (contract : Contract) (n : ℕ) :
    ∃ w, Reachable c config contract w ∧ Unused n w := by
  obtain ⟨w, hw⟩ := addStaticRelays_succeeds c config.staticRelays.entries
    (World.fresh config n 0 0)
  have hunused := addStaticRelays_ensures (P := Unused n)
    (fun p address v hv => hv.addStaticRelay (c := c) p address)
    config.staticRelays.entries
    (w := World.fresh config n 0 0) ⟨rfl, rfl, rfl⟩
  exact ⟨w, .new hw, hunused.of_eq_ok hw⟩

theorem addressesWith_ne_nil (b : Behaviour) (p : PeerId) (address : Multiaddr) :
    addressesWith b p address ≠ [] := by
  unfold addressesWith
  dsimp only
  split
  · next hmem => exact List.ne_nil_of_mem hmem
  · exact List.append_ne_nil_of_right_ne_nil _ (List.cons_ne_nil _ _)

/-- Registering a static relay dials it. -/
theorem Unused.addStaticRelay_dials {c : Clock} {n : ℕ} {w : World}
    (h : Unused n w) {p : PeerId} (hpending : p ∉ w.pendingStaticDials)
    {address : Multiaddr} (hdirect : address.isRelayed = false) :
    ∃ u, Autorelay.addStaticRelay c p address w = .ok (true, u) ∧ Unused n u ∧
      u.pendingStaticDials.lookup p = some w.nextConnection ∧ p ∈ u.staticRelays ∧
      u.config = w.config := by
  have hregistered : Unused n { w with
      staticRelays := w.staticRelays.insert p (addressesWith w.toBehaviour p address) } :=
    ⟨h.reads, h.connections, h.dialCooldowns⟩
  have hstatic : p ∈ w.staticRelays.insert p (addressesWith w.toBehaviour p address) :=
    (AList.mem_insert _).mpr (Or.inl rfl)
  have hdial := queueStaticDial_of_unused (c := c) hregistered hstatic
    (addressesWith_ne_nil w.toBehaviour p address) hpending
  unfold Autorelay.addStaticRelay
  rw [if_neg (by rw [hdirect]; exact Bool.false_ne_true)]
  dsimp only
  rw [hdial]
  exact ⟨_, rfl, ⟨h.reads, h.connections, h.dialCooldowns⟩, lookup_insert_self _ _ _,
    hstatic, rfl⟩

theorem Unused.onDialFailure_panics {c : Clock} {n : ℕ} {w : World}
    (h : Unused n w) {p : PeerId} {k : ConnectionId}
    (hpending : w.pendingStaticDials.lookup p = some k) (hstatic : p ∈ w.staticRelays)
    (hlate : maxInstant < c.instant n + w.config.failureCooldown.nanos) :
    onDialFailure c p k w = .error .instantOverflow := by
  have hdirect : ∀ b : Behaviour, b.connections = ∅ →
    ¬hasDirectConnection b p = true := by
    intro b hb
    rw [hasDirectConnection_of_no_connections hb]
    exact Bool.false_ne_true
  have hadd : (c.instant w.reads).checkedAdd w.config.failureCooldown = none := by
    rw [h.reads]
    exact if_neg (Nat.not_le.mpr hlate)
  unfold onDialFailure
  rw [if_pos hpending]
  dsimp only
  rw [if_pos ⟨hstatic, hdirect _ h.connections⟩, hadd]

/-- The first dial that fails panics where the configured cooldown does not fit. -/
theorem not_neverPanics_of_late {c : Clock} {config : Config} {n : ℕ}
    (hlate : maxInstant < c.instant n + config.failureCooldown.nanos) :
    ¬NeverPanics c config := by
  rintro ⟨-, hcalls⟩
  obtain ⟨w, hw, hunused⟩ := exists_unused c config .none n
  obtain ⟨p, hp⟩ := Infinite.exists_notMem_finset w.pendingStaticDials.keys.toFinset
  have hpending : p ∉ w.pendingStaticDials := by
    rw [List.mem_toFinset] at hp
    exact fun hmem => hp (AList.mem_keys.mp hmem)
  have hrecord : ∀ i, ∀ v : World, Unused n v → Unused n (v.record (.input i)) :=
    fun i v hv => ⟨hv.reads, hv.connections, hv.dialCooldowns⟩
  have hdirect : Multiaddr.isRelayed [.tcp 4001] = false := rfl
  obtain ⟨u, hu, hunused', hdial, hstatic, hconfig⟩ :=
    (hrecord (.addStaticRelay p [.tcp 4001]) w hunused).addStaticRelay_dials (c := c)
      hpending hdirect
  have hstep : step c (.addStaticRelay p [.tcp 4001]) w = .ok u := by
    unfold step serve
    dsimp only
    rw [hu]
    rfl
  have hcooldown : u.config.failureCooldown = config.failureCooldown := by
    rw [hconfig]
    exact hw.failureCooldown_eq
  obtain ⟨v, hv⟩ := hcalls u (.step hw trivial hstep)
    (.swarm (.dialFailure (some p) w.nextConnection) u.externalAddresses false)
  have hfailure := (hrecord (.swarm (.dialFailure (some p) w.nextConnection)
    u.externalAddresses false) u hunused').onDialFailure_panics (c := c) hdial hstatic
    (by rw [← hcooldown] at hlate; exact hlate)
  have hpanic : step c (.swarm (.dialFailure (some p) w.nextConnection)
      u.externalAddresses false) u = .error .instantOverflow := by
    rw [← hfailure]
    unfold step serve onSwarmEvent onExternalAddresses
    dsimp only
    rw [if_neg (by simp)]
    rfl
  rw [hpanic] at hv
  cases hv

/-- Far below the end of the clock, no call panics if and only if the configured cooldown
can be added to every reading. -/
theorem never_panics_iff {c : Clock} {config : Config} (hclock : FarBelowEnd c) :
    NeverPanics c config ↔
      ∀ n, c.instant n + config.failureCooldown.nanos ≤ maxInstant := by
  constructor
  · intro hnever n
    by_contra hlate
    exact not_neverPanics_of_late (Nat.not_le.mp hlate) hnever
  · exact neverPanics_of_fits hclock

theorem farBelowEnd_leapClock (n : ℕ) : FarBelowEnd (leapClock n) := by
  intro i
  change 3 * (if i < n then 0 else 10 ^ 11) ≤ maxInstant
  split <;> decide

theorem never_panics_iff_default : NeverPanics (leapClock 1) Config.default := by
  apply (never_panics_iff (farBelowEnd_leapClock 1)).mpr
  intro i
  change (if i < 1 then 0 else 10 ^ 11) + 30 * 10 ^ 9 ≤ maxInstant
  split <;> decide

/-- Never try again: the cooldown is `Duration::MAX`. -/
def Config.neverAgain : Config :=
  { Config.default with failureCooldown := ⟨maxDurationNanos, le_refl _⟩ }

/-- A static relay is registered and its dial fails. -/
theorem dial_failure_panics :
    FarBelowEnd (leapClock 1) ∧
      (∃ w, Reachable (leapClock 1) Config.neverAgain .none w ∧
        step (leapClock 1) (.swarm (.dialFailure (some 7) 0) [] false) w =
          .error .instantOverflow) ∧
      ¬NeverPanics (leapClock 1) Config.neverAgain := by
  obtain ⟨w, hw, hstep⟩ := exists_reachable_of_runNew
    (f := fun w => step (leapClock 1) (.swarm (.dialFailure (some 7) 0) [] false) w)
    (a := .error .instantOverflow)
    (show ∀ i ∈ [Input.addStaticRelay 7 [.tcp 4001]], ∀ w,
      anyInput w i = true → Contract.none w i from fun _ _ _ _ => trivial)
    (show (runNew (leapClock 1) Config.neverAgain anyInput
      [.addStaticRelay 7 [.tcp 4001]]).map _ = _ by rfl)
  refine ⟨farBelowEnd_leapClock 1, ⟨w, hw, hstep⟩, ?_⟩
  rintro ⟨-, hcalls⟩
  obtain ⟨v, hv⟩ := hcalls w hw (.swarm (.dialFailure (some 7) 0) [] false)
  rw [hstep] at hv
  cases hv

end Connexa.Autorelay
