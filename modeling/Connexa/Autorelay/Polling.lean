import Connexa.Autorelay.Deadlines

/-!
# The loop of `poll`

A pass of the loop ends it, or takes a cooldown entry away, or finds the timer ready
although nothing was due when the clock was read; then the next reading is not before
the deadline, and the next pass takes an entry away.
-/

namespace Connexa.Autorelay

open HashMap

/-! ## The timer and the loop -/

/-- The cooldown timer of a run.  It is polled between two readings of a clock that does
not run backwards, and it is ready for a deadline only at or after it. -/
structure Timer (c : Clock) where
  /-- The time of a poll after so many readings. -/
  polledAt : ℕ → Instant
  ready : Instant → ℕ → Bool
  after : ∀ n, c.instant n ≤ polledAt (n + 1)
  before : ∀ n, polledAt n ≤ c.instant n
  punctual : ∀ deadline n, ready deadline n = true → deadline ≤ polledAt n

/-- The timer that is polled at the time of the last reading and ready from its deadline
on. -/
def Timer.exact (c : Clock) (hclock : Monotone c.instant) : Timer c where
  polledAt n := c.instant (n - 1)
  ready deadline n := decide (deadline ≤ c.instant (n - 1))
  after n := le_of_eq (congrArg c.instant (Nat.add_sub_cancel n 1).symm)
  before n := hclock (Nat.sub_le n 1)
  punctual _ _ := of_decide_eq_true

/-- The readiness of the timer when `poll_cooldowns` polls it. -/
def Timer.readyFor {c : Clock} (timer : Timer c) (w : World) : Bool :=
  match earliestDeadline w.toBehaviour with
  | none => false
  | some deadline => timer.ready deadline (w.reads + 1)

/-- `Behaviour::poll` with at most `n` passes: the event of `Poll::Ready`, or none for
`Poll::Pending`. -/
def poll (c : Clock) (timer : Timer c) :
    ℕ → World → Except Panic (Option (Option ToSwarm × World))
  | 0, _ => .ok none
  | n + 1, w => do
      match ← pollPass c (timer.readyFor w) w with
      | (.ready event, w) => return some (some event, w)
      | (.again, w) => poll c timer n w
      | (.pending, w) => return some (none, w)

/-- The deadlines of both cooldown maps. -/
def deadlines (b : Behaviour) : List Instant :=
  values b.reservationCooldowns ++ values b.staticDialCooldowns

def hasDue (now : Instant) (b : Behaviour) : Bool :=
  (deadlines b).any fun deadline => decide (deadline ≤ now)

/-! ## Dials and reservations start no cooldown -/

/-- Both cooldown maps are the same. -/
def SameCooldowns (w w' : World) : Prop :=
  w'.reservationCooldowns = w.reservationCooldowns ∧
    w'.staticDialCooldowns = w.staticDialCooldowns

theorem SameCooldowns.trans {w w' w'' : World} (h : SameCooldowns w w')
    (h' : SameCooldowns w' w'') : SameCooldowns w w'' :=
  ⟨h'.1.trans h.1, h'.2.trans h.2⟩

theorem redialStaticRelay_sameCooldowns (c : Clock) (peerId : PeerId) (w : World) :
    SameCooldowns w (redialStaticRelay c peerId w) := by
  have hcooling : SameCooldowns w (staticDialInCooldown c peerId w).2 := by
    rcases staticDialInCooldown_eq c peerId w with h | h <;> rw [h]
    · exact ⟨rfl, rfl⟩
    · exact ⟨rfl, rfl⟩
  unfold redialStaticRelay
  split
  · unfold queueStaticDial
    split
    · exact ⟨rfl, rfl⟩
    · dsimp only
      split
      · exact hcooling
      · exact hcooling
  · exact ⟨rfl, rfl⟩

theorem selectConnectionForReservation_sameCooldowns {peerId : PeerId}
    {connectionId : ConnectionId} {w w' : World}
    (h : selectConnectionForReservation peerId connectionId w = .ok w') :
    SameCooldowns w w' := by
  unfold selectConnectionForReservation at h
  split at h
  · cases h
  · split at h
    · cases h
      exact ⟨rfl, rfl⟩
    · split at h <;> cases h <;> exact ⟨rfl, rfl⟩

theorem selectAll_sameCooldowns {selected : List (PeerId × ConnectionId)} {w w' : World}
    (h : selectAll selected w = .ok w') : SameCooldowns w w' := by
  induction selected generalizing w with
  | nil =>
      cases h
      exact ⟨rfl, rfl⟩
  | cons s rest ih =>
      obtain ⟨peerId, connectionId⟩ := s
      rw [selectAll] at h
      cases hselect : selectConnectionForReservation peerId connectionId w with
      | error e =>
          rw [hselect] at h
          cases h
      | ok u =>
          rw [hselect] at h
          exact (selectConnectionForReservation_sameCooldowns hselect).trans (ih h)

theorem roomMade_sameCooldowns (c : Clock) (w : World) :
    SameCooldowns w (roomMade c w) := by
  obtain ⟨n, -, hworld⟩ := collectCandidates_world c (coveredPeers w.toBehaviour)
    w.connections.entries ⟨∅, ∅⟩ w
  unfold roomMade
  rw [hworld]
  rcases makeRoomForStaticRelays_cases _ { w with reads := n } with h | ⟨id, -, -, h⟩
  · rw [h]
    exact ⟨rfl, rfl⟩
  · rw [h]
    exact ⟨rfl, rfl⟩

theorem meetReservationTargetIf_sameCooldowns {c : Clock} {condition : Bool}
    {w w' : World}
    (h : meetReservationTargetIf c condition w = .ok w') : SameCooldowns w w' := by
  unfold meetReservationTargetIf at h
  split at h
  · cases hstatus : w.status with
    | disable =>
        rw [meetReservationTarget, if_pos hstatus] at h
        cases h
        exact ⟨rfl, rfl⟩
    | enable =>
        have hroom := roomMade_sameCooldowns c w
        rw [meetReservationTarget_eq hstatus] at h
        split at h
        · cases h
          exact hroom
        · cases hselect : selectAll (selection (candidatesOf c w) (budget w.toBehaviour))
              (roomMade c w) with
          | error e =>
              rw [hselect] at h
              cases h
          | ok u =>
              rw [hselect] at h
              change (if _ then _ else _) = _ at h
              split at h
              · cases h
                exact hroom.trans (selectAll_sameCooldowns hselect)
              · cases h
  · cases h
    exact ⟨rfl, rfl⟩

/-! ## A sweep takes an entry away -/

theorem retryDials_cooldowns (c : Clock) (due : List PeerId) (w : World) :
    (retryDials c due w).reservationCooldowns = w.reservationCooldowns ∧
      len (retryDials c due w).staticDialCooldowns ≤ len w.staticDialCooldowns := by
  induction due generalizing w with
  | nil => exact ⟨rfl, le_rfl⟩
  | cons p rest ih =>
      obtain ⟨hreservations, hdials⟩ := redialStaticRelay_sameCooldowns c p { w with
        staticDialCooldowns := w.staticDialCooldowns.erase p }
      obtain ⟨hreservations', hle⟩ := ih (redialStaticRelay c p { w with
        staticDialCooldowns := w.staticDialCooldowns.erase p })
      rw [hdials] at hle
      exact ⟨hreservations'.trans hreservations, hle.trans (len_erase_le _ p)⟩

theorem retryDials_lt (c : Clock) {due : List PeerId} {w : World} (hne : due ≠ [])
    (hdue : ∀ p ∈ due, p ∈ w.staticDialCooldowns) :
    len (retryDials c due w).staticDialCooldowns < len w.staticDialCooldowns := by
  cases due with
  | nil => exact absurd rfl hne
  | cons p rest =>
      have hle := (retryDials_cooldowns c rest (redialStaticRelay c p { w with
        staticDialCooldowns := w.staticDialCooldowns.erase p })).2
      rw [(redialStaticRelay_sameCooldowns c p _).2] at hle
      have hone := len_erase_of_mem (hdue p List.mem_cons_self)
      exact lt_of_le_of_lt hle (Nat.lt_of_succ_le hone.le)

theorem mem_dueDials {b : Behaviour} {now : Instant} {p : PeerId} :
    p ∈ dueDials b now ↔ ∃ deadline, b.staticDialCooldowns.lookup p = some deadline ∧
      deadline ≤ now := by
  simp only [dueDials, List.mem_filterMap, lookup_eq_some_iff]
  constructor
  · rintro ⟨⟨q, deadline⟩, hmem, hq⟩
    split at hq
    · next hdue =>
      cases hq
      exact ⟨deadline, hmem, hdue⟩
    · cases hq
  · rintro ⟨deadline, hmem, hdue⟩
    exact ⟨⟨p, deadline⟩, hmem, if_pos hdue⟩

/-! ## One pass -/

def cooldownEntries (b : Behaviour) : ℕ :=
  len b.reservationCooldowns + len b.staticDialCooldowns

theorem cooldownEntries_of_same {w w' : World} (h : SameCooldowns w w') :
    cooldownEntries w'.toBehaviour = cooldownEntries w.toBehaviour := by
  rw [cooldownEntries, cooldownEntries, h.1, h.2]

/-- The sweep that `poll_cooldowns` starts where something is due. -/
theorem sweep_lt (c : Clock) {now : Instant} {w : World}
    (h : (∃ p deadline, w.reservationCooldowns.lookup p = some deadline ∧
      deadline ≤ now) ∨
      dueDials w.toBehaviour now ≠ []) :
    cooldownEntries (retryDials c (dueDials w.toBehaviour now)
      (sweepCooldowns now w)).toBehaviour < cooldownEntries w.toBehaviour := by
  obtain ⟨hreservations, hdials⟩ :=
    retryDials_cooldowns c (dueDials w.toBehaviour now) (sweepCooldowns now w)
  rw [cooldownEntries, cooldownEntries, hreservations]
  rcases h with ⟨p, deadline, hlookup, hdue⟩ | hne
  · refine Nat.add_lt_add_of_lt_of_le (len_retain_lt hlookup ?_) hdials
    exact decide_eq_false (not_lt.mpr hdue)
  · refine Nat.add_lt_add_of_le_of_lt (len_retain_le _ _) (retryDials_lt c hne ?_)
    intro p hp
    obtain ⟨deadline, hlookup, -⟩ := mem_dueDials.mp hp
    exact mem_of_lookup hlookup

theorem hasDue_iff {now : Instant} {b : Behaviour} :
    hasDue now b = true ↔
      (values b.reservationCooldowns).any (fun deadline =>
        decide (deadline ≤ now)) = true ∨
        dueDials b now ≠ [] := by
  rw [hasDue, deadlines, List.any_append, Bool.or_eq_true]
  refine or_congr_right ?_
  rw [List.any_eq_true]
  constructor
  · rintro ⟨deadline, hmem, hdue⟩
    obtain ⟨p, hlookup⟩ := mem_values_iff.mp hmem
    exact List.ne_nil_of_mem (mem_dueDials.mpr ⟨deadline, hlookup,
      of_decide_eq_true hdue⟩)
  · intro hne
    obtain ⟨p, hp⟩ := List.exists_mem_of_ne_nil _ hne
    obtain ⟨deadline, hlookup, hdue⟩ := mem_dueDials.mp hp
    exact ⟨deadline, mem_values_iff.mpr ⟨p, hlookup⟩, decide_eq_true hdue⟩

/-- Where something is due, an entry goes. -/
theorem pollCooldowns_of_due {c : Clock} {w : World}
    (h : hasDue (c.instant w.reads) w.toBehaviour = true) (timerReady : Bool) :
    ∃ w', pollCooldowns c timerReady w = .ok (true, w') ∧
      cooldownEntries w'.toBehaviour < cooldownEntries w.toBehaviour := by
  have hdue := (hasDue_iff (b := w.tick.toBehaviour)).mp h
  obtain ⟨w', hw'⟩ := meetReservationTargetIf_succeeds c
    ((values w.tick.reservationCooldowns).any
      fun deadline => decide (deadline ≤ c.instant w.reads))
    (retryDials c (dueDials w.tick.toBehaviour (c.instant w.reads))
      (sweepCooldowns (c.instant w.reads) w.tick))
  refine ⟨w', ?_, ?_⟩
  · unfold pollCooldowns
    dsimp only
    rw [if_pos hdue, hw']
    rfl
  · rw [cooldownEntries_of_same (meetReservationTargetIf_sameCooldowns hw')]
    refine sweep_lt c (w := w.tick) (hdue.imp_left fun hexpired => ?_)
    obtain ⟨deadline, hmem, hdeadline⟩ := List.any_eq_true.mp hexpired
    obtain ⟨p, hlookup⟩ := mem_values_iff.mp hmem
    exact ⟨p, deadline, hlookup, of_decide_eq_true hdeadline⟩

/-- Where nothing is due, the timer is registered for the earliest deadline, and its
readiness is the answer. -/
theorem pollCooldowns_of_not_due {c : Clock} {w : World}
    (h : hasDue (c.instant w.reads) w.toBehaviour = false) (timerReady : Bool) :
    pollCooldowns c timerReady w =
      .ok (timerReady && (earliestDeadline w.toBehaviour).isSome,
        { w.tick with cooldownWakeup := earliestDeadline w.toBehaviour }) := by
  have hnone := mt (hasDue_iff (b := w.tick.toBehaviour)).mpr (Bool.not_eq_true _ ▸ h)
  unfold pollCooldowns
  dsimp only
  rw [if_neg hnone]
  have htick : earliestDeadline w.tick.toBehaviour = earliestDeadline w.toBehaviour := rfl
  rw [htick]
  cases earliestDeadline w.toBehaviour with
  | none => rw [Option.isSome_none, Bool.and_false]
  | some deadline => rw [Option.isSome_some, Bool.and_true]

/-- The timer was ready, so the next reading is not before the deadline. -/
theorem Timer.due_after {c : Clock} (timer : Timer c) {w w' : World}
    (hready : (timer.readyFor w && (earliestDeadline w.toBehaviour).isSome) = true)
    (hw' : w' = { w.tick with cooldownWakeup := earliestDeadline w.toBehaviour }) :
    hasDue (c.instant w'.reads) w'.toBehaviour = true := by
  unfold Timer.readyFor at hready
  cases hearliest : earliestDeadline w.toBehaviour with
  | none =>
      rw [hearliest] at hready
      cases hready
  | some deadline =>
      rw [hearliest, Option.isSome_some, Bool.and_true] at hready
      have hmem : deadline ∈ deadlines w.toBehaviour :=
        (List.min?_eq_some_iff.mp hearliest).1
      subst hw'
      refine List.any_eq_true.mpr ⟨deadline, hmem, decide_eq_true ?_⟩
      exact (timer.punctual deadline _ hready).trans (timer.before _)

/-- A pass that asks for another one has taken an entry away, or leaves the next one
something that is due. -/
theorem pollCooldowns_again {c : Clock} (timer : Timer c) {w w' : World}
    (h : pollCooldowns c (timer.readyFor w) w = .ok (true, w')) :
    cooldownEntries w'.toBehaviour < cooldownEntries w.toBehaviour ∨
      hasDue (c.instant w.reads) w.toBehaviour = false ∧
        SameCooldowns w w' ∧ w'.events = w.events ∧
          hasDue (c.instant w'.reads) w'.toBehaviour = true := by
  cases hdue : hasDue (c.instant w.reads) w.toBehaviour with
  | true =>
      obtain ⟨v, hv, hlt⟩ := pollCooldowns_of_due hdue (timer.readyFor w)
      cases hv.symm.trans h
      exact Or.inl hlt
  | false =>
      rw [pollCooldowns_of_not_due hdue] at h
      obtain ⟨hready, hw'⟩ := Prod.mk.inj (Except.ok.inj h)
      refine Or.inr ⟨rfl, ?_, ?_, timer.due_after hready hw'.symm⟩
      · rw [← hw']
        exact ⟨rfl, rfl⟩
      · rw [← hw']
        rfl

/-! ## The loop ends -/

/-- The passes that the loop can still make before one ends it. -/
def passesLeft (c : Clock) (w : World) : ℕ :=
  2 * cooldownEntries w.toBehaviour +
    if hasDue (c.instant w.reads) w.toBehaviour then 0 else 1

theorem passesLeft_lt {c : Clock} (timer : Timer c) {w w' : World}
    (h : pollCooldowns c (timer.readyFor w) w = .ok (true, w')) :
    passesLeft c w' < passesLeft c w := by
  unfold passesLeft
  rcases pollCooldowns_again timer h with hlt | ⟨hdue, hsame, -, hdue'⟩
  · split <;> split <;> omega
  · rw [cooldownEntries_of_same hsame, hdue, hdue']
    exact Nat.lt_succ_self _

theorem pollPass_of_event {c : Clock} {timerReady : Bool} {w : World} {event : ToSwarm}
    {rest : List ToSwarm} (h : w.events = event :: rest) :
    pollPass c timerReady w = .ok (.ready event, { w with events := rest }) := by
  unfold pollPass
  rw [h]

theorem pollPass_of_no_event {c : Clock} {timerReady : Bool} {w : World}
    (h : w.events = []) :
    pollPass c timerReady w = (do
      let (again, w) ← pollCooldowns c timerReady w
      if again then return (.again, w)
      else return (.pending, { w with waker := true })) := by
  unfold pollPass
  rw [h]

theorem poll_of_passesLeft {c : Clock} (timer : Timer c) {n : ℕ} {w : World}
    (hn : passesLeft c w < n) : ∃ r w', poll c timer n w = .ok (some (r, w')) := by
  induction n generalizing w with
  | zero => exact absurd hn (Nat.not_lt_zero _)
  | succ n ih =>
      rw [poll]
      cases hevents : w.events with
      | cons event rest =>
          rw [pollPass_of_event hevents]
          exact ⟨_, _, rfl⟩
      | nil =>
          obtain ⟨⟨again, u⟩, hu⟩ := pollCooldowns_succeeds c (timer.readyFor w) w
          rw [pollPass_of_no_event hevents, hu]
          cases again with
          | false => exact ⟨_, _, rfl⟩
          | true =>
              exact ih (lt_of_lt_of_le (passesLeft_lt timer hu) (Nat.le_of_lt_succ hn))

/-- A poll that ends as pending has registered the timer. -/
theorem poll_pending {c : Clock} (timer : Timer c) {n : ℕ} {w w' : World}
    (h : poll c timer n w = .ok (some (none, w'))) :
    w'.cooldownWakeup = earliestDeadline w'.toBehaviour := by
  induction n generalizing w with
  | zero => cases h
  | succ n ih =>
      rw [poll] at h
      cases hevents : w.events with
      | cons event rest =>
          rw [pollPass_of_event hevents] at h
          cases h
      | nil =>
          obtain ⟨⟨again, u⟩, hu⟩ := pollCooldowns_succeeds c (timer.readyFor w) w
          rw [pollPass_of_no_event hevents, hu] at h
          cases again with
          | true => exact ih h
          | false =>
              cases h
              cases hdue : hasDue (c.instant w.reads) w.toBehaviour with
              | true =>
                  obtain ⟨v, hv, -⟩ := pollCooldowns_of_due hdue (timer.readyFor w)
                  cases hv.symm.trans hu
              | false =>
                  rw [pollCooldowns_of_not_due hdue] at hu
                  obtain ⟨-, hu⟩ := Prod.mk.inj (Except.ok.inj hu)
                  rw [← hu]
                  rfl

/-- One call of `poll` ends, after at most two passes for every cooldown entry and two
more; a pass that asks for another one has taken an entry away, or the next one does; and
a pending poll has registered the timer for the earliest of the deadlines. -/
theorem poll_returns {c : Clock} (timer : Timer c) (w : World) :
    (∀ n, 2 * cooldownEntries w.toBehaviour + 2 ≤ n →
      ∃ r w', poll c timer n w = .ok (some (r, w'))) ∧
    (∀ w', pollCooldowns c (timer.readyFor w) w = .ok (true, w') →
      cooldownEntries w'.toBehaviour < cooldownEntries w.toBehaviour ∨
        w'.events = w.events ∧
          ∃ w'', pollCooldowns c (timer.readyFor w') w' = .ok (true, w'') ∧
            cooldownEntries w''.toBehaviour < cooldownEntries w'.toBehaviour) ∧
    ∀ n w', poll c timer n w = .ok (some (none, w')) →
      0 < cooldownEntries w'.toBehaviour →
        ∃ deadline ∈ deadlines w'.toBehaviour, w'.cooldownWakeup = some deadline ∧
          ∀ other ∈ deadlines w'.toBehaviour, deadline ≤ other := by
  refine ⟨fun n hn => poll_of_passesLeft timer (lt_of_lt_of_le ?_ hn), ?_, ?_⟩
  · unfold passesLeft
    split <;> omega
  · intro w' h
    rcases pollCooldowns_again timer h with hlt | ⟨-, -, hevents, hdue⟩
    · exact Or.inl hlt
    · exact Or.inr ⟨hevents, pollCooldowns_of_due hdue _⟩
  · intro n w' h hpos
    have hlength :
        (deadlines w'.toBehaviour).length = cooldownEntries w'.toBehaviour := by
      simp [deadlines, values, cooldownEntries, len]
    have hne : deadlines w'.toBehaviour ≠ [] := by
      rw [← List.length_pos_iff, hlength]
      exact hpos
    rw [poll_pending timer h]
    cases hearliest : earliestDeadline w'.toBehaviour with
    | none => exact absurd (List.min?_eq_none_iff.mp hearliest) hne
    | some deadline =>
        obtain ⟨hmem, hle⟩ := List.min?_eq_some_iff.mp hearliest
        exact ⟨deadline, hmem, rfl, hle⟩

/-- After the relay `7` failed, four passes are enough. -/
theorem poll_returns_failedRelay :
    ∃ (timer : Timer slowClock) (w : World), Reachable slowClock Config.default .none w ∧
      cooldownEntries w.toBehaviour = 1 ∧
      ∃ r w', poll slowClock timer 4 w = .ok (some (r, w')) := by
  have hclock : Monotone slowClock.instant := fun m n h => Nat.mul_le_mul_right _ h
  obtain ⟨w, hw, hentries⟩ := exists_reachable_of_runNew
    (f := fun w => cooldownEntries w.toBehaviour) (a := 1)
    (show ∀ i ∈ relayConnects 7 0 ++ [Input.swarm (.listenerError 0) [] false], ∀ w,
      anyInput w i = true → Contract.none w i from fun _ _ _ _ => trivial)
    (show (runNew slowClock Config.default anyInput (relayConnects 7 0 ++
      [Input.swarm (.listenerError 0) [] false])).map _ = _ by rfl)
  refine ⟨.exact slowClock hclock, w, hw, hentries, ?_⟩
  exact (poll_returns (.exact slowClock hclock) w).1 4 (by rw [hentries])

end Connexa.Autorelay
