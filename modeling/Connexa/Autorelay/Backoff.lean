import Connexa.Autorelay.Deadlines

/-!
# The cooldowns of a peer that keeps failing

The cooldowns of a peer grow with the failures since its counter was last cleared.  The
run does not say when that was, so the cooldowns are collected beside it: a call adds
what it put on record for the peer, and they are forgotten when it takes a counter away.
-/

namespace Connexa.Autorelay

open HashMap

/-! ## The cooldowns since the counter was cleared -/

/-- The cooldowns of the peer that the lines report. -/
def cooldownsOf (p : PeerId) (lines : List Record) : List Duration :=
  lines.filterMap fun
    | .reservationFailed q _ cooldown => if q = p then some cooldown else none
    | _ => none

/-- What is left of the cooldowns after a call from `w` to `w'`. -/
def tallied (p : PeerId) (w w' : World) (cooldowns : List Duration) : List Duration :=
  if p ∈ w.failureCounts ∧ p ∉ w'.failureCounts then []
  else cooldowns ++ cooldownsOf p (w'.history.drop w.history.length)

/-- The state is reached by a run in which the peer failed with these cooldowns since
its counter was last cleared. -/
inductive Tally (c : Clock) (config : Config) (contract : Contract) (p : PeerId) :
    World → List Duration → Prop where
  | new {reads : ℕ} {nextListener : ListenerId} {nextConnection : ConnectionId}
      {w : World}
      (h : newWithConfig c config reads nextListener nextConnection = .ok w) :
      Tally c config contract p w []
  | step {w w' : World} {i : Input} {cooldowns : List Duration}
      (hw : Tally c config contract p w cooldowns)
      (hcontract : contract w i) (h : step c i w = .ok w') :
      Tally c config contract p w' (tallied p w w' cooldowns)
  | shuffle {w w' : World} {cooldowns : List Duration}
      (hw : Tally c config contract p w cooldowns) (h : Shuffled w w') :
      Tally c config contract p w' cooldowns

theorem Reachable.tally {c : Clock} {config : Config} {contract : Contract} {w : World}
    (h : Reachable c config contract w) (p : PeerId) :
    ∃ cooldowns, Tally c config contract p w cooldowns := by
  induction h with
  | new h => exact ⟨[], .new h⟩
  | step _ hcontract h ih =>
      obtain ⟨cooldowns, hw⟩ := ih
      exact ⟨_, hw.step hcontract h⟩
  | shuffle _ h ih =>
      obtain ⟨cooldowns, hw⟩ := ih
      exact ⟨cooldowns, hw.shuffle h⟩

theorem Tally.reachable {c : Clock} {config : Config} {contract : Contract} {p : PeerId}
    {w : World} {cooldowns : List Duration} (h : Tally c config contract p w cooldowns) :
    Reachable c config contract w := by
  induction h with
  | new h => exact .new h
  | step _ hcontract h ih => exact ih.step hcontract h
  | shuffle _ h ih => exact ih.shuffle h

/-! ## What a change does to the counter of a peer -/

/-- Serving the input may clear counters, and then records no failure. -/
def Input.Clears (i : Input) : Prop :=
  (∃ peerId connectionId, i.event? = some (.connectionClosed peerId connectionId)) ∨
    (∃ id addr, i.event? = some (.newListenAddr id addr)) ∨
      ∃ timerReady, i = .poll timerReady

theorem Input.Clears.not_disables {i : Input} (h : i.Clears) (id : ListenerId) :
    ¬i.Disables id := by
  rcases h with ⟨_, _, h⟩ | ⟨_, _, h⟩ | ⟨_, rfl⟩
  · simp [Input.Disables, h]
  · simp [Input.Disables, h]
  · simp [Input.Disables, Input.event?]

/-- The counter is kept and no failure recorded. -/
def CountKept (p : PeerId) (w w' : World) : Prop :=
  w'.failureCounts.lookup p = w.failureCounts.lookup p ∧
    ∃ new, w'.history = w.history ++ new ∧ cooldownsOf p new = []

/-- A failure is counted and recorded with the cooldown that `record_failure` returns. -/
def Counted (p : PeerId) (w w' : World) : Prop :=
  w'.failureCounts.lookup p = some (attemptsAfter w.toBehaviour p) ∧
    ∃ t, w'.history = w.history ++ [.reservationFailed p t (recordFailure p w).1]

theorem CountKept.of_counts {p : PeerId} {w w' : World}
    (hcounts : w'.failureCounts = w.failureCounts)
    (hhistory : w'.history = w.history ∨ ∃ r, w'.history = w.history ++ [r] ∧
      ∀ q t d, r ≠ .reservationFailed q t d) : CountKept p w w' := by
  refine ⟨by rw [hcounts], ?_⟩
  rcases hhistory with heq | ⟨r, heq, hr⟩
  · exact ⟨[], by rw [heq, List.append_nil], rfl⟩
  · refine ⟨[r], heq, ?_⟩
    cases r with
    | reservationFailed q t d => exact absurd rfl (hr q t d)
    | _ => rfl

theorem CountKept.notMem {p : PeerId} {w w' : World} (h : CountKept p w w')
    (hnone : p ∉ w.failureCounts) : p ∉ w'.failureCounts := by
  rw [← AList.lookup_eq_none, h.1, AList.lookup_eq_none]
  exact hnone

theorem CountKept.trans {p : PeerId} {w u v : World} (h : CountKept p w u)
    (h' : CountKept p u v) : CountKept p w v := by
  obtain ⟨hcount, new, heq, hnone⟩ := h
  obtain ⟨hcount', new', heq', hnone'⟩ := h'
  refine ⟨hcount'.trans hcount, new ++ new', ?_, ?_⟩
  · rw [heq', heq, List.append_assoc]
  · rw [cooldownsOf, List.filterMap_append]
    exact List.append_eq_nil_iff.mpr ⟨hnone, hnone'⟩

theorem notMem_erase (p : PeerId) (counts : HashMap PeerId ℕ) : p ∉ counts.erase p :=
  fun hmem => (AList.mem_erase.mp hmem).1 rfl

/-- A counter is kept, counts one more failure, or is cleared. -/
theorem Act.count_cases {c : Clock} {i : Input} {w w' : World} (h : Act c i w w')
    (p : PeerId) :
    CountKept p w w' ∨ (∃ id, i.Disables id) ∧ Counted p w w' ∨
      i.Clears ∧ p ∉ w'.failureCounts ∧ w'.history = w.history := by
  cases h with
  | failReservation id reservation deadline hi _ _ _ =>
      by_cases hp : p = reservation.peerId
      · subst hp
        exact Or.inr (Or.inl ⟨⟨id, hi⟩, lookup_insert_self _ _ _, _, rfl⟩)
      · refine Or.inl ⟨?_, [_], rfl, ?_⟩
        · simp only [cooledDown, World.record, World.tick, recordFailure,
            HashMap.lookup_insert]
          rw [if_neg hp]
          rfl
        · simp [cooldownsOf, Ne.symm hp]
  | clearFailure q hi _ _ =>
      obtain ⟨k, hi⟩ := hi
      by_cases hp : p = q
      · subst hp
        exact Or.inr (Or.inr ⟨Or.inl ⟨_, k, hi⟩, notMem_erase _ _, rfl⟩)
      · exact Or.inl ⟨(clearFailure_of_ne hp _).2, [], (List.append_nil _).symm, rfl⟩
  | activate id addr reservation hi _ _ _ =>
      by_cases hp : p = reservation.peerId
      · subst hp
        exact Or.inr (Or.inr ⟨Or.inr (Or.inl ⟨id, addr, hi⟩), notMem_erase _ _, rfl⟩)
      · exact Or.inl ⟨(clearFailure_of_ne hp _).2, [], (List.append_nil _).symm, rfl⟩
  | sweep now hi _ _ =>
      cases hlookup : (sweepCooldowns now w).failureCounts.lookup p with
      | none =>
          exact Or.inr (Or.inr ⟨Or.inr (Or.inr hi),
            AList.lookup_eq_none.mp hlookup, rfl⟩)
      | some attempts =>
          refine Or.inl ⟨?_, [], (List.append_nil _).symm, rfl⟩
          rw [hlookup]
          exact (lookup_retain_some.mp hlookup).1.symm
  | _ =>
      refine Or.inl (.of_counts rfl ?_)
      first
      | exact Or.inl rfl
      | exact Or.inr ⟨_, rfl, fun _ _ _ hr => by cases hr⟩

/-- Serving an input that neither clears nor reports a failure. -/
theorem Acts.count_kept {c : Clock} {i : Input} {w w' : World} (hclears : ¬i.Clears)
    (hdisables : ∀ id, ¬i.Disables id) (h : Acts c i w w') (p : PeerId) :
    CountKept p w w' := by
  induction h with
  | refl => exact .of_counts rfl (Or.inl rfl)
  | tail _ hact ih =>
      rcases hact.count_cases p with hkept | ⟨⟨id, hid⟩, -⟩ | ⟨hi, -⟩
      · exact ih.trans hkept
      · exact absurd hid (hdisables id)
      · exact absurd hi hclears

/-! ## The cooldown of the next failure -/

/-- The nanoseconds of the cooldown after the `n`-th failure in a row. -/
def backoff (config : Config) (n : ℕ) : ℕ :=
  min (min (config.failureCooldown.nanos * 2 ^ min (n - 1) 20) maxDurationNanos)
    config.failureCooldownMax.nanos

theorem backoff_mono (config : Config) : Monotone (backoff config) := by
  intro m n hle
  refine min_le_min_right _ (min_le_min_right _ (Nat.mul_le_mul_left _ ?_))
  exact Nat.pow_le_pow_right (by decide) (min_le_min_right _ (Nat.sub_le_sub_right hle 1))

theorem backoff_le (config : Config) (n : ℕ) :
    backoff config n ≤ config.failureCooldownMax.nanos :=
  min_le_right _ _

/-- The counter stands at the number of failures, or at its maximum, which gives the
same exponent. -/
theorem recordFailure_nanos {p : PeerId} {w : World} {n : ℕ}
    (hcount : (w.failureCounts.lookup p).getD 0 = min n maxU32) :
    (recordFailure p w).1.nanos = backoff w.config (n + 1) := by
  have hexponent : min (attemptsAfter w.toBehaviour p - 1) 20 = min (n + 1 - 1) 20 := by
    rw [attemptsAfter, hcount, maxU32]
    omega
  rw [recordFailure, cooldownFor_nanos, hexponent]
  rfl

/-- What the cooldowns since the counter was cleared have to do with the counter. -/
structure Ledger (p : PeerId) (w : World) (cooldowns : List Duration) : Prop where
  count : (w.failureCounts.lookup p).getD 0 = min cooldowns.length maxU32
  cleared : p ∉ w.failureCounts → cooldowns = []
  nanos : cooldowns.map Duration.nanos =
    (List.range cooldowns.length).map fun n => backoff w.config (n + 1)

theorem Ledger.nil {p : PeerId} {w : World} (h : p ∉ w.failureCounts) :
    Ledger p w [] where
  count := by
    rw [AList.lookup_eq_none.mpr h, List.length_nil, Nat.zero_min, Option.getD_none]
  cleared := fun _ => rfl
  nanos := rfl

theorem Ledger.of_kept {p : PeerId} {w w' : World} {cooldowns : List Duration}
    (h : Ledger p w cooldowns)
    (hcount : w'.failureCounts.lookup p = w.failureCounts.lookup p)
    (hconfig : w'.config = w.config) : Ledger p w' cooldowns where
  count := by rw [hcount, h.count]
  cleared := by
    intro hnone
    rw [← AList.lookup_eq_none, hcount, AList.lookup_eq_none] at hnone
    exact h.cleared hnone
  nanos := by rw [hconfig, h.nanos]

/-- One more failure. -/
theorem Ledger.of_counted {p : PeerId} {w w' : World} {cooldowns : List Duration}
    (h : Ledger p w cooldowns)
    (hcount : w'.failureCounts.lookup p = some (attemptsAfter w.toBehaviour p))
    (hconfig : w'.config = w.config) :
    Ledger p w' (cooldowns ++ [(recordFailure p w).1]) where
  count := by
    rw [hcount, Option.getD_some, attemptsAfter, h.count, List.length_append,
      List.length_singleton]
    omega
  cleared := fun hnone => absurd (mem_of_lookup hcount) hnone
  nanos := by
    rw [List.map_append, h.nanos, List.length_append, List.length_singleton,
      List.range_succ, List.map_append, hconfig, List.map_singleton, List.map_singleton,
      recordFailure_nanos h.count]

/-! ## Over a call and over a run -/

/-- Serving an input that clears nothing. -/
theorem Acts.ledger {c : Clock} {i : Input} {p : PeerId} {w w' : World}
    {cooldowns : List Duration} (hi : ¬i.Clears) (h : Acts c i w w')
    (hw : Ledger p w cooldowns) :
    ∃ new, w'.history = w.history ++ new ∧
      Ledger p w' (cooldowns ++ cooldownsOf p new) := by
  induction h with
  | refl =>
      refine ⟨[], (List.append_nil _).symm, ?_⟩
      rw [cooldownsOf, List.filterMap_nil, List.append_nil]
      exact hw
  | tail _ hact ih =>
      obtain ⟨new, heq, hu⟩ := ih
      rcases hact.count_cases p with ⟨hkept, more, hmore, hnone⟩ |
        ⟨-, hcounted, t, hmore⟩ | ⟨hclears, -⟩
      · refine ⟨new ++ more, by rw [hmore, heq, List.append_assoc], ?_⟩
        rw [cooldownsOf, List.filterMap_append]
        rw [cooldownsOf] at hnone
        rw [hnone, List.append_nil]
        exact hu.of_kept hkept hact.config_eq
      · refine ⟨_, by rw [hmore, heq, List.append_assoc], ?_⟩
        rw [cooldownsOf, List.filterMap_append, ← List.append_assoc]
        have hlast := hu.of_counted hcounted hact.config_eq
        simpa [cooldownsOf] using hlast
      · exact absurd hclears hi

/-- Serving an input that may clear counters. -/
theorem Acts.kept_or_cleared {c : Clock} {i : Input} {w w' : World} (hi : i.Clears)
    (h : Acts c i w w') (p : PeerId) :
    (∃ new, w'.history = w.history ++ new ∧ cooldownsOf p new = []) ∧
      w'.config = w.config ∧
      (w'.failureCounts.lookup p = w.failureCounts.lookup p ∨ p ∉ w'.failureCounts) := by
  induction h with
  | refl => exact ⟨⟨[], (List.append_nil _).symm, rfl⟩, rfl, Or.inl rfl⟩
  | tail _ hact ih =>
      obtain ⟨⟨new, heq, hnone⟩, hconfig, hcount⟩ := ih
      rcases hact.count_cases p with ⟨hkept, more, hmore, hnone'⟩ | ⟨⟨id, hid⟩, -⟩ |
        ⟨-, hcleared, hmore⟩
      · refine ⟨⟨new ++ more, by rw [hmore, heq, List.append_assoc], ?_⟩,
          hact.config_eq.trans hconfig, ?_⟩
        · rw [cooldownsOf, List.filterMap_append]
          exact List.append_eq_nil_iff.mpr ⟨hnone, hnone'⟩
        · rw [← AList.lookup_eq_none, hkept, AList.lookup_eq_none]
          exact hcount
      · exact absurd hid (hi.not_disables id)
      · exact ⟨⟨new, hmore.trans heq, hnone⟩, hact.config_eq.trans hconfig,
          Or.inr hcleared⟩

theorem Served.ledger {c : Clock} {i : Input} {p : PeerId} {w w' : World}
    {cooldowns : List Duration} (h : Served c i w w') (hw : Ledger p w cooldowns) :
    ∃ new, w'.history = w.history ++ new ∧
      (¬(p ∈ w.failureCounts ∧ p ∉ w'.failureCounts) →
        Ledger p w' (cooldowns ++ cooldownsOf p new)) := by
  obtain ⟨u, himplied, hown⟩ := h
  have hstatus : ¬(Input.setStatus none).Clears := by
    simp [Input.Clears, Input.event?]
  obtain ⟨new, hnew, hu⟩ := himplied.ledger hstatus hw
  by_cases hi : i.Clears
  · obtain ⟨⟨more, hmore, hnone⟩, hconfig, hcount⟩ := hown.kept_or_cleared hi p
    refine ⟨new ++ more, by rw [hmore, hnew, List.append_assoc], fun hreset => ?_⟩
    rw [cooldownsOf, List.filterMap_append]
    rw [cooldownsOf] at hnone
    rw [hnone, List.append_nil]
    rcases hcount with hkept | hcleared
    · exact hu.of_kept hkept hconfig
    · -- the counter was not there before either, and nothing was counted
      have hkept := himplied.count_kept hstatus (by simp [Input.Disables, Input.event?]) p
      have habsent := hkept.notMem fun hmem => hreset ⟨hmem, hcleared⟩
      rw [← cooldownsOf, hu.cleared habsent]
      exact .nil hcleared
  · obtain ⟨more, hmore, hw'⟩ := hown.ledger hi hu
    refine ⟨new ++ more, by rw [hmore, hnew, List.append_assoc], fun _ => ?_⟩
    rw [cooldownsOf, List.filterMap_append, ← List.append_assoc]
    exact hw'

theorem Tally.ledger {c : Clock} {config : Config} {contract : Contract} {p : PeerId}
    {w : World} {cooldowns : List Duration} (h : Tally c config contract p w cooldowns) :
    Ledger p w cooldowns := by
  induction h with
  | new h =>
      refine .nil ((addStaticRelays_ensures (P := fun w => p ∉ w.failureCounts) ?_ _
        (AList.notMem_empty p)).of_eq_ok h)
      intro peerId address w hw
      refine (addStaticRelay_ensures c peerId address w).mono fun w' hacts => ?_
      have hkept := hacts.count_kept (by simp [Input.Clears, Input.event?])
        (by simp [Input.Disables, Input.event?]) p
      exact hkept.notMem hw
  | @step w w' i cooldowns _ _ h ih =>
      have hserved : Served c i (w.record (.input i)) w' := (serve_acts c i _).of_eq_ok h
      have hrecord : Ledger p (w.record (.input i)) cooldowns := ih.of_kept rfl rfl
      obtain ⟨new, hnew, hw'⟩ := hserved.ledger hrecord
      unfold tallied
      split
      · next hreset => exact .nil hreset.2
      · next hreset =>
        have hdrop : w'.history.drop w.history.length = .input i :: new := by
          rw [hnew]
          change (w.history ++ [_] ++ new).drop _ = _
          rw [List.append_assoc, List.drop_left]
          rfl
        rw [hdrop]
        exact hw' hreset
  | shuffle _ h ih =>
      exact ih.of_kept (lookup_of_sameEntries h.failureCounts p) h.config_eq

/-- Another peer's failure leaves the next cooldown of a peer as it is. -/
theorem recordFailure_of_other {p q : PeerId} (hne : q ≠ p) (w : World) :
    (recordFailure p (recordFailure q w).2).1 = (recordFailure p w).1 := by
  have hcount :
      (recordFailure q w).2.failureCounts.lookup p = w.failureCounts.lookup p := by
    rw [recordFailure, HashMap.lookup_insert, if_neg (Ne.symm hne)]
  simp only [recordFailure, attemptsAfter] at hcount ⊢
  rw [hcount]

theorem pairwise_of_map_range {f : ℕ → ℕ} (hf : Monotone f) {n : ℕ} {l : List Duration}
    (h : l.map Duration.nanos = (List.range n).map f) :
    l.Pairwise fun d d' => d.nanos ≤ d'.nanos := by
  rw [← List.pairwise_map (f := Duration.nanos) (R := (· ≤ ·)), h, List.pairwise_map]
  exact (List.pairwise_lt_range (n := n)).imp fun hlt => hf (le_of_lt hlt)

/-- The cooldowns of a peer since its counter was cleared, and the one that its next
failure would start, follow the formula whatever other peers did; they do not decrease
and keep to the maximum, and neither the counter nor the shift leaves 32 bits. -/
theorem failure_cooldowns_follow_backoff
    {c : Clock} {config : Config} {contract : Contract} {p : PeerId} {w : World}
    {cooldowns : List Duration} (h : Tally c config contract p w cooldowns) :
    (cooldowns ++ [(recordFailure p w).1]).map Duration.nanos =
        (List.range (cooldowns.length + 1)).map (fun n => backoff config (n + 1)) ∧
      (cooldowns ++ [(recordFailure p w).1]).Pairwise (fun d d' => d.nanos ≤ d'.nanos) ∧
      (∀ d ∈ cooldowns ++ [(recordFailure p w).1],
        d.nanos ≤ config.failureCooldownMax.nanos) ∧
      (∀ q, q ≠ p → (recordFailure p (recordFailure q w).2).1 = (recordFailure p w).1) ∧
      (w.failureCounts.lookup p).getD 0 = min cooldowns.length maxU32 ∧
      attemptsAfter w.toBehaviour p ≤ maxU32 ∧
      1 <<< min (attemptsAfter w.toBehaviour p - 1) 20 ≤ maxU32 := by
  have hledger := h.ledger
  have hconfig : ∀ n, backoff w.config n = backoff config n := by
    intro n
    rw [h.reachable.config_eq]
    rfl
  have hformula : (cooldowns ++ [(recordFailure p w).1]).map Duration.nanos =
      (List.range (cooldowns.length + 1)).map (fun n => backoff config (n + 1)) := by
    rw [List.map_append, hledger.nanos, List.range_succ, List.map_append,
      List.map_singleton, List.map_singleton, recordFailure_nanos hledger.count]
    simp only [hconfig]
  refine ⟨hformula, pairwise_of_map_range ?_ hformula, ?_,
    fun q hne => recordFailure_of_other hne w, hledger.count, min_le_right _ _, ?_⟩
  · exact fun m n hle => backoff_mono config (Nat.succ_le_succ hle)
  · intro d hd
    have hnanos := List.mem_map_of_mem (f := Duration.nanos) hd
    rw [hformula] at hnanos
    obtain ⟨n, -, hn⟩ := List.mem_map.mp hnanos
    rw [← hn]
    exact backoff_le config (n + 1)
  · rw [Nat.one_shiftLeft]
    exact (Nat.pow_le_pow_right (by decide) (min_le_right _ 20)).trans (by decide)

/-- The relay `7` fails, and fails again after its cooldown. -/
def relayFailsTwice : List Input :=
  relayFails ++ [.swarm (.listenerError 1) [] false]

theorem failure_cooldowns_follow_backoff_relayFailsTwice :
    ∃ w cooldowns, Tally slowClock Config.default .none 7 w cooldowns ∧
      (cooldowns ++ [(recordFailure 7 w).1]).map Duration.nanos =
        [30 * 10 ^ 9, 60 * 10 ^ 9, 120 * 10 ^ 9] := by
  obtain ⟨w, hw, hcounts⟩ := exists_reachable_of_runNew
    (f := fun w => w.failureCounts.lookup 7) (a := some 2)
    (show ∀ i ∈ relayFailsTwice, ∀ w, anyInput w i = true → Contract.none w i from
      fun _ _ _ _ => trivial)
    (show (runNew slowClock Config.default anyInput relayFailsTwice).map _ = _ by rfl)
  obtain ⟨cooldowns, htally⟩ := hw.tally 7
  obtain ⟨hformula, -, -, -, hcount, -⟩ := failure_cooldowns_follow_backoff htally
  have hlength : cooldowns.length = 2 := by
    rw [hcounts, Option.getD_some, maxU32] at hcount
    omega
  refine ⟨w, cooldowns, htally, ?_⟩
  rw [hformula, hlength]
  decide

end Connexa.Autorelay
