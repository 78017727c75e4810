import Connexa.Dns.Transport
import Connexa.Support.History

/-!
# The bounds of a dial

Whatever the resolver and the inner transport answer, a call of `do_dial` ends, within
its limits on lookups and accepted dials, and its error accounts for everything that
failed on the way.
-/

namespace Connexa.Dns

variable {Opts Output TErr : Type}

/-! ## Reading the trace -/

/-- The line is a call of `resolve`. -/
def Event.isResolve : Event Output TErr → Bool
  | .resolve _ _ => true
  | _ => false

/-- The line is a dial that the inner transport accepted. -/
def Event.isAccepted : Event Output TErr → Bool
  | .dial _ outcome => outcome.accepted
  | _ => false

/-- What failed in this line, if anything. -/
def Event.failure? : Event Output TErr → Option (Error TErr)
  | .resolve _ (.error e) => some e
  | .resolve _ (.ok _) => none
  | .dial _ outcome => outcome.error?
  | .dropped _ => some .tooManyLookups

/-- Everything that failed, in order. -/
def failures (trace : List (Event Output TErr)) : List (Error TErr) :=
  trace.filterMap Event.failure?

/-- The line tells what the surroundings answered, or that there was a name left to
resolve when all lookups were used up. -/
def Event.TrueTo (t : Surroundings Opts Output TErr) (dnsResolution : DnsResolution)
    (dialOpts : Opts) (before : List (Event Output TErr)) : Event Output TErr → Prop
  | .resolve name answer => Dns.resolve t before name = answer
  | .dial addr outcome => t.dial before addr dialOpts = outcome
  | .dropped addr => firstResolvable addr dnsResolution ≠ none ∧
      before.countP Event.isResolve = maxDnsLookups

/-- Some dial of the trace succeeded. -/
def Succeeded (trace : List (Event Output TErr)) : Prop :=
  ∃ addr out, Event.dial addr (.connected out) ∈ trace

@[simp] theorem failures_snoc (trace : List (Event Output TErr))
    (e : Event Output TErr) :
    failures (trace ++ [e]) = failures trace ++ e.failure?.toList := by
  rw [failures, List.filterMap_append, failures]
  cases h : e.failure? <;> simp [h]

/-! ## The accounts of the loop -/

/-- The variables of the loop agree with the trace. -/
structure Accounts (t : Surroundings Opts Output TErr) (dnsResolution : DnsResolution)
    (dialOpts : Opts) (s : Dialing Output TErr) : Prop where
  lookups : s.trace.countP Event.isResolve = s.dnsLookups
  attempts : s.trace.countP Event.isAccepted = s.dialAttempts
  errors : s.dialErrors = failures s.trace
  unsuccessful : ¬Succeeded s.trace
  genuine : Chronicle (Event.TrueTo t dnsResolution dialOpts) s.trace

/-- The call ended with the outcome after the trace, within the limits, and accounts for
every failure. -/
structure Accounted (t : Surroundings Opts Output TErr)
    (dnsResolution : DnsResolution) (dialOpts : Opts)
    (outcome : Outcome Output TErr) (trace : List (Event Output TErr)) : Prop where
  genuine : Chronicle (Event.TrueTo t dnsResolution dialOpts) trace
  lookups : trace.countP Event.isResolve ≤ maxDnsLookups
  attempts : trace.countP Event.isAccepted ≤ maxDialAttempts
  returns : ∃ result, outcome = .returned result
  ok_iff : (∃ out, outcome = .returned (.ok out)) ↔ Succeeded trace
  last : ∀ before addr out after, trace = before ++ .dial addr (.connected out) :: after →
    after = [] ∧ outcome = .returned (.ok out)
  error : ∀ e, outcome = .returned (.error e) →
    e = if failures trace = [] then noMatchingRecords else .dial (failures trace)

/-- One more line in the trace, with the variables changed to match it. -/
theorem Accounts.snoc {t : Surroundings Opts Output TErr}
    {dnsResolution : DnsResolution} {dialOpts : Opts}
    {s s' : Dialing Output TErr} (h : Accounts t dnsResolution dialOpts s)
    (e : Event Output TErr)
    (htrace : s'.trace = s.trace ++ [e])
    (hlookups : s'.dnsLookups = s.dnsLookups + if e.isResolve then 1 else 0)
    (hattempts : s'.dialAttempts = s.dialAttempts + if e.isAccepted then 1 else 0)
    (herrors : s'.dialErrors = s.dialErrors ++ e.failure?.toList)
    (hfails : ∀ addr out, e ≠ .dial addr (.connected out))
    (htrue : e.TrueTo t dnsResolution dialOpts s.trace) :
    Accounts t dnsResolution dialOpts s' where
  lookups := by
    rw [htrace, List.countP_append, List.countP_singleton, h.lookups, hlookups]
  attempts := by
    rw [htrace, List.countP_append, List.countP_singleton, h.attempts, hattempts]
  errors := by
    rw [herrors, htrace, failures_snoc, h.errors]
  unsuccessful := by
    rw [htrace]
    rintro ⟨addr, out, hmem⟩
    rcases List.mem_append.mp hmem with hmem | hmem
    · exact h.unsuccessful ⟨addr, out, hmem⟩
    · exact hfails addr out (List.mem_singleton.mp hmem).symm
  genuine := by
    rw [htrace]
    exact h.genuine.snoc htrue

theorem Accounts.dialed {t : Surroundings Opts Output TErr}
    {dnsResolution : DnsResolution} {dialOpts : Opts}
    {s : Dialing Output TErr} (h : Accounts t dnsResolution dialOpts s) {addr : Multiaddr}
    (rest : List Multiaddr) {outcome : Dialed Output TErr} {error : Error TErr}
    (hdial : t.dial s.trace addr dialOpts = outcome)
    (herror : outcome.error? = some error) :
    Accounts t dnsResolution dialOpts (s.dialed addr rest outcome) := by
  refine h.snoc (.dial addr outcome) rfl rfl ?_ rfl ?_ hdial
  · change (if outcome.accepted then s.dialAttempts + 1 else s.dialAttempts) =
      s.dialAttempts + if outcome.accepted then 1 else 0
    split <;> rfl
  · rintro a out heq
    cases heq
    cases herror

/-- One pass that does not end the loop keeps the accounts. -/
theorem Accounts.again {t : Surroundings Opts Output TErr} {dnsResolution : DnsResolution}
    {dialOpts : Opts} {s s' : Dialing Output TErr}
    (h : Accounts t dnsResolution dialOpts s)
    (hpass : s.pass t dnsResolution dialOpts = .again s') :
    Accounts t dnsResolution dialOpts s' := by
  have hcases := s.pass_cases t dnsResolution dialOpts
  rw [hpass] at hcases
  cases hcases with
  | dropped addr rest name i _ hname hlimit =>
      refine h.snoc (.dropped addr) rfl rfl rfl rfl (fun _ _ heq => by cases heq) ⟨?_, ?_⟩
      · rw [hname]
        exact Option.some_ne_none _
      · exact h.lookups.trans hlimit
  | unanswered addr rest name i e _ _ _ hanswer =>
      exact h.snoc (.resolve name (.error e)) rfl rfl rfl rfl
        (fun _ _ heq => by cases heq) hanswer
  | answered addr rest name i answer addrs _ _ _ hanswer =>
      exact h.snoc (.resolve name (.ok answer)) rfl rfl rfl (List.append_nil _).symm
        (fun _ _ heq => by cases heq) hanswer
  | undialed addr rest outcome error _ _ hdial herror =>
      exact h.dialed rest hdial herror

theorem Dialing.dialed_attempts_le (s : Dialing Output TErr)
    (h : s.dialAttempts < maxDialAttempts) (addr : Multiaddr) (rest : List Multiaddr)
    (outcome : Dialed Output TErr) :
    (s.dialed addr rest outcome).dialAttempts ≤ maxDialAttempts := by
  change (if outcome.accepted then s.dialAttempts + 1 else s.dialAttempts) ≤
    maxDialAttempts
  split
  · exact h
  · exact h.le

/-- A pass that does not end the loop leaves room for another accepted dial. -/
theorem Dialing.attempts_lt_of_again {t : Surroundings Opts Output TErr}
    {dnsResolution : DnsResolution} {dialOpts : Opts} {s s' : Dialing Output TErr}
    (h : s.dialAttempts < maxDialAttempts)
    (hpass : s.pass t dnsResolution dialOpts = .again s') :
    s'.dialAttempts < maxDialAttempts := by
  have hcases := s.pass_cases t dnsResolution dialOpts
  rw [hpass] at hcases
  cases hcases with
  | undialed addr rest outcome error _ _ _ _ _ hattempts =>
      exact lt_of_le_of_ne (s.dialed_attempts_le h addr rest outcome) hattempts
  | _ => exact h

/-! ## The end of the loop -/

/-- Leaving the loop returns the errors on the account. -/
theorem Accounts.accounted_leave {t : Surroundings Opts Output TErr}
    {dnsResolution : DnsResolution} {dialOpts : Opts}
    {s : Dialing Output TErr} (h : Accounts t dnsResolution dialOpts s)
    (hattempts : s.dialAttempts ≤ maxDialAttempts) :
    Accounted t dnsResolution dialOpts (.returned s.aggregate) s.trace := by
  have haggregate : s.aggregate = .error
      (if failures s.trace = [] then noMatchingRecords else .dial
        (failures s.trace)) := by
    rw [Dialing.aggregate, h.errors]
    cases failures s.trace <;> rfl
  refine ⟨h.genuine, h.lookups.trans_le s.lookups_le, h.attempts.trans_le hattempts,
    ⟨_, rfl⟩, iff_of_false ?_ h.unsuccessful, ?_, ?_⟩
  · rintro ⟨out, hout⟩
    rw [haggregate] at hout
    cases hout
  · intro before addr out after htrace
    refine absurd ⟨addr, out, ?_⟩ h.unsuccessful
    rw [htrace]
    exact List.mem_append_right _ List.mem_cons_self
  · intro e he
    rw [haggregate] at he
    cases he
    rfl

/-- A dial that connects is the last line. -/
theorem Accounts.accounted_connected {t : Surroundings Opts Output TErr}
    {dnsResolution : DnsResolution} {dialOpts : Opts}
    {s : Dialing Output TErr} (h : Accounts t dnsResolution dialOpts s)
    (hattempts : s.dialAttempts < maxDialAttempts) {addr : Multiaddr} {out : Output}
    (hdial : t.dial s.trace addr dialOpts = .connected out) :
    Accounted t dnsResolution dialOpts (.returned (.ok out))
      (s.trace ++ [.dial addr (.connected out)]) := by
  refine ⟨h.genuine.snoc hdial, ?_, ?_, ⟨_, rfl⟩, iff_of_true ⟨out, rfl⟩ ⟨addr, out, ?_⟩,
    ?_, fun e he => by cases he⟩
  · rw [List.countP_append, h.lookups]
    exact s.lookups_le
  · rw [List.countP_append, h.attempts]
    exact hattempts
  · exact List.mem_append_right _ List.mem_cons_self
  · intro before a o after htrace
    rcases snoc_eq_append_cons_iff.mp htrace with ⟨rest, -, heq⟩ | ⟨hnil, heq, -⟩
    · -- a dial before the last line did not connect
      refine absurd ⟨a, o, ?_⟩ h.unsuccessful
      rw [heq]
      exact List.mem_append_right _ List.mem_cons_self
    · cases heq
      exact ⟨hnil, rfl⟩

theorem accounts_start (t : Surroundings Opts Output TErr)
    (dnsResolution : DnsResolution) (dialOpts : Opts) (addr : Multiaddr) :
    Accounts t dnsResolution dialOpts (Dialing.start addr) where
  lookups := rfl
  attempts := rfl
  errors := rfl
  unsuccessful := by
    rintro ⟨a, out, hmem⟩
    cases hmem
  genuine := Chronicle.nil

/-- Whatever the resolver and the inner transport answer, the call ends within its limits,
returns `Ok` exactly if a dial succeeded, and otherwise accounts for every failure. -/
theorem do_dial_accounted (t : Surroundings Opts Output TErr)
    (dnsResolution : DnsResolution) (addr : Multiaddr) (dialOpts : Opts) :
    Accounted t dnsResolution dialOpts (doDial t dnsResolution addr dialOpts).1
      (doDial t dnsResolution addr dialOpts).2 := by
  have hroom : 0 < maxDialAttempts := by decide
  refine (dialLoop t dnsResolution dialOpts).run_induct
    (Q := fun r => Accounted t dnsResolution dialOpts r.1 r.2)
    (P := fun s => Accounts t dnsResolution dialOpts s ∧
      s.dialAttempts < maxDialAttempts) ?_ ?_
    ⟨accounts_start t dnsResolution dialOpts addr, hroom⟩
  · rintro s s' ⟨haccounts, hattempts⟩ hpass
    exact ⟨haccounts.again hpass, Dialing.attempts_lt_of_again hattempts hpass⟩
  · rintro s r ⟨haccounts, hattempts⟩ hpass
    have hcases := s.pass_cases t dnsResolution dialOpts
    rw [show s.pass t dnsResolution dialOpts = .done r from hpass] at hcases
    generalize hend : (Pass.done r : Pass (Dialing Output TErr) _) = p at hcases
    cases hcases with
    | finished =>
        cases hend
        exact haccounts.accounted_leave hattempts.le
    | connected a rest out _ _ hdial =>
        cases hend
        exact haccounts.accounted_connected hattempts hdial
    | stopped a rest outcome error _ _ hdial herror =>
        cases hend
        exact (haccounts.dialed rest hdial herror).accounted_leave
          (s.dialed_attempts_le hattempts a rest outcome)
    | _ => cases hend

/-- A name whose records are the name itself and an address that the inner transport
refuses. -/
def selfReference : Surroundings Unit Unit String where
  ipv4Lookup := fun _ _ => .error (.parse "no")
  ipv6Lookup := fun _ _ => .error (.parse "no")
  txtLookup := fun _ _ => .ok ["dnsaddr=/dnsaddr/a", "dnsaddr=/tcp/1"]
  tryFrom := fun text =>
    if text = "/dnsaddr/a" then .ok [.dnsaddr "a"]
    else if text = "/tcp/1" then .ok [.tcp 1]
    else .error "no"
  dial := fun _ addr _ => .refused (.multiaddrNotSupported addr)

/-- All lookups are used up, and then the name is dropped. -/
def selfReferenceTrace : List (Event Unit String) :=
  (List.replicate maxDnsLookups
    [.resolve (.dnsaddr "a") (.ok (.addrs [[.dnsaddr "a"], [.tcp 1]])),
      .dial [.tcp 1] (.refused (.multiaddrNotSupported [.tcp 1]))]).flatten ++
    [.dropped [.dnsaddr "a"]]

set_option maxRecDepth 4000 in
theorem do_dial_accounted_selfReference :
    (doDial selfReference .always [.dnsaddr "a"] ()).1 = .returned (.error (.dial
      (List.replicate maxDnsLookups (.multiaddrNotSupported [.tcp 1]) ++
        [.tooManyLookups]))) ∧
      Accounted selfReference .always ()
        (doDial selfReference .always [.dnsaddr "a"] ()).1 selfReferenceTrace := by
  have hrun : doDial selfReference .always [.dnsaddr "a"] () =
      (.returned (.error (.dial
        (List.replicate maxDnsLookups (.multiaddrNotSupported [.tcp 1]) ++
          [.tooManyLookups]))), selfReferenceTrace) :=
    Loop.run_of_runFor _ (n := 66) rfl
  have haccounted := do_dial_accounted selfReference .always [.dnsaddr "a"] ()
  rw [hrun] at haccounted ⊢
  exact ⟨rfl, haccounted⟩

end Connexa.Dns
