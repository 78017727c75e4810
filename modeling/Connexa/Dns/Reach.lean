import Connexa.Dns.Bounds
import Connexa.Support.Worklist

/-!
# What a dial reaches

`do_dial` searches what the records of the given address lead to.  It dials nothing
else, and where it fails within its limits it has dialed all of it.
-/

namespace Connexa.Dns

open Relation

variable {Opts Output TErr : Type}

/-- Some answer for the first name of `a` leads to `b`. -/
def Leads (t : Surroundings Opts Output TErr) (policy : DnsResolution)
    (a b : Multiaddr) : Prop :=
  ∃ before name i answer addrs, firstResolvable a policy = some (name, i) ∧
    resolve t before name = .ok answer ∧ answersFor a i answer = some addrs ∧ b ∈ addrs

/-- There is nothing left to resolve. -/
def IsResolved (policy : DnsResolution) (a : Multiaddr) : Prop :=
  firstResolvable a policy = none

/-- The address was dialed. -/
def Dials (trace : List (Event Output TErr)) (a : Multiaddr) : Prop :=
  ∃ outcome, Event.dial a outcome ∈ trace

/-- Some address was dropped when all lookups were used up. -/
def Drops (trace : List (Event Output TErr)) : Prop :=
  ∃ before a after, trace = before ++ .dropped a :: after ∧
    before.countP Event.isResolve = maxDnsLookups

variable {t : Surroundings Opts Output TErr} {policy : DnsResolution}
  {trace : List (Event Output TErr)} {a b : Multiaddr}

theorem not_leads (ha : IsResolved policy a) : ¬Leads t policy a b := by
  rintro ⟨before, name, i, answer, addrs, hname, -⟩
  rw [show firstResolvable a policy = none from ha] at hname
  cases hname

theorem dials_snoc {e : Event Output TErr} :
    Dials (trace ++ [e]) a ↔ Dials trace a ∨ ∃ outcome, e = .dial a outcome := by
  simp only [Dials, List.mem_append, List.mem_singleton, exists_or]
  exact or_congr_right ⟨fun ⟨o, h⟩ => ⟨o, h.symm⟩, fun ⟨o, h⟩ => ⟨o, h.symm⟩⟩

theorem Drops.snoc (h : Drops trace) (e : Event Output TErr) : Drops (trace ++ [e]) := by
  obtain ⟨before, a, after, rfl, hlimit⟩ := h
  exact ⟨before, a, after ++ [e], by simp, hlimit⟩

/-- The answers to a name do not depend on when it is looked up. -/
def Steady (t : Surroundings Opts Output TErr) : Prop :=
  ∀ before before' name, resolve t before name = resolve t before' name

/-! ## The search -/

/-- The loop of `do_dial` is a search. -/
structure Searches (t : Surroundings Opts Output TErr) (policy : DnsResolution)
    (origin : Multiaddr) (stack : List Multiaddr) (trace : List (Event Output TErr)) :
    Prop where
  sound : Worklist.Sound (Leads t policy) (IsResolved policy) origin stack (Dials trace)
  covers : Steady t → Drops trace ∨
    Worklist.Covers (Leads t policy) (IsResolved policy) origin stack (Dials trace)

variable {origin addr : Multiaddr} {rest : List Multiaddr} {name : Protocol} {i : ℕ}

theorem Searches.dropped (h : Searches t policy origin (addr :: rest) trace)
    (hlimit : trace.countP Event.isResolve = maxDnsLookups) :
    Searches t policy origin rest (trace ++ [.dropped addr]) where
  sound := by
    refine h.sound.pop fun a ha => (dials_snoc.mp ha).resolve_right ?_
    rintro ⟨outcome, heq⟩
    cases heq
  covers := fun _ => Or.inl ⟨trace, addr, [], rfl, hlimit⟩

theorem Searches.resolved (h : Searches t policy origin (addr :: rest) trace)
    (hname : firstResolvable addr policy = some (name, i))
    {answer : Except (Error TErr) Resolved} {new : List Multiaddr}
    (hlead : ∀ b ∈ new, Leads t policy addr b)
    (hall : Steady t → ∀ b, Leads t policy addr b → b ∈ new) :
    Searches t policy origin (new ++ rest) (trace ++ [.resolve name answer]) where
  sound := by
    refine h.sound.expand hlead fun a ha => (dials_snoc.mp ha).resolve_right ?_
    rintro ⟨outcome, heq⟩
    cases heq
  covers := by
    intro hsteady
    refine (h.covers hsteady).imp (Drops.snoc · _) fun hcovers => ?_
    refine hcovers.expand (fun hfinal => ?_) (hall hsteady)
      fun a ha => dials_snoc.mpr (Or.inl ha)
    rw [show firstResolvable addr policy = none from hfinal] at hname
    cases hname

theorem Searches.dialed (h : Searches t policy origin (addr :: rest) trace)
    (hname : firstResolvable addr policy = none) (outcome : Dialed Output TErr) :
    Searches t policy origin rest (trace ++ [.dial addr outcome]) where
  sound := by
    refine h.sound.finish hname fun a ha => (dials_snoc.mp ha).imp_right ?_
    rintro ⟨outcome', heq⟩
    cases heq
    rfl
  covers := by
    intro hsteady
    refine (h.covers hsteady).imp (Drops.snoc · _) fun hcovers => ?_
    refine hcovers.finish (fun b => not_leads hname) fun a ha => dials_snoc.mpr ?_
    refine ha.imp_right ?_
    rintro rfl
    exact ⟨outcome, rfl⟩

/-- What the names of an address lead to is what their answer is replaced by. -/
theorem leads_iff {before : List (Event Output TErr)} {answer : Resolved}
    {addrs : List Multiaddr} (hname : firstResolvable addr policy = some (name, i))
    (hanswer : resolve t before name = .ok answer)
    (haddrs : answersFor addr i answer = some addrs) (hsteady : Steady t) :
    Leads t policy addr b ↔ b ∈ addrs := by
  constructor
  · rintro ⟨before', name', i', answer', addrs', hname', hanswer', haddrs', hb⟩
    rw [hname] at hname'
    cases hname'
    rw [hsteady before' before, hanswer] at hanswer'
    cases hanswer'
    rw [haddrs] at haddrs'
    cases haddrs'
    exact hb
  · exact fun hb => ⟨before, name, i, answer, addrs, hname, hanswer, haddrs, hb⟩

/-- One pass that does not end the loop goes on with the search. -/
theorem Searches.again {dialOpts : Opts} {s s' : Dialing Output TErr}
    (h : Searches t policy origin s.unresolved s.trace)
    (haccounts : Accounts t policy dialOpts s)
    (hpass : s.pass t policy dialOpts = .again s') :
    Searches t policy origin s'.unresolved s'.trace := by
  have hcases := s.pass_cases t policy dialOpts
  rw [hpass] at hcases
  cases hcases with
  | dropped addr rest name i hstack _ hlimit =>
      rw [hstack] at h
      exact h.dropped (haccounts.lookups.trans hlimit)
  | unanswered addr rest name i e hstack hname _ hanswer =>
      rw [hstack] at h
      have hnone : Steady t → ∀ b, Leads t policy addr b → b ∈ ([] : List Multiaddr) := by
        rintro hsteady b ⟨before, name', i', answer', addrs', hname', hanswer', -⟩
        rw [hname] at hname'
        cases hname'
        rw [hsteady before s.trace, hanswer] at hanswer'
        cases hanswer'
      exact h.resolved hname (fun b hb => absurd hb List.not_mem_nil) hnone
  | answered addr rest name i answer addrs hstack hname _ hanswer haddrs =>
      rw [hstack] at h
      have hrest :
          (((s.lookedUp rest name (.ok answer) ‹_›).pushAddrs addrs)).unresolved =
          addrs.reverse ++ rest := rfl
      rw [hrest]
      refine h.resolved hname (fun b hb => ?_) fun hsteady b hb => ?_
      · exact ⟨s.trace, name, i, answer, addrs, hname, hanswer, haddrs,
          List.mem_reverse.mp hb⟩
      · exact List.mem_reverse.mpr ((leads_iff hname hanswer haddrs hsteady).mp hb)
  | undialed addr rest outcome error hstack hname =>
      rw [hstack] at h
      exact h.dialed hname outcome

/-- The pass that ends the loop goes on with the search, and leaves something on the
stack only if it has connected or used up the attempts. -/
theorem Searches.done {dialOpts : Opts} {s : Dialing Output TErr}
    (h : Searches t policy origin s.unresolved s.trace)
    (haccounts : Accounts t policy dialOpts s)
    {r : Outcome Output TErr × List (Event Output TErr)}
    (hpass : s.pass t policy dialOpts = .done r) :
    ∃ stack, Searches t policy origin stack r.2 ∧
      (stack = [] ∨ (∃ out, r.1 = .returned (.ok out)) ∨
        r.2.countP Event.isAccepted = maxDialAttempts) := by
  have hcases := s.pass_cases t policy dialOpts
  rw [hpass] at hcases
  generalize hend : (Pass.done r : Pass (Dialing Output TErr) _) = p at hcases
  cases hcases with
  | finished hstack =>
      cases hend
      rw [hstack] at h
      exact ⟨[], h, Or.inl rfl⟩
  | connected addr rest out hstack hname hdial =>
      cases hend
      rw [hstack] at h
      exact ⟨rest, h.dialed hname _, Or.inr (Or.inl ⟨out, rfl⟩)⟩
  | stopped addr rest outcome error hstack hname hdial herror hstop =>
      cases hend
      rw [hstack] at h
      refine ⟨rest, h.dialed hname outcome, hstop.imp_right fun hattempts => Or.inr ?_⟩
      exact (haccounts.dialed rest hdial herror).attempts.trans hattempts
  | _ => cases hend

/-- `do_dial` dials only what the records of the address lead to, and only when there is
nothing left to resolve.  If the answers do not change during the call, a call that
fails with attempts left, and has not dropped a name for the limit of lookups, has
dialed all of it. -/
theorem do_dial_reaches (t : Surroundings Opts Output TErr)
    (dnsResolution : DnsResolution)
    (addr : Multiaddr) (dialOpts : Opts) :
    (∀ a, Dials (doDial t dnsResolution addr dialOpts).2 a →
      ReflTransGen (Leads t dnsResolution) addr a ∧ IsResolved dnsResolution a) ∧
    (Steady t → ∀ e, (doDial t dnsResolution addr dialOpts).1 = .returned (.error e) →
      (doDial t dnsResolution addr dialOpts).2.countP Event.isAccepted ≠ maxDialAttempts →
      ¬Drops (doDial t dnsResolution addr dialOpts).2 →
      ∀ a, ReflTransGen (Leads t dnsResolution) addr a → IsResolved dnsResolution a →
        Dials (doDial t dnsResolution addr dialOpts).2 a) := by
  obtain ⟨stack, hsearches, hend⟩ :
      ∃ stack, Searches t dnsResolution addr stack
        (doDial t dnsResolution addr dialOpts).2 ∧
        (stack = [] ∨
          (∃ out, (doDial t dnsResolution addr dialOpts).1 = .returned (.ok out)) ∨
          (doDial t dnsResolution addr dialOpts).2.countP Event.isAccepted =
            maxDialAttempts) := by
    refine (dialLoop t dnsResolution dialOpts).run_induct
      (P := fun s => Searches t dnsResolution addr s.unresolved s.trace ∧
        Accounts t dnsResolution dialOpts s)
      (Q := fun r => ∃ stack, Searches t dnsResolution addr stack r.2 ∧
        (stack = [] ∨ (∃ out, r.1 = .returned (.ok out)) ∨
          r.2.countP Event.isAccepted = maxDialAttempts)) ?_ ?_
      ⟨⟨.init ?_, fun _ => Or.inr .init⟩, accounts_start t dnsResolution dialOpts addr⟩
    · exact fun s s' h hpass => ⟨h.1.again h.2 hpass, h.2.again hpass⟩
    · exact fun s r h hpass => h.1.done h.2 hpass
    · rintro a ⟨outcome, hmem⟩
      cases hmem
  refine ⟨hsearches.sound.done, fun hsteady e herror hattempts hdrops a ha hfinal => ?_⟩
  rcases hend with rfl | ⟨out, hout⟩ | hlimit
  · exact ((hsearches.covers hsteady).resolve_left hdrops).complete ha hfinal
  · rw [hout] at herror
    cases herror
  · exact (hattempts hlimit).elim

/-- A name with two addresses, neither of which answers. -/
def twoAddresses : Surroundings Unit Unit String where
  ipv4Lookup := fun _ _ => .ok [1, 2]
  ipv6Lookup := fun _ _ => .error (.parse "no")
  txtLookup := fun _ _ => .error (.parse "no")
  tryFrom := fun _ => .error "no"
  dial := fun _ _ _ => .failed "down"

/-- One address was dialed, so the name leads to it; the name leads to the other, so it
was dialed. -/
theorem do_dial_reaches_twoAddresses :
    ReflTransGen (Leads twoAddresses .always) [.dns4 "a", .tcp 1] [.ip4 2, .tcp 1] ∧
      IsResolved .always [.ip4 2, .tcp 1] ∧
      Dials (doDial twoAddresses .always [.dns4 "a", .tcp 1] ()).2 [.ip4 1, .tcp 1] := by
  have hrun : doDial twoAddresses .always [.dns4 "a", .tcp 1] () =
      (.returned (.error (.dial [.transport "down", .transport "down"])),
        [.resolve (.dns4 "a") (.ok (.many [.ip4 1, .ip4 2])),
          .dial [.ip4 2, .tcp 1] (.failed "down"),
          .dial [.ip4 1, .tcp 1] (.failed "down")]) :=
    Loop.run_of_runFor _ (n := 3) rfl
  have hsteady : Steady twoAddresses := by
    intro before before' name
    cases name with
    | _ => rfl
  have hlead : Leads twoAddresses .always [.dns4 "a", .tcp 1] [.ip4 1, .tcp 1] :=
    ⟨[], .dns4 "a", 0, .many [.ip4 1, .ip4 2], _, rfl, rfl, rfl, List.mem_cons_self⟩
  obtain ⟨hreached, hdialed⟩ := do_dial_reaches twoAddresses .always
    [.dns4 "a", .tcp 1] ()
  have hfirst := hreached [.ip4 2, .tcp 1] ⟨.failed "down", by rw [hrun]; simp⟩
  refine ⟨hfirst.1, hfirst.2, hdialed hsteady
    (.dial [.transport "down", .transport "down"]) ?_ ?_ ?_ _ (.single hlead) rfl⟩
  · rw [hrun]
  · rw [hrun]
    decide
  · rw [hrun]
    rintro ⟨before, a, after, heq, -⟩
    have hmem : Event.dropped a ∈ before ++ .dropped a :: after := by simp
    rw [← heq] at hmem
    simp at hmem

end Connexa.Dns
