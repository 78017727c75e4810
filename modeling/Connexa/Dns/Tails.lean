import Mathlib.Data.List.DropRight
import Connexa.Dns.Transport

/-!
# The tail of a dialed address

An answer of the resolver takes the place of a DNS component, and the address of a TXT
record has to end in everything that stood behind the component.  So what stands behind
the last DNS component of the address given to `do_dial` is the end of every address on
the stack.
-/

namespace Connexa.Dns

variable {Opts Output TErr : Type}

/-! ## Behind the last DNS component -/

/-- A `/dns`, `/dns4`, `/dns6` or `/dnsaddr`. -/
def isDns : Protocol → Bool
  | .dns _ | .dns4 _ | .dns6 _ | .dnsaddr _ => true
  | _ => false

/-- The longest suffix without a DNS component. -/
structure IsTail (addr tail : Multiaddr) : Prop where
  suffix : tail <:+ addr
  free : ∀ p ∈ tail, isDns p = false
  longest : ∀ other : Multiaddr, other <:+ addr → (∀ p ∈ other, isDns p = false) →
    other.length ≤ tail.length

def dnsTail (addr : Multiaddr) : Multiaddr :=
  addr.rtakeWhile fun p => !isDns p

theorem dnsTail_suffix (addr : Multiaddr) : dnsTail addr <:+ addr :=
  List.rtakeWhile_suffix _ _

theorem isDns_of_mem_dnsTail {addr : Multiaddr} {p : Protocol} (h : p ∈ dnsTail addr) :
    isDns p = false := by
  simpa using List.mem_rtakeWhile_imp h

/-- No suffix without a DNS component is longer. -/
theorem suffix_dnsTail {addr suffix : Multiaddr} (h : suffix <:+ addr)
    (hfree : ∀ p ∈ suffix, isDns p = false) : suffix <:+ dnsTail addr := by
  induction addr using List.reverseRecOn generalizing suffix with
  | nil => exact h
  | append_singleton addr last ih =>
      rcases List.eq_nil_or_concat suffix with rfl | ⟨init, p, rfl⟩
      · exact List.nil_suffix
      · obtain ⟨before, hbefore⟩ := h
        rw [List.concat_eq_append, ← List.append_assoc] at hbefore
        obtain ⟨haddr, hlast⟩ := List.append_inj' hbefore rfl
        obtain rfl := List.singleton_inj.mp hlast
        rw [List.concat_eq_append] at hfree ⊢
        have hp : isDns p = false := hfree p (List.mem_append_right _ List.mem_cons_self)
        rw [dnsTail, List.rtakeWhile_concat_pos _ _ _ (by simp [hp])]
        obtain ⟨rest, hrest⟩ := ih ⟨before, haddr⟩
          fun q hq => hfree q (List.mem_append_left _ hq)
        exact ⟨rest, by rw [← List.append_assoc, hrest]; rfl⟩

theorem isTail_dnsTail (addr : Multiaddr) : IsTail addr (dnsTail addr) where
  suffix := dnsTail_suffix addr
  free := fun _ hp => isDns_of_mem_dnsTail hp
  longest := fun _ h hfree => (suffix_dnsTail h hfree).length_le

theorem isDns_of_isResolvable {p : Protocol} {resolveDns : Bool}
    (h : isResolvable p resolveDns = true) : isDns p = true := by
  cases p with
  | dns name => rfl
  | dns4 name => rfl
  | dns6 name => rfl
  | dnsaddr name => rfl
  | _ => cases h

theorem isResolvable_of_firstResolvable {addr : Multiaddr} {policy : DnsResolution}
    {name : Protocol} {i : ℕ} (h : firstResolvable addr policy = some (name, i)) :
    isResolvable name (shouldResolveDns addr policy) = true :=
  List.find?_some (p := fun e : Protocol × ℕ => isResolvable e.1 _) h

/-- A tail without DNS components stands behind the component to resolve. -/
theorem suffix_behind {addr tail : Multiaddr} (h : tail <:+ addr)
    (hfree : ∀ p ∈ tail, isDns p = false) {policy : DnsResolution}
    {name : Protocol} {i : ℕ}
    (hname : firstResolvable addr policy = some (name, i)) :
    tail <:+ addr.drop (i + 1) := by
  obtain ⟨before, rfl⟩ := h
  have hindex := getElem?_of_firstResolvable hname
  have hbefore : i < before.length := by
    by_contra hlate
    rw [List.getElem?_append_right (not_lt.mp hlate)] at hindex
    have hdns := isDns_of_isResolvable (isResolvable_of_firstResolvable hname)
    rw [hfree name (List.mem_of_getElem? hindex)] at hdns
    cases hdns
  rw [List.drop_append_of_le_length hbefore]
  exact List.suffix_append _ _

/-! ## What the answers end in -/

theorem suffix_of_mem_applicable {start suffix a : Multiaddr} {n : ℕ}
    {addrs : List Multiaddr} (h : a ∈ applicable start suffix n addrs) :
    suffix <:+ a := by
  induction addrs generalizing n with
  | nil => cases h
  | cons b rest ih =>
      rw [applicable] at h
      split at h
      · next hends =>
        split at h
        · rcases List.mem_cons.mp h with rfl | h
          · exact List.suffix_append_of_suffix (List.isSuffixOf_iff_suffix.mp hends)
          · exact ih h
        · exact ih h
      · exact ih h

/-- Replacing a component keeps what stands behind it. -/
theorem drop_suffix_set (addr : Multiaddr) (i : ℕ) (ip : Protocol) :
    addr.drop (i + 1) <:+ addr.set i ip := by
  rw [← List.drop_set_of_lt (Nat.lt_succ_self i)]
  exact List.drop_suffix _ _

theorem suffix_of_mem_answersFor {addr a : Multiaddr} {i : ℕ} {answer : Resolved}
    {addrs : List Multiaddr} (hi : i < addr.length)
    (h : answersFor addr i answer = some addrs) (ha : a ∈ addrs) :
    addr.drop (i + 1) <:+ a := by
  cases answer with
  | one ip =>
      rw [answersFor_one hi] at h
      obtain rfl := Option.some_inj.mp h
      obtain rfl := List.mem_singleton.mp ha
      exact drop_suffix_set addr i ip
  | many ips =>
      rw [answersFor_many hi] at h
      obtain rfl := Option.some_inj.mp h
      obtain ⟨ip, -, rfl⟩ := List.mem_map.mp ha
      exact drop_suffix_set addr i ip
  | addrs records =>
      obtain rfl := Option.some_inj.mp h
      exact suffix_of_mem_applicable ha

/-! ## Every address on the stack -/

/-- The line is no dial, or one of an address that ends in the tail and has nothing left
to resolve. -/
def Event.Settled (policy : DnsResolution) (tail : Multiaddr) :
    Event Output TErr → Prop
  | .dial addr _ =>
      tail <:+ addr ∧ ∀ p ∈ addr, isResolvable p (shouldResolveDns addr policy) = false
  | _ => True

/-- The addresses on the stack and the dialed ones keep the tail. -/
structure KeepsTail (policy : DnsResolution) (tail : Multiaddr)
    (s : Dialing Output TErr) : Prop where
  stack : ∀ addr ∈ s.unresolved, tail <:+ addr
  dialed : ∀ e ∈ s.trace, e.Settled policy tail

theorem settled_dial {policy : DnsResolution} {tail addr : Multiaddr}
    (h : tail <:+ addr) (hname : firstResolvable addr policy = none)
    (outcome : Dialed Output TErr) :
    (Event.dial addr outcome).Settled policy tail := by
  refine ⟨h, fun p hp => ?_⟩
  obtain ⟨i, hi⟩ := List.mem_iff_getElem?.mp hp
  exact Bool.eq_false_of_not_eq_true
    (List.find?_eq_none.mp hname (p, i) (List.mem_zipIdx_iff_getElem?.mpr hi))

theorem settled_snoc {policy : DnsResolution} {tail : Multiaddr}
    {trace : List (Event Output TErr)} {e : Event Output TErr}
    (h : ∀ e ∈ trace, e.Settled policy tail) (he : e.Settled policy tail) :
    ∀ e' ∈ trace ++ [e], e'.Settled policy tail := by
  intro e' hmem
  rcases List.mem_append.mp hmem with hmem | hmem
  · exact h e' hmem
  · rw [List.mem_singleton.mp hmem]
    exact he

/-- One pass that does not end the loop keeps the tail. -/
theorem KeepsTail.again {t : Surroundings Opts Output TErr} {policy : DnsResolution}
    {dialOpts : Opts} {tail : Multiaddr} (hfree : ∀ p ∈ tail, isDns p = false)
    {s s' : Dialing Output TErr} (h : KeepsTail policy tail s)
    (hpass : s.pass t policy dialOpts = .again s') : KeepsTail policy tail s' := by
  have hcases := s.pass_cases t policy dialOpts
  have hrest : ∀ addr rest, s.unresolved = addr :: rest →
      tail <:+ addr ∧ ∀ a ∈ rest, tail <:+ a := by
    intro addr rest hstack
    have hall := h.stack
    rw [hstack] at hall
    exact List.forall_mem_cons.mp hall
  rw [hpass] at hcases
  cases hcases with
  | dropped addr rest name i hstack =>
      exact ⟨(hrest addr rest hstack).2, settled_snoc h.dialed trivial⟩
  | unanswered addr rest name i e hstack =>
      exact ⟨(hrest addr rest hstack).2, settled_snoc h.dialed trivial⟩
  | answered addr rest name i answer addrs hstack hname _ _ haddrs =>
      refine ⟨?_, settled_snoc h.dialed trivial⟩
      intro a ha
      rcases List.mem_append.mp ha with ha | ha
      · -- the answers end in what stood behind the component
        have hindex := (List.getElem?_eq_some_iff.mp
          (getElem?_of_firstResolvable hname)).1
        exact (suffix_behind (hrest addr rest hstack).1 hfree hname).trans
          (suffix_of_mem_answersFor hindex haddrs (List.mem_reverse.mp ha))
      · exact (hrest addr rest hstack).2 a ha
  | undialed addr rest outcome error hstack hname =>
      obtain ⟨haddr, hrest⟩ := hrest addr rest hstack
      exact ⟨hrest, settled_snoc h.dialed (settled_dial haddr hname outcome)⟩

/-- The pass that ends the loop may dial one more address of the stack. -/
theorem KeepsTail.done {t : Surroundings Opts Output TErr} {policy : DnsResolution}
    {dialOpts : Opts} {tail : Multiaddr} {s : Dialing Output TErr}
    (h : KeepsTail policy tail s) {r : Outcome Output TErr × List (Event Output TErr)}
    (hpass : s.pass t policy dialOpts = .done r) : ∀ e ∈ r.2, e.Settled policy tail := by
  have hcases := s.pass_cases t policy dialOpts
  have htop : ∀ addr rest, s.unresolved = addr :: rest → tail <:+ addr := by
    intro addr rest hstack
    refine h.stack addr ?_
    rw [hstack]
    exact List.mem_cons_self
  rw [hpass] at hcases
  generalize hend : (Pass.done r : Pass (Dialing Output TErr) _) = p at hcases
  cases hcases with
  | finished =>
      cases hend
      exact h.dialed
  | connected addr rest out hstack hname =>
      cases hend
      exact settled_snoc h.dialed (settled_dial (htop addr rest hstack) hname _)
  | stopped addr rest outcome error hstack hname =>
      cases hend
      exact settled_snoc h.dialed (settled_dial (htop addr rest hstack) hname _)
  | _ => cases hend

/-- Every dialed address ends in the tail and has nothing left to resolve. -/
structure TailKept (policy : DnsResolution) (tail : Multiaddr)
    (trace : List (Event Output TErr)) : Prop where
  ends : ∀ addr outcome, Event.dial addr outcome ∈ trace → tail <:+ addr
  resolved : ∀ addr outcome, Event.dial addr outcome ∈ trace →
    ∀ p ∈ addr, isResolvable p (shouldResolveDns addr policy) = false

/-- Whatever the resolver answers, every address that is handed to the inner transport
ends in the tail of the given one and has nothing left to resolve. -/
theorem do_dial_keeps_tail (t : Surroundings Opts Output TErr)
    (dnsResolution : DnsResolution) (addr : Multiaddr) (dialOpts : Opts) :
    ∃ tail, IsTail addr tail ∧
      TailKept dnsResolution tail (doDial t dnsResolution addr dialOpts).2 := by
  have hsettled : ∀ e ∈ (doDial t dnsResolution addr dialOpts).2,
      e.Settled dnsResolution (dnsTail addr) := by
    refine (dialLoop t dnsResolution dialOpts).run_induct
      (Q := fun r => ∀ e ∈ r.2, e.Settled dnsResolution (dnsTail addr))
      (P := KeepsTail dnsResolution (dnsTail addr)) ?_
        (fun _ _ h hpass => h.done hpass) ?_
    · exact fun _ _ h hpass => h.again (isTail_dnsTail addr).free hpass
    · refine ⟨?_, nofun⟩
      intro a ha
      rw [List.mem_singleton.mp ha]
      exact dnsTail_suffix addr
  exact ⟨dnsTail addr, isTail_dnsTail addr, fun a outcome ha => (hsettled _ ha).1,
    fun a outcome ha => (hsettled _ ha).2⟩

end Connexa.Dns
