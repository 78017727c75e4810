import Mathlib.Data.Prod.Lex
import Connexa.Multiaddr
import Connexa.Support.Loops

/-!
# The DNS transport

`builder/dns_websys/mod.rs` dials addresses with DNS components: a stack of addresses is
worked off, the first component of an address that can be resolved is looked up and
replaced by the answers, and addresses without such a component go to the inner
transport.  The resolver and the inner transport are a `Surroundings`, whose answers may
depend on everything that happened before; what happens is kept in a trace that the code
never reads.
-/

namespace Connexa.Dns

/-- `DNSADDR_PREFIX`. -/
def dnsaddrPrefix : String := "_dnsaddr."

/-- `MAX_DIAL_ATTEMPTS`. -/
def maxDialAttempts : ℕ := 16

/-- `MAX_DNS_LOOKUPS`. -/
def maxDnsLookups : ℕ := 32

/-- `MAX_TXT_RECORDS`. -/
def maxTxtRecords : ℕ := 16

/-- Policy for resolving `/dns`, `/dns4` and `/dns6`. -/
inductive DnsResolution where
  | auto
  | always
  | never
  deriving DecidableEq

inductive ResolveError where
  | fetch (message : String)
  | http (status : BitVec 16)
  | status (status : BitVec 32)
  | parse (message : String)
  | url (message : String)
  deriving DecidableEq

/-- `Error<TErr>` of the transport. -/
inductive Error (TErr : Type) where
  | transport (err : TErr)
  | resolveError (err : ResolveError)
  | multiaddrNotSupported (addr : Multiaddr)
  | tooManyLookups
  | dial (errors : List (Error TErr))

/-- `TransportError` of the inner transport, when it refuses an address. -/
inductive TransportError (TErr : Type) where
  | multiaddrNotSupported (addr : Multiaddr)
  | other (err : TErr)

/-- The successful outcome of `resolve`. -/
inductive Resolved where
  | one (proto : Protocol)
  | many (protos : List Protocol)
  | addrs (addrs : List Multiaddr)

/-- What becomes of a dial: the inner transport refuses the address, or it accepts it and
the dial fails or connects. -/
inductive Dialed (Output TErr : Type) where
  | refused (err : TransportError TErr)
  | failed (err : TErr)
  | connected (out : Output)

/-- One line of the trace. -/
inductive Event (Output TErr : Type) where
  /-- `resolve` was called for the component. -/
  | resolve (name : Protocol) (answer : Except (Error TErr) Resolved)
  /-- The address was given to the inner transport. -/
  | dial (addr : Multiaddr) (outcome : Dialed Output TErr)
  /-- The address was dropped at the limit of lookups. -/
  | dropped (addr : Multiaddr)

/-- The resolver and the inner transport.  `tryFrom` is `Multiaddr::try_from`. -/
structure Surroundings (Opts Output TErr : Type) where
  ipv4Lookup : List (Event Output TErr) → String → Except ResolveError (List (BitVec 32))
  ipv6Lookup : List (Event Output TErr) → String → Except ResolveError (List (BitVec 128))
  txtLookup : List (Event Output TErr) → String → Except ResolveError (List String)
  tryFrom : String → Except String Multiaddr
  dial : List (Event Output TErr) → Multiaddr → Opts → Dialed Output TErr

/-! ## Resolving one component -/

def shouldResolveDns (addr : Multiaddr) (policy : DnsResolution) : Bool :=
  match policy with
  | .always => true
  | .never => false
  | .auto => addr.any (· == .webrtcDirect)

def isResolvable (proto : Protocol) (resolveDns : Bool) : Bool :=
  match proto with
  | .dnsaddr _ => true
  | .dns _ | .dns4 _ | .dns6 _ => resolveDns
  | _ => false

/-- `str::strip_prefix`. -/
def stripPrefix (start text : String) : Option String :=
  if start.toList.isPrefixOf text.toList then
    some (String.ofList (text.toList.drop start.length))
  else none

section

variable {Opts Output TErr : Type}

/-- Parse a record of the form `dnsaddr=` followed by an address. -/
def parseDnsaddrTxt (t : Surroundings Opts Output TErr) (txt : String) :
    Except String Multiaddr :=
  match stripPrefix "dnsaddr=" txt with
  | none => .error "Missing `dnsaddr=` prefix."
  | some a => t.tryFrom a

/-- The error for an answer without records. -/
def noMatchingRecords : Error TErr :=
  .resolveError (.fetch "no matching records found")

def collect (protocols : List Protocol) : Except (Error TErr) Resolved :=
  match protocols with
  | [] => .error noMatchingRecords
  | [proto] => .ok (.one proto)
  | _ => .ok (.many protocols)

def resolve (t : Surroundings Opts Output TErr) (trace : List (Event Output TErr))
    (proto : Protocol) : Except (Error TErr) Resolved :=
  match proto with
  | .dns name =>
      match t.ipv4Lookup trace name, t.ipv6Lookup trace name with
      | .error e, .error _ => .error (.resolveError e)
      | v4, v6 =>
          collect ((v4.toOption.getD []).map .ip4 ++ (v6.toOption.getD []).map .ip6)
  | .dns4 name =>
      match t.ipv4Lookup trace name with
      | .error e => .error (.resolveError e)
      | .ok ips => collect (ips.map .ip4)
  | .dns6 name =>
      match t.ipv6Lookup trace name with
      | .error e => .error (.resolveError e)
      | .ok ips => collect (ips.map .ip6)
  | .dnsaddr name =>
      match t.txtLookup trace (dnsaddrPrefix ++ name) with
      | .error e => .error (.resolveError e)
      | .ok txts =>
          .ok (.addrs (txts.filterMap fun txt => (parseDnsaddrTxt t txt).toOption))
  | proto => .ok (.one proto)

/-! ## The loop of `do_dial` -/

/-- The variables of the loop, with the top of the stack first. -/
structure Dialing (Output TErr : Type) where
  unresolved : List Multiaddr
  dialErrors : List (Error TErr)
  dnsLookups : ℕ
  dialAttempts : ℕ
  trace : List (Event Output TErr)
  lookups_le : dnsLookups ≤ maxDnsLookups

/-- How a call of `do_dial` ends. -/
inductive Outcome (Output TErr : Type) where
  | returned (result : Except (Error TErr) Output)
  | panicked (message : String)

/-- The first component that is to be resolved, with its index. -/
def firstResolvable (addr : Multiaddr) (policy : DnsResolution) : Option (Protocol × ℕ) :=
  addr.zipIdx.find? fun e => isResolvable e.1 (shouldResolveDns addr policy)

/-- The loop over the records of a `/dnsaddr`: the addresses to push, after `n` were. -/
def applicable (start suffix : Multiaddr) : ℕ → List Multiaddr → List Multiaddr
  | _, [] => []
  | n, a :: rest =>
      if a.endsWith suffix then
        if n < maxTxtRecords then (start ++ a) :: applicable start suffix (n + 1) rest
        else applicable start suffix n rest
      else applicable start suffix n rest

/-- The addresses to push for an answer; nothing if an `expect` fails. -/
def answersFor (addr : Multiaddr) (i : ℕ) (answer : Resolved) : Option (List Multiaddr) :=
  match answer with
  | .one ip => (addr.replace i fun _ => some ip).map fun addr => [addr]
  | .many ips => ips.mapM fun ip => addr.replace i fun _ => some ip
  | .addrs addrs => some (applicable (addr.take i) (addr.drop (i + 1)) 0 addrs)

/-- What a refused or failed dial adds to the errors. -/
def Dialed.error? : Dialed Output TErr → Option (Error TErr)
  | .refused (.multiaddrNotSupported addr) => some (.multiaddrNotSupported addr)
  | .refused (.other err) => some (.transport err)
  | .failed err => some (.transport err)
  | .connected _ => none

/-- The inner transport accepted the dial. -/
def Dialed.accepted : Dialed Output TErr → Bool
  | .refused _ => false
  | _ => true

/-- What is returned after the loop. -/
def Dialing.aggregate (s : Dialing Output TErr) : Except (Error TErr) Output :=
  if s.dialErrors.isEmpty then .error noMatchingRecords else .error (.dial s.dialErrors)

/-- Leave the loop. -/
def Dialing.leave (s : Dialing Output TErr) :
    Pass (Dialing Output TErr) (Outcome Output TErr × List (Event Output TErr)) :=
  .done (.returned s.aggregate, s.trace)

/-- The address on top of `rest` is dropped. -/
def Dialing.dropped (s : Dialing Output TErr) (addr : Multiaddr) (rest : List Multiaddr) :
    Dialing Output TErr :=
  { s with
    unresolved := rest
    dialErrors := s.dialErrors ++ [.tooManyLookups]
    trace := s.trace ++ [.dropped addr] }

/-- A component of the address on top of `rest` was looked up. -/
def Dialing.lookedUp (s : Dialing Output TErr) (rest : List Multiaddr) (name : Protocol)
    (answer : Except (Error TErr) Resolved) (h : s.dnsLookups < maxDnsLookups) :
    Dialing Output TErr :=
  { s with
    unresolved := rest
    dnsLookups := s.dnsLookups + 1
    trace := s.trace ++ [.resolve name answer]
    lookups_le := h }

/-- `dial_errors.push(error)`. -/
def Dialing.pushError (s : Dialing Output TErr) (error : Error TErr) :
    Dialing Output TErr :=
  { s with dialErrors := s.dialErrors ++ [error] }

/-- `unresolved.push(addr)` for every address in turn. -/
def Dialing.pushAddrs (s : Dialing Output TErr) (addrs : List Multiaddr) :
    Dialing Output TErr :=
  { s with unresolved := addrs.reverse ++ s.unresolved }

/-- The address on top of `rest` was dialed. -/
def Dialing.dialed (s : Dialing Output TErr) (addr : Multiaddr) (rest : List Multiaddr)
    (outcome : Dialed Output TErr) : Dialing Output TErr :=
  { s with
    unresolved := rest
    dialErrors := s.dialErrors ++ outcome.error?.toList
    dialAttempts := if outcome.accepted then s.dialAttempts + 1 else s.dialAttempts
    trace := s.trace ++ [.dial addr outcome] }

/-- Replace the component of the address by the answer of the resolver. -/
def Dialing.lookup (t : Surroundings Opts Output TErr) (s : Dialing Output TErr)
    (addr : Multiaddr) (rest : List Multiaddr) (name : Protocol) (i : ℕ)
    (h : s.dnsLookups < maxDnsLookups) :
    Pass (Dialing Output TErr) (Outcome Output TErr × List (Event Output TErr)) :=
  let answer := resolve t s.trace name
  let s := s.lookedUp rest name answer h
  match answer with
  | .error e => .again (s.pushError e)
  | .ok answer =>
      match answersFor addr i answer with
      | none => .done (.panicked "`i` is a valid index", s.trace)
      | some addrs => .again (s.pushAddrs addrs)

/-- Dial the fully resolved address. -/
def Dialing.tryDial (t : Surroundings Opts Output TErr) (dialOpts : Opts)
    (s : Dialing Output TErr) (addr : Multiaddr) (rest : List Multiaddr) :
    Pass (Dialing Output TErr) (Outcome Output TErr × List (Event Output TErr)) :=
  let outcome := t.dial s.trace addr dialOpts
  let s := s.dialed addr rest outcome
  match outcome with
  | .connected out => .done (.returned (.ok out), s.trace)
  | _ =>
      if rest.isEmpty then s.leave
      else if s.dialAttempts = maxDialAttempts then s.leave
      else .again s

/-- One pass of the loop. -/
def Dialing.pass (t : Surroundings Opts Output TErr) (dnsResolution : DnsResolution)
    (dialOpts : Opts) (s : Dialing Output TErr) :
    Pass (Dialing Output TErr) (Outcome Output TErr × List (Event Output TErr)) :=
  match s.unresolved with
  | [] => s.leave
  | addr :: rest =>
      match firstResolvable addr dnsResolution with
      | some (name, i) =>
          if h : s.dnsLookups = maxDnsLookups then .again (s.dropped addr rest)
          else s.lookup t addr rest name i (lt_of_le_of_ne s.lookups_le h)
      | none => s.tryDial t dialOpts addr rest

/-! ## What one pass can do -/

/-- The cases of one pass. -/
inductive PassCases (t : Surroundings Opts Output TErr) (dnsResolution : DnsResolution)
    (dialOpts : Opts) (s : Dialing Output TErr) :
    Pass (Dialing Output TErr) (Outcome Output TErr × List (Event Output TErr)) →
      Prop where
  | finished (h : s.unresolved = []) : PassCases t dnsResolution dialOpts s s.leave
  | dropped (addr : Multiaddr) (rest : List Multiaddr) (name : Protocol) (i : ℕ)
      (h : s.unresolved = addr :: rest)
      (hname : firstResolvable addr dnsResolution = some (name, i))
      (hlimit : s.dnsLookups = maxDnsLookups) :
      PassCases t dnsResolution dialOpts s (.again (s.dropped addr rest))
  | unanswered (addr : Multiaddr) (rest : List Multiaddr) (name : Protocol) (i : ℕ)
      (e : Error TErr) (h : s.unresolved = addr :: rest)
      (hname : firstResolvable addr dnsResolution = some (name, i))
      (hlookups : s.dnsLookups < maxDnsLookups)
      (hanswer : resolve t s.trace name = .error e) :
      PassCases t dnsResolution dialOpts s
        (.again ((s.lookedUp rest name (.error e) hlookups).pushError e))
  | answered (addr : Multiaddr) (rest : List Multiaddr) (name : Protocol) (i : ℕ)
      (answer : Resolved) (addrs : List Multiaddr) (h : s.unresolved = addr :: rest)
      (hname : firstResolvable addr dnsResolution = some (name, i))
      (hlookups : s.dnsLookups < maxDnsLookups)
      (hanswer : resolve t s.trace name = .ok answer)
      (haddrs : answersFor addr i answer = some addrs) :
      PassCases t dnsResolution dialOpts s
        (.again ((s.lookedUp rest name (.ok answer) hlookups).pushAddrs addrs))
  | connected (addr : Multiaddr) (rest : List Multiaddr) (out : Output)
      (h : s.unresolved = addr :: rest)
      (hname : firstResolvable addr dnsResolution = none)
      (hdial : t.dial s.trace addr dialOpts = .connected out) :
      PassCases t dnsResolution dialOpts s
        (.done (.returned (.ok out), s.trace ++ [.dial addr (.connected out)]))
  | stopped (addr : Multiaddr) (rest : List Multiaddr) (outcome : Dialed Output TErr)
      (error : Error TErr) (h : s.unresolved = addr :: rest)
      (hname : firstResolvable addr dnsResolution = none)
      (hdial : t.dial s.trace addr dialOpts = outcome)
      (herror : outcome.error? = some error)
      (hstop : rest = [] ∨ (s.dialed addr rest outcome).dialAttempts = maxDialAttempts) :
      PassCases t dnsResolution dialOpts s (s.dialed addr rest outcome).leave
  | undialed (addr : Multiaddr) (rest : List Multiaddr) (outcome : Dialed Output TErr)
      (error : Error TErr) (h : s.unresolved = addr :: rest)
      (hname : firstResolvable addr dnsResolution = none)
      (hdial : t.dial s.trace addr dialOpts = outcome)
      (herror : outcome.error? = some error) (hrest : rest ≠ [])
      (hattempts : (s.dialed addr rest outcome).dialAttempts ≠ maxDialAttempts) :
      PassCases t dnsResolution dialOpts s (.again (s.dialed addr rest outcome))

/-- The component to resolve stands at its index. -/
theorem getElem?_of_firstResolvable {addr : Multiaddr} {policy : DnsResolution}
    {name : Protocol} {i : ℕ} (h : firstResolvable addr policy = some (name, i)) :
    addr[i]? = some name :=
  List.mem_zipIdx_iff_getElem?.mp (List.mem_of_find?_eq_some h)

theorem answersFor_one {addr : Multiaddr} {i : ℕ} (h : i < addr.length) (ip : Protocol) :
    answersFor addr i (.one ip) = some [addr.set i ip] := by
  rw [answersFor, Multiaddr.replace_some h]
  rfl

theorem answersFor_many {addr : Multiaddr} {i : ℕ} (h : i < addr.length)
    (ips : List Protocol) :
    answersFor addr i (.many ips) = some (ips.map (addr.set i)) := by
  simp only [answersFor, Multiaddr.replace_some h]
  exact List.mapM_pure

/-- The index of a component to resolve is valid, so neither `expect` fails. -/
theorem answersFor_isSome {addr : Multiaddr} {i : ℕ} (h : i < addr.length)
    (answer : Resolved) : ∃ addrs, answersFor addr i answer = some addrs := by
  cases answer with
  | one ip => exact ⟨_, answersFor_one h ip⟩
  | many ips => exact ⟨_, answersFor_many h ips⟩
  | addrs addrs => exact ⟨_, rfl⟩

theorem Dialing.pass_cases (t : Surroundings Opts Output TErr)
    (dnsResolution : DnsResolution) (dialOpts : Opts) (s : Dialing Output TErr) :
    PassCases t dnsResolution dialOpts s (s.pass t dnsResolution dialOpts) := by
  unfold Dialing.pass
  split
  · next h => exact .finished h
  · next addr rest h =>
    split
    · next name i hname =>
      split
      · next hlimit => exact .dropped addr rest name i h hname hlimit
      · next hlimit =>
        have hlookups := lt_of_le_of_ne s.lookups_le hlimit
        have hindex :=
          (List.getElem?_eq_some_iff.mp (getElem?_of_firstResolvable hname)).1
        unfold Dialing.lookup
        dsimp only
        split
        · next e hanswer =>
          rw [hanswer]
          exact .unanswered addr rest name i e h hname hlookups hanswer
        · next answer hanswer =>
          obtain ⟨addrs, haddrs⟩ := answersFor_isSome hindex answer
          rw [haddrs, hanswer]
          exact .answered addr rest name i answer addrs h hname hlookups hanswer haddrs
    · next hname =>
      unfold Dialing.tryDial
      dsimp only
      split
      · next out hdial =>
        rw [hdial]
        exact .connected addr rest out h hname hdial
      · next hnot =>
        obtain ⟨error, herror⟩ :
            ∃ error, (t.dial s.trace addr dialOpts).error? = some error := by
          cases hdial : t.dial s.trace addr dialOpts with
          | refused err => cases err <;> exact ⟨_, rfl⟩
          | failed err => exact ⟨_, rfl⟩
          | connected out => exact absurd hdial (hnot out)
        split
        · next hempty =>
          exact .stopped addr rest _ error h hname rfl herror
            (Or.inl (List.isEmpty_iff.mp hempty))
        · next hempty =>
          split
          · next hattempts =>
            exact .stopped addr rest _ error h hname rfl herror (Or.inr hattempts)
          · next hattempts =>
            exact .undialed addr rest _ error h hname rfl herror
              (fun hnil => hempty (List.isEmpty_iff.mpr hnil)) hattempts

/-! ## The whole call -/

/-- Every pass uses up a lookup or an address. -/
def Dialing.Closer (s' s : Dialing Output TErr) : Prop :=
  Prod.Lex (· < ·) (· < ·) (maxDnsLookups - s'.dnsLookups, s'.unresolved.length)
    (maxDnsLookups - s.dnsLookups, s.unresolved.length)

theorem Dialing.closer_wf : WellFounded (@Dialing.Closer Output TErr) :=
  InvImage.wf (fun s : Dialing Output TErr =>
    (maxDnsLookups - s.dnsLookups, s.unresolved.length))
    (WellFounded.prod_lex Nat.lt_wfRel.wf Nat.lt_wfRel.wf)

theorem Dialing.closer_of_shorter {s s' : Dialing Output TErr} {addr : Multiaddr}
    (h : s.unresolved = addr :: s'.unresolved) (hlookups : s'.dnsLookups = s.dnsLookups) :
    Dialing.Closer s' s := by
  unfold Dialing.Closer
  rw [hlookups, h]
  exact Prod.Lex.right _ (Nat.lt_succ_self _)

theorem Dialing.closer_of_lookup {s s' : Dialing Output TErr}
    (h : s'.dnsLookups = s.dnsLookups + 1) : Dialing.Closer s' s := by
  have hle := s'.lookups_le
  apply Prod.Lex.left
  omega

/-- The loop of `do_dial`. -/
def dialLoop (t : Surroundings Opts Output TErr) (dnsResolution : DnsResolution)
    (dialOpts : Opts) :
    Loop (Dialing Output TErr) (Outcome Output TErr × List (Event Output TErr)) where
  body := Dialing.pass t dnsResolution dialOpts
  Closer := Dialing.Closer
  wf := Dialing.closer_wf
  closer := by
    intro s s' hpass
    have hcases := s.pass_cases t dnsResolution dialOpts
    rw [hpass] at hcases
    cases hcases with
    | dropped addr rest name i h => exact Dialing.closer_of_shorter h rfl
    | unanswered addr rest name i e => exact Dialing.closer_of_lookup rfl
    | answered addr rest name i answer addrs => exact Dialing.closer_of_lookup rfl
    | undialed addr rest outcome error h => exact Dialing.closer_of_shorter h rfl

/-- The loop starts with the address alone. -/
def Dialing.start (addr : Multiaddr) : Dialing Output TErr where
  unresolved := [addr]
  dialErrors := []
  dnsLookups := 0
  dialAttempts := 0
  trace := []
  lookups_le := Nat.zero_le _

/-- `Transport::do_dial`, with the trace of the call. -/
def doDial (t : Surroundings Opts Output TErr) (dnsResolution : DnsResolution)
    (addr : Multiaddr) (dialOpts : Opts) :
    Outcome Output TErr × List (Event Output TErr) :=
  (dialLoop t dnsResolution dialOpts).run (Dialing.start addr)

end

end Connexa.Dns
