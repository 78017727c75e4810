import Connexa.Support.History
import Connexa.Autorelay.Calls

/-!
# Runs

A run creates the behaviour and then serves inputs in any order.  Between two
calls every hash map may be iterated in another order.  What the environment
promises about its inputs is a `Contract`; the two induction rules at the end
carry an invariant from the elementary changes, or from whole calls, to every
reachable state.
-/

namespace Connexa.Autorelay

open HashMap

/-- What the environment promises about the next input. -/
abbrev Contract := World → Input → Prop

/-- No promise at all. -/
def Contract.none : Contract := fun _ _ => True

/-- The two states differ in the iteration order of their maps only. -/
structure Shuffled (w w' : World) : Prop where
  same : w' = { w with
    connections := w'.connections
    reservations := w'.reservations
    externalReservations := w'.externalReservations
    staticRelays := w'.staticRelays
    pendingStaticDials := w'.pendingStaticDials
    staticDialCooldowns := w'.staticDialCooldowns
    failureCounts := w'.failureCounts
    reservationCooldowns := w'.reservationCooldowns }
  connections : SameEntries w'.connections w.connections
  reservations : SameEntries w'.reservations w.reservations
  externalReservations :
    SameEntries w'.externalReservations w.externalReservations
  staticRelays : SameEntries w'.staticRelays w.staticRelays
  pendingStaticDials : SameEntries w'.pendingStaticDials w.pendingStaticDials
  staticDialCooldowns :
    SameEntries w'.staticDialCooldowns w.staticDialCooldowns
  failureCounts : SameEntries w'.failureCounts w.failureCounts
  reservationCooldowns :
    SameEntries w'.reservationCooldowns w.reservationCooldowns

/-- The states that runs with the given clock and configuration reach while
the environment keeps to the contract. -/
inductive Reachable (c : Clock) (config : Config) (contract : Contract) :
    World → Prop where
  | new {reads : ℕ} {nextListener : ListenerId} {nextConnection : ConnectionId}
      {w : World}
      (h : newWithConfig c config reads nextListener nextConnection = .ok w) :
      Reachable c config contract w
  | step {w w' : World} {i : Input} (hw : Reachable c config contract w)
      (hcontract : contract w i) (h : step c i w = .ok w') :
      Reachable c config contract w'
  | shuffle {w w' : World} (hw : Reachable c config contract w)
      (h : Shuffled w w') : Reachable c config contract w'

/-! ## Concrete runs -/

/-- The clock that advances by one nanosecond at every reading. -/
def steadyClock : Clock := ⟨id, id⟩

/-- The clock that advances by ten seconds at every reading. -/
def slowClock : Clock := ⟨fun n => n * 10 ^ 10, id⟩

/-- The clock that leaps ahead by a hundred seconds at the reading `n`. -/
def leapClock (n : ℕ) : Clock := ⟨fun i => if i < n then 0 else 10 ^ 11, id⟩

/-- Serve a list of inputs, each of which has to pass the check. -/
def runAll (c : Clock) (check : World → Input → Bool) :
    List Input → World → Option World
  | [], w => some w
  | i :: rest, w =>
      if check w i then
        match step c i w with
        | .ok w => runAll c check rest w
        | .error _ => none
      else none

theorem Reachable.runAll
    {c : Clock} {config : Config} {contract : Contract}
    {check : World → Input → Bool} {inputs : List Input} {w w' : World}
    (hw : Reachable c config contract w)
    (hcheck : ∀ i ∈ inputs, ∀ w, check w i = true → contract w i)
    (h : runAll c check inputs w = some w') :
    Reachable c config contract w' := by
  induction inputs generalizing w with
  | nil =>
      cases h
      exact hw
  | cons i rest ih =>
      rw [Autorelay.runAll] at h
      split at h
      · next hpassed =>
        split at h
        · next v hstep =>
          exact ih (hw.step (hcheck i List.mem_cons_self w hpassed) hstep)
            (fun j hj => hcheck j (List.mem_cons_of_mem _ hj)) h
        · cases h
      · cases h

/-- Create the behaviour and serve a list of inputs. -/
def runNew (c : Clock) (config : Config) (check : World → Input → Bool)
    (inputs : List Input) : Option World :=
  match newWithConfig c config 0 0 0 with
  | .ok w => runAll c check inputs w
  | .error _ => none

/-- What a concrete run computes is seen in a reachable state. -/
theorem exists_reachable_of_runNew
    {c : Clock} {config : Config} {contract : Contract}
    {check : World → Input → Bool} {inputs : List Input}
    {α : Type} {f : World → α} {a : α}
    (hcheck : ∀ i ∈ inputs, ∀ w, check w i = true → contract w i)
    (h : (runNew c config check inputs).map f = some a) :
    ∃ w, Reachable c config contract w ∧ f w = a := by
  obtain ⟨w, hrun, hw⟩ := Option.map_eq_some_iff.mp h
  unfold runNew at hrun
  split at hrun
  · next v hnew => exact ⟨w, (Reachable.new hnew).runAll hcheck hrun, hw⟩
  · cases hrun

/-- Every input passes. -/
def anyInput : World → Input → Bool := fun _ _ => true

/-! ## What every elementary change keeps -/

theorem Act.config_eq {c : Clock} {i : Input} {w w' : World}
    (h : Act c i w w') : w'.config = w.config := by
  cases h <;> rfl

/-- The line can stem from serving the input: it is no input itself, and if it
is a dial, then one that the input may cause. -/
def Record.DueTo (r : Record) (i : Input) : Prop :=
  (∀ j, r ≠ .input j) ∧
    ∀ opts reads b, r = .queued (.dial opts) reads b → i.Dials opts.peerId

theorem Act.history_eq {c : Clock} {i : Input} {w w' : World}
    (h : Act c i w w') :
    w'.history = w.history ∨
      ∃ r : Record, r.DueTo i ∧ w'.history = w.history ++ [r] := by
  cases h with
  | queueDial peerId addresses hi _ _ _ _ _ =>
      refine Or.inr ⟨_, ⟨(fun _ h => by cases h), ?_⟩, rfl⟩
      intro opts reads b h
      cases h
      exact hi
  | _ =>
      first
      | exact Or.inl rfl
      | exact Or.inr ⟨_, ⟨(fun _ h => by cases h),
          fun _ _ _ h => by cases h⟩, rfl⟩

theorem Act.mem_history {c : Clock} {i : Input} {w w' : World} {r : Record}
    (h : Act c i w w') (hr : r ∈ w.history) : r ∈ w'.history := by
  rcases h.history_eq with heq | ⟨r', -, heq⟩
  · rwa [heq]
  · rw [heq]
    exact List.mem_append_left _ hr

theorem Act.input_mem {c : Clock} {i j : Input} {w w' : World}
    (h : Act c i w w') (hj : Record.input j ∈ w'.history) :
    Record.input j ∈ w.history := by
  rcases h.history_eq with heq | ⟨r, hr, heq⟩
  · rwa [heq] at hj
  · rw [heq] at hj
    rcases List.mem_append.mp hj with hj | hj
    · exact hj
    · exact absurd (List.mem_singleton.mp hj).symm (hr.1 j)

theorem Acts.input_mem {c : Clock} {i j : Input} {w w' : World}
    (h : Acts c i w w') (hj : Record.input j ∈ w'.history) :
    Record.input j ∈ w.history := by
  induction h with
  | refl => exact hj
  | tail _ hact ih => exact ih (hact.input_mem hj)

theorem Acts.mem_history {c : Clock} {i : Input} {w w' : World} {r : Record}
    (h : Acts c i w w') (hr : r ∈ w.history) : r ∈ w'.history := by
  induction h with
  | refl => exact hr
  | tail _ hact ih => exact hact.mem_history ih

theorem Act.reads_le {c : Clock} {i : Input} {w w' : World}
    (h : Act c i w w') : w.reads ≤ w'.reads := by
  cases h <;>
    first
    | exact le_refl _
    | exact Nat.le_succ _

/-- Where a tracked connection comes from: it was there, or the swarm reported
it, or its endpoint was replaced, or a handler event or an address that ends in
another peer set its status. -/
theorem Act.lookup_connections {c : Clock} {i : Input} {w w' : World}
    (h : Act c i w w') {p : PeerId} {k : ConnectionId} {info' : Connection}
    (hinfo' : w'.connections.lookup (p, k) = some info') :
    w.connections.lookup (p, k) = some info' ∨
    (∃ endpoint, i.event? = some (.connectionEstablished p k endpoint) ∧
      info' = Connection.disqualifyConnectionIfRelayed ⟨endpoint, .pending⟩) ∨
    ∃ info, w.connections.lookup (p, k) = some info ∧
      ((∃ new, i.event? = some (.addressChange p k new) ∧
          info' = { info with endpoint := new }) ∨
        (∃ out status, i = .handler p k out ∧
          info' = { info with relayStatus := status }) ∨
        (info.addr.EndsInOtherPeer p ∧
          info' = { info with relayStatus := .notSupported })) := by
  cases h with
  | insertConnection peerId connectionId endpoint hi =>
      rw [HashMap.lookup_insert] at hinfo'
      split at hinfo'
      · next heq =>
        cases heq
        exact Or.inr (Or.inl ⟨endpoint, hi, (Option.some_inj.mp hinfo').symm⟩)
      · exact Or.inl hinfo'
  | eraseConnection peerId connectionId _ =>
      exact Or.inl (lookup_erase_some.mp hinfo').2
  | setEndpoint peerId connectionId info new hi hlookup =>
      rw [HashMap.lookup_insert] at hinfo'
      split at hinfo'
      · next heq =>
        cases heq
        exact Or.inr (Or.inr ⟨info, hlookup, Or.inl
          ⟨new, hi, (Option.some_inj.mp hinfo').symm⟩⟩)
      · exact Or.inl hinfo'
  | setRelayStatus peerId connectionId info status hi hlookup =>
      rw [HashMap.lookup_insert] at hinfo'
      split at hinfo'
      · next heq =>
        cases heq
        obtain ⟨out, rfl⟩ := hi
        exact Or.inr (Or.inr ⟨info, hlookup, Or.inr (Or.inl
          ⟨out, status, rfl, (Option.some_inj.mp hinfo').symm⟩)⟩)
      · exact Or.inl hinfo'
  | disqualify peerId connectionId info hlookup hends =>
      rw [HashMap.lookup_insert] at hinfo'
      split at hinfo'
      · next heq =>
        cases heq
        exact Or.inr (Or.inr ⟨info, hlookup, Or.inr (Or.inr
          ⟨hends, (Option.some_inj.mp hinfo').symm⟩)⟩)
      · exact Or.inl hinfo'
  | _ => exact Or.inl hinfo'

/-! ## Induction over runs -/

/-- The history ends in the input and what serving it has recorded so far. -/
def Serving (i : Input) (w : World) : Prop :=
  ∃ before after, w.history = before ++ .input i :: after ∧
    ∀ r ∈ after, Record.DueTo r i

theorem Serving.mem_history {i : Input} {w : World} (h : Serving i w) :
    Record.input i ∈ w.history := by
  obtain ⟨before, after, heq, -⟩ := h
  rw [heq]
  exact List.mem_append_right _ List.mem_cons_self

theorem Act.serving {c : Clock} {i j : Input} {w w' : World}
    (h : Act c j w w') (hj : ∀ r, Record.DueTo r j → Record.DueTo r i)
    (hi : Serving i w) : Serving i w' := by
  obtain ⟨before, after, heq, hafter⟩ := hi
  rcases h.history_eq with hsame | ⟨r, hr, hsnoc⟩
  · exact ⟨before, after, hsame.trans heq, hafter⟩
  · refine ⟨before, after ++ [r], ?_, ?_⟩
    · rw [hsnoc, heq, List.append_assoc]
      rfl
    · intro r' hr'
      rcases List.mem_append.mp hr' with hr' | hr'
      · exact hafter r' hr'
      · rw [List.mem_singleton.mp hr']
        exact hj r hr

/-- A change of the status dials nobody. -/
theorem Record.DueTo.of_setStatus {r : Record} {status : Option Status}
    (h : r.DueTo (.setStatus status)) (i : Input) : r.DueTo i := by
  refine ⟨h.1, ?_⟩
  intro opts reads b hr
  rcases h.2 opts reads b hr with ⟨_, hi⟩ | ⟨_, hi⟩ | ⟨_, hi⟩ <;> cases hi

/-- The input on whose behalf a change is made: it is being served, or it is
part of the construction or of a change of the external addresses. -/
def InCharge (i : Input) (w : World) : Prop :=
  (∃ status, i = .setStatus status) ∨
    (∃ peerId address, i = .addStaticRelay peerId address) ∨ Serving i w

theorem inCharge_record (i : Input) (w : World) :
    InCharge i (w.record (.input i)) :=
  Or.inr (Or.inr ⟨w.history, [], rfl, fun r hr => by cases hr⟩)

theorem Act.inCharge {c : Clock} {i : Input} {w w' : World}
    (h : Act c i w w') (hi : InCharge i w) : InCharge i w' := by
  rcases hi with hi | hi | hi
  · exact Or.inl hi
  · exact Or.inr (Or.inl hi)
  · exact Or.inr (Or.inr (h.serving (fun _ hr => hr) hi))

theorem InCharge.implied {c : Clock} {i : Input} {w w' : World}
    (hi : InCharge i w) {status : Option Status}
    (h : Acts c (.setStatus status) w w') : InCharge i w' := by
  induction h with
  | refl => exact hi
  | tail _ hact ih =>
      rcases ih with ih | ih | ih
      · exact Or.inl ih
      · exact Or.inr (Or.inl ih)
      · exact Or.inr (Or.inr
          (hact.serving (fun _ hr => hr.of_setStatus i) ih))

/-- The input that reports an endpoint is being served. -/
theorem reports_mem_of_inCharge {i : Input} {w : World} (hi : InCharge i w)
    {p : PeerId} {k : ConnectionId} {endpoint : ConnectedPoint}
    (hreports : i.ReportsEndpoint p k endpoint) :
    Record.input i ∈ w.history := by
  rcases hi with ⟨_, rfl⟩ | ⟨_, _, rfl⟩ | hi
  · rcases hreports with h | h <;> cases h
  · rcases hreports with h | h <;> cases h
  · exact hi.mem_history

/-- What every elementary change keeps is kept by a sequence of them. -/
theorem Acts.invariant {c : Clock} {i : Input} {P : World → Prop}
    (hact : ∀ w w', InCharge i w → P w → Act c i w w' → P w')
    {w w' : World} (hi : InCharge i w) (hw : P w) (h : Acts c i w w') :
    P w' ∧ InCharge i w' := by
  induction h with
  | refl => exact ⟨hw, hi⟩
  | tail _ hstep ih => exact ⟨hact _ _ ih.2 ih.1 hstep, hstep.inCharge ih.2⟩

theorem addStaticRelayAddresses_ensures
    {c : Clock} {P : World → Prop} {peerId : PeerId}
    (hstatic : ∀ address w, P w →
      Ensures (Prod.snd <$> addStaticRelay c peerId address w) P)
    (addresses : List Multiaddr) {w : World} (hw : P w) :
    Ensures (addStaticRelayAddresses c peerId addresses w) P := by
  induction addresses generalizing w with
  | nil => exact hw
  | cons address rest ih =>
      have hfirst := hstatic address w hw
      rw [addStaticRelayAddresses]
      generalize addStaticRelay c peerId address w = x at hfirst ⊢
      cases x with
      | error e => exact hfirst
      | ok r => exact ih hfirst

theorem addStaticRelays_ensures
    {c : Clock} {P : World → Prop}
    (hstatic : ∀ peerId address w, P w →
      Ensures (Prod.snd <$> addStaticRelay c peerId address w) P)
    (relays : List (Σ _ : PeerId, List Multiaddr)) {w : World} (hw : P w) :
    Ensures (addStaticRelays c relays w) P := by
  induction relays generalizing w with
  | nil => exact hw
  | cons relay rest ih =>
      rw [addStaticRelays]
      exact (addStaticRelayAddresses_ensures (hstatic relay.1) relay.2 hw).bind
        fun v hv => ih hv

/-- An invariant of whole calls holds in every reachable state. -/
theorem Reachable.of_calls
    {c : Clock} {config : Config} {contract : Contract} {P : World → Prop}
    (hfresh : ∀ reads nextListener nextConnection,
      P (World.fresh config reads nextListener nextConnection))
    (hstatic : ∀ peerId address w, P w →
      Ensures (Prod.snd <$> addStaticRelay c peerId address w) P)
    (hstep : ∀ i w w', Reachable c config contract w → P w →
      contract w i → Autorelay.step c i w = .ok w' → P w')
    (hshuffle : ∀ w w', P w → Shuffled w w' → P w')
    {w : World} (h : Reachable c config contract w) : P w := by
  induction h with
  | new h =>
      exact (addStaticRelays_ensures hstatic _ (hfresh _ _ _)).of_eq_ok h
  | step hw hcontract h ih => exact hstep _ _ _ hw ih hcontract h
  | shuffle _ h ih => exact hshuffle _ _ ih h

/-- An invariant of the elementary changes holds in every reachable state. -/
theorem Reachable.of_acts
    {c : Clock} {config : Config} {contract : Contract} {P : World → Prop}
    (hfresh : ∀ reads nextListener nextConnection,
      P (World.fresh config reads nextListener nextConnection))
    (hinput : ∀ i w, P w → contract w i → P (w.record (.input i)))
    (hact : ∀ i w w', InCharge i w → P w → Act c i w w' → P w')
    (hshuffle : ∀ w w', P w → Shuffled w w' → P w')
    {w : World} (h : Reachable c config contract w) : P w := by
  refine Reachable.of_calls hfresh ?_ ?_ hshuffle h
  · intro peerId address w hw
    apply (addStaticRelay_ensures c peerId address w).mono
    intro w' hacts
    exact (hacts.invariant (hact _) (Or.inr (Or.inl ⟨_, _, rfl⟩)) hw).1
  · intro i w w' _ hw hcontract hstep
    obtain ⟨u, himplied, hown⟩ := (serve_acts c i _).of_eq_ok hstep
    have hu := Acts.invariant (hact _) (Or.inl ⟨_, rfl⟩)
      (hinput i w hw hcontract) himplied
    exact (hown.invariant (hact _) ((inCharge_record i w).implied himplied)
      hu.1).1

/-! ## Maps in another order -/

namespace Shuffled

variable {w w' : World} (h : Shuffled w w')

include h

theorem history_eq : w'.history = w.history := by
  rw [h.same]

theorem reads_eq : w'.reads = w.reads := by
  rw [h.same]

theorem config_eq : w'.config = w.config := by
  rw [h.same]

theorem status_eq : w'.status = w.status := by
  rw [h.same]

theorem pendingEviction_eq : w'.pendingEviction = w.pendingEviction := by
  rw [h.same]

theorem nextListener_eq : w'.nextListener = w.nextListener := by
  rw [h.same]

theorem coveredPeers_eq :
    coveredPeers w'.toBehaviour = coveredPeers w.toBehaviour := by
  ext p
  simp only [mem_coveredPeers, lookup_of_sameEntries h.reservations,
    lookup_of_sameEntries h.externalReservations]

theorem hasDirectConnection_eq (p : PeerId) :
    hasDirectConnection w'.toBehaviour p =
      hasDirectConnection w.toBehaviour p :=
  List.Perm.any_eq h.connections

end Shuffled

/-- The configuration is the one the run started with; its static relays were handed to
the behaviour. -/
theorem Reachable.config_eq
    {c : Clock} {config : Config} {contract : Contract} {w : World}
    (h : Reachable c config contract w) :
    w.config = { config with staticRelays := ∅ } := by
  refine h.of_acts (P := fun w => w.config = { config with staticRelays := ∅ })
    (fun _ _ _ => rfl) (fun _ _ hw _ => hw) ?_ ?_
  · intro i w w' _ hw hact
    rw [hact.config_eq, hw]
  · intro w w' hw hshuffle
    rw [hshuffle.config_eq, hw]

end Connexa.Autorelay
