import Connexa.Autorelay.Runs

/-!
# Dialing static relays

Three maps and the connection table agree in every reachable state: a static
relay has a direct connection, or a dial is pending, or its dial cooldown is
running.  A dial is queued only for a static relay that has none of these.
-/

namespace Connexa.Autorelay

open HashMap

/-- A dial with these options was queued. -/
def Dialed (history : List Record) (opts : DialOpts) : Prop :=
  ∃ reads b, Record.queued (.dial opts) reads b ∈ history

/-- The dial was queued and no later input reported how it ended. -/
def Outstanding (history : List Record) (opts : DialOpts) : Prop :=
  ∃ before after reads b,
    history = before ++ .queued (.dial opts) reads b :: after ∧
      ∀ i, Record.input i ∈ after →
        ¬i.EndsDial opts.peerId opts.connectionId

/-- The connection was dialed at one of the addresses of the dial, possibly
completed with the peer. -/
def ConnectedPoint.DialedAt (endpoint : ConnectedPoint) (opts : DialOpts) :
    Prop :=
  ∃ address ∈ opts.addresses, ∃ full, endpoint = .dialer full ∧
    (full = address ∨ address.withP2p opts.peerId = .ok full)

/-- An established dial uses one of its own addresses, and no report turns a
direct connection into a relayed one. -/
def HonestReport (history : List Record) (i : Input) : Prop :=
  (∀ opts endpoint, Dialed history opts → i.event? = some
    (.connectionEstablished opts.peerId opts.connectionId endpoint) →
      endpoint.DialedAt opts) ∧
  ∀ p k old new j, Record.input j ∈ history → j.ReportsEndpoint p k old →
    i.ReportsEndpoint p k new → old.isRelayed = false → new.isRelayed = false

/-- The reports about connections are honest. -/
def Contract.dials : Contract := fun w i => HonestReport w.history i

/-- What holds when a dial is queued: the peer is a static relay without a
direct connection, without an unexpired dial cooldown and without an
outstanding dial, and the addresses can be dialed. -/
structure DialAllowed (c : Clock) (before : List Record) (opts : DialOpts)
    (reads : ℕ) (b : Behaviour) : Prop where
  static : b.staticRelays.lookup opts.peerId = some opts.addresses
  direct : hasDirectConnection b opts.peerId = false
  rested : ∀ deadline, b.staticDialCooldowns.lookup opts.peerId = some deadline →
    0 < reads ∧ deadline ≤ c.instant (reads - 1)
  alone : ∀ opts', opts'.peerId = opts.peerId → ¬Outstanding before opts'
  nonempty : opts.addresses ≠ []
  nodup : opts.addresses.Nodup
  unrelayed : ∀ address ∈ opts.addresses, address.isRelayed = false

/-- Every queued dial is allowed. -/
def DialRecordAllowed (c : Clock) (before : List Record) (r : Record) : Prop :=
  ∀ opts reads b, r = .queued (.dial opts) reads b →
    DialAllowed c before opts reads b

/-- The addresses registered for a static relay can be dialed. -/
def Dialable (addresses : List Multiaddr) : Prop :=
  addresses ≠ [] ∧ addresses.Nodup ∧
    ∀ address ∈ addresses, address.isRelayed = false

/-- The invariant of the dials. -/
structure DialInv (c : Clock) (w : World) : Prop where
  dialable : ∀ p addresses, w.staticRelays.lookup p = some addresses →
    Dialable addresses
  dialed : ∀ p k, w.pendingStaticDials.lookup p = some k →
    ∃ addresses, Dialed w.history ⟨p, addresses, k⟩
  pending : ∀ opts, Outstanding w.history opts →
    w.pendingStaticDials.lookup opts.peerId = some opts.connectionId
  allowed : Chronicle (DialRecordAllowed c) w.history
  reported : ∀ p k info, w.connections.lookup (p, k) = some info →
    ∃ j, Record.input j ∈ w.history ∧ j.ReportsEndpoint p k info.endpoint

theorem dialable_addressesWith {b : Behaviour}
    (h : ∀ p addresses, b.staticRelays.lookup p = some addresses →
      Dialable addresses) (p : PeerId) {address : Multiaddr}
    (haddress : address.isRelayed = false) :
    Dialable (addressesWith b p address) := by
  have hknown : ∀ known, known = (b.staticRelays.lookup p).getD [] →
      known.Nodup ∧ ∀ a ∈ known, a.isRelayed = false := by
    rintro known rfl
    cases hlookup : b.staticRelays.lookup p with
    | none => exact ⟨List.nodup_nil, fun a ha => by cases ha⟩
    | some addresses => exact (h p addresses hlookup).2
  unfold addressesWith
  dsimp only
  generalize (b.staticRelays.lookup p).getD [] = known at hknown ⊢
  obtain ⟨hnodup, hdirect⟩ := hknown known rfl
  split
  · next hmem => exact ⟨List.ne_nil_of_mem hmem, hnodup, hdirect⟩
  · next hmem =>
    refine ⟨by simp, ?_, ?_⟩
    · rw [← List.concat_eq_append]
      exact List.Nodup.concat hmem hnodup
    · intro a ha
      rcases List.mem_append.mp ha with ha | ha
      · exact hdirect a ha
      · rw [List.mem_singleton.mp ha]
        exact haddress

theorem outstanding_snoc {history : List Record} {r : Record}
    {opts : DialOpts} (h : Outstanding (history ++ [r]) opts) :
    (∃ reads b, r = .queued (.dial opts) reads b) ∨
      Outstanding history opts := by
  obtain ⟨before, after, reads, b, heq, hafter⟩ := h
  rcases snoc_eq_append_cons_iff.mp heq with ⟨rest, rfl, rfl⟩ | ⟨-, hr, -⟩
  · exact Or.inr ⟨before, rest, reads, b, rfl,
      fun i hi => hafter i (List.mem_append_left _ hi)⟩
  · exact Or.inl ⟨reads, b, hr.symm⟩

/-- While the end of a dial is served, that dial is not outstanding. -/
theorem not_outstanding_of_serving {i : Input} {w : World}
    (h : Serving i w) {opts : DialOpts}
    (hends : i.EndsDial opts.peerId opts.connectionId) :
    ¬Outstanding w.history opts := by
  rintro ⟨before, after, reads, b, heq, hafter⟩
  obtain ⟨before', after', heq', hdue⟩ := h
  apply hafter i ?_ hends
  refine mem_after_of_notMem_after (heq.symm.trans heq')
    (fun hr => by cases hr) fun hmem => ?_
  -- an input that ends a dial causes none
  rcases (hdue _ hmem).2 opts reads b rfl with ⟨_, rfl⟩ | ⟨_, hi⟩ | ⟨_, rfl⟩
  · rcases hends with ⟨_, hends⟩ | hends <;> cases hends
  · rcases hends with ⟨_, hends⟩ | hends <;> rw [hi] at hends <;> cases hends
  · rcases hends with ⟨_, hends⟩ | hends <;> cases hends

theorem Dialed.mono {history history' : List Record} {opts : DialOpts}
    (h : Dialed history opts) (hsub : ∀ r ∈ history, r ∈ history') :
    Dialed history' opts := by
  obtain ⟨reads, b, hmem⟩ := h
  exact ⟨reads, b, hsub _ hmem⟩

/-- A change that queues no dial. -/
theorem DialInv.of_silent {c : Clock} {i : Input} {w w' : World}
    (h : DialInv c w) (hact : Act c i w w')
    (hhistory : w'.history = w.history ∨
      ∃ r, w'.history = w.history ++ [r] ∧
        ∀ opts reads b, r ≠ .queued (.dial opts) reads b)
    (hdialable : ∀ p addresses, w'.staticRelays.lookup p = some addresses →
      Dialable addresses)
    (hpending : ∀ p k, w'.pendingStaticDials.lookup p = some k →
      w.pendingStaticDials.lookup p = some k)
    (hkept : ∀ opts, Outstanding w.history opts →
      w.pendingStaticDials.lookup opts.peerId = some opts.connectionId →
        w'.pendingStaticDials.lookup opts.peerId = some opts.connectionId)
    (hreported : ∀ p k info, w'.connections.lookup (p, k) = some info →
      ∃ j, Record.input j ∈ w.history ∧ j.ReportsEndpoint p k info.endpoint) :
    DialInv c w' where
  dialable := hdialable
  dialed := by
    intro p k hk
    obtain ⟨addresses, haddresses⟩ := h.dialed p k (hpending p k hk)
    exact ⟨addresses, haddresses.mono fun r hr => hact.mem_history hr⟩
  pending := by
    intro opts hout
    have hold : Outstanding w.history opts := by
      rcases hhistory with heq | ⟨r, heq, hr⟩
      · rwa [heq] at hout
      · rw [heq] at hout
        rcases outstanding_snoc hout with ⟨reads, b, hdial⟩ | hout
        · exact absurd hdial (hr opts reads b)
        · exact hout
    exact hkept opts hold (h.pending opts hold)
  allowed := by
    rcases hhistory with heq | ⟨r, heq, hr⟩
    · rw [heq]
      exact h.allowed
    · rw [heq]
      exact h.allowed.snoc fun opts reads b hdial =>
        absurd hdial (hr opts reads b)
  reported := by
    intro p k info hinfo
    obtain ⟨j, hj, hreports⟩ := hreported p k info hinfo
    exact ⟨j, hact.mem_history hj, hreports⟩

theorem DialInv.queueDial {c : Clock} {w : World} (h : DialInv c w)
    {peerId : PeerId} {addresses : List Multiaddr}
    (hstatic : w.staticRelays.lookup peerId = some addresses)
    (hdirect : hasDirectConnection w.toBehaviour peerId = false)
    (hrested : DialRested c w peerId)
    (hpending : peerId ∉ w.pendingStaticDials) :
    DialInv c ({ w with
      nextConnection := w.nextConnection + 1
      pendingStaticDials :=
        w.pendingStaticDials.insert peerId w.nextConnection }.queue
          (.dial ⟨peerId, addresses, w.nextConnection⟩)) where
  dialable := h.dialable
  dialed := by
    intro p k hk
    simp only [World.queue, HashMap.lookup_insert] at hk
    split at hk
    · next hp =>
      cases hk
      subst hp
      exact ⟨addresses, _, _, List.mem_append_right _ List.mem_cons_self⟩
    · obtain ⟨known, hknown⟩ := h.dialed p k hk
      exact ⟨known, hknown.mono fun r hr => List.mem_append_left _ hr⟩
  pending := by
    intro opts hout
    simp only [World.queue, HashMap.lookup_insert]
    rcases outstanding_snoc hout with ⟨reads, b, hdial⟩ | hout
    · cases hdial
      exact if_pos rfl
    · have hold := h.pending opts hout
      have hne : opts.peerId ≠ peerId := by
        intro heq
        rw [heq] at hold
        exact hpending (mem_of_lookup hold)
      rw [if_neg hne]
      exact hold
  allowed := by
    apply h.allowed.snoc
    intro opts reads b hdial
    cases hdial
    obtain ⟨hnonempty, hnodup, hunrelayed⟩ := h.dialable peerId addresses hstatic
    refine ⟨hstatic, hdirect, hrested, ?_, hnonempty, hnodup, hunrelayed⟩
    intro opts' hpeer hout
    have hold := h.pending opts' hout
    rw [hpeer] at hold
    exact hpending (mem_of_lookup hold)
  reported := by
    intro p k info hinfo
    obtain ⟨j, hj, hreports⟩ := h.reported p k info hinfo
    exact ⟨j, List.mem_append_left _ hj, hreports⟩

/-- A stored connection carries a reported endpoint. -/
theorem DialInv.reported_insert {c : Clock} {w : World} (h : DialInv c w)
    {p : PeerId} {k : ConnectionId} {info : Connection}
    (hinfo : ∃ j, Record.input j ∈ w.history ∧
      j.ReportsEndpoint p k info.endpoint) :
    ∀ p' k' info',
      (w.connections.insert (p, k) info).lookup (p', k') = some info' →
        ∃ j, Record.input j ∈ w.history ∧
          j.ReportsEndpoint p' k' info'.endpoint := by
  intro p' k' info' hlookup
  rw [HashMap.lookup_insert] at hlookup
  split at hlookup
  · next heq =>
    cases heq
    cases hlookup
    exact hinfo
  · exact h.reported p' k' info' hlookup

theorem serving_of_endsDial {i : Input} {w : World} (hi : InCharge i w)
    {p : PeerId} {k : ConnectionId} (hends : i.EndsDial p k) :
    Serving i w := by
  rcases hi with ⟨_, rfl⟩ | ⟨_, _, rfl⟩ | hi
  · rcases hends with ⟨_, h⟩ | h <;> cases h
  · rcases hends with ⟨_, h⟩ | h <;> cases h
  · exact hi

theorem DialInv.act {c : Clock} {i : Input} {w w' : World}
    (h : DialInv c w) (hi : InCharge i w) (hact : Act c i w w') :
    DialInv c w' := by
  have hact' := hact
  cases hact with
  | queueDial peerId addresses _ hstatic _ hdirect hrested hpending =>
      exact h.queueDial hstatic hdirect hrested hpending
  | addStaticRelay peerId address _ hdirect =>
      refine h.of_silent hact' (Or.inl rfl) ?_ (fun _ _ hk => hk)
        (fun _ _ hk => hk) h.reported
      intro p addresses hp
      simp only [HashMap.lookup_insert] at hp
      split at hp
      · cases hp
        exact dialable_addressesWith h.dialable peerId hdirect
      · exact h.dialable p addresses hp
  | removeStaticRelay peerId _ =>
      refine h.of_silent hact' (Or.inl rfl) ?_ (fun _ _ hk => hk)
        (fun _ _ hk => hk) h.reported
      intro p addresses hp
      exact h.dialable p addresses (lookup_erase_some.mp hp).2
  | endDial peerId connectionId hends hpending =>
      refine h.of_silent hact' (Or.inl rfl) h.dialable
        (fun p k hk => (lookup_erase_some.mp hk).2) ?_ h.reported
      intro opts hout hold
      refine lookup_erase_some.mpr ⟨?_, hold⟩
      rintro rfl
      rw [hpending] at hold
      cases hold
      exact not_outstanding_of_serving (serving_of_endsDial hi hends) hends hout
  | insertConnection p k endpoint hevent =>
      refine h.of_silent hact' (Or.inl rfl) h.dialable (fun _ _ hk => hk)
        (fun _ _ hk => hk) (h.reported_insert ⟨i, ?_, ?_⟩)
      · exact reports_mem_of_inCharge hi (Or.inl hevent)
      · unfold Connection.disqualifyConnectionIfRelayed
        split <;> exact Or.inl hevent
  | setEndpoint p k connection new hevent _ =>
      exact h.of_silent hact' (Or.inl rfl) h.dialable (fun _ _ hk => hk)
        (fun _ _ hk => hk) (h.reported_insert
          ⟨i, reports_mem_of_inCharge hi (Or.inr hevent), Or.inr hevent⟩)
  | setRelayStatus p k connection status _ hlookup =>
      exact h.of_silent hact' (Or.inl rfl) h.dialable (fun _ _ hk => hk)
        (fun _ _ hk => hk) (h.reported_insert (h.reported p k connection hlookup))
  | disqualify p k connection hlookup _ =>
      exact h.of_silent hact' (Or.inl rfl) h.dialable (fun _ _ hk => hk)
        (fun _ _ hk => hk) (h.reported_insert (h.reported p k connection hlookup))
  | eraseConnection p k _ =>
      refine h.of_silent hact' (Or.inl rfl) h.dialable (fun _ _ hk => hk)
        (fun _ _ hk => hk) ?_
      intro p' k' info hinfo
      exact h.reported p' k' info (lookup_erase_some.mp hinfo).2
  | _ =>
      refine h.of_silent hact' ?_ h.dialable (fun _ _ hk => hk)
        (fun _ _ hk => hk) h.reported
      first
      | exact Or.inl rfl
      | exact Or.inr ⟨_, rfl, fun _ _ _ hr => by cases hr⟩

theorem DialInv.acts {c : Clock} {i : Input} {w w' : World}
    (h : DialInv c w) (hi : InCharge i w) (hacts : Acts c i w w') :
    DialInv c w' ∧ InCharge i w' :=
  hacts.invariant (fun _ _ hi h hact => h.act hi hact) hi h

/-! ## No static relay is forgotten -/

/-- The peer has a direct connection, a pending dial or a dial cooldown. -/
def Attended (b : Behaviour) (p : PeerId) : Prop :=
  hasDirectConnection b p = true ∨ p ∈ b.pendingStaticDials ∨
    p ∈ b.staticDialCooldowns

/-- The input is about the peer, or about the cooldowns of all peers. -/
def Input.Concerns (i : Input) (p : PeerId) : Prop :=
  match i with
  | .poll _ => True
  | .addStaticRelay q _ => q = p
  | .removeStaticRelay q => q = p
  | .swarm (.connectionEstablished q _ _) _ _ => q = p
  | .swarm (.connectionClosed q _) _ _ => q = p
  | .swarm (.addressChange q _ _) _ _ => q = p
  | .swarm (.dialFailure (some q) _) _ _ => q = p
  | _ => False

theorem concerns_of_event {i : Input} {p : PeerId}
    (h : (∃ k, i.EndsDial p k) ∨ (∃ k e, i.ReportsEndpoint p k e) ∨
      ∃ k, i.event? = some (.connectionClosed p k)) : i.Concerns p := by
  cases i with
  | swarm event addresses change =>
      rcases h with ⟨k, ⟨e, h⟩ | h⟩ | ⟨k, e, h | h⟩ | ⟨k, h⟩ <;>
        cases h <;> rfl
  | _ =>
      rcases h with ⟨k, ⟨e, h⟩ | h⟩ | ⟨k, e, h | h⟩ | ⟨k, h⟩ <;> cases h

theorem hasDirectConnection_iff {b : Behaviour} {p : PeerId} :
    hasDirectConnection b p = true ↔ ∃ k info,
      b.connections.lookup (p, k) = some info ∧ info.isRelayed = false := by
  unfold hasDirectConnection
  rw [any_entries_iff]
  constructor
  · rintro ⟨⟨q, k⟩, info, hinfo, h⟩
    simp only [Bool.and_eq_true, decide_eq_true_eq, Bool.not_eq_true'] at h
    obtain ⟨rfl, hdirect⟩ := h
    exact ⟨k, info, hinfo, hdirect⟩
  · rintro ⟨k, info, hinfo, hdirect⟩
    exact ⟨(p, k), info, hinfo, by simp [hdirect]⟩

/-- A connection entered for `q` does not cost `p` its direct connection. -/
theorem hasDirectConnection_insert {b : Behaviour} {p q : PeerId}
    {k : ConnectionId} {info : Connection}
    (h : hasDirectConnection b p = true)
    (hinfo : q = p → ∀ old, b.connections.lookup (p, k) = some old →
      old.isRelayed = false → info.isRelayed = false) :
    hasDirectConnection
      { b with connections := b.connections.insert (q, k) info } p = true := by
  obtain ⟨k', old, hold, hdirect⟩ := hasDirectConnection_iff.mp h
  rw [hasDirectConnection_iff]
  by_cases heq : (p, k') = (q, k)
  · cases heq
    exact ⟨k, info, lookup_insert_self _ _ _, hinfo rfl old hold hdirect⟩
  · refine ⟨k', old, ?_, hdirect⟩
    simp only [HashMap.lookup_insert]
    rw [if_neg heq]
    exact hold

theorem Attended.insertConnection {b : Behaviour} {p q : PeerId}
    {k : ConnectionId} {info : Connection} (h : Attended b p)
    (hinfo : q = p → ∀ old, b.connections.lookup (p, k) = some old →
      old.isRelayed = false → info.isRelayed = false) :
    Attended { b with connections := b.connections.insert (q, k) info } p :=
  h.imp (fun hdirect => hasDirectConnection_insert hdirect hinfo) id

theorem Attended.act {c : Clock} {i : Input} {w w' : World} {p : PeerId}
    (h : Attended w.toBehaviour p) (hi : ¬i.Concerns p)
    (hact : Act c i w w') : Attended w'.toBehaviour p := by
  cases hact with
  | removeStaticRelay q hq =>
      subst hq
      refine h.imp id (Or.imp id fun hp => ?_)
      exact AList.mem_erase.mpr ⟨fun heq => hi heq.symm, hp⟩
  | queueDial q addresses _ _ _ _ _ _ =>
      exact h.imp id (Or.imp (fun hp =>
        (AList.mem_insert _).mpr (Or.inr hp)) id)
  | endDial q k hends _ =>
      have hne : p ≠ q := by
        rintro rfl
        exact hi (concerns_of_event (Or.inl ⟨k, hends⟩))
      exact h.imp id (Or.imp (fun hp => AList.mem_erase.mpr ⟨hne, hp⟩) id)
  | clearDialCooldown q hclear =>
      rcases hclear with hdirect | ⟨timerReady, rfl⟩
      · by_cases hq : p = q
        · subst hq
          exact Or.inl hdirect
        · exact h.imp id (Or.imp id fun hp => AList.mem_erase.mpr ⟨hq, hp⟩)
      · exact absurd trivial hi
  | startDialCooldown q deadline _ _ =>
      exact h.imp id (Or.imp id fun hp => (AList.mem_insert _).mpr (Or.inr hp))
  | insertConnection q k endpoint hevent =>
      refine h.insertConnection fun hq => absurd ?_ hi
      subst hq
      exact concerns_of_event (Or.inr (Or.inl ⟨k, endpoint, Or.inl hevent⟩))
  | eraseConnection q k hevent =>
      refine h.imp (fun hdirect => ?_) id
      obtain ⟨k', info, hinfo, hrelayed⟩ := hasDirectConnection_iff.mp hdirect
      refine hasDirectConnection_iff.mpr
        ⟨k', info, lookup_erase_some.mpr ⟨?_, hinfo⟩, hrelayed⟩
      intro heq
      cases heq
      exact hi (concerns_of_event (Or.inr (Or.inr ⟨_, hevent⟩)))
  | setEndpoint q k connection new hevent _ =>
      refine h.insertConnection fun hq => absurd ?_ hi
      subst hq
      exact concerns_of_event (Or.inr (Or.inl ⟨k, new, Or.inr hevent⟩))
  | setRelayStatus q k connection status _ hlookup =>
      refine h.insertConnection ?_
      rintro rfl old hold hdirect
      rw [hlookup] at hold
      cases hold
      exact hdirect
  | disqualify q k connection hlookup _ =>
      refine h.insertConnection ?_
      rintro rfl old hold hdirect
      rw [hlookup] at hold
      cases hold
      exact hdirect
  | _ => exact h

theorem Attended.acts {c : Clock} {i : Input} {w w' : World} {p : PeerId}
    (h : Attended w.toBehaviour p) (hi : ¬i.Concerns p)
    (hacts : Acts c i w w') : Attended w'.toBehaviour p := by
  induction hacts with
  | refl => exact h
  | tail _ hact ih => exact ih.act hi hact

theorem Act.mem_staticRelays {c : Clock} {i : Input} {w w' : World}
    {p : PeerId} (hact : Act c i w w') (hi : ∀ a, i ≠ .addStaticRelay p a)
    (hp : p ∈ w'.staticRelays) : p ∈ w.staticRelays := by
  cases hact with
  | addStaticRelay q address hq _ =>
      rcases (AList.mem_insert _).mp hp with rfl | hp
      · exact absurd hq (hi address)
      · exact hp
  | removeStaticRelay q _ => exact (AList.mem_erase.mp hp).2
  | _ => exact hp

theorem Acts.mem_staticRelays {c : Clock} {i : Input} {w w' : World}
    {p : PeerId} (hacts : Acts c i w w') (hi : ∀ a, i ≠ .addStaticRelay p a)
    (hp : p ∈ w'.staticRelays) : p ∈ w.staticRelays := by
  induction hacts with
  | refl => exact hp
  | tail _ hact ih => exact ih (hact.mem_staticRelays hi hp)

/-- Every static relay is attended to. -/
def AllAttended (b : Behaviour) : Prop :=
  ∀ p, p ∈ b.staticRelays → Attended b p

/-- Peers that the input is not about stay attended. -/
theorem AllAttended.acts {c : Clock} {i : Input} {w w' : World}
    (h : AllAttended w.toBehaviour) (hacts : Acts c i w w') {p : PeerId}
    (hi : ¬i.Concerns p) (hp : p ∈ w'.staticRelays) :
    Attended w'.toBehaviour p := by
  have hold : p ∈ w.staticRelays := by
    refine hacts.mem_staticRelays ?_ hp
    rintro a rfl
    exact hi rfl
  exact (h p hold).acts hi hacts

/-! ## Calls that touch one relay -/

/-- A call about one peer: the others stay attended by themselves. -/
theorem AllAttended.of_own {c : Clock} {i : Input} {w : World} {q : PeerId}
    {x : Except Panic World} (h : AllAttended w.toBehaviour)
    (hacts : Ensures x (Acts c i w)) (hi : ∀ p, i.Concerns p → q = p)
    (hown : Ensures x fun w' =>
      q ∈ w'.staticRelays → Attended w'.toBehaviour q) :
    Ensures x fun w' => AllAttended w'.toBehaviour := by
  refine (hacts.and hown).mono ?_
  rintro w' ⟨hacts, hown⟩ p hp
  by_cases heq : q = p
  · subst heq
    exact hown hp
  · exact h.acts hacts (fun hconcerns => heq (hi p hconcerns)) hp

theorem queueStaticDial_attends
    (c : Clock) {peerId : PeerId} {addresses : List Multiaddr} {w : World}
    (hstatic : peerId ∈ w.staticRelays) (hne : addresses ≠ []) :
    Attended (queueStaticDial c peerId addresses w).2.toBehaviour peerId := by
  have hsame := staticDialInCooldown_behaviour c peerId w
  unfold queueStaticDial
  split
  · next hguard =>
    rcases hguard with h | h | h
    · exact absurd hstatic h
    · exact absurd h hne
    · exact Or.inl h
  · dsimp only
    split
    · next hbusy =>
      rcases hbusy with hcooling | hpending
      · right
        right
        unfold staticDialInCooldown at hcooling ⊢
        split at hcooling
        · cases hcooling
        · next deadline hdeadline => exact mem_of_lookup hdeadline
      · exact Or.inr (Or.inl hpending)
    · exact Or.inr (Or.inl ((AList.mem_insert _).mpr (Or.inl rfl)))

theorem redialStaticRelay_attends
    {c : Clock} {w : World} (hinv : DialInv c w) {p : PeerId}
    (hstatic : p ∈ w.staticRelays) :
    Attended (redialStaticRelay c p w).toBehaviour p := by
  obtain ⟨addresses, haddresses⟩ := mem_iff_exists_lookup.mp hstatic
  unfold redialStaticRelay
  rw [haddresses]
  exact queueStaticDial_attends c hstatic (hinv.dialable p addresses haddresses).1

theorem addStaticRelay_attends
    (c : Clock) (peerId : PeerId) (address : Multiaddr) {w : World}
    (hinv : DialInv c w) (hall : AllAttended w.toBehaviour) :
    Ensures (Prod.snd <$> addStaticRelay c peerId address w)
      fun w' => AllAttended w'.toBehaviour := by
  refine hall.of_own (addStaticRelay_ensures c peerId address w)
    (fun p h => h) ?_
  unfold addStaticRelay
  split
  · exact hall peerId
  · next hrelayed =>
    have hne : addressesWith w.toBehaviour peerId address ≠ [] :=
      (dialable_addressesWith hinv.dialable peerId
        (Bool.eq_false_of_not_eq_true hrelayed)).1
    have hqueue := queueStaticDial_attends c
      (w := { w with
        staticRelays := w.staticRelays.insert peerId
          (addressesWith w.toBehaviour peerId address) })
      ((AList.mem_insert _).mpr (Or.inl rfl)) hne
    dsimp only
    generalize queueStaticDial c peerId
      (addressesWith w.toBehaviour peerId address) _ = r at hqueue ⊢
    obtain ⟨queued, v⟩ := r
    have hmeet := meetReservationTargetIf_ensures c .removeAllReservations
      (!queued) v
    change Ensures (Prod.snd <$> do
      let u ← meetReservationTargetIf c (!queued) v
      return (true, { u with waker := false })) _
    generalize meetReservationTargetIf c (!queued) v = x at hmeet ⊢
    cases x with
    | error e => exact hmeet
    | ok u =>
        have hu : Attended u.toBehaviour peerId :=
          Attended.acts hqueue id hmeet
        exact fun _ => hu

/-- A dial that was established is a direct connection. -/
theorem DialedAt.isRelayed {endpoint : ConnectedPoint} {opts : DialOpts}
    (h : endpoint.DialedAt opts)
    (hunrelayed : ∀ address ∈ opts.addresses, address.isRelayed = false) :
    endpoint.isRelayed = false := by
  obtain ⟨address, haddress, full, rfl, rfl | hfull⟩ := h
  · exact hunrelayed full haddress
  · change full.isRelayed = false
    rw [Multiaddr.isRelayed_withP2p hfull]
    exact hunrelayed address haddress

theorem isRelayed_disqualify (connection : Connection) :
    connection.disqualifyConnectionIfRelayed.isRelayed =
      connection.isRelayed := by
  unfold Connection.disqualifyConnectionIfRelayed
  split <;> rfl

theorem DialInv.unrelayed {c : Clock} {w : World} (h : DialInv c w)
    {opts : DialOpts} (hdialed : Dialed w.history opts) :
    ∀ address ∈ opts.addresses, address.isRelayed = false := by
  obtain ⟨reads, b, hmem⟩ := hdialed
  obtain ⟨before, after, heq⟩ := List.append_of_mem hmem
  exact (h.allowed before _ after heq opts reads b rfl).unrelayed

/-- Reports of one connection do not turn it from direct to relayed. -/
theorem DialInv.keepsDirect {c : Clock} {i : Input} {w : World}
    (h : DialInv c w) (hcontract : HonestReport w.history i)
    {p : PeerId} {k : ConnectionId} {new : ConnectedPoint} {old : Connection}
    (hreports : i.ReportsEndpoint p k new)
    (hold : w.connections.lookup (p, k) = some old)
    (hdirect : old.isRelayed = false) : new.isRelayed = false := by
  obtain ⟨j, hj, hjReports⟩ := h.reported p k old hold
  exact hcontract.2 p k old.endpoint new j hj hjReports hreports hdirect

theorem onConnectionEstablished_attends
    {c : Clock} {i : Input} {p : PeerId} {k : ConnectionId}
    {endpoint : ConnectedPoint} {w : World} (hinv : DialInv c w)
    (hcontract : HonestReport w.history i)
    (hevent : i.event? = some (.connectionEstablished p k endpoint))
    (h : Attended w.toBehaviour p) :
    Attended (onConnectionEstablished p k endpoint w).toBehaviour p := by
  have hinsert : Attended { w with
      connections := w.connections.insert (p, k)
        (Connection.disqualifyConnectionIfRelayed
          ⟨endpoint, .pending⟩) }.toBehaviour p := by
    apply h.insertConnection
    intro _ old hold hdirect
    rw [isRelayed_disqualify]
    exact hinv.keepsDirect hcontract (Or.inl hevent) hold hdirect
  unfold onConnectionEstablished
  dsimp only
  split
  · next hpending =>
    -- the dial of this relay was established, so the connection is direct
    obtain ⟨addresses, hdialed⟩ := hinv.dialed p k hpending
    have hdirect : endpoint.isRelayed = false :=
      DialedAt.isRelayed (hcontract.1 ⟨p, addresses, k⟩ endpoint hdialed hevent)
        (hinv.unrelayed hdialed)
    have hown : hasDirectConnection { w with
        connections := w.connections.insert (p, k)
          (Connection.disqualifyConnectionIfRelayed
            ⟨endpoint, .pending⟩) }.toBehaviour p = true := by
      refine hasDirectConnection_iff.mpr
        ⟨k, _, lookup_insert_self _ _ _, ?_⟩
      rw [isRelayed_disqualify]
      exact hdirect
    split
    · exact Or.inl hown
    · exact Or.inl hown
  · split
    · next hdirect => exact Or.inl hdirect
    · exact hinsert

theorem onAddressChange_attends
    {c : Clock} {i : Input} {p : PeerId} {k : ConnectionId}
    {new : ConnectedPoint} {w : World} (hinv : DialInv c w)
    (hcontract : HonestReport w.history i)
    (hevent : i.event? = some (.addressChange p k new))
    (h : Attended w.toBehaviour p) :
    Attended (onAddressChange p k new w).toBehaviour p := by
  unfold onAddressChange
  split
  · exact h
  · apply h.insertConnection
    intro _ old hold hdirect
    exact hinv.keepsDirect hcontract (Or.inr hevent) hold hdirect

theorem onConnectionClosed_attends
    {c : Clock} {i : Input} {p : PeerId} {k : ConnectionId} {w : World}
    (hinv : DialInv c w) (hi : InCharge i w)
    (hevent : i.event? = some (.connectionClosed p k))
    (h : p ∈ w.staticRelays → Attended w.toBehaviour p)
    (hstatic : p ∈ (onConnectionClosed c p k w).staticRelays) :
    Attended (onConnectionClosed c p k w).toBehaviour p := by
  unfold onConnectionClosed at hstatic ⊢
  split at hstatic
  · exact h hstatic
  · next connection _ =>
    have hclosed : Acts c i w (recordClosedRelay c p connection
        (clearFailureIfGone c p { w with
          connections := w.connections.erase (p, k) })) :=
      ((Acts.single (.eraseConnection w p k hevent)).trans
        (clearFailureIfGone_acts c hevent _)).trans
          (recordClosedRelay_acts c i p connection _)
    dsimp only at hstatic ⊢
    generalize recordClosedRelay c p connection _ = v at hclosed hstatic ⊢
    have hredial : Acts c i v (redialStaticRelay c p v) :=
      redialStaticRelay_acts c (Or.inr (Or.inl ⟨k, hevent⟩)) v
    have hother : ∀ a, i ≠ .addStaticRelay p a := by
      rintro a rfl
      cases hevent
    have hrest : Acts c i v
        (updateRelayAvailability (redialStaticRelay c p v)) :=
      hredial.trans (updateRelayAvailability_acts c i _)
    have hv : p ∈ v.staticRelays := hrest.mem_staticRelays hother hstatic
    exact (redialStaticRelay_attends (hinv.acts hi hclosed).1 hv).acts
      id (updateRelayAvailability_acts c .removeAllReservations _)

theorem onDialFailure_attends
    {c : Clock} {p : PeerId} {k : ConnectionId} {w : World}
    (h : p ∈ w.staticRelays → Attended w.toBehaviour p) :
    Ensures (onDialFailure c p k w) fun w' =>
      p ∈ w'.staticRelays → Attended w'.toBehaviour p := by
  unfold onDialFailure
  split
  · dsimp only
    split
    · split
      · rfl
      · exact fun _ => Or.inr (Or.inr ((AList.mem_insert _).mpr (Or.inl rfl)))
    · next hnot =>
      intro hstatic
      push Not at hnot
      exact Or.inl (hnot hstatic)
  · exact h

theorem retryDials_attends
    {c : Clock} {timerReady : Bool} {due : List PeerId} {w : World}
    (hi : InCharge (.poll timerReady) w) (hinv : DialInv c w)
    (hall : AllAttended w.toBehaviour) :
    AllAttended (retryDials c due w).toBehaviour := by
  induction due generalizing w with
  | nil => exact hall
  | cons q rest ih =>
      have hclear : Act c (.poll timerReady) w { w with
          staticDialCooldowns := w.staticDialCooldowns.erase q } :=
        .clearDialCooldown w q (Or.inr ⟨timerReady, rfl⟩)
      have hcleared := hinv.act hi hclear
      have hpolls : (Input.poll timerReady).Dials q :=
        Or.inr (Or.inr ⟨timerReady, rfl⟩)
      have hredial := redialStaticRelay_acts c hpolls
        { w with staticDialCooldowns := w.staticDialCooldowns.erase q }
      obtain ⟨hinv', hi'⟩ := hcleared.acts (hclear.inCharge hi) hredial
      apply ih hi' hinv'
      intro p hp
      have hstatic : p ∈ w.staticRelays :=
        hredial.mem_staticRelays (fun _ h => by cases h) hp
      by_cases heq : q = p
      · subst heq
        exact redialStaticRelay_attends hcleared hstatic
      · -- the other relays do not notice that `q` is dialed
        refine Attended.acts (i := .addStaticRelay q []) ?_ heq
          (redialStaticRelay_acts c (Or.inl ⟨[], rfl⟩) _)
        refine (hall p hstatic).imp id (Or.imp id fun hcooling => ?_)
        exact AList.mem_erase.mpr ⟨Ne.symm heq, hcooling⟩

theorem pollCooldowns_attends
    {c : Clock} {timerReady : Bool} {w : World}
    (hi : InCharge (.poll timerReady) w) (hinv : DialInv c w)
    (hall : AllAttended w.toBehaviour) :
    Ensures (Prod.snd <$> pollCooldowns c timerReady w)
      fun w' => AllAttended w'.toBehaviour := by
  unfold pollCooldowns
  dsimp only
  split
  · have hsweep : Acts c (.poll timerReady) w
        (sweepCooldowns (c.instant w.reads) w.tick) :=
      (Acts.single (.tick w)).tail
        (.sweep w.tick _ ⟨timerReady, rfl⟩ (Nat.succ_pos _) rfl)
    obtain ⟨hswept, hi'⟩ := hinv.acts hi hsweep
    have hretried : AllAttended (retryDials c
        (dueDials w.tick.toBehaviour (c.instant w.reads))
        (sweepCooldowns (c.instant w.reads) w.tick)).toBehaviour :=
      retryDials_attends hi' hswept hall
    generalize retryDials c _ _ = v at hretried ⊢
    have hmeet := meetReservationTargetIf_ensures c .removeAllReservations
      ((values w.tick.reservationCooldowns).any
        fun deadline => decide (deadline ≤ c.instant w.reads)) v
    generalize meetReservationTargetIf c _ v = x at hmeet ⊢
    cases x with
    | error e => exact hmeet
    | ok u => exact fun p hp => hretried.acts hmeet id hp
  · split
    · exact hall
    · exact hall

theorem pollPass_attends
    {c : Clock} {timerReady : Bool} {w : World}
    (hi : InCharge (.poll timerReady) w) (hinv : DialInv c w)
    (hall : AllAttended w.toBehaviour) :
    Ensures (Prod.snd <$> pollPass c timerReady w)
      fun w' => AllAttended w'.toBehaviour := by
  unfold pollPass
  split
  · exact hall
  · have hpoll := pollCooldowns_attends hi hinv hall
    generalize pollCooldowns c timerReady w = x at hpoll ⊢
    cases x with
    | error e => exact hpoll
    | ok r =>
        obtain ⟨again, u⟩ := r
        cases again with
        | true => exact hpoll
        | false => exact hpoll

/-! ## Every reachable state -/

theorem HonestReport.record {history : List Record} {i : Input}
    (h : HonestReport history i) :
    HonestReport (history ++ [.input i]) i := by
  constructor
  · rintro opts endpoint ⟨reads, b, hmem⟩
    rcases List.mem_append.mp hmem with hmem | hmem
    · exact h.1 opts endpoint ⟨reads, b, hmem⟩
    · cases List.mem_singleton.mp hmem
  · intro p k old new j hj hold hnew hdirect
    rcases List.mem_append.mp hj with hj | hj
    · exact h.2 p k old new j hj hold hnew hdirect
    · cases List.mem_singleton.mp hj
      have heq : old = new := by
        rcases hold with hold | hold <;> rcases hnew with hnew | hnew <;>
          rw [hold] at hnew <;> cases hnew <;> rfl
      rwa [← heq]

theorem HonestReport.implied {c : Clock} {i : Input} {w u : World}
    {status : Option Status} (h : HonestReport w.history i)
    (hacts : Acts c (.setStatus status) w u) :
    HonestReport u.history i := by
  induction hacts with
  | refl => exact h
  | tail _ hact ih =>
      rcases hact.history_eq with heq | ⟨r, hr, heq⟩
      · rwa [heq]
      · rw [heq]
        constructor
        · rintro opts endpoint ⟨reads, b, hmem⟩
          rcases List.mem_append.mp hmem with hmem | hmem
          · exact ih.1 opts endpoint ⟨reads, b, hmem⟩
          · have hdials := hr.2 opts reads b (List.mem_singleton.mp hmem).symm
            rcases hdials with ⟨_, h⟩ | ⟨_, h⟩ | ⟨_, h⟩ <;> cases h
        · intro p k old new j hj
          rcases List.mem_append.mp hj with hj | hj
          · exact ih.2 p k old new j hj
          · exact absurd (List.mem_singleton.mp hj).symm (hr.1 j)

theorem dispatchSwarmEvent_attends
    {c : Clock} {event : FromSwarm} {addresses : List Multiaddr}
    {change : Bool} {w : World}
    (hi : InCharge (.swarm event addresses change) w) (hinv : DialInv c w)
    (hcontract : HonestReport w.history (.swarm event addresses change))
    (hall : AllAttended w.toBehaviour) :
    Ensures (dispatchSwarmEvent c event w)
      fun w' => AllAttended w'.toBehaviour := by
  have hacts := dispatchSwarmEvent_ensures c
    (i := .swarm event addresses change) rfl w
  cases event with
  | connectionEstablished q k endpoint =>
      refine hall.of_own hacts (fun p h => h) fun hq => ?_
      exact onConnectionEstablished_attends hinv hcontract rfl
        (hall q (Acts.mem_staticRelays hacts (fun _ h => by cases h) hq))
  | connectionClosed q k =>
      exact hall.of_own hacts (fun p h => h)
        (onConnectionClosed_attends hinv hi rfl (hall q))
  | addressChange q k new =>
      refine hall.of_own hacts (fun p h => h) fun hq => ?_
      exact onAddressChange_attends hinv hcontract rfl
        (hall q (Acts.mem_staticRelays hacts (fun _ h => by cases h) hq))
  | dialFailure peerId k =>
      cases peerId with
      | none => exact hall
      | some q =>
          exact hall.of_own hacts (fun p h => h)
            (onDialFailure_attends (hall q))
  | _ => exact hacts.mono fun w' hacts p hp => hall.acts hacts id hp

theorem serve_attends
    {c : Clock} {i : Input} {w : World} (hi : InCharge i w)
    (hinv : DialInv c w) (hcontract : HonestReport w.history i)
    (hall : AllAttended w.toBehaviour) :
    Ensures (serve c i w) fun w' => AllAttended w'.toBehaviour := by
  cases i with
  | setStatus status =>
      exact (setStatus_ensures c status w).mono
        fun w' hacts p hp => hall.acts hacts id hp
  | addStaticRelay peerId address =>
      exact addStaticRelay_attends c peerId address hinv hall
  | removeStaticRelay q =>
      intro p hp
      obtain ⟨hne, hp⟩ := AList.mem_erase.mp hp
      refine (hall p hp).imp id (Or.imp id fun hcooling => ?_)
      exact AList.mem_erase.mpr ⟨hne, hcooling⟩
  | removeAllReservations =>
      exact fun p hp => hall.acts
        (removeAllReservations_acts c .removeAllReservations w) id hp
  | swarm event addresses change =>
      apply (onExternalAddresses_ensures c addresses change w).bind
      intro u hu
      exact dispatchSwarmEvent_attends (hi.implied hu)
        (hinv.acts (Or.inl ⟨none, rfl⟩) hu).1
        (hcontract.implied hu)
        fun p hp => hall.acts hu id hp
  | handler peerId connectionId out =>
      exact (onConnectionHandlerEvent_ensures c peerId connectionId out w).mono
        fun w' hacts p hp => hall.acts hacts id hp
  | poll timerReady => exact pollPass_attends hi hinv hall
  | allocate listeners connections => exact hall

theorem DialInv.fresh (c : Clock) (config : Config) (reads : ℕ)
    (nextListener : ListenerId) (nextConnection : ConnectionId) :
    DialInv c (World.fresh config reads nextListener nextConnection) where
  dialable := fun p addresses h => by
    simp [World.fresh, Behaviour.default] at h
  dialed := fun p k h => by simp [World.fresh, Behaviour.default] at h
  pending := by
    rintro opts ⟨before, after, n, b, heq, -⟩
    simp [World.fresh] at heq
  allowed := Chronicle.nil
  reported := fun p k info h => by simp [World.fresh, Behaviour.default] at h

theorem DialInv.record {c : Clock} {w : World} (h : DialInv c w) (i : Input) :
    DialInv c (w.record (.input i)) where
  dialable := h.dialable
  dialed := by
    intro p k hk
    obtain ⟨addresses, hdialed⟩ := h.dialed p k hk
    exact ⟨addresses, hdialed.mono fun r hr => List.mem_append_left _ hr⟩
  pending := by
    intro opts hout
    rcases outstanding_snoc hout with ⟨reads, b, hr⟩ | hout
    · cases hr
    · exact h.pending opts hout
  allowed := h.allowed.snoc fun _ _ _ hr => by cases hr
  reported := by
    intro p k info hinfo
    obtain ⟨j, hj, hreports⟩ := h.reported p k info hinfo
    exact ⟨j, List.mem_append_left _ hj, hreports⟩

theorem DialInv.shuffle {c : Clock} {w w' : World} (h : DialInv c w)
    (hshuffle : Shuffled w w') : DialInv c w' where
  dialable := by
    intro p addresses hp
    rw [lookup_of_sameEntries hshuffle.staticRelays] at hp
    exact h.dialable p addresses hp
  dialed := by
    intro p k hk
    rw [lookup_of_sameEntries hshuffle.pendingStaticDials] at hk
    rw [hshuffle.history_eq]
    exact h.dialed p k hk
  pending := by
    intro opts hout
    rw [hshuffle.history_eq] at hout
    rw [lookup_of_sameEntries hshuffle.pendingStaticDials]
    exact h.pending opts hout
  allowed := by
    rw [hshuffle.history_eq]
    exact h.allowed
  reported := by
    intro p k info hinfo
    rw [lookup_of_sameEntries hshuffle.connections] at hinfo
    rw [hshuffle.history_eq]
    exact h.reported p k info hinfo

theorem Reachable.dialInv_and_attended
    {c : Clock} {config : Config} {w : World}
    (h : Reachable c config .dials w) :
    DialInv c w ∧ AllAttended w.toBehaviour := by
  refine h.of_calls (P := fun w => DialInv c w ∧ AllAttended w.toBehaviour)
    ?_ ?_ ?_ ?_
  · intro reads nextListener nextConnection
    refine ⟨DialInv.fresh c config reads nextListener nextConnection, ?_⟩
    intro p hp
    exact absurd hp (AList.notMem_empty p)
  · intro peerId address w hw
    have hi : InCharge (.addStaticRelay peerId address) w :=
      Or.inr (Or.inl ⟨_, _, rfl⟩)
    refine ((addStaticRelay_ensures c peerId address w).and
      (addStaticRelay_attends c peerId address hw.1 hw.2)).mono ?_
    rintro w' ⟨hacts, hall⟩
    exact ⟨(hw.1.acts hi hacts).1, hall⟩
  · intro i w w' _ hw hcontract hstep
    have hinv := hw.1.record i
    have hi := inCharge_record i w
    obtain ⟨u, himplied, hown⟩ := (serve_acts c i _).of_eq_ok hstep
    have hu := (hinv.acts (Or.inl ⟨_, rfl⟩) himplied).1
    refine ⟨(hu.acts (hi.implied himplied) hown).1, ?_⟩
    exact (serve_attends hi hinv (HonestReport.record hcontract)
      hw.2).of_eq_ok hstep
  · intro w w' hw hshuffle
    refine ⟨hw.1.shuffle hshuffle, ?_⟩
    intro p hp
    have hold := hw.2 p ((mem_of_sameEntries hshuffle.staticRelays).mp hp)
    unfold Attended
    rw [hshuffle.hasDirectConnection_eq,
      mem_of_sameEntries hshuffle.pendingStaticDials,
      mem_of_sameEntries hshuffle.staticDialCooldowns]
    exact hold

/-- Every static relay is attended to in every reachable state, and every dial
was allowed when it was queued. -/
theorem static_relays_attended {c : Clock} {config : Config} {w : World}
    (h : Reachable c config .dials w) :
    (∀ p, p ∈ w.staticRelays →
      hasDirectConnection w.toBehaviour p = true ∨
        p ∈ w.pendingStaticDials ∨ p ∈ w.staticDialCooldowns) ∧
    ∀ before after opts reads b,
      w.history = before ++ .queued (.dial opts) reads b :: after →
        DialAllowed c before opts reads b := by
  obtain ⟨hinv, hall⟩ := h.dialInv_and_attended
  exact ⟨hall, fun before after opts reads b heq =>
    hinv.allowed before _ after heq opts reads b rfl⟩

/-- The dial that a line of the history reports. -/
def Record.dial? (r : Record) : Option (DialOpts × ℕ) :=
  match r with
  | .queued (.dial opts) reads _ => some (opts, reads)
  | _ => none

theorem Record.eq_of_dial? {r : Record} {opts : DialOpts} {n : ℕ}
    (h : r.dial? = some (opts, n)) : ∃ b, r = .queued (.dial opts) n b := by
  unfold Record.dial? at h
  split at h <;> cases h
  exact ⟨_, rfl⟩

/-- The dial of a static relay fails and is repeated after the cooldown. -/
def relayDialFails : List Input :=
  [.addStaticRelay 7 [.tcp 4001], .swarm (.dialFailure (some 7) 0) [] false,
    .poll false, .poll false, .poll false, .poll false]

theorem relayDialFails_dials :
    ∀ i ∈ relayDialFails, ∀ w, anyInput w i = true →
      Contract.dials w i := by
  intro i hi w _
  simp only [relayDialFails, List.mem_cons, List.not_mem_nil, or_false] at hi
  constructor
  · intro opts endpoint _ hevent
    rcases hi with rfl | rfl | rfl | rfl | rfl | rfl <;> cases hevent
  · intro p k old new j _ _ hnew
    rcases hi with rfl | rfl | rfl | rfl | rfl | rfl <;>
      rcases hnew with h | h <;> cases h

theorem static_relays_attended_relayDialFails :
    ∃ w before b, Reachable slowClock Config.default .dials w ∧
      w.history = before ++ [.queued (.dial ⟨7, [[.tcp 4001]], 1⟩) 4 b] ∧
      DialAllowed slowClock before ⟨7, [[.tcp 4001]], 1⟩ 4 b ∧
      7 ∈ w.staticRelays ∧
      (hasDirectConnection w.toBehaviour 7 = true ∨
        7 ∈ w.pendingStaticDials ∨ 7 ∈ w.staticDialCooldowns) := by
  obtain ⟨w, hw, hrun⟩ := exists_reachable_of_runNew
    (f := fun w => ((w.history.map Record.dial?).drop 7,
      decide (7 ∈ w.staticRelays)))
    (a := ([some (⟨7, [[.tcp 4001]], 1⟩, 4)], true))
    relayDialFails_dials
    (show (runNew slowClock Config.default anyInput relayDialFails).map _ = _
      by decide)
  simp only [Prod.mk.injEq, decide_eq_true_eq] at hrun
  obtain ⟨hdrop, hstatic⟩ := hrun
  rw [← List.map_drop] at hdrop
  obtain ⟨r, rest, hlist, hdial, hrest⟩ := List.map_eq_cons_iff.mp hdrop
  obtain ⟨b, rfl⟩ := Record.eq_of_dial? hdial
  rw [List.map_eq_nil_iff.mp hrest] at hlist
  have hhistory : w.history = w.history.take 7 ++
      [.queued (.dial ⟨7, [[.tcp 4001]], 1⟩) 4 b] := by
    rw [← hlist, List.take_append_drop]
  obtain ⟨hattended, hallowed⟩ := static_relays_attended hw
  exact ⟨w, _, b, hw, hhistory, hallowed _ [] _ 4 b hhistory, hstatic,
    hattended 7 hstatic⟩

end Connexa.Autorelay
