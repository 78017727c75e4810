import Connexa.Autorelay.Runs

/-!
# What one call selects

`meet_reservation_target` goes through the connections in the order of a hash map
and looks at the clock for every one of them whose peer has a cooldown.  Where no
cooldown ends while it does so, what it selects is a function of the state: the
eligible static relays in increasing order, then the other eligible peers, up to
the budget and each through its lowest supported connection.
-/

namespace Connexa.Autorelay

open HashMap

/-! ## The specification -/

/-- The supported connections of a peer among the entries. -/
def supportedIn (entries : List (Σ _ : PeerId × ConnectionId, Connection))
    (p : PeerId) : List ConnectionId :=
  (entries.filter fun e => e.1.1 = p ∧ e.2.relayStatus = .supported).map (·.1.2)

/-- The lowest-numbered supported connection of a peer. -/
def lowestConnection (b : Behaviour) (p : PeerId) : Option ConnectionId :=
  (supportedIn b.connections.entries p).min?

/-- The peer has no cooldown that goes on at the time. -/
def RestedAt (now : Instant) (b : Behaviour) (p : PeerId) : Prop :=
  ∀ deadline ∈ b.reservationCooldowns.lookup p, deadline ≤ now

instance (now : Instant) (b : Behaviour) : DecidablePred (RestedAt now b) :=
  fun p => inferInstanceAs (Decidable (∀ deadline ∈ b.reservationCooldowns.lookup p, _))

/-- The peer is not covered, rested, and has a supported connection. -/
def Eligible (now : Instant) (b : Behaviour) (p : PeerId) : Prop :=
  p ∉ coveredPeers b ∧ RestedAt now b p ∧ supportedIn b.connections.entries p ≠ []

instance (now : Instant) (b : Behaviour) : DecidablePred (Eligible now b) :=
  fun _ => inferInstanceAs (Decidable (_ ∧ _ ∧ _))

def eligiblePeers (now : Instant) (b : Behaviour) : Finset PeerId :=
  (b.connections.entries.map (·.1.1)).toFinset.filter (Eligible now b)

/-- The eligible static relays. -/
def eligibleStatics (now : Instant) (b : Behaviour) : Finset PeerId :=
  (eligiblePeers now b).filter (· ∈ b.staticRelays)

/-- The other eligible peers. -/
def eligibleOthers (now : Instant) (b : Behaviour) : Finset PeerId :=
  (eligiblePeers now b).filter (· ∉ b.staticRelays)

/-- Static relays first, each class in increasing order, up to the budget. -/
def selectedPeers (now : Instant) (b : Behaviour) : List PeerId :=
  ((eligibleStatics now b).sort ++ (eligibleOthers now b).sort).take (budget b)

/-- The address to listen on to get a reservation through a connection. -/
def circuitAddress (b : Behaviour) (p : PeerId) (k : ConnectionId) : Multiaddr :=
  match b.connections.lookup (p, k) with
  | none => []
  | some info =>
      match info.addr.withP2p p with
      | .error _ => []
      | .ok full => full ++ [.p2pCircuit]

/-- The commands for the selected peers, with the listener ids from `first` on. -/
def listenCommands (now : Instant) (b : Behaviour) (first : ListenerId) : List ToSwarm :=
  (selectedPeers now b).mapIdx fun i p =>
    .listenOn ⟨first + i, circuitAddress b p ((lowestConnection b p).getD 0)⟩

/-- The reservations that give way to static relays: one, if any. -/
def evictions (now : Instant) (b : Behaviour) : List ListenerId :=
  if budget b < (eligibleStatics now b).card ∧ b.pendingEviction = none then
    (evictable b).toList
  else []

/-- The readings of a call in the state decide every cooldown as `now` does. -/
def DecidesAs (c : Clock) (now : Instant) (w : World) : Prop :=
  ∀ p, ∀ deadline ∈ w.reservationCooldowns.lookup p, ∀ n, w.reads ≤ n →
    n < w.reads + len w.connections → (deadline ≤ c.instant n ↔ deadline ≤ now)

/-- The order of the selection: static relays first, then by peer id. -/
def Precedes (b : Behaviour) (p q : PeerId) : Prop :=
  (p ∈ b.staticRelays ∧ q ∉ b.staticRelays) ∨
    ((p ∈ b.staticRelays ↔ q ∈ b.staticRelays) ∧ p < q)

/-- The peers are distinct and the first of the eligible ones, as many as the budget
admits. -/
structure FirstEligible (now : Instant) (b : Behaviour) (selected : List PeerId) :
    Prop where
  length : selected.length = min (budget b) (eligiblePeers now b).card
  nodup : selected.Nodup
  eligible : ∀ p ∈ selected, Eligible now b p
  ordered : selected.Pairwise (Precedes b)
  first : ∀ p ∈ selected, ∀ q, Eligible now b q → Precedes b q p → q ∈ selected

/-- At most one reservation gives way, and only where the source allows it. -/
structure EvictsOne (now : Instant) (b : Behaviour) (evicted : List ListenerId) :
    Prop where
  atMostOne : evicted.length ≤ 1
  needed : evicted ≠ [] → budget b < (eligibleStatics now b).card
  idle : evicted ≠ [] → b.pendingEviction = none
  replaceable : ∀ id ∈ evicted, ∃ r, b.reservations.lookup id = some r ∧
    r.peerId ∉ b.staticRelays ∧ r.peerId ∉ values b.externalReservations

/-- The call from `w` to `w'` queues the specified commands, and its reservations go
through the lowest supported connections. -/
structure Selects (now : Instant) (w w' : World) : Prop where
  events : w'.events = w.events ++
    ((evictions now w.toBehaviour).map .removeListener ++
      listenCommands now w.toBehaviour w.nextListener)
  opened : ∀ i p, (selectedPeers now w.toBehaviour)[i]? = some p →
    ∃ r, w'.reservations.lookup (w.nextListener + i) = some r ∧ r.peerId = p ∧
      lowestConnection w.toBehaviour p = some r.selectedConnectionId

theorem mem_supportedIn {entries : List (Σ _ : PeerId × ConnectionId, Connection)}
    {p : PeerId} {k : ConnectionId} :
    k ∈ supportedIn entries p ↔
      ∃ info, ⟨(p, k), info⟩ ∈ entries ∧ info.relayStatus = .supported := by
  simp only [supportedIn, List.mem_map, List.mem_filter, decide_eq_true_eq]
  constructor
  · rintro ⟨⟨⟨q, j⟩, info⟩, ⟨hmem, rfl, hsupported⟩, rfl⟩
    exact ⟨info, hmem, hsupported⟩
  · rintro ⟨info, hmem, hsupported⟩
    exact ⟨_, ⟨hmem, rfl, hsupported⟩, rfl⟩

theorem mem_eligiblePeers {now : Instant} {b : Behaviour} {p : PeerId} :
    p ∈ eligiblePeers now b ↔ Eligible now b p := by
  rw [eligiblePeers, Finset.mem_filter, List.mem_toFinset, and_iff_right_iff_imp]
  rintro ⟨-, -, hsupported⟩
  obtain ⟨k, hk⟩ := List.exists_mem_of_ne_nil _ hsupported
  obtain ⟨info, hmem, -⟩ := mem_supportedIn.mp hk
  exact List.mem_map.mpr ⟨_, hmem, rfl⟩

theorem supportedIn_cons_of_ne {e : Σ _ : PeerId × ConnectionId, Connection}
    {rest : List (Σ _ : PeerId × ConnectionId, Connection)} {p : PeerId}
    (h : ¬(e.1.1 = p ∧ e.2.relayStatus = .supported)) :
    supportedIn (e :: rest) p = supportedIn rest p := by
  rw [supportedIn, List.filter_cons_of_neg (by simpa using h)]
  rfl

theorem supportedIn_cons {e : Σ _ : PeerId × ConnectionId, Connection}
    {rest : List (Σ _ : PeerId × ConnectionId, Connection)} {p : PeerId}
    (h : e.1.1 = p ∧ e.2.relayStatus = .supported) :
    supportedIn (e :: rest) p = e.1.2 :: supportedIn rest p := by
  rw [supportedIn, List.filter_cons_of_pos (by simpa using h)]
  rfl

/-! ## The loop over the connections -/

/-- One of the two buckets. -/
def Candidates.bucket (found : Candidates) (isStatic : Bool) :
    HashMap PeerId ConnectionId :=
  if isStatic then found.staticCandidates else found.candidates

theorem lookup_bucket_add (acc : Candidates) (s t : Bool) (p q : PeerId)
    (k : ConnectionId) :
    ((acc.add s p k).bucket t).lookup q =
      if t = s ∧ q = p then some ((((acc.bucket t).lookup q).map (min · k)).getD k)
      else (acc.bucket t).lookup q := by
  have hlowest : ∀ m : HashMap PeerId ConnectionId, (insertLowest m p k).lookup q =
      if q = p then some (((m.lookup q).map (min · k)).getD k) else m.lookup q := by
    intro m
    unfold insertLowest
    split
    · next hnone =>
      rw [HashMap.lookup_insert]
      split
      · next heq => rw [heq, hnone]; rfl
      · rfl
    · next existing hsome =>
      rw [HashMap.lookup_insert]
      split
      · next heq => rw [heq, hsome]; rfl
      · rfl
  cases s <;> cases t <;> simp [Candidates.add, Candidates.bucket, hlowest]

/-- Clock readings that agree with `now` tell who is rested. -/
theorem reservationInCooldown_iff {c : Clock} {now : Instant} {w : World} {p : PeerId}
    (h : ∀ deadline ∈ w.reservationCooldowns.lookup p,
      (deadline ≤ c.instant w.reads ↔ deadline ≤ now)) :
    (reservationInCooldown c p w).1 = true ↔ ¬RestedAt now w.toBehaviour p := by
  unfold reservationInCooldown RestedAt
  cases hlookup : w.reservationCooldowns.lookup p with
  | none => simp
  | some deadline =>
      have hdeadline := h deadline hlookup
      simp only [decide_eq_true_eq, Option.mem_some_iff, forall_eq']
      rw [← hdeadline, Nat.not_le]

theorem reservationInCooldown_reads (c : Clock) (p : PeerId) (w : World) :
    w.reads ≤ (reservationInCooldown c p w).2.reads ∧
      (reservationInCooldown c p w).2.reads ≤ w.reads + 1 := by
  rcases reservationInCooldown_eq c p w with h | h
  · rw [h]
    exact ⟨le_refl _, Nat.le_succ _⟩
  · rw [h]
    exact ⟨Nat.le_succ _, le_refl _⟩

/-- The least of the bucket's entry and the connections that follow. -/
theorem min?_add (o : Option ConnectionId) (k : ConnectionId)
    (rest : List ConnectionId) :
    ((some ((o.map (min · k)).getD k)).toList ++ rest).min? =
      (o.toList ++ k :: rest).min? := by
  cases o with
  | none => rfl
  | some a =>
      simp only [Option.map_some, Option.getD_some, Option.toList_some,
        List.singleton_append, List.min?_cons', List.foldl_cons]

/-- Each bucket ends with the lowest connections of its peers. -/
theorem collectCandidates_lookup {c : Clock} {now : Instant} {covered : Finset PeerId}
    (entries : List (Σ _ : PeerId × ConnectionId, Connection)) (acc : Candidates)
    (w : World)
    (hclock : ∀ p, ∀ deadline ∈ w.reservationCooldowns.lookup p, ∀ n, w.reads ≤ n →
      n < w.reads + entries.length → (deadline ≤ c.instant n ↔ deadline ≤ now))
    (s : Bool) (p : PeerId) :
    ((collectCandidates c covered entries acc w).1.bucket s).lookup p =
      if decide (p ∈ w.staticRelays) = s ∧ p ∉ covered ∧ RestedAt now w.toBehaviour p then
        (((acc.bucket s).lookup p).toList ++ supportedIn entries p).min?
      else (acc.bucket s).lookup p := by
  induction entries generalizing acc w with
  | nil =>
      have hsingle : ∀ o : Option ConnectionId, o.toList.min? = o := by
        intro o
        cases o <;> rfl
      simp [collectCandidates, supportedIn, hsingle]
  | cons e rest ih =>
      obtain ⟨⟨peerId, connectionId⟩, info⟩ := e
      rw [List.length_cons] at hclock
      have hcool : (reservationInCooldown c peerId w).1 = true ↔
          ¬RestedAt now w.toBehaviour peerId :=
        reservationInCooldown_iff fun deadline hdeadline =>
          hclock peerId deadline hdeadline w.reads (le_refl _) (by omega)
      have hbehaviour := reservationInCooldown_behaviour c peerId w
      obtain ⟨hreads, hreads'⟩ := reservationInCooldown_reads c peerId w
      -- the rest of the loop, after at most one reading of the clock
      have hrest : ∀ acc, ∀ v : World, v.toBehaviour = w.toBehaviour →
          w.reads ≤ v.reads → v.reads ≤ w.reads + 1 →
          ((collectCandidates c covered rest acc v).1.bucket s).lookup p =
            if decide (p ∈ w.staticRelays) = s ∧ p ∉ covered ∧
                RestedAt now w.toBehaviour p then
              (((acc.bucket s).lookup p).toList ++ supportedIn rest p).min?
            else (acc.bucket s).lookup p := by
        intro acc v hv hle hle'
        rw [← hv]
        apply ih
        intro q deadline hdeadline n hn hn'
        rw [hv] at hdeadline
        exact hclock q deadline hdeadline n (by omega) (by omega)
      simp only [collectCandidates]
      split
      · next hcovered =>
        rw [hrest acc w rfl (le_refl _) (Nat.le_succ _)]
        by_cases hp : peerId = p
        · rw [if_neg fun h => h.2.1 (hp ▸ hcovered), if_neg fun h =>
            h.2.1 (hp ▸ hcovered)]
        · rw [supportedIn_cons_of_ne fun h => hp h.1]
      · split
        · next hcooling =>
          have hnotRested := hcool.mp hcooling
          rw [hrest acc _ hbehaviour hreads hreads']
          by_cases hp : peerId = p
          · rw [if_neg fun h => hnotRested (hp ▸ h.2.2),
              if_neg fun h => hnotRested (hp ▸ h.2.2)]
          · rw [supportedIn_cons_of_ne fun h => hp h.1]
        · next hcovered hcooling =>
          have hrested : RestedAt now w.toBehaviour peerId := by
            by_contra hnot
            exact hcooling (hcool.mpr hnot)
          split
          · next hstatus =>
            rw [hrest acc _ hbehaviour hreads hreads',
              supportedIn_cons_of_ne fun h => hstatus h.2]
          · next hstatus =>
            rw [hrest _ _ hbehaviour hreads hreads', lookup_bucket_add, hbehaviour]
            by_cases hp : p = peerId
            · subst hp
              by_cases hs : decide (p ∈ w.staticRelays) = s
              · rw [if_pos (⟨hs.symm, rfl⟩ : _ ∧ p = p), if_pos ⟨hs, hcovered, hrested⟩,
                  if_pos ⟨hs, hcovered, hrested⟩, min?_add,
                  supportedIn_cons ⟨rfl, not_not.mp hstatus⟩]
              · rw [if_neg (fun h : _ ∧ p = p => hs h.1.symm), if_neg fun h => hs h.1,
                  if_neg fun h => hs h.1]
            · rw [if_neg (fun h : _ ∧ p = peerId => hp h.2),
                supportedIn_cons_of_ne fun h => hp h.1.symm]

/-! ## The selection -/

/-- The eligible peers of one class. -/
theorem mem_eligibleStatics {now : Instant} {b : Behaviour} {p : PeerId} :
    p ∈ eligibleStatics now b ↔ Eligible now b p ∧ p ∈ b.staticRelays := by
  rw [eligibleStatics, Finset.mem_filter, mem_eligiblePeers]

theorem mem_eligibleOthers {now : Instant} {b : Behaviour} {p : PeerId} :
    p ∈ eligibleOthers now b ↔ Eligible now b p ∧ p ∉ b.staticRelays := by
  rw [eligibleOthers, Finset.mem_filter, mem_eligiblePeers]

theorem lowestConnection_isSome {now : Instant} {b : Behaviour} {p : PeerId}
    (h : Eligible now b p) : ∃ k, lowestConnection b p = some k := by
  rw [← Option.isSome_iff_exists, lowestConnection, List.isSome_min?_iff]
  exact h.2.2

/-- A bucket holds the eligible peers of its class with their lowest connections. -/
theorem candidatesOf_lookup {c : Clock} {now : Instant} {w : World}
    (h : DecidesAs c now w) (s : Bool) (p : PeerId) (k : ConnectionId) :
    ((candidatesOf c w).bucket s).lookup p = some k ↔
      (Eligible now w.toBehaviour p ∧ decide (p ∈ w.staticRelays) = s) ∧
        k = (lowestConnection w.toBehaviour p).getD 0 := by
  have hempty : ((⟨∅, ∅⟩ : Candidates).bucket s).lookup p = none := by
    cases s <;> rfl
  rw [candidatesOf, collectCandidates_lookup w.connections.entries _ w h, hempty,
    Option.toList_none, List.nil_append]
  constructor
  · intro hlookup
    split at hlookup
    · next hclass =>
      have heligible : Eligible now w.toBehaviour p := by
        refine ⟨hclass.2.1, hclass.2.2, ?_⟩
        intro hnil
        rw [hnil] at hlookup
        cases hlookup
      refine ⟨⟨heligible, hclass.1⟩, ?_⟩
      rw [lowestConnection, hlookup]
      rfl
    · cases hlookup
  · rintro ⟨⟨heligible, hs⟩, rfl⟩
    obtain ⟨k, hk⟩ := lowestConnection_isSome heligible
    rw [if_pos ⟨hs, heligible.1, heligible.2.1⟩, hk]
    exact hk

theorem sortedEntries_statics {c : Clock} {now : Instant} {w : World}
    (h : DecidesAs c now w) :
    sortedEntries (candidatesOf c w).staticCandidates =
      (eligibleStatics now w.toBehaviour).sort.map
        fun p => (p, (lowestConnection w.toBehaviour p).getD 0) := by
  apply sortedEntries_eq_map_sort
  intro p k
  rw [mem_eligibleStatics, ← decide_eq_true_iff (p := p ∈ _)]
  exact candidatesOf_lookup h true p k

theorem sortedEntries_others {c : Clock} {now : Instant} {w : World}
    (h : DecidesAs c now w) :
    sortedEntries (candidatesOf c w).candidates =
      (eligibleOthers now w.toBehaviour).sort.map
        fun p => (p, (lowestConnection w.toBehaviour p).getD 0) := by
  apply sortedEntries_eq_map_sort
  intro p k
  rw [mem_eligibleOthers, ← decide_eq_false_iff_not (p := p ∈ _)]
  exact candidatesOf_lookup h false p k

theorem len_statics {c : Clock} {now : Instant} {w : World} (h : DecidesAs c now w) :
    len (candidatesOf c w).staticCandidates =
      (eligibleStatics now w.toBehaviour).card := by
  have hlength := congrArg List.length (sortedEntries_statics h)
  rw [(sortedEntries_perm _).length_eq] at hlength
  simpa [len] using hlength

theorem selection_eq {c : Clock} {now : Instant} {w : World} (h : DecidesAs c now w) :
    selection (candidatesOf c w) (budget w.toBehaviour) =
      (selectedPeers now w.toBehaviour).map
        fun p => (p, (lowestConnection w.toBehaviour p).getD 0) := by
  rw [selection, sortedEntries_statics h, sortedEntries_others h, ← List.map_append,
    ← List.map_take]
  rfl

/-! ## Opening the selected reservations -/

theorem circuitAddress_eq {b : Behaviour} {p : PeerId} {k : ConnectionId}
    {info : Connection} {full : Multiaddr}
    (hlookup : b.connections.lookup (p, k) = some info)
    (hfull : info.addr.withP2p p = .ok full) :
    circuitAddress b p k = full ++ [.p2pCircuit] := by
  simp only [circuitAddress, hlookup, hfull]

/-- The selected pairs are served in order, with consecutive listener ids. -/
theorem selectAll_opens {c : Clock} {selected : List (PeerId × ConnectionId)}
    {v v' : World}
    (h : Selectable c selected v) (hown : AddressesOwn v.toBehaviour)
    (hv' : selectAll selected v = .ok v') :
    v'.events = v.events ++ selected.mapIdx (fun i s =>
        .listenOn ⟨v.nextListener + i, circuitAddress v.toBehaviour s.1 s.2⟩) ∧
      (∀ id, id < v.nextListener → v'.reservations.lookup id = v.reservations.lookup id) ∧
      ∀ i s, selected[i]? = some s → ∃ r, v'.reservations.lookup (v.nextListener + i) =
        some r ∧ r.peerId = s.1 ∧ r.selectedConnectionId = s.2 := by
  induction selected generalizing v with
  | nil =>
      cases hv'
      simp
  | cons s rest ih =>
      obtain ⟨peerId, connectionId⟩ := s
      obtain ⟨info, hlookup, hsupported⟩ := h.supported _ List.mem_cons_self
      rcases selectConnectionForReservation_cases hlookup hsupported with
        ⟨hends, -⟩ | ⟨full, hfull, hstep⟩
      · exact absurd hends (hown _ _ _ hlookup)
      · rw [selectAll, hstep] at hv'
        obtain ⟨hevents, hold, hnew⟩ := ih (h.opened info full) hown hv'
        refine ⟨?_, ?_, ?_⟩
        · rw [hevents, List.mapIdx_cons, circuitAddress_eq hlookup hfull]
          have hshift : (fun (i : ℕ) (s : PeerId × ConnectionId) => ToSwarm.listenOn
                ⟨v.nextListener + (i + 1), circuitAddress v.toBehaviour s.1 s.2⟩) =
              fun i s => ToSwarm.listenOn
                ⟨v.nextListener + 1 + i, circuitAddress v.toBehaviour s.1 s.2⟩ := by
            funext i s
            rw [Nat.add_assoc, Nat.add_comm 1]
          rw [hshift]
          exact List.append_assoc v.events [_] _
        · intro id hid
          rw [hold id (Nat.lt_succ_of_lt hid)]
          exact AList.lookup_insert_ne (Nat.ne_of_lt hid)
        · intro i s hs
          cases i with
          | zero =>
              cases hs
              rw [Nat.add_zero, hold v.nextListener (Nat.lt_succ_self _)]
              exact ⟨_, AList.lookup_insert _, rfl, rfl⟩
          | succ i =>
              obtain ⟨r, hr, hpeer, hselected⟩ := hnew i s hs
              refine ⟨r, ?_, hpeer, hselected⟩
              rw [← hr]
              congr 1
              exact (Nat.succ_add_eq_add_succ v.nextListener i).symm

/-! ## The specified selection -/

/-- Everybody eligible, in the order of the selection. -/
theorem mem_order {now : Instant} {b : Behaviour} {p : PeerId} :
    p ∈ (eligibleStatics now b).sort ++ (eligibleOthers now b).sort ↔
      Eligible now b p := by
  rw [List.mem_append, Finset.mem_sort, Finset.mem_sort, mem_eligibleStatics,
    mem_eligibleOthers, ← and_or_left, and_iff_left (em _)]

theorem order_pairwise (now : Instant) (b : Behaviour) :
    ((eligibleStatics now b).sort ++ (eligibleOthers now b).sort).Pairwise
      (Precedes b) := by
  have hstatics := (Finset.sortedLT_sort (eligibleStatics now b)).pairwise
  have hothers := (Finset.sortedLT_sort (eligibleOthers now b)).pairwise
  refine List.pairwise_append.mpr ⟨?_, ?_, ?_⟩
  · refine hstatics.imp_of_mem ?_
    intro p q hp hq hlt
    have hp := (mem_eligibleStatics.mp ((Finset.mem_sort _).mp hp)).2
    have hq := (mem_eligibleStatics.mp ((Finset.mem_sort _).mp hq)).2
    exact Or.inr ⟨iff_of_true hp hq, hlt⟩
  · refine hothers.imp_of_mem ?_
    intro p q hp hq hlt
    have hp := (mem_eligibleOthers.mp ((Finset.mem_sort _).mp hp)).2
    have hq := (mem_eligibleOthers.mp ((Finset.mem_sort _).mp hq)).2
    exact Or.inr ⟨iff_of_false hp hq, hlt⟩
  · intro p hp q hq
    have hp := (mem_eligibleStatics.mp ((Finset.mem_sort _).mp hp)).2
    have hq := (mem_eligibleOthers.mp ((Finset.mem_sort _).mp hq)).2
    exact Or.inl ⟨hp, hq⟩

theorem Precedes.asymm {b : Behaviour} {p q : PeerId} (h : Precedes b p q) :
    ¬Precedes b q p := by
  rintro (⟨hq, hp⟩ | ⟨hiff, hlt⟩)
  · rcases h with ⟨hp', -⟩ | ⟨hiff, -⟩
    · exact hp hp'
    · exact hp (hiff.mpr hq)
  · rcases h with ⟨hp, hq⟩ | ⟨-, hlt'⟩
    · exact hq (hiff.mpr hp)
    · exact absurd hlt' (Nat.lt_asymm hlt)

theorem firstEligible_selectedPeers (now : Instant) (b : Behaviour) :
    FirstEligible now b (selectedPeers now b) := by
  have hpairwise := order_pairwise now b
  have hordered : (selectedPeers now b).Pairwise (Precedes b) :=
    hpairwise.sublist (List.take_sublist _ _)
  refine ⟨?_, ?_, ?_, hordered, ?_⟩
  · rw [selectedPeers, List.length_take, List.length_append, Finset.length_sort,
      Finset.length_sort, eligibleStatics, eligibleOthers,
      Finset.card_filter_add_card_filter_not]
  · refine hordered.imp ?_
    rintro p q h rfl
    exact h.asymm h
  · intro p hp
    exact mem_order.mp (List.mem_of_mem_take hp)
  · intro p hp q hq hprecedes
    by_contra hnot
    -- whoever is not taken comes after everybody who is
    have hall := mem_order.mpr hq
    rw [← List.take_append_drop (budget b) (_ ++ _)] at hall hpairwise
    rcases List.mem_append.mp hall with htaken | hdropped
    · exact hnot htaken
    · exact ((List.pairwise_append.mp hpairwise).2.2 p hp q hdropped).asymm hprecedes

theorem evictable_eq_some {b : Behaviour} {id : ListenerId} (h : evictable b = some id) :
    ∃ r, b.reservations.lookup id = some r ∧ r.peerId ∉ b.staticRelays ∧
      r.peerId ∉ values b.externalReservations := by
  obtain ⟨⟨id', r⟩, hmem, hr⟩ := List.exists_of_findSome?_eq_some h
  split at hr
  · next hfree =>
    cases hr
    exact ⟨r, lookup_eq_some_iff.mpr hmem, hfree⟩
  · cases hr

theorem evictsOne_evictions (now : Instant) (b : Behaviour) :
    EvictsOne now b (evictions now b) := by
  unfold evictions
  split
  · next hneeded =>
    refine ⟨?_, fun _ => hneeded.1, fun _ => hneeded.2, ?_⟩
    · cases evictable b <;> simp
    · intro id hid
      exact evictable_eq_some (Option.mem_toList.mp hid)
  · exact ⟨Nat.zero_le _, absurd rfl, absurd rfl, fun id hid => by cases hid⟩

/-! ## One call -/

theorem makeRoomForStaticRelays_events (needed : ℕ) (w : World) :
    (makeRoomForStaticRelays needed w).events = w.events ++
      (if needed ≠ 0 ∧ w.pendingEviction = none then (evictable w.toBehaviour).toList
        else []).map .removeListener := by
  unfold makeRoomForStaticRelays
  cases hpending : w.pendingEviction with
  | some id => simp
  | none =>
      by_cases hneeded : needed = 0
      · simp [hneeded]
      · cases hevictable : evictable w.toBehaviour with
        | none => simp [hneeded]
        | some id => simp [hneeded, World.queue]

theorem roomMade_events {c : Clock} {now : Instant} {w : World} (h : DecidesAs c now w) :
    (roomMade c w).events =
      w.events ++ (evictions now w.toBehaviour).map .removeListener := by
  obtain ⟨n, -, hworld⟩ := collectCandidates_world c (coveredPeers w.toBehaviour)
    w.connections.entries ⟨∅, ∅⟩ w
  have hneeded : (eligibleStatics now w.toBehaviour).card - budget w.toBehaviour ≠ 0 ↔
      budget w.toBehaviour < (eligibleStatics now w.toBehaviour).card := by
    omega
  rw [roomMade, makeRoomForStaticRelays_events, hworld, len_statics h]
  refine congrArg (fun l : List ListenerId => w.events ++ l.map ToSwarm.removeListener) ?_
  exact if_congr (and_congr_left' hneeded) rfl rfl

/-- The commands for the selected pairs are the specified ones. -/
theorem listenCommands_eq (now : Instant) (b : Behaviour) (first : ListenerId) :
    ((selectedPeers now b).map fun p => (p, (lowestConnection b p).getD 0)).mapIdx
        (fun i s => .listenOn ⟨first + i, circuitAddress b s.1 s.2⟩) =
      listenCommands now b first := by
  apply List.ext_getElem?
  intro i
  rw [listenCommands, List.getElem?_mapIdx, List.getElem?_mapIdx, List.getElem?_map,
    Option.map_map]
  rfl

/-- One call does what is specified where no cooldown ends while it runs. -/
theorem meetReservationTarget_selects {c : Clock} {now : Instant} {w : World}
    (henabled : w.status = .enable) (hown : AddressesOwn w.toBehaviour)
    (hclock : DecidesAs c now w) :
    ∃ w', meetReservationTarget c w = .ok w' ∧ Selects now w w' := by
  have hprep := (prepared_roomMade c w).1
  rw [meetReservationTarget_eq henabled]
  split
  · next hbudget =>
    have hnobody : selectedPeers now w.toBehaviour = [] := by
      rw [selectedPeers, hbudget, List.take_zero]
    refine ⟨_, rfl, ?_, ?_⟩
    · rw [roomMade_events hclock, listenCommands, hnobody, List.mapIdx_nil,
        List.append_nil]
    · intro i p hp
      rw [hnobody] at hp
      cases hp
  · next hbudget =>
    have hselectable := hprep.selectable henabled hbudget
    have hown' : AddressesOwn (roomMade c w).toBehaviour := by
      intro p k info hinfo
      rw [hprep.connections] at hinfo
      exact hown p k info hinfo
    obtain ⟨u, hu, -, hcard⟩ := selectAll_acts (.poll false) hselectable
    obtain ⟨hevents, -, hopened⟩ := selectAll_opens hselectable hown' hu
    rw [hprep.config] at hcard
    refine ⟨u, by rw [hu]; exact if_pos hcard, ?_, ?_⟩
    · have haddress : ∀ p k, circuitAddress (roomMade c w).toBehaviour p k =
          circuitAddress w.toBehaviour p k := by
        intro p k
        simp only [circuitAddress, hprep.connections]
      simp only [haddress, hprep.nextListener] at hevents
      rw [hevents, roomMade_events hclock, selection_eq hclock, List.append_assoc,
        listenCommands_eq]
    · intro i p hp
      obtain ⟨r, hr, hpeer, hconnection⟩ := hopened i
        (p, (lowestConnection w.toBehaviour p).getD 0)
        (by rw [selection_eq hclock, List.getElem?_map, hp]; rfl)
      rw [hprep.nextListener] at hr
      obtain ⟨k, hk⟩ := lowestConnection_isSome
        ((firstEligible_selectedPeers now w.toBehaviour).eligible p
          (List.mem_of_getElem? hp))
      refine ⟨r, hr, hpeer, ?_⟩
      rw [hconnection, hk]
      rfl

/-! ## The iteration order -/

namespace Shuffled

variable {w v : World} (h : Shuffled w v)

include h

theorem supportedIn_perm (p : PeerId) :
    (supportedIn v.connections.entries p).Perm (supportedIn w.connections.entries p) :=
  (List.Perm.filter _ h.connections).map _

theorem lowestConnection_eq (p : PeerId) :
    lowestConnection v.toBehaviour p = lowestConnection w.toBehaviour p := by
  apply Option.ext
  intro k
  have hmem := fun j => (h.supportedIn_perm p).mem_iff (a := j)
  simp only [lowestConnection, List.min?_eq_some_iff, hmem]

theorem eligible_iff (now : Instant) (p : PeerId) :
    Eligible now v.toBehaviour p ↔ Eligible now w.toBehaviour p := by
  have hnil : supportedIn v.connections.entries p = [] ↔
      supportedIn w.connections.entries p = [] := by
    rw [← List.length_eq_zero_iff, (h.supportedIn_perm p).length_eq,
      List.length_eq_zero_iff]
  simp only [Eligible, RestedAt, h.coveredPeers_eq,
    lookup_of_sameEntries h.reservationCooldowns, ne_eq, hnil]

theorem eligibleStatics_eq (now : Instant) :
    eligibleStatics now v.toBehaviour = eligibleStatics now w.toBehaviour := by
  ext p
  rw [mem_eligibleStatics, mem_eligibleStatics, h.eligible_iff,
    mem_of_sameEntries h.staticRelays]

theorem eligibleOthers_eq (now : Instant) :
    eligibleOthers now v.toBehaviour = eligibleOthers now w.toBehaviour := by
  ext p
  rw [mem_eligibleOthers, mem_eligibleOthers, h.eligible_iff,
    mem_of_sameEntries h.staticRelays]

theorem budget_eq : budget v.toBehaviour = budget w.toBehaviour := by
  rw [budget, budget, h.coveredPeers_eq, h.config_eq]

theorem listenCommands_congr (now : Instant) (first : ListenerId) :
    listenCommands now v.toBehaviour first = listenCommands now w.toBehaviour first := by
  have hselected : selectedPeers now v.toBehaviour = selectedPeers now w.toBehaviour := by
    rw [selectedPeers, selectedPeers, h.eligibleStatics_eq, h.eligibleOthers_eq,
      h.budget_eq]
  have haddress : ∀ p k, circuitAddress v.toBehaviour p k =
      circuitAddress w.toBehaviour p k := by
    intro p k
    simp only [circuitAddress, lookup_of_sameEntries h.connections]
  simp only [listenCommands, hselected, h.lowestConnection_eq, haddress]

theorem evictable_isSome :
    (evictable v.toBehaviour).isSome = (evictable w.toBehaviour).isSome := by
  have hvalues : ∀ p, p ∈ values v.externalReservations ↔
      p ∈ values w.externalReservations := by
    intro p
    rw [mem_values_iff, mem_values_iff]
    simp only [lookup_of_sameEntries h.externalReservations]
  have hentries := fun e => List.Perm.mem_iff (a := e) h.reservations
  rw [Bool.eq_iff_iff, evictable, evictable, List.findSome?_isSome_iff,
    List.findSome?_isSome_iff]
  simp only [hentries, hvalues, mem_of_sameEntries h.staticRelays]

theorem evictions_length (now : Instant) :
    (evictions now v.toBehaviour).length = (evictions now w.toBehaviour).length := by
  have hpending : v.pendingEviction = w.pendingEviction := by
    rw [h.same]
  have hlength : (evictable v.toBehaviour).toList.length =
      (evictable w.toBehaviour).toList.length := by
    rw [Option.length_toList, Option.length_toList, h.evictable_isSome]
  rw [evictions, evictions, h.budget_eq, h.eligibleStatics_eq, hpending]
  split
  · exact hlength
  · rfl

theorem addressesOwn (hown : AddressesOwn w.toBehaviour) :
    AddressesOwn v.toBehaviour := by
  intro p k info hinfo
  rw [lookup_of_sameEntries h.connections] at hinfo
  exact hown p k info hinfo

theorem decidesAs {c : Clock} {now : Instant} (hclock : DecidesAs c now w) :
    DecidesAs c now v := by
  intro p deadline hdeadline n hn hn'
  rw [lookup_of_sameEntries h.reservationCooldowns] at hdeadline
  rw [h.reads_eq] at hn hn'
  rw [len_of_sameEntries h.connections] at hn'
  exact hclock p deadline hdeadline n hn hn'

end Shuffled

/-- Where no cooldown ends while the call goes through the connections, it selects the
first eligible peers, each through its lowest supported connection, evicts at most one
reservation, and the iteration order decides only which. -/
theorem target_selects_as_specified {c : Clock} {now : Instant} {w : World}
    (henabled : w.status = .enable) (hown : AddressesOwn w.toBehaviour)
    (hclock : DecidesAs c now w) :
    FirstEligible now w.toBehaviour (selectedPeers now w.toBehaviour) ∧
      EvictsOne now w.toBehaviour (evictions now w.toBehaviour) ∧
      (∃ w', meetReservationTarget c w = .ok w' ∧ Selects now w w') ∧
      ∀ v, Shuffled w v → ∃ v', meetReservationTarget c v = .ok v' ∧
        Selects now v v' ∧
        (evictions now v.toBehaviour).length = (evictions now w.toBehaviour).length ∧
        listenCommands now v.toBehaviour v.nextListener =
          listenCommands now w.toBehaviour w.nextListener := by
  refine ⟨firstEligible_selectedPeers now w.toBehaviour,
    evictsOne_evictions now w.toBehaviour,
    meetReservationTarget_selects henabled hown hclock, ?_⟩
  intro v hv
  obtain ⟨v', hv', hselects⟩ := meetReservationTarget_selects
    (hv.status_eq.trans henabled) (hv.addressesOwn hown) (hv.decidesAs hclock)
  refine ⟨v', hv', hselects, hv.evictions_length now, ?_⟩
  rw [hv.nextListener_eq, hv.listenCommands_congr]

/-- The relay `1` connects twice, and its reservation fails in between. -/
def relayConnectsTwice : List Input :=
  [.swarm (.connectionEstablished 1 10 (.dialer [.tcp 4001])) [] false,
    .handler 1 10 .supported, .swarm (.listenerClosed 0 true) [] false,
    .swarm (.connectionEstablished 1 11 (.dialer [.tcp 4002])) [] false,
    .handler 1 11 .supported, .handler 1 10 .unsupported, .handler 1 10 .supported]

/-- What the two examples below read off the state. -/
def relayView (w : World) :
    Status × ℕ × ListenerId × List (Σ _ : PeerId × ConnectionId, Connection) :=
  (w.status, w.reads, w.nextListener, w.connections.entries)

/-- The state after the relay has connected twice. -/
def connectedTwice :
    Status × ℕ × ListenerId × List (Σ _ : PeerId × ConnectionId, Connection) :=
  (.enable, 7, 1, [⟨(1, 10), ⟨.dialer [.tcp 4001], .supported⟩⟩,
    ⟨(1, 11), ⟨.dialer [.tcp 4002], .supported⟩⟩])

theorem addressesOwn_connectedTwice {w : World} (h : relayView w = connectedTwice) :
    AddressesOwn w.toBehaviour := by
  have hentries : w.connections.entries = connectedTwice.2.2.2 :=
    congrArg (fun v => v.2.2.2) h
  intro p k info hinfo
  rw [lookup_eq_some_iff, hentries] at hinfo
  simp only [connectedTwice, List.mem_cons, List.not_mem_nil, or_false] at hinfo
  rcases hinfo with heq | heq
  · cases heq
    rintro ⟨q, hlast, -⟩
    cases hlast
  · cases heq
    rintro ⟨q, hlast, -⟩
    cases hlast

theorem target_selects_as_specified_connectedTwice :
    ∃ w w', Reachable (leapClock 7) Config.default .none w ∧ w.status = .enable ∧
      AddressesOwn w.toBehaviour ∧ DecidesAs (leapClock 7) (10 ^ 11) w ∧
      eligiblePeers (10 ^ 11) w.toBehaviour = {1} ∧
      lowestConnection w.toBehaviour 1 = some 10 ∧
      meetReservationTarget (leapClock 7) w = .ok w' ∧ Selects (10 ^ 11) w w' := by
  obtain ⟨w, hw, hview⟩ := exists_reachable_of_runNew
    (f := fun w => (relayView w, eligiblePeers (10 ^ 11) w.toBehaviour,
      lowestConnection w.toBehaviour 1))
    (a := (connectedTwice, {1}, some 10))
    (show ∀ i ∈ relayConnectsTwice, ∀ w, anyInput w i = true → Contract.none w i from
      fun _ _ _ _ => trivial)
    (show (runNew (leapClock 7) Config.default anyInput relayConnectsTwice).map _ = _ by
      rfl)
  simp only [Prod.mk.injEq] at hview
  obtain ⟨hview, heligible, hlowest⟩ := hview
  have henabled : w.status = .enable := congrArg (fun v => v.1) hview
  have hown := addressesOwn_connectedTwice hview
  have hclock : DecidesAs (leapClock 7) (10 ^ 11) w := by
    have hreads : w.reads = 7 := congrArg (fun v => v.2.1) hview
    intro p deadline _ n hn _
    have hlate : (leapClock 7).instant n = 10 ^ 11 := if_neg (by omega)
    rw [hlate]
  obtain ⟨w', hw', hselects⟩ := (target_selects_as_specified henabled hown hclock).2.2.1
  exact ⟨w, w', hw, henabled, hown, hclock, heligible, hlowest, hw', hselects⟩

/-- A cooldown that ends between two readings of one call: the connection `10` is read
too early and the reservation goes through `11`. -/
theorem cooldown_ends_during_call :
    ∃ w w' r, Reachable (leapClock 8) Config.default .none w ∧ w.status = .enable ∧
      AddressesOwn w.toBehaviour ∧ meetReservationTarget (leapClock 8) w = .ok w' ∧
      w'.reservations.lookup 1 = some r ∧ r.peerId = 1 ∧
      lowestConnection w.toBehaviour 1 = some 10 ∧ r.selectedConnectionId = 11 ∧
      ∀ now, ¬Selects now w w' := by
  obtain ⟨w, hw, hview⟩ := exists_reachable_of_runNew
    (f := fun w => (relayView w, lowestConnection w.toBehaviour 1,
      evictable w.toBehaviour, w.events.length,
      (meetReservationTarget (leapClock 8) w).toOption.map
        fun w' => (w'.reservations.lookup 1, w'.events.length)))
    (a := (connectedTwice, some 10, none, 2,
      some (some ⟨1, 11, [.tcp 4002], .pending⟩, 3)))
    (show ∀ i ∈ relayConnectsTwice, ∀ w, anyInput w i = true → Contract.none w i from
      fun _ _ _ _ => trivial)
    (show (runNew (leapClock 8) Config.default anyInput relayConnectsTwice).map _ = _ by
      rfl)
  simp only [Prod.mk.injEq] at hview
  obtain ⟨hview, hlowest, hevictable, hbefore, hcall⟩ := hview
  cases hw' : meetReservationTarget (leapClock 8) w with
  | error e =>
      rw [hw'] at hcall
      cases hcall
  | ok w' =>
      rw [hw'] at hcall
      simp only [Except.toOption, Option.map_some, Option.some.injEq,
        Prod.mk.injEq] at hcall
      obtain ⟨hreservation, hafter⟩ := hcall
      have hnext : w.nextListener = 1 := congrArg (fun v => v.2.2.1) hview
      refine ⟨w, w', _, hw, congrArg (fun v => v.1) hview,
        addressesOwn_connectedTwice hview, hw', hreservation, rfl, hlowest, rfl, ?_⟩
      rintro now ⟨hevents, hopened⟩
      have hnone : evictions now w.toBehaviour = [] := by
        rw [evictions, hevictable]
        exact ite_self _
      -- one command was queued, so one peer was to be selected
      have hone : (selectedPeers now w.toBehaviour).length = 1 := by
        have hlength := congrArg List.length hevents
        rw [hnone, List.map_nil, List.nil_append, List.length_append, hafter, hbefore,
          listenCommands, List.length_mapIdx] at hlength
        omega
      obtain ⟨p, hp⟩ := List.length_eq_one_iff.mp hone
      obtain ⟨r, hr, hpeer, hconnection⟩ := hopened 0 p (by rw [hp]; rfl)
      rw [hnext, hreservation] at hr
      cases hr
      subst hpeer
      rw [hlowest] at hconnection
      cases hconnection

end Connexa.Autorelay
