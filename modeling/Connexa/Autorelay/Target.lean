import Mathlib.Data.Finset.Dedup
import Connexa.Autorelay.Candidates

/-!
# Meeting the reservation target

`meet_reservation_target` never panics, opens reservations only within the
budget, and leaves no free slot unused while a rested relay is connected.
-/

namespace Connexa.Autorelay

open HashMap

/-! ## Covered peers -/

theorem mem_coveredPeers {b : Behaviour} {p : PeerId} :
    p ∈ coveredPeers b ↔
      (∃ id r, b.reservations.lookup id = some r ∧ r.peerId = p) ∨
        ∃ id, b.externalReservations.lookup id = some p := by
  simp only [coveredPeers, List.mem_toFinset, List.mem_append, List.mem_map,
    mem_values_iff]
  constructor
  · rintro (⟨r, ⟨id, hid⟩, hp⟩ | hid)
    · exact Or.inl ⟨id, r, hid, hp⟩
    · exact Or.inr hid
  · rintro (⟨id, r, hid, hp⟩ | hid)
    · exact Or.inl ⟨r, ⟨id, hid⟩, hp⟩
    · exact Or.inr hid

theorem coveredPeers_congr {b b' : Behaviour}
    (hr : b'.reservations = b.reservations)
    (he : b'.externalReservations = b.externalReservations) :
    coveredPeers b' = coveredPeers b := by
  simp only [coveredPeers, hr, he]

theorem coveredPeers_openReservation_subset
    (w : World) (peerId : PeerId) (connectionId : ConnectionId)
    (info : Connection) (full : Multiaddr) :
    coveredPeers (openReservation w peerId connectionId info full).toBehaviour ⊆
      insert peerId (coveredPeers w.toBehaviour) := by
  intro p hp
  rw [Finset.mem_insert]
  rcases mem_coveredPeers.mp hp with ⟨id, r, hid, rfl⟩ | ⟨id, hid⟩
  · simp only [openReservation, World.queue, HashMap.lookup_insert] at hid
    split at hid
    · left
      cases hid
      rfl
    · exact Or.inr (mem_coveredPeers.mpr (Or.inl ⟨id, r, hid, rfl⟩))
  · exact Or.inr (mem_coveredPeers.mpr (Or.inr ⟨id, hid⟩))

/-- Every tracked reservation has a listener id that was already handed out. -/
def ListenersIssued (w : World) : Prop :=
  ∀ id, id ∈ w.reservations → id < w.nextListener

theorem coveredPeers_openReservation
    {w : World} (hissued : ListenersIssued w) (peerId : PeerId)
    (connectionId : ConnectionId) (info : Connection) (full : Multiaddr) :
    coveredPeers (openReservation w peerId connectionId info full).toBehaviour =
      insert peerId (coveredPeers w.toBehaviour) := by
  apply Finset.Subset.antisymm (coveredPeers_openReservation_subset _ _ _ _ _)
  intro p hp
  rw [mem_coveredPeers]
  simp only [openReservation, World.queue, HashMap.lookup_insert]
  rcases Finset.mem_insert.mp hp with rfl | hp
  · exact Or.inl ⟨w.nextListener, _, if_pos rfl, rfl⟩
  · rcases mem_coveredPeers.mp hp with ⟨id, r, hid, rfl⟩ | ⟨id, hid⟩
    · have hne : id ≠ w.nextListener :=
        ne_of_lt (hissued id (mem_of_lookup hid))
      exact Or.inl ⟨id, r, by rw [if_neg hne]; exact hid, rfl⟩
    · exact Or.inr ⟨id, hid⟩

theorem listenersIssued_openReservation
    {w : World} (hissued : ListenersIssued w) (peerId : PeerId)
    (connectionId : ConnectionId) (info : Connection) (full : Multiaddr) :
    ListenersIssued (openReservation w peerId connectionId info full) := by
  intro id hid
  rcases (AList.mem_insert w.reservations).mp hid with rfl | hid
  · exact Nat.lt_succ_self _
  · exact Nat.lt_succ_of_lt (hissued id hid)

/-! ## Opening the selected reservations -/

/-- The selected pairs can be served one after the other. -/
structure Selectable (c : Clock) (selected : List (PeerId × ConnectionId))
    (w : World) : Prop where
  enabled : w.status = .enable
  nodup : (selected.map Prod.fst).Nodup
  free : ∀ s ∈ selected, s.1 ∉ coveredPeers w.toBehaviour
  room : (coveredPeers w.toBehaviour).card + selected.length ≤
    w.config.maxReservations.get
  rested : ∀ s ∈ selected, Rested c w s.1
  supported : ∀ s ∈ selected, ∃ info,
    w.connections.lookup s = some info ∧ info.relayStatus = .supported

theorem selectConnectionForReservation_cases
    {w : World} {peerId : PeerId} {connectionId : ConnectionId}
    {info : Connection}
    (hlookup : w.connections.lookup (peerId, connectionId) = some info)
    (hsupported : info.relayStatus = .supported) :
    (info.addr.EndsInOtherPeer peerId ∧
      selectConnectionForReservation peerId connectionId w =
        .ok { w with
          connections := w.connections.insert (peerId, connectionId)
            { info with relayStatus := .notSupported } }) ∨
    ∃ full, info.addr.withP2p peerId = .ok full ∧
      selectConnectionForReservation peerId connectionId w =
        .ok (openReservation w peerId connectionId info full) := by
  unfold selectConnectionForReservation
  rw [hlookup]
  simp only [hsupported, ne_eq, not_true_eq_false, if_false]
  rcases Multiaddr.withP2p_cases info.addr peerId with ⟨h, hends⟩ | h | h
  · rw [h]
    exact Or.inl ⟨hends, rfl⟩
  · rw [h]
    exact Or.inr ⟨_, rfl, rfl⟩
  · rw [h]
    exact Or.inr ⟨_, rfl, rfl⟩

theorem Selectable.disqualify
    {c : Clock} {peerId : PeerId} {connectionId : ConnectionId}
    {rest : List (PeerId × ConnectionId)} {w : World}
    (h : Selectable c ((peerId, connectionId) :: rest) w) (info : Connection) :
    Selectable c rest { w with
      connections := w.connections.insert (peerId, connectionId) info } where
  enabled := h.enabled
  nodup := (List.nodup_cons.mp h.nodup).2
  free := fun s hs => h.free s (List.mem_cons_of_mem _ hs)
  room := by
    have hroom := h.room
    rw [List.length_cons] at hroom
    change (coveredPeers w.toBehaviour).card + rest.length ≤
      w.config.maxReservations.get
    omega
  rested := fun s hs => h.rested s (List.mem_cons_of_mem _ hs)
  supported := by
    intro s hs
    obtain ⟨other, hother, hsup⟩ := h.supported s (List.mem_cons_of_mem _ hs)
    have hne : s ≠ (peerId, connectionId) := by
      rintro rfl
      exact (List.nodup_cons.mp h.nodup).1 (List.mem_map_of_mem hs)
    refine ⟨other, ?_, hsup⟩
    rw [HashMap.lookup_insert, if_neg hne]
    exact hother

theorem Selectable.opened
    {c : Clock} {peerId : PeerId} {connectionId : ConnectionId}
    {rest : List (PeerId × ConnectionId)} {w : World}
    (h : Selectable c ((peerId, connectionId) :: rest) w)
    (info : Connection) (full : Multiaddr) :
    Selectable c rest (openReservation w peerId connectionId info full) where
  enabled := h.enabled
  nodup := (List.nodup_cons.mp h.nodup).2
  free := by
    intro s hs hcovered
    have hcovered := coveredPeers_openReservation_subset _ _ _ _ _ hcovered
    rcases Finset.mem_insert.mp hcovered with heq | hold
    · have hmem : s.1 ∈ rest.map Prod.fst := List.mem_map_of_mem hs
      rw [heq] at hmem
      exact (List.nodup_cons.mp h.nodup).1 hmem
    · exact h.free s (List.mem_cons_of_mem _ hs) hold
  room := by
    have hroom := h.room
    rw [List.length_cons] at hroom
    have hcard := Finset.card_le_card
      (coveredPeers_openReservation_subset w peerId connectionId info full)
    have hinsert :=
      Finset.card_insert_le peerId (coveredPeers w.toBehaviour)
    change _ ≤ w.config.maxReservations.get
    omega
  rested := fun s hs => h.rested s (List.mem_cons_of_mem _ hs)
  supported := fun s hs => h.supported s (List.mem_cons_of_mem _ hs)

/-- The selected reservations are opened without a panic, by guarded acts, and
the debug assertion after the loop holds. -/
theorem selectAll_acts
    {c : Clock} (i : Input) {selected : List (PeerId × ConnectionId)} {w : World}
    (h : Selectable c selected w) :
    ∃ w', selectAll selected w = .ok w' ∧ Acts c i w w' ∧
      (coveredPeers w'.toBehaviour).card ≤ w.config.maxReservations.get := by
  induction selected generalizing w with
  | nil =>
      exact ⟨w, rfl, Relation.ReflTransGen.refl, le_trans (Nat.le_add_right _ _) h.room⟩
  | cons s rest ih =>
      obtain ⟨peerId, connectionId⟩ := s
      obtain ⟨info, hlookup, hsupported⟩ := h.supported _ List.mem_cons_self
      rcases selectConnectionForReservation_cases hlookup hsupported with
        ⟨hends, hstep⟩ | ⟨full, hfull, hstep⟩
      · obtain ⟨w', hw', hacts, hcard⟩ :=
          ih (h.disqualify { info with relayStatus := .notSupported })
        refine ⟨w', ?_, ?_, hcard⟩
        · rw [selectAll, hstep]
          exact hw'
        · exact Relation.ReflTransGen.head
            (.disqualify w peerId connectionId info hlookup hends) hacts
      · obtain ⟨w', hw', hacts, hcard⟩ := ih (h.opened info full)
        refine ⟨w', ?_, ?_, hcard⟩
        · rw [selectAll, hstep]
          exact hw'
        · refine Relation.ReflTransGen.head
            (.reserve w peerId connectionId info full h.enabled
              (h.free _ List.mem_cons_self) ?_ (h.rested _ List.mem_cons_self)
              hlookup hsupported hfull) hacts
          have hroom := h.room
          rw [List.length_cons] at hroom
          omega

/-- No tracked connection ends in the `/p2p` of another peer. -/
def AddressesOwn (b : Behaviour) : Prop :=
  ∀ p k info, b.connections.lookup (p, k) = some info →
    ¬info.addr.EndsInOtherPeer p

/-- Where no address names a foreign peer, every selected peer ends up
covered and nothing else that the selection reads has changed. -/
theorem selectAll_covers
    {c : Clock} {selected : List (PeerId × ConnectionId)} {w w' : World}
    (h : Selectable c selected w) (hissued : ListenersIssued w)
    (hown : AddressesOwn w.toBehaviour) (hw' : selectAll selected w = .ok w') :
    coveredPeers w'.toBehaviour =
        coveredPeers w.toBehaviour ∪ (selected.map Prod.fst).toFinset ∧
      w'.connections = w.connections ∧
      w'.reservationCooldowns = w.reservationCooldowns ∧
      w'.config = w.config := by
  induction selected generalizing w with
  | nil =>
      cases hw'
      simp
  | cons s rest ih =>
      obtain ⟨peerId, connectionId⟩ := s
      obtain ⟨info, hlookup, hsupported⟩ := h.supported _ List.mem_cons_self
      rcases selectConnectionForReservation_cases hlookup hsupported with
        ⟨hends, -⟩ | ⟨full, hfull, hstep⟩
      · exact absurd hends (hown _ _ _ hlookup)
      · rw [selectAll, hstep] at hw'
        obtain ⟨hcovered, hconn, hcool, hconfig⟩ := ih (h.opened info full)
          (listenersIssued_openReservation hissued _ _ _ _) hown hw'
        refine ⟨?_, hconn, hcool, hconfig⟩
        rw [hcovered, coveredPeers_openReservation hissued]
        ext p
        simp only [Finset.mem_union, Finset.mem_insert, List.mem_toFinset,
          List.map_cons, List.mem_cons]
        tauto

/-! ## The whole target -/

theorem makeRoomForStaticRelays_cases (needed : ℕ) (w : World) :
    makeRoomForStaticRelays needed w = w ∨
      ∃ id, w.pendingEviction = none ∧ evictable w.toBehaviour = some id ∧
        makeRoomForStaticRelays needed w =
          { w with pendingEviction := some id }.queue (.removeListener id) := by
  unfold makeRoomForStaticRelays
  split
  · exact Or.inl rfl
  · next h =>
    push Not at h
    split
    · exact Or.inl rfl
    · next id hid =>
      exact Or.inr ⟨id, by simpa using h.2, hid, rfl⟩

theorem makeRoomForStaticRelays_acts
    (c : Clock) (i : Input) (needed : ℕ) (w : World) :
    Acts c i w (makeRoomForStaticRelays needed w) := by
  rcases makeRoomForStaticRelays_cases needed w with h | ⟨id, hnone, hid, h⟩
  · rw [h]
  · rw [h]
    exact Acts.single (.evict w id hid hnone)

/-- Making room touches only the eviction mark and the queue. -/
theorem makeRoomForStaticRelays_frame (needed : ℕ) (w : World) :
    let w' := makeRoomForStaticRelays needed w
    w'.status = w.status ∧ w'.config = w.config ∧
      w'.connections = w.connections ∧ w'.reservations = w.reservations ∧
      w'.externalReservations = w.externalReservations ∧
      w'.reservationCooldowns = w.reservationCooldowns ∧
      w'.reads = w.reads ∧ w'.nextListener = w.nextListener := by
  rcases makeRoomForStaticRelays_cases needed w with h | ⟨id, -, -, h⟩
  · simp [h]
  · rw [h]
    simp [World.queue]

theorem makeRoomForStaticRelays_staticRelays (needed : ℕ) (w : World) :
    (makeRoomForStaticRelays needed w).staticRelays = w.staticRelays ∧
      (makeRoomForStaticRelays needed w).relaysAvailable = w.relaysAvailable := by
  rcases makeRoomForStaticRelays_cases needed w with h | ⟨id, -, -, h⟩ <;> rw [h]
  · exact ⟨rfl, rfl⟩
  · exact ⟨rfl, rfl⟩

/-- The pairs that one call of `meet_reservation_target` serves. -/
def selection (found : Candidates) (budget : ℕ) :
    List (PeerId × ConnectionId) :=
  (sortedEntries found.staticCandidates ++
    sortedEntries found.candidates).take budget

theorem SoundBuckets.keys_nodup
    {c : Clock} {covered : Finset PeerId} {w : World}
    {entries : List (Σ _ : PeerId × ConnectionId, Connection)}
    {found : Candidates} (h : SoundBuckets c covered w entries found) :
    ((sortedEntries found.staticCandidates ++
      sortedEntries found.candidates).map Prod.fst).Nodup := by
  rw [List.map_append, List.nodup_append']
  refine ⟨sortedEntries_keys_nodup _, sortedEntries_keys_nodup _, ?_⟩
  intro p hp hp'
  obtain ⟨⟨q, k⟩, hk, rfl⟩ := List.mem_map.mp hp
  obtain ⟨⟨q', k'⟩, hk', heq⟩ := List.mem_map.mp hp'
  cases heq
  have hstatic := (h.statics q k
    (lookup_eq_some_iff.mpr (mem_sortedEntries.mp hk))).2
  have hother := (h.others q k'
    (lookup_eq_some_iff.mpr (mem_sortedEntries.mp hk'))).2
  exact hother hstatic

theorem SoundBuckets.mono
    {c : Clock} {covered : Finset PeerId} {w w' : World}
    {entries : List (Σ _ : PeerId × ConnectionId, Connection)}
    {found : Candidates} (h : SoundBuckets c covered w entries found)
    (hreads : w.reads ≤ w'.reads)
    (hcooldowns : w'.reservationCooldowns = w.reservationCooldowns)
    (hstatics : w'.staticRelays = w.staticRelays) :
    SoundBuckets c covered w' entries found := by
  have hlift : ∀ p k, IsCandidate c covered w entries p k →
      IsCandidate c covered w' entries p k := fun p k hk =>
    ⟨hk.free, hk.rested.mono hreads hcooldowns, hk.supported⟩
  constructor
  · intro p k hk
    obtain ⟨hcand, hstatic⟩ := h.statics p k hk
    exact ⟨hlift p k hcand, by rwa [hstatics]⟩
  · intro p k hk
    obtain ⟨hcand, hstatic⟩ := h.others p k hk
    exact ⟨hlift p k hcand, by rwa [hstatics]⟩

theorem SoundBuckets.isCandidate
    {c : Clock} {covered : Finset PeerId} {w : World}
    {entries : List (Σ _ : PeerId × ConnectionId, Connection)}
    {found : Candidates} (h : SoundBuckets c covered w entries found)
    {s : PeerId × ConnectionId}
    (hs : s ∈ sortedEntries found.staticCandidates ++
      sortedEntries found.candidates) :
    IsCandidate c covered w entries s.1 s.2 := by
  rcases List.mem_append.mp hs with hs | hs
  · exact (h.statics _ _ (lookup_eq_some_iff.mpr (mem_sortedEntries.mp hs))).1
  · exact (h.others _ _ (lookup_eq_some_iff.mpr (mem_sortedEntries.mp hs))).1

/-- Reservations that may still be opened. -/
def budget (b : Behaviour) : ℕ :=
  b.config.maxReservations.get - (coveredPeers b).card

/-- The candidates that `meet_reservation_target` finds. -/
def candidatesOf (c : Clock) (w : World) : Candidates :=
  (collectCandidates c (coveredPeers w.toBehaviour) w.connections.entries
    ⟨∅, ∅⟩ w).1

/-- `v` is the state before the loop over the selection, in which `found` are
the candidates of `w`: up to here the call read the clock and at most queued
one eviction. -/
structure Prepared (c : Clock) (w v : World) (found : Candidates) : Prop where
  acts : ∀ i, Acts c i w v
  status : v.status = w.status
  config : v.config = w.config
  connections : v.connections = w.connections
  reservations : v.reservations = w.reservations
  externalReservations : v.externalReservations = w.externalReservations
  cooldowns : v.reservationCooldowns = w.reservationCooldowns
  nextListener : v.nextListener = w.nextListener
  sound : SoundBuckets c (coveredPeers w.toBehaviour) v
    w.connections.entries found
  complete : ∀ p k info, w.connections.lookup (p, k) = some info →
    info.relayStatus = .supported → p ∉ coveredPeers w.toBehaviour →
      p ∉ w.reservationCooldowns →
        p ∈ found.staticCandidates ∨ p ∈ found.candidates

theorem Prepared.covered_eq {c : Clock} {w v : World} {found : Candidates}
    (h : Prepared c w v found) :
    coveredPeers v.toBehaviour = coveredPeers w.toBehaviour :=
  coveredPeers_congr h.reservations h.externalReservations

/-- The state in which the loop over the selection starts. -/
def roomMade (c : Clock) (w : World) : World :=
  makeRoomForStaticRelays
    (len (candidatesOf c w).staticCandidates - budget w.toBehaviour)
    (collectCandidates c (coveredPeers w.toBehaviour) w.connections.entries
      ⟨∅, ∅⟩ w).2

theorem prepared_roomMade (c : Clock) (w : World) :
    Prepared c w (roomMade c w) (candidatesOf c w) ∧
      (roomMade c w).relaysAvailable = w.relaysAvailable := by
  unfold roomMade candidatesOf
  obtain ⟨n, -, hworld⟩ := collectCandidates_world c
    (coveredPeers w.toBehaviour) w.connections.entries ⟨∅, ∅⟩ w
  have hcomplete := fun p => collectCandidates_complete c
    (coveredPeers w.toBehaviour) w.connections.entries ⟨∅, ∅⟩ w (p := p)
  have hsound := collectCandidates_sound c (coveredPeers w.toBehaviour)
    (fun e he => he) ⟨∅, ∅⟩ (w := w)
    (v := (collectCandidates c (coveredPeers w.toBehaviour)
      w.connections.entries ⟨∅, ∅⟩ w).2)
    (by rw [hworld]) (le_refl _)
    ⟨fun p k hk => by simp at hk, fun p k hk => by simp at hk⟩
  have hcollect := fun i => collectCandidates_acts c i (coveredPeers w.toBehaviour)
    w.connections.entries ⟨∅, ∅⟩ w
  generalize collectCandidates c (coveredPeers w.toBehaviour)
    w.connections.entries ⟨∅, ∅⟩ w = r at *
  obtain ⟨found, v⟩ := r
  dsimp only at hworld hcomplete hsound hcollect ⊢
  obtain ⟨hst, hconfig, hconn, hres, hext, hcool, hreads, hnext⟩ :=
    makeRoomForStaticRelays_frame
      (len found.staticCandidates - budget w.toBehaviour) v
  have hroom := fun i => makeRoomForStaticRelays_acts c i
    (len found.staticCandidates - budget w.toBehaviour) v
  obtain ⟨hstatics, havailable⟩ := makeRoomForStaticRelays_staticRelays
    (len found.staticCandidates - budget w.toBehaviour) v
  refine ⟨⟨fun i => (hcollect i).trans (hroom i), ?_, ?_, ?_, ?_, ?_, ?_, ?_, ?_,
    ?_⟩, ?_⟩
  · rw [hst, hworld]
  · rw [hconfig, hworld]
  · rw [hconn, hworld]
  · rw [hres, hworld]
  · rw [hext, hworld]
  · rw [hcool, hworld]
  · rw [hnext, hworld]
  · exact hsound.mono hreads.ge hcool hstatics
  · intro p k info hinfo hsup hfree hnone
    exact hcomplete p (Or.inr ⟨hfree, AList.lookup_eq_none.mpr hnone, k,
      info, lookup_eq_some_iff.mp hinfo, hsup⟩)
  · rw [havailable, hworld]

theorem meetReservationTarget_eq {c : Clock} {w : World}
    (henabled : w.status = .enable) :
    meetReservationTarget c w =
      if budget w.toBehaviour = 0 then .ok (roomMade c w)
      else (selectAll (selection (candidatesOf c w) (budget w.toBehaviour))
          (roomMade c w)).bind
        fun u =>
          if (coveredPeers u.toBehaviour).card ≤ w.config.maxReservations.get then .ok u
          else .error .reservationTargetExceeded := by
  unfold meetReservationTarget
  rw [if_neg (by rw [henabled]; decide)]
  rfl

/-- What one call of `meet_reservation_target` amounts to. -/
theorem meetReservationTarget_cases (c : Clock) (w : World) :
    (w.status = .disable ∧ meetReservationTarget c w = .ok w) ∨
      (w.status = .enable ∧ ∃ v, Prepared c w v (candidatesOf c w) ∧
        v.relaysAvailable = w.relaysAvailable ∧
        meetReservationTarget c w =
          if budget w.toBehaviour = 0 then .ok v
          else (selectAll (selection (candidatesOf c w)
              (budget w.toBehaviour)) v).bind
            fun u =>
              if (coveredPeers u.toBehaviour).card ≤
                  w.config.maxReservations.get then .ok u
              else .error .reservationTargetExceeded) := by
  cases hstatus : w.status with
  | disable => exact Or.inl ⟨rfl, if_pos hstatus⟩
  | enable =>
      obtain ⟨hprep, havailable⟩ := prepared_roomMade c w
      exact Or.inr ⟨rfl, _, hprep, havailable, meetReservationTarget_eq hstatus⟩

theorem Prepared.selectable {c : Clock} {w v : World} {found : Candidates}
    (h : Prepared c w v found) (henabled : w.status = .enable)
    (hbudget : budget w.toBehaviour ≠ 0) :
    Selectable c (selection found (budget w.toBehaviour)) v where
  enabled := h.status.trans henabled
  nodup := h.sound.keys_nodup.sublist
    ((List.take_sublist (budget w.toBehaviour) _).map Prod.fst)
  free := by
    intro s hs
    rw [h.covered_eq]
    exact (h.sound.isCandidate (List.mem_of_mem_take hs)).free
  room := by
    have hlen : (selection found (budget w.toBehaviour)).length ≤
        budget w.toBehaviour := List.length_take_le _ _
    rw [h.covered_eq, h.config]
    unfold budget at hlen hbudget ⊢
    omega
  rested := fun s hs =>
    (h.sound.isCandidate (List.mem_of_mem_take hs)).rested
  supported := by
    intro s hs
    obtain ⟨info, hinfo, hsup⟩ :=
      (h.sound.isCandidate (List.mem_of_mem_take hs)).supported
    refine ⟨info, ?_, hsup⟩
    rw [h.connections]
    exact lookup_eq_some_iff.mpr hinfo

/-- `meet_reservation_target` ends normally: neither its `expect` nor its
debug assertion can fail. -/
theorem meetReservationTarget_acts (c : Clock) (i : Input) (w : World) :
    ∃ w', meetReservationTarget c w = .ok w' ∧ Acts c i w w' := by
  rcases meetReservationTarget_cases c w with
    ⟨-, h⟩ | ⟨henabled, v, hprep, -, h⟩
  · exact ⟨w, h, Relation.ReflTransGen.refl⟩
  · rw [h]
    split
    · exact ⟨v, rfl, hprep.acts i⟩
    · next hbudget =>
      obtain ⟨w', hw', hacts, hcard⟩ :=
        selectAll_acts i (hprep.selectable henabled hbudget)
      rw [hprep.config] at hcard
      refine ⟨w', ?_, (hprep.acts i).trans hacts⟩
      rw [hw']
      exact if_pos hcard

/-! ## No slot stays free -/

/-- No slot is free while a supported peer is neither covered nor has a
cooldown entry. -/
def SlotsUsed (b : Behaviour) : Prop :=
  b.status = .enable →
    (coveredPeers b).card < b.config.maxReservations.get →
      ∀ p k info, b.connections.lookup (p, k) = some info →
        info.relayStatus = .supported →
          p ∈ coveredPeers b ∨ p ∈ b.reservationCooldowns

/-- A full selection uses the whole budget, a shorter one takes everybody. -/
theorem selection_full_or_all (found : Candidates) (budget : ℕ) :
    (selection found budget).length = budget ∨
      selection found budget =
        sortedEntries found.staticCandidates ++
          sortedEntries found.candidates := by
  unfold selection
  rcases Nat.le_total budget (sortedEntries found.staticCandidates ++
      sortedEntries found.candidates).length with h | h
  · exact Or.inl (List.length_take_of_le h)
  · exact Or.inr (List.take_of_length_le h)

theorem mem_bucket_keys {m : HashMap PeerId ConnectionId} {p : PeerId}
    (h : p ∈ m) : p ∈ (sortedEntries m).map Prod.fst := by
  obtain ⟨k, hk⟩ := mem_iff_exists_lookup.mp h
  exact List.mem_map.mpr
    ⟨(p, k), mem_sortedEntries.mpr (lookup_eq_some_iff.mp hk), rfl⟩

/-- Opening a full selection exhausts the target. -/
theorem Selectable.card_covers
    {c : Clock} {selected : List (PeerId × ConnectionId)} {w : World}
    (h : Selectable c selected w) :
    (coveredPeers w.toBehaviour ∪
      (selected.map Prod.fst).toFinset).card =
        (coveredPeers w.toBehaviour).card + selected.length := by
  have hdisjoint : Disjoint (coveredPeers w.toBehaviour)
      (selected.map Prod.fst).toFinset := by
    rw [Finset.disjoint_right]
    intro q hq
    obtain ⟨s, hs, rfl⟩ := List.mem_map.mp (List.mem_toFinset.mp hq)
    exact h.free s hs
  rw [Finset.card_union_of_disjoint hdisjoint,
    List.toFinset_card_of_nodup h.nodup, List.length_map]

theorem Prepared.slotsUsed_selectAll
    {c : Clock} {w v u : World} {found : Candidates}
    (h : Prepared c w v found) (henabled : w.status = .enable)
    (hbudget : budget w.toBehaviour ≠ 0) (hissued : ListenersIssued w)
    (hown : AddressesOwn w.toBehaviour)
    (hu : selectAll (selection found (budget w.toBehaviour)) v = .ok u) :
    SlotsUsed u.toBehaviour := by
  have hselectable := h.selectable henabled hbudget
  have hissued' : ListenersIssued v := by
    intro id hid
    rw [h.reservations] at hid
    rw [h.nextListener]
    exact hissued id hid
  have hown' : AddressesOwn v.toBehaviour := by
    intro p k info hinfo
    rw [h.connections] at hinfo
    exact hown p k info hinfo
  obtain ⟨hcovered, hconn, hcool, hconfig⟩ :=
    selectAll_covers hselectable hissued' hown' hu
  intro _ hlt p k info hinfo hsup
  rw [hcovered, hconfig, h.config] at hlt
  rw [hcovered, hcool, h.cooldowns]
  rw [hconn, h.connections] at hinfo
  by_contra hnot
  push Not at hnot
  obtain ⟨hfree, hnone⟩ := hnot
  have hfree₀ : p ∉ coveredPeers w.toBehaviour := by
    rw [← h.covered_eq]
    exact fun hp => hfree (Finset.mem_union_left _ hp)
  have hbucket := h.complete p k info hinfo hsup hfree₀ hnone
  -- `p` is in a bucket, so only a full selection can have left it out
  rcases selection_full_or_all found (budget w.toBehaviour) with hfull | hall
  · rw [hselectable.card_covers, hfull, h.covered_eq] at hlt
    unfold budget at hlt
    omega
  · apply hfree
    rw [hall, List.map_append, Finset.mem_union, List.mem_toFinset,
      List.mem_append]
    exact Or.inr (hbucket.imp mem_bucket_keys mem_bucket_keys)

/-- After `meet_reservation_target` no slot is left free. -/
theorem meetReservationTarget_slotsUsed
    {c : Clock} {w w' : World} (hissued : ListenersIssued w)
    (hown : AddressesOwn w.toBehaviour)
    (hw' : meetReservationTarget c w = .ok w') : SlotsUsed w'.toBehaviour := by
  rcases meetReservationTarget_cases c w with
    ⟨hdisabled, h⟩ | ⟨henabled, v, hprep, -, h⟩
  · rw [h] at hw'
    cases hw'
    intro henabled
    rw [hdisabled] at henabled
    cases henabled
  · rw [h] at hw'
    split at hw'
    · next hbudget =>
      cases hw'
      intro _ hlt
      rw [hprep.covered_eq, hprep.config] at hlt
      unfold budget at hbudget
      omega
    · next hbudget =>
      obtain ⟨u, hu, -, -⟩ :=
        selectAll_acts (.poll false) (hprep.selectable henabled hbudget)
      rw [hu] at hw'
      have heq : u = w' := by
        simp only [Except.bind] at hw'
        split at hw'
        · exact Except.ok.inj hw'
        · cases hw'
      subst heq
      exact hprep.slotsUsed_selectAll henabled hbudget hissued hown hu

end Connexa.Autorelay
