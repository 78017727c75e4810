import Connexa.Autorelay.Listeners
import Connexa.Autorelay.Slots
import Connexa.Autorelay.Status

/-!
# Public nodes give up their reservations

In automatic mode the status follows the external addresses, and a change to
`Disable` queues the removal of every reservation.  A manual `Disable` keeps
them; if automatic mode then finds the status as it should be, nothing removes
what was kept.  `Heeded` rules out exactly that call.
-/

namespace Connexa.Autorelay

open HashMap

/-- The removal of the listener was queued after it was opened. -/
def Withdrawn (history : List Record) (id : ListenerId) : Prop :=
  ∃ before opts reads b after,
    history = before ++ .queued (.listenOn opts) reads b :: after ∧
      opts.listenerId = id ∧ id ∈ removedListeners after

/-- In automatic mode a public node has withdrawn every reservation. -/
def GivesUp (w : World) : Prop :=
  w.autoStatusChange = true → isPublic w.toBehaviour = true →
    ∀ id ∈ w.reservations, Withdrawn w.history id

/-- Automatic mode does not find a public node disabled with a reservation
whose removal was not queued. -/
def Heeded (w : World) (i : Input) : Prop :=
  i = .setStatus none → w.status = .disable →
    isPublic w.toBehaviour = true →
      ∀ id ∈ w.reservations, Withdrawn w.history id

theorem removedListeners_append (l l' : List Record) :
    removedListeners (l ++ l') = removedListeners l ++ removedListeners l' :=
  List.filterMap_append

theorem Withdrawn.append {history : List Record} {id : ListenerId}
    (h : Withdrawn history id) (more : List Record) :
    Withdrawn (history ++ more) id := by
  obtain ⟨before, opts, reads, b, after, heq, hid, hmem⟩ := h
  refine ⟨before, opts, reads, b, after ++ more, ?_, hid, ?_⟩
  · rw [heq, List.append_assoc, List.cons_append]
  · rw [removedListeners_append]
    exact List.mem_append_left _ hmem

theorem Withdrawn.of_input {history : List Record} {id : ListenerId} {i : Input}
    (h : Withdrawn (history ++ [.input i]) id) : Withdrawn history id := by
  obtain ⟨before, opts, reads, b, after, heq, hid, hmem⟩ := h
  rcases snoc_eq_append_cons_iff.mp heq with ⟨rest, rfl, rfl⟩ | ⟨-, hr, -⟩
  · refine ⟨before, opts, reads, b, rest, rfl, hid, ?_⟩
    rw [removedListeners_append] at hmem
    rcases List.mem_append.mp hmem with hmem | hmem
    · exact hmem
    · cases hmem
  · cases hr

/-- A tracked reservation that is removed now is withdrawn. -/
theorem withdrawn_of_requested {w : World} (hw : ReservationInv w)
    {id : ListenerId} (hid : id ∈ w.reservations) {more : List Record}
    (hmore : id ∈ removedListeners more) : Withdrawn (w.history ++ more) id := by
  obtain ⟨r, hr⟩ := mem_iff_exists_lookup.mp hid
  obtain ⟨full, -, hlistens⟩ := hw.requested id r hr
  have hopts : (⟨id, full ++ [.p2pCircuit]⟩ : ListenOpts) ∈
      listensOf id w.history := by
    rw [hlistens]
    exact List.mem_singleton_self _
  simp only [listensOf, List.mem_filterMap] at hopts
  obtain ⟨record, hmem, hrecord⟩ := hopts
  split at hrecord
  · next opts reads b =>
    split at hrecord
    · next hopts =>
      obtain ⟨before, after, heq⟩ := List.append_of_mem hmem
      refine ⟨before, opts, reads, b, after ++ more, ?_, hopts, ?_⟩
      · rw [heq, List.append_assoc, List.cons_append]
      · rw [removedListeners_append]
        exact List.mem_append_right _ hmore
    · cases hrecord
  · cases hrecord

/-! ## What the elementary changes keep -/

/-- In automatic mode the status is the one that the addresses ask for. -/
structure ModeInv (w : World) : Prop where
  status : w.autoStatusChange = true →
    (w.status = .disable ↔ isPublic w.toBehaviour = true)
  givesUp : GivesUp w

/-- A new reservation asks for an enabled behaviour. -/
theorem Act.mem_reservations {c : Clock} {i : Input} {w w' : World}
    (h : Act c i w w') {id : ListenerId} (hid : id ∈ w'.reservations) :
    id ∈ w.reservations ∨ w.status = .enable := by
  cases h with
  | reserve _ _ _ _ henabled _ _ _ _ _ _ => exact Or.inr henabled
  | failReservation _ _ _ _ _ _ _ => exact Or.inl (AList.mem_erase.mp hid).2
  | removeReservation _ _ _ => exact Or.inl (AList.mem_erase.mp hid).2
  | activate id' _ reservation _ _ hlookup _ =>
      rcases (AList.mem_insert _).mp hid with rfl | hid
      · exact Or.inl (mem_of_lookup hlookup)
      · exact Or.inl hid
  | _ => exact Or.inl hid

theorem ModeInv.act {c : Clock} {i : Input} {w w' : World} (hw : ModeInv w)
    (hi : ∀ requested, i ≠ .setStatus requested) (h : Act c i w w') :
    ModeInv w' := by
  obtain ⟨hauto, -, hpublic⟩ := h.mode_eq hi
  refine ⟨StatusFollows.acts hw.status hi (.single h), ?_⟩
  intro hauto' hpublic' id hid
  rw [hauto] at hauto'
  rw [hpublic] at hpublic'
  have hdisabled := (hw.status hauto').mpr hpublic'
  have hold : Withdrawn w.history id := by
    rcases h.mem_reservations hid with hid | henabled
    · exact hw.givesUp hauto' hpublic' id hid
    · rw [hdisabled] at henabled
      cases henabled
  rcases h.history_eq with heq | ⟨r, -, heq⟩
  · rwa [heq]
  · rw [heq]
    exact hold.append [r]

theorem ModeInv.acts {c : Clock} {i : Input} {w w' : World} (hw : ModeInv w)
    (hi : ∀ requested, i ≠ .setStatus requested) (h : Acts c i w w') :
    ModeInv w' := by
  induction h with
  | refl => exact hw
  | tail _ hact ih => exact ih.act hi hact

/-! ## Changes of the status -/

theorem history_queueRemoveListeners (ids : List ListenerId) (w : World) :
    ∃ more, (queueRemoveListeners ids w).history = w.history ++ more ∧
      ∀ id ∈ ids, id ∈ removedListeners more := by
  induction ids generalizing w with
  | nil => exact ⟨[], by simp [queueRemoveListeners], nofun⟩
  | cons first rest ih =>
      obtain ⟨more, heq, hmore⟩ := ih (w.queue (.removeListener first))
      refine ⟨.queued (.removeListener first) w.reads w.toBehaviour :: more,
        ?_, ?_⟩
      · rw [queueRemoveListeners, heq]
        simp [World.queue]
      · intro id hid
        rcases List.mem_cons.mp hid with rfl | hid
        · simp [removedListeners]
        · have hmem := hmore id hid
          simp only [removedListeners, List.filterMap_cons] at hmem ⊢
          exact List.mem_cons_of_mem _ hmem

/-- A public node that becomes disabled withdraws its reservations. -/
theorem givesUp_removeAllReservations {w : World} (hw : ReservationInv w) :
    GivesUp (removeAllReservations (changeStatus .disable w)) := by
  obtain ⟨more, hhistory, hmore⟩ := history_queueRemoveListeners
    (changeStatus .disable w).reservations.keys (changeStatus .disable w)
  obtain ⟨events, history, hframe⟩ := queueRemoveListeners_frame
    (changeStatus .disable w).reservations.keys (changeStatus .disable w)
  rw [removeAllReservations]
  intro _ _ id hid
  have hid : id ∈ w.reservations := by
    rw [hframe] at hid
    exact hid
  have hhistory' : (queueRemoveListeners
      (changeStatus .disable w).reservations.keys
      (changeStatus .disable w)).history = w.history ++
        (.queued (.generateEvent (.statusChanged .disable)) w.reads
          { w with status := .disable }.toBehaviour :: more) := by
    rw [hhistory]
    simp [changeStatus, World.queue]
  rw [hhistory']
  apply withdrawn_of_requested hw hid
  simpa [removedListeners] using hmore id (AList.mem_keys.mp hid)

theorem determineStatusFromExternalAddresses_givesUp
    (c : Clock) {w : World} (hw : ReservationInv w)
    (hkept : w.status = .disable → GivesUp w) :
    Ensures (determineStatusFromExternalAddresses c w) GivesUp := by
  unfold determineStatusFromExternalAddresses
  dsimp only
  rw [← isPublic]
  cases hpublic : isPublic w.toBehaviour with
  | true =>
      simp only [if_true]
      split
      · exact givesUp_removeAllReservations hw
      · next hsame => exact hkept (not_not.mp hsame).symm
  | false =>
      simp only [Bool.false_eq_true, if_false]
      split
      · apply (meetReservationTarget_mode_eq c (changeStatus .enable w)).mono
        rintro w' ⟨-, -, hsame⟩ _ hpublic'
        rw [hsame] at hpublic'
        exact absurd hpublic' (ne_true_of_eq_false hpublic)
      · exact fun _ hpublic' => absurd hpublic' (ne_true_of_eq_false hpublic)

/-- Nothing is promised in manual mode. -/
theorem givesUp_of_manual {w : World} (h : w.autoStatusChange = false) :
    GivesUp w :=
  fun hauto => absurd hauto (ne_true_of_eq_false h)

theorem setStatus_givesUp (c : Clock) (status : Option Status) {w : World}
    (hw : ReservationInv w)
    (hkept : status = none → w.status = .disable →
      isPublic w.toBehaviour = true → ∀ id ∈ w.reservations,
        Withdrawn w.history id) :
    Ensures (setStatus c status w) GivesUp := by
  have happly : Ensures (applyStatus c status w) GivesUp := by
    unfold applyStatus
    split
    · next status =>
      dsimp only
      split
      · unfold meetReservationTargetIf
        split
        · apply (meetReservationTarget_mode_eq c _).mono
          rintro w' ⟨hauto, -, -⟩
          exact givesUp_of_manual hauto
        · exact givesUp_of_manual rfl
      · exact givesUp_of_manual rfl
    · refine determineStatusFromExternalAddresses_givesUp c ?_ ?_
      · exact hw.act (c := c) (.setAuto w true ⟨none, rfl⟩)
      · exact fun hdisabled _ => hkept rfl hdisabled
  apply happly.bind
  intro u hu
  exact hu

theorem onExternalAddresses_givesUp
    (c : Clock) (addresses : List Multiaddr) (change : Bool) {w : World}
    (hw : ReservationInv w) (hmode : ModeInv w)
    (hsame : change = false → ∀ a, a ∈ addresses ↔ a ∈ w.externalAddresses) :
    Ensures (onExternalAddresses c addresses change w) GivesUp := by
  unfold onExternalAddresses
  dsimp only
  split
  · refine determineStatusFromExternalAddresses_givesUp c ?_ ?_
    · exact hw.act (c := c) (.setExternalAddresses w addresses ⟨none, rfl⟩)
    · intro hdisabled hauto _
      exact hmode.givesUp hauto ((hmode.status hauto).mp hdisabled)
  · next hcondition =>
    intro hauto hpublic
    have hauto : w.autoStatusChange = true := hauto
    have hchange : change = false := by simpa [hauto] using hcondition
    refine hmode.givesUp hauto ?_
    rw [← hpublic, Bool.eq_iff_iff]
    simp only [isPublic, List.any_eq_true, hsame hchange]

/-! ## Every reachable state -/

theorem serve_modeInv (c : Clock) {i : Input} {w : World}
    (hw : ReservationInv w) (hmode : ModeInv w)
    (htracked : Contract.tracked w i) (hheeded : Heeded w i) :
    Ensures (serve c i w) ModeInv := by
  cases i with
  | setStatus status =>
      have hgives : Ensures (setStatus c status w) GivesUp := by
        refine setStatus_givesUp c status hw ?_
        rintro rfl
        exact hheeded rfl
      exact ((setStatus_statusFollows c status w).and hgives).mono
        fun _ h => ⟨h.1, h.2⟩
  | swarm event addresses change =>
      have hsame : change = false → ∀ a, a ∈ addresses ↔ a ∈ w.externalAddresses :=
        fun hchange => htracked event addresses (by rw [hchange])
      have haddresses := (onExternalAddresses_statusFollows c addresses change
        hmode.status hsame).and (onExternalAddresses_givesUp c addresses change
          hw hmode hsame)
      apply haddresses.bind
      rintro u ⟨hstatus, hgives⟩
      have hu : ModeInv u := ⟨hstatus, hgives⟩
      exact (dispatchSwarmEvent_ensures c rfl u).mono fun _ h =>
        hu.acts (i := .swarm event addresses change) (fun _ => nofun) h
  | _ =>
      exact (serve_acts_of_event_eq_none c rfl w).mono
        fun _ h => hmode.acts (fun _ hi => by cases hi) h

theorem ModeInv.record {w : World} (h : ModeInv w) (i : Input) :
    ModeInv (w.record (.input i)) :=
  ⟨h.status, fun hauto hpublic id hid => (h.givesUp hauto hpublic id hid).append _⟩

theorem ModeInv.shuffle {w w' : World} (h : ModeInv w) (hs : Shuffled w w') :
    ModeInv w' := by
  have hauto : w'.autoStatusChange = w.autoStatusChange := by rw [hs.same]
  have hpublic : isPublic w'.toBehaviour = isPublic w.toBehaviour := by
    rw [hs.same]
    rfl
  refine ⟨StatusFollows.shuffle h.status hs, ?_⟩
  intro hauto' hpublic' id hid
  rw [hauto] at hauto'
  rw [hpublic] at hpublic'
  rw [hs.history_eq]
  exact h.givesUp hauto' hpublic' id
    ((mem_of_sameEntries hs.reservations).mp hid)

theorem Reachable.modeInv {c : Clock} {config : Config} {w : World}
    (h : Reachable c config (fun w i => Contract.tracked w i ∧ Heeded w i) w) :
    ReservationInv w ∧ ModeInv w := by
  refine ⟨h.reservationInv, h.of_calls ?_ ?_ ?_ ?_⟩
  · intro reads nextListener nextConnection
    refine ⟨fun _ => iff_of_false nofun ?_, fun _ hpublic => ?_⟩
    · simp [World.fresh, Behaviour.default, isPublic]
    · simp [World.fresh, Behaviour.default, isPublic] at hpublic
  · intro peerId address w hw
    exact (addStaticRelay_ensures c peerId address w).mono fun _ hacts =>
      hw.acts (i := .addStaticRelay peerId address) (by simp) hacts
  · intro i w w' hreachable hmode hcontract hstep
    have hw := hreachable.reservationInv
    refine (serve_modeInv c (hw.record i) (hmode.record i) hcontract.1 ?_).of_eq_ok
      hstep
    intro hi hdisabled hpublic id hid
    exact (hcontract.2 hi hdisabled hpublic id hid).append _
  · exact fun w w' hw hs => hw.shuffle hs

/-- A public node in automatic mode has withdrawn all its reservations as long
as automatic mode is not resumed on a disabled node that still has some, and
resuming it there breaks the rule at once. -/
theorem public_nodes_withdraw (c : Clock) (config : Config) :
    (∀ w, Reachable c config (fun w i => Contract.tracked w i ∧ Heeded w i) w →
      GivesUp w) ∧
    ∀ w, Reachable c config .tracked w → ¬Heeded w (.setStatus none) →
      ∃ w', step c (.setStatus none) w = .ok w' ∧ ¬GivesUp w' := by
  constructor
  · exact fun w hw => hw.modeInv.2.givesUp
  · intro w _ hnot
    simp only [Heeded, true_implies, not_forall] at hnot
    obtain ⟨hdisabled, hpublic, id, hid, hkept⟩ := hnot
    refine ⟨{ w.record (.input (.setStatus none)) with
      autoStatusChange := true, waker := false }, ?_, ?_⟩
    · have hany : (w.externalAddresses.any fun addr => !addr.isRelayed) = true :=
        hpublic
      simp [step, serve, setStatus, applyStatus,
        determineStatusFromExternalAddresses, World.record, hany, hdisabled]
    · intro hgives
      exact hkept (hgives rfl hpublic id hid).of_input

theorem public_nodes_withdraw_addressAppears :
    ∃ w, Reachable steadyClock Config.default
        (fun w i => Contract.tracked w i ∧ Heeded w i) w ∧
      w.autoStatusChange = true ∧ isPublic w.toBehaviour = true ∧
      w.reservations.keys = [0] ∧ Withdrawn w.history 0 := by
  obtain ⟨w, hw, hrun⟩ := exists_reachable_of_runNew
    (c := steadyClock)
    (f := fun w => (w.autoStatusChange, isPublic w.toBehaviour,
      w.reservations.keys))
    (a := (true, true, [0]))
    (show ∀ i ∈ relayConnects 7 0 ++ [publicAddressAppears], ∀ w,
        sameAddresses w i = true → Contract.tracked w i ∧ Heeded w i by
      intro i hi w hsame
      refine ⟨tracked_of_sameAddresses i w hsame, ?_⟩
      rintro rfl
      simp [relayConnects, publicAddressAppears] at hi)
    (show (runNew steadyClock Config.default sameAddresses
      (relayConnects 7 0 ++ [publicAddressAppears])).map _ = _ by decide)
  simp only [Prod.mk.injEq] at hrun
  obtain ⟨hauto, hpublic, hkeys⟩ := hrun
  refine ⟨w, hw, hauto, hpublic, hkeys, ?_⟩
  refine (public_nodes_withdraw steadyClock Config.default).1 w hw hauto hpublic
    0 ?_
  rw [AList.mem_keys, hkeys]
  exact List.mem_singleton_self 0

/-- A manual `Disable` keeps the reservation, the public address arrives in
manual mode, and automatic mode then finds nothing to change. -/
theorem resumed_public_node_keeps_reservation :
    ∃ w, Reachable steadyClock Config.default .tracked w ∧
      w.autoStatusChange = true ∧ isPublic w.toBehaviour = true ∧
      0 ∈ w.reservations ∧ ¬Withdrawn w.history 0 := by
  obtain ⟨w, hw, hrun⟩ := exists_reachable_of_runNew
    (c := steadyClock)
    (f := fun w => (w.autoStatusChange, isPublic w.toBehaviour,
      w.reservations.keys, removedListeners w.history))
    (a := (true, true, [0], []))
    (fun i _ w => tracked_of_sameAddresses i w)
    (show (runNew steadyClock Config.default sameAddresses
      (relayConnects 7 0 ++ [.setStatus (some .disable),
        publicAddressAppears, .setStatus none])).map _ = _ by decide)
  simp only [Prod.mk.injEq] at hrun
  obtain ⟨hauto, hpublic, hkeys, hremoved⟩ := hrun
  refine ⟨w, hw, hauto, hpublic, ?_, ?_⟩
  · rw [AList.mem_keys, hkeys]
    exact List.mem_singleton_self 0
  · rintro ⟨before, opts, reads, b, after, heq, -, hmem⟩
    rw [heq, removedListeners_append] at hremoved
    have hnil := (List.append_eq_nil_iff.mp hremoved).2
    simp only [removedListeners, List.filterMap_cons] at hnil hmem
    rw [hnil] at hmem
    cases hmem

end Connexa.Autorelay
