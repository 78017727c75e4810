import Connexa.Autorelay.Runs

/-!
# The status follows the external addresses

The status has two writers: the calls of `set_status`, and in automatic mode
the changes of the external addresses.  Addresses that change in manual mode
are recorded only; the switch back to automatic mode catches up on them.
Whoever writes the status reports it, and writes it only when it changes.
-/

namespace Connexa.Autorelay

open HashMap

/-- Some tracked external address is not relayed. -/
def isPublic (b : Behaviour) : Bool :=
  b.externalAddresses.any fun addr => !addr.isRelayed

/-- `ExternalAddresses` reports no change only if it holds the same addresses. -/
def Contract.tracked : Contract := fun w i =>
  ∀ event addresses, i = .swarm event addresses false →
    ∀ a, a ∈ addresses ↔ a ∈ w.externalAddresses

/-- In automatic mode the status is the one that the addresses ask for. -/
def StatusFollows (w : World) : Prop :=
  w.autoStatusChange = true →
    (w.status = .disable ↔ isPublic w.toBehaviour = true)

theorem isPublic_iff (b : Behaviour) :
    isPublic b = true ↔ ∃ addr ∈ b.externalAddresses, addr.isRelayed = false := by
  simp [isPublic]

/-! ## What the elementary changes keep -/

/-- Only a change of the status touches what the mode depends on. -/
theorem Act.mode_eq {c : Clock} {i : Input} {w w' : World} (h : Act c i w w')
    (hi : ∀ requested, i ≠ .setStatus requested) :
    w'.autoStatusChange = w.autoStatusChange ∧ w'.status = w.status ∧
      isPublic w'.toBehaviour = isPublic w.toBehaviour := by
  cases h with
  | setAuto _ hset =>
      obtain ⟨requested, rfl⟩ := hset
      exact absurd rfl (hi requested)
  | setExternalAddresses _ hset =>
      obtain ⟨requested, rfl⟩ := hset
      exact absurd rfl (hi requested)
  | changeStatus _ hset _ =>
      obtain ⟨requested, rfl⟩ := hset
      exact absurd rfl (hi requested)
  | _ => exact ⟨rfl, rfl, rfl⟩

theorem Acts.mode_eq {c : Clock} {i : Input} {w w' : World} (h : Acts c i w w')
    (hi : ∀ requested, i ≠ .setStatus requested) :
    w'.autoStatusChange = w.autoStatusChange ∧ w'.status = w.status ∧
      isPublic w'.toBehaviour = isPublic w.toBehaviour := by
  induction h with
  | refl => exact ⟨rfl, rfl, rfl⟩
  | tail _ hact ih =>
      obtain ⟨hauto, hstatus, hpublic⟩ := hact.mode_eq hi
      exact ⟨hauto.trans ih.1, hstatus.trans ih.2.1, hpublic.trans ih.2.2⟩

theorem StatusFollows.acts {c : Clock} {i : Input} {w w' : World}
    (hw : StatusFollows w) (hi : ∀ requested, i ≠ .setStatus requested)
    (h : Acts c i w w') : StatusFollows w' := by
  obtain ⟨hauto, hstatus, hpublic⟩ := h.mode_eq hi
  rw [StatusFollows, hauto, hstatus, hpublic]
  exact hw

theorem meetReservationTarget_mode_eq (c : Clock) (w : World) :
    Ensures (meetReservationTarget c w) fun w' =>
      w'.autoStatusChange = w.autoStatusChange ∧ w'.status = w.status ∧
        isPublic w'.toBehaviour = isPublic w.toBehaviour :=
  (meetReservationTarget_ensures c .removeAllReservations w).mono
    fun _ h => h.mode_eq fun _ => nofun

theorem removeAllReservations_mode_eq (w : World) :
    (removeAllReservations w).autoStatusChange = w.autoStatusChange ∧
      (removeAllReservations w).status = w.status ∧
        isPublic (removeAllReservations w).toBehaviour = isPublic w.toBehaviour :=
  (removeAllReservations_acts ⟨id, id⟩ .removeAllReservations w).mode_eq
    fun _ => nofun

/-! ## The two writers -/

/-- Nothing is promised in manual mode. -/
theorem statusFollows_of_manual {w : World} (h : w.autoStatusChange = false) :
    StatusFollows w :=
  fun hauto => absurd hauto (ne_true_of_eq_false h)

theorem determineStatusFromExternalAddresses_statusFollows
    (c : Clock) (w : World) :
    Ensures (determineStatusFromExternalAddresses c w) StatusFollows := by
  unfold determineStatusFromExternalAddresses
  dsimp only
  rw [← isPublic]
  cases hpublic : isPublic w.toBehaviour with
  | true =>
      simp only [if_true]
      split
      · obtain ⟨-, hstatus, hsame⟩ :=
          removeAllReservations_mode_eq (changeStatus .disable w)
        intro _
        rw [hstatus, hsame]
        exact iff_of_true rfl hpublic
      · next hsame =>
        exact fun _ => iff_of_true (not_not.mp hsame).symm hpublic
  | false =>
      simp only [Bool.false_eq_true, if_false]
      split
      · apply (meetReservationTarget_mode_eq c (changeStatus .enable w)).mono
        rintro w' ⟨-, hstatus, hsame⟩ _
        rw [hstatus, hsame]
        exact iff_of_false nofun (ne_true_of_eq_false hpublic)
      · next hsame =>
        have henabled : w.status = .enable := (not_not.mp hsame).symm
        intro _
        rw [henabled]
        exact iff_of_false nofun (ne_true_of_eq_false hpublic)

theorem setStatus_statusFollows (c : Clock) (status : Option Status) (w : World) :
    Ensures (setStatus c status w) StatusFollows := by
  have happly : Ensures (applyStatus c status w) StatusFollows := by
    unfold applyStatus
    split
    · next status =>
      dsimp only
      split
      · unfold meetReservationTargetIf
        split
        · apply (meetReservationTarget_mode_eq c _).mono
          rintro w' ⟨hauto, -, -⟩
          exact statusFollows_of_manual hauto
        · exact statusFollows_of_manual rfl
      · exact statusFollows_of_manual rfl
    · exact determineStatusFromExternalAddresses_statusFollows c _
  apply happly.bind
  intro u hu
  exact hu

theorem onExternalAddresses_statusFollows
    (c : Clock) (addresses : List Multiaddr) (change : Bool) {w : World}
    (hw : StatusFollows w)
    (hsame : change = false → ∀ a, a ∈ addresses ↔ a ∈ w.externalAddresses) :
    Ensures (onExternalAddresses c addresses change w) StatusFollows := by
  unfold onExternalAddresses
  dsimp only
  split
  · exact determineStatusFromExternalAddresses_statusFollows c _
  · next hcondition =>
    intro hauto
    have hauto : w.autoStatusChange = true := hauto
    have hchange : change = false := by simpa [hauto] using hcondition
    have hpublic : isPublic { w with externalAddresses := addresses }.toBehaviour =
        isPublic w.toBehaviour := by
      rw [Bool.eq_iff_iff]
      simp only [isPublic, List.any_eq_true, hsame hchange]
    rw [hpublic]
    exact hw hauto

theorem serve_statusFollows (c : Clock) {i : Input} {w : World}
    (hw : StatusFollows w) (htracked : Contract.tracked w i) :
    Ensures (serve c i w) StatusFollows := by
  cases i with
  | setStatus status => exact setStatus_statusFollows c status w
  | swarm event addresses change =>
      have haddresses := onExternalAddresses_statusFollows c addresses change hw
        (fun hchange => htracked event addresses (by rw [hchange]))
      apply haddresses.bind
      intro u hu
      exact (dispatchSwarmEvent_ensures c rfl u).mono fun _ h =>
        hu.acts (i := .swarm event addresses change) (fun _ => nofun) h
  | _ =>
      exact (serve_acts_of_event_eq_none c rfl w).mono
        fun _ h => hw.acts (fun _ hi => by cases hi) h

theorem StatusFollows.shuffle {w w' : World} (h : StatusFollows w)
    (hs : Shuffled w w') : StatusFollows w' := by
  rw [StatusFollows, hs.same]
  exact h

/-! ## The reports -/

/-- The statuses reported so far, in order. -/
def statusChanges (history : List Record) : List Status :=
  history.filterMap fun
    | .queued (.generateEvent (.statusChanged status)) _ _ => some status
    | _ => none

/-- The status is the one of the last report. -/
def StatusReported (w : World) : Prop :=
  Reports .enable (statusChanges w.history) w.status

/-- A change of the status is reported, and nothing else is reported as one. -/
theorem StatusReported.act {c : Clock} {i : Input} {w w' : World}
    (hw : StatusReported w) (h : Act c i w w') : StatusReported w' := by
  cases h with
  | changeStatus status _ hne =>
      have hchanges : statusChanges (changeStatus status w).history =
          statusChanges w.history ++ [status] :=
        List.filterMap_append
      rw [StatusReported, hchanges]
      exact hw.snoc hne
  | setRelaysAvailable available _ _ =>
      cases available <;>
        simpa [StatusReported, statusChanges, World.queue] using hw
  | _ =>
      first
      | exact hw
      | simpa [StatusReported, statusChanges, World.queue, openReservation,
          cooledDown, recordFailure, Autorelay.removeReservation, World.record,
          World.tick] using hw

theorem Reachable.statusReported {c : Clock} {config : Config}
    {contract : Contract} {w : World} (h : Reachable c config contract w) :
    StatusReported w := by
  refine h.of_acts ?_ ?_ ?_ ?_
  · exact fun _ _ _ => Reports.nil
  · intro i w hw _
    simpa [StatusReported, statusChanges, World.record] using hw
  · exact fun _ _ _ _ hw hact => hw.act hact
  · intro w w' hw hs
    rw [StatusReported, hs.history_eq, hs.status_eq]
    exact hw

/-! ## Every reachable state -/

theorem Reachable.statusFollows {c : Clock} {config : Config} {w : World}
    (h : Reachable c config .tracked w) : StatusFollows w := by
  refine h.of_calls ?_ ?_ ?_ ?_
  · intro reads nextListener nextConnection _
    exact iff_of_false nofun nofun
  · intro peerId address w hw
    exact (addStaticRelay_ensures c peerId address w).mono fun _ hacts =>
      hw.acts (i := .addStaticRelay peerId address) (fun _ => nofun) hacts
  · intro i w w' _ hw hcontract hstep
    exact (serve_statusFollows c (w := w.record (.input i)) hw hcontract).of_eq_ok
      hstep
  · exact fun _ _ hw hs => hw.shuffle hs

/-- In automatic mode the node is disabled exactly if it has a public address.
In both modes the reported statuses differ from one to the next, the first one
is `Disable`, and the status is the last one reported. -/
theorem status_tracks_reachability {c : Clock} {config : Config} {w : World}
    (h : Reachable c config .tracked w) :
    (w.autoStatusChange = true →
      (w.status = .disable ↔
        ∃ addr ∈ w.externalAddresses, addr.isRelayed = false)) ∧
    (statusChanges w.history).IsChain (· ≠ ·) ∧
    (∀ first, (statusChanges w.history).head? = some first →
      first = .disable) ∧
    w.status = (statusChanges w.history).getLast?.getD .enable := by
  have hreports := h.statusReported
  refine ⟨?_, hreports.isChain, ?_, hreports.now_eq⟩
  · intro hauto
    rw [← isPublic_iff]
    exact h.statusFollows hauto
  · intro first hfirst
    have hne := hreports.head_ne hfirst
    cases first with
    | enable => exact absurd rfl hne
    | disable => rfl

/-- The external address book holds a public address from now on. -/
def publicAddressAppears : Input :=
  .swarm .other [[.tcp 4001]] true

/-- Check that an unchanged address book is the one that is tracked. -/
def sameAddresses (w : World) (i : Input) : Bool :=
  match i with
  | .swarm _ addresses false => decide (addresses = w.externalAddresses)
  | _ => true

theorem tracked_of_sameAddresses (i : Input) (w : World)
    (h : sameAddresses w i = true) : Contract.tracked w i := by
  rintro event addresses rfl a
  rw [of_decide_eq_true h]

/-- The address arrives in manual mode and is caught up on. -/
theorem status_tracks_reachability_caughtUp :
    ∃ w, Reachable steadyClock Config.default .tracked w ∧
      w.autoStatusChange = true ∧ w.status = .disable ∧
      statusChanges w.history = [.disable, .enable, .disable] ∧
      ∃ addr ∈ w.externalAddresses, addr.isRelayed = false := by
  obtain ⟨w, hw, hrun⟩ := exists_reachable_of_runNew
    (c := steadyClock)
    (f := fun w => (w.autoStatusChange, w.status, statusChanges w.history))
    (a := (true, .disable, [.disable, .enable, .disable]))
    (fun i _ w => tracked_of_sameAddresses i w)
    (show (runNew steadyClock Config.default sameAddresses
      [.setStatus (some .disable), publicAddressAppears,
        .setStatus (some .enable), .setStatus none]).map _ = _ by decide)
  simp only [Prod.mk.injEq] at hrun
  obtain ⟨hauto, hstatus, hchanges⟩ := hrun
  exact ⟨w, hw, hauto, hstatus, hchanges,
    ((status_tracks_reachability hw).1 hauto).mp hstatus⟩

end Connexa.Autorelay
