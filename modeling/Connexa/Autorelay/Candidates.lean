import Connexa.Autorelay.Actions

/-!
# Candidates for a reservation

`collectCandidates` is the loop of `meet_reservation_target` over the tracked
connections.  It reads the clock and changes nothing else.  What it puts in
the two buckets is uncovered, rested and supported, and nobody without a
cooldown entry is left out.
-/

namespace Connexa.Autorelay

open HashMap

/-! ## Reading a cooldown -/

theorem reservationInCooldown_eq (c : Clock) (peerId : PeerId) (w : World) :
    (reservationInCooldown c peerId w).2 = w ∨
      (reservationInCooldown c peerId w).2 = w.tick := by
  unfold reservationInCooldown
  split
  · exact Or.inl rfl
  · exact Or.inr rfl

theorem rested_of_not_cooling
    {c : Clock} {peerId : PeerId} {w : World}
    (h : (reservationInCooldown c peerId w).1 = false) :
    Rested c (reservationInCooldown c peerId w).2 peerId := by
  unfold reservationInCooldown at h ⊢
  split at h
  · next hnone =>
    intro deadline hdeadline
    rw [hnone] at hdeadline
    cases hdeadline
  · next deadline hsome =>
    intro other hother
    have heq : other = deadline := by
      have hlookup : w.reservationCooldowns.lookup peerId = some other := hother
      rw [hsome] at hlookup
      exact (Option.some.inj hlookup).symm
    subst heq
    exact ⟨w.reads, Nat.lt_succ_self _, by simpa using h⟩

theorem reservationInCooldown_acts
    (c : Clock) (i : Input) (peerId : PeerId) (w : World) :
    Acts c i w (reservationInCooldown c peerId w).2 := by
  rcases reservationInCooldown_eq c peerId w with h | h
  · rw [h]
  · rw [h]
    exact Acts.single (.tick w)

/-! ## Collecting candidates -/

/-- The connection makes its peer a candidate. -/
structure IsCandidate (c : Clock) (covered : Finset PeerId) (w : World)
    (entries : List (Σ _ : PeerId × ConnectionId, Connection))
    (peerId : PeerId) (connectionId : ConnectionId) : Prop where
  free : peerId ∉ covered
  rested : Rested c w peerId
  supported : ∃ info, ⟨(peerId, connectionId), info⟩ ∈ entries ∧
    info.relayStatus = .supported

theorem lookup_insertLowest
    {m : HashMap PeerId ConnectionId} {peerId q : PeerId}
    {connectionId k : ConnectionId}
    (h : (insertLowest m peerId connectionId).lookup q = some k) :
    (q = peerId ∧ k = connectionId) ∨ m.lookup q = some k := by
  unfold insertLowest at h
  split at h
  · rw [HashMap.lookup_insert] at h
    split at h
    · next hq => exact Or.inl ⟨hq, (Option.some.inj h).symm⟩
    · exact Or.inr h
  · next existing hexisting =>
    rw [HashMap.lookup_insert] at h
    split at h
    · next hq =>
      subst hq
      have hk : k = min existing connectionId := (Option.some.inj h).symm
      rcases min_choice existing connectionId with hmin | hmin
      · exact Or.inr (by rw [hexisting, hk, hmin])
      · exact Or.inl ⟨rfl, hk.trans hmin⟩
    · exact Or.inr h

theorem mem_insertLowest
    {m : HashMap PeerId ConnectionId} {peerId q : PeerId}
    {connectionId : ConnectionId} :
    q ∈ insertLowest m peerId connectionId ↔ q = peerId ∨ q ∈ m := by
  unfold insertLowest
  split <;> exact AList.mem_insert m

theorem Rested.mono {c : Clock} {w w' : World} {peerId : PeerId}
    (h : Rested c w peerId) (hreads : w.reads ≤ w'.reads)
    (hcooldowns : w'.reservationCooldowns = w.reservationCooldowns) :
    Rested c w' peerId := by
  intro deadline hdeadline
  rw [hcooldowns] at hdeadline
  obtain ⟨i, hi, hle⟩ := h deadline hdeadline
  exact ⟨i, lt_of_lt_of_le hi hreads, hle⟩

/-- Collecting candidates changes nothing but the number of clock readings. -/
theorem collectCandidates_world
    (c : Clock) (covered : Finset PeerId)
    (entries : List (Σ _ : PeerId × ConnectionId, Connection))
    (acc : Candidates) (w : World) :
    ∃ n, w.reads ≤ n ∧
      (collectCandidates c covered entries acc w).2 = { w with reads := n } := by
  induction entries generalizing acc w with
  | nil => exact ⟨w.reads, le_refl _, rfl⟩
  | cons e rest ih =>
      obtain ⟨⟨peerId, connectionId⟩, info⟩ := e
      have hread : ∃ m, w.reads ≤ m ∧
          (reservationInCooldown c peerId w).2 = { w with reads := m } := by
        rcases reservationInCooldown_eq c peerId w with h | h
        · exact ⟨w.reads, le_refl _, h⟩
        · exact ⟨w.reads + 1, Nat.le_succ _, h⟩
      obtain ⟨m, hm, hworld⟩ := hread
      simp only [collectCandidates]
      split
      · exact ih acc w
      · rw [hworld]
        split
        · obtain ⟨n, hn, h⟩ := ih acc { w with reads := m }
          exact ⟨n, le_trans hm hn, h⟩
        · split
          · obtain ⟨n, hn, h⟩ := ih acc { w with reads := m }
            exact ⟨n, le_trans hm hn, h⟩
          · obtain ⟨n, hn, h⟩ := ih
              (acc.add (decide (peerId ∈ w.staticRelays)) peerId connectionId)
              { w with reads := m }
            exact ⟨n, le_trans hm hn, h⟩

theorem collectCandidates_acts
    (c : Clock) (i : Input) (covered : Finset PeerId)
    (entries : List (Σ _ : PeerId × ConnectionId, Connection))
    (acc : Candidates) (w : World) :
    Acts c i w (collectCandidates c covered entries acc w).2 := by
  induction entries generalizing acc w with
  | nil => exact Relation.ReflTransGen.refl
  | cons e rest ih =>
      obtain ⟨⟨peerId, connectionId⟩, info⟩ := e
      have hread := reservationInCooldown_acts c i peerId w
      simp only [collectCandidates]
      split
      · exact ih acc w
      · split
        · exact hread.trans (ih _ _)
        · split
          · exact hread.trans (ih _ _)
          · exact hread.trans (ih _ _)

/-- Both buckets hold candidates only, sorted by static registration. -/
structure SoundBuckets (c : Clock) (covered : Finset PeerId) (w : World)
    (entries : List (Σ _ : PeerId × ConnectionId, Connection))
    (found : Candidates) : Prop where
  statics : ∀ p k, found.staticCandidates.lookup p = some k →
    IsCandidate c covered w entries p k ∧ p ∈ w.staticRelays
  others : ∀ p k, found.candidates.lookup p = some k →
    IsCandidate c covered w entries p k ∧ p ∉ w.staticRelays

theorem SoundBuckets.add
    {c : Clock} {covered : Finset PeerId} {w : World}
    {entries : List (Σ _ : PeerId × ConnectionId, Connection)}
    {found : Candidates} {peerId : PeerId} {connectionId : ConnectionId}
    (h : SoundBuckets c covered w entries found)
    (hnew : IsCandidate c covered w entries peerId connectionId) :
    SoundBuckets c covered w entries
      (found.add (decide (peerId ∈ w.staticRelays)) peerId connectionId) := by
  unfold Candidates.add
  split
  · next hstatic =>
    refine ⟨?_, h.others⟩
    intro p k hk
    rcases lookup_insertLowest hk with ⟨rfl, rfl⟩ | hk
    · exact ⟨hnew, of_decide_eq_true hstatic⟩
    · exact h.statics p k hk
  · next hstatic =>
    refine ⟨h.statics, ?_⟩
    intro p k hk
    rcases lookup_insertLowest hk with ⟨rfl, rfl⟩ | hk
    · exact ⟨hnew, by simpa using hstatic⟩
    · exact h.others p k hk

theorem reservationInCooldown_behaviour
    (c : Clock) (peerId : PeerId) (w : World) :
    (reservationInCooldown c peerId w).2.toBehaviour = w.toBehaviour := by
  rcases reservationInCooldown_eq c peerId w with h | h <;> rw [h]
  rfl

/-- Soundness of the two buckets, seen from any later reading `v` of the same
state. -/
theorem collectCandidates_sound
    (c : Clock) (covered : Finset PeerId)
    {all entries : List (Σ _ : PeerId × ConnectionId, Connection)}
    (hsub : ∀ e ∈ entries, e ∈ all) (acc : Candidates) {v w : World}
    (hv : w.toBehaviour = v.toBehaviour)
    (hreads : (collectCandidates c covered entries acc w).2.reads ≤ v.reads)
    (hacc : SoundBuckets c covered v all acc) :
    SoundBuckets c covered v all
      (collectCandidates c covered entries acc w).1 := by
  induction entries generalizing acc w with
  | nil => exact hacc
  | cons e rest ih =>
      obtain ⟨⟨peerId, connectionId⟩, info⟩ := e
      have hrest : ∀ e ∈ rest, e ∈ all := fun e he =>
        hsub e (List.mem_cons_of_mem _ he)
      have hv' := (reservationInCooldown_behaviour c peerId w).trans hv
      simp only [collectCandidates] at hreads ⊢
      split
      · next hcovered =>
        rw [if_pos hcovered] at hreads
        exact ih hrest acc hv hreads hacc
      · next hcovered =>
        rw [if_neg hcovered] at hreads
        split
        · next hcooling =>
          rw [if_pos hcooling] at hreads
          exact ih hrest acc hv' hreads hacc
        · next hcooling =>
          rw [if_neg hcooling] at hreads
          split
          · next hstatus =>
            rw [if_pos hstatus] at hreads
            exact ih hrest acc hv' hreads hacc
          · next hstatus =>
            rw [if_neg hstatus] at hreads
            apply ih hrest _ hv' hreads
            rw [hv']
            have hrested := rested_of_not_cooling (c := c) (w := w)
              (by simpa using hcooling)
            obtain ⟨n, hn, hfinal⟩ := collectCandidates_world c covered rest
              (acc.add (decide (peerId ∈
                (reservationInCooldown c peerId w).2.staticRelays))
                peerId connectionId)
              (reservationInCooldown c peerId w).2
            rw [hfinal] at hreads
            refine hacc.add ⟨hcovered, ?_, info, ?_, by simpa using hstatus⟩
            · apply hrested.mono (le_trans hn hreads)
              rw [hv']
            · exact hsub _ List.mem_cons_self

/-- Every supported peer that is neither covered nor has a cooldown entry ends
up in one of the buckets. -/
theorem collectCandidates_complete
    (c : Clock) (covered : Finset PeerId)
    (entries : List (Σ _ : PeerId × ConnectionId, Connection))
    (acc : Candidates) (w : World) {p : PeerId}
    (hp : (p ∈ acc.staticCandidates ∨ p ∈ acc.candidates) ∨
      (p ∉ covered ∧ w.reservationCooldowns.lookup p = none ∧
        ∃ k info, ⟨(p, k), info⟩ ∈ entries ∧
          info.relayStatus = .supported)) :
    p ∈ (collectCandidates c covered entries acc w).1.staticCandidates ∨
      p ∈ (collectCandidates c covered entries acc w).1.candidates := by
  induction entries generalizing acc w with
  | nil =>
      rcases hp with hp | ⟨-, -, k, info, hmem, -⟩
      · exact hp
      · simp at hmem
  | cons e rest ih =>
      obtain ⟨⟨peerId, connectionId⟩, info⟩ := e
      have hcool : (reservationInCooldown c peerId w).2.reservationCooldowns =
          w.reservationCooldowns := by
        rw [reservationInCooldown_behaviour]
      -- the head entry is the only one that can newly put `p` in a bucket
      have hskip : (p ∉ covered ∧ w.reservationCooldowns.lookup p = none ∧
          ∃ k i, (⟨(p, k), i⟩ : Σ _ : PeerId × ConnectionId, Connection) ∈
            (⟨(peerId, connectionId), info⟩ ::
              rest : List (Σ _ : PeerId × ConnectionId, Connection)) ∧
            i.relayStatus = .supported) →
          (p = peerId ∧ info.relayStatus = .supported) ∨
          (p ∉ covered ∧ w.reservationCooldowns.lookup p = none ∧
            ∃ k i, (⟨(p, k), i⟩ : Σ _ : PeerId × ConnectionId, Connection) ∈
              rest ∧ i.relayStatus = .supported) := by
        rintro ⟨hfree, hnone, k, i, hmem, hi⟩
        rcases List.mem_cons.mp hmem with heq | hmem
        · left
          cases heq
          exact ⟨rfl, hi⟩
        · exact Or.inr ⟨hfree, hnone, k, i, hmem, hi⟩
      simp only [collectCandidates]
      split
      · next hcovered =>
        apply ih
        rcases hp with hp | hp
        · exact Or.inl hp
        · rcases hskip hp with ⟨rfl, -⟩ | hp'
          · exact absurd hcovered hp.1
          · exact Or.inr hp'
      · split
        · next hcooling =>
          apply ih
          rw [hcool]
          rcases hp with hp | hp
          · exact Or.inl hp
          · rcases hskip hp with ⟨rfl, -⟩ | hp'
            · simp [reservationInCooldown, hp.2.1] at hcooling
            · exact Or.inr hp'
        · split
          · next hstatus =>
            apply ih
            rw [hcool]
            rcases hp with hp | hp
            · exact Or.inl hp
            · rcases hskip hp with ⟨-, hi⟩ | hp'
              · exact absurd hi hstatus
              · exact Or.inr hp'
          · apply ih
            rw [hcool]
            by_cases hpeer : p = peerId
            · left
              subst hpeer
              unfold Candidates.add
              split
              · exact Or.inl (mem_insertLowest.mpr (Or.inl rfl))
              · exact Or.inr (mem_insertLowest.mpr (Or.inl rfl))
            · rcases hp with hp | hp
              · left
                unfold Candidates.add
                split
                · exact hp.imp_left fun h => mem_insertLowest.mpr (Or.inr h)
                · exact hp.imp_right fun h => mem_insertLowest.mpr (Or.inr h)
              · rcases hskip hp with ⟨hp', -⟩ | hp'
                · exact absurd hp' hpeer
                · exact Or.inr hp'

end Connexa.Autorelay
