import Connexa.Support.Traces
import Connexa.Keystore.Keychain.Failures

/-!
# Purging expired keys

`purge_expired` first loads and opens everything that the backend lists, then
looks at the clock for every key that can expire, and only then removes.  So one
bad entry stops it before the first removal, and what it removes was authentic
and expired.
-/

namespace Connexa.Keystore.Keychain

open Machine (Yields)

variable {K : Type}

/-- What the `Keystore` trait asks of `remove`: it tells whether there was an
entry under the label, and afterwards there is none.  When it fails, the entry
may be gone or not. -/
structure Environment.Removal (env : Environment K) : Prop where
  removes : ∀ {store store' : Store} {label existed},
    env.removes store label (.ok existed) store' →
    existed = (store label).isSome ∧ store' = Function.update store label none
  fails : ∀ {store store' : Store} {label e},
    env.removes store label (.error e) store' →
    store' = store ∨ store' = Function.update store label none

/-- Every listed label is valid, listed once and holds an entry with the listed
metadata that opens under the cipher. -/
def AllAuthentic (identity : Identity K) (env : Environment K) (cipher : CipherId)
    (store : Store) (listed : List KeyMetadata) : Prop :=
  (listed.map (·.label)).Nodup ∧ ∀ metadata ∈ listed,
    validateLabel metadata.label = .ok () ∧ ∃ entry keypair,
      store metadata.label = some entry ∧ entry.metadata = metadata ∧
        Opens identity env cipher metadata.label entry keypair

/-- The key has expired at the time. -/
def ExpiredAt (metadata : KeyMetadata) (now : SystemTime) : Prop :=
  ∃ expiry, metadata.expiresAt = some expiry ∧ expiry.nanos ≤ now.nanos

/-- The calls of the trace have found everything that was listed authentic, and
the labels are those of the keys that had expired when the clock was read for
them. -/
structure Checked (identity : Identity K) (env : Environment K) (cipher : CipherId)
    (store : Store) (trace : List (Exchange (Op K) Reply)) (listed : List KeyMetadata)
    (expired : List String) : Prop where
  listing : ⟨.list, .ok listed⟩ ∈ trace
  authentic : AllAuthentic identity env cipher store listed
  nodup : expired.Nodup
  clock : ∃ now : String → SystemTime,
    (∀ metadata ∈ listed, metadata.expiresAt ≠ none →
      ⟨.now, now metadata.label⟩ ∈ trace) ∧
    ∀ label, label ∈ expired ↔
      ∃ metadata ∈ listed, metadata.label = label ∧ ExpiredAt metadata (now label)

/-! ## The checks -/

section Checks

variable {identity : Identity K} {env : Environment K} {cipher : CipherId}
  {old w w' : World K} {trace : List (Exchange (Op K) Reply)}

/-- A program that only reads, along its trace. -/
theorem Reads.along {α : Type} {x : KeychainM K α} {P : α → Prop}
    (h : Reads env old x P w) {r : Except Error α} (hplays : x.run.Plays trace r)
    (hreplays : (machine env).Replays w trace w') :
    Untouched old w' ∧ ∀ a, r = .ok a → P a := by
  obtain ⟨hw', hr⟩ := h.finishes (Machine.finishes_of_plays hplays hreplays)
  refine ⟨hw', ?_⟩
  rintro a rfl
  exact hr

theorem reads_openEntries (hw : Untouched old w) (cipher : CipherId)
    (entries : List EncryptedEntry) :
    Reads env old (openEntries identity cipher entries)
      (fun opened => opened.map (·.metadata) = entries.map (·.metadata) ∧
        ∀ entry ∈ entries, ∃ keypair,
          Opens identity env cipher entry.metadata.label entry keypair) w := by
  induction entries generalizing w with
  | nil => exact ⟨hw, rfl, nofun⟩
  | cons entry rest ih =>
      refine reads_bind (reads_openEntry hw _ _ _) ?_
      rintro opened w hw ⟨hmetadata, hopens⟩
      refine reads_bind (ih hw) ?_
      rintro others w hw ⟨hrest, hothers⟩
      refine ⟨hw, ?_, ?_⟩
      · rw [List.map_cons, List.map_cons, hmetadata, hrest]
      · intro other hother
        rcases List.mem_cons.mp hother with rfl | hother
        · exact ⟨_, hopens⟩
        · exact hothers other hother

theorem Found.authentic {store : Store} {listed : List KeyMetadata}
    {entries : List EncryptedEntry} (h : Found store [] listed entries)
    (hopens : ∀ entry ∈ entries, ∃ keypair,
      Opens identity env cipher entry.metadata.label entry keypair) :
    AllAuthentic identity env cipher store listed := by
  have hlisted := h.metadata_eq
  subst hlisted
  refine ⟨?_, ?_⟩
  · rw [List.map_map]
    exact h.loaded.1
  · intro metadata hmem
    obtain ⟨entry, hentry, rfl⟩ := List.mem_map.mp hmem
    obtain ⟨keypair, hkeypair⟩ := hopens entry hentry
    exact ⟨(h.loaded.2 entry hentry).1, entry, keypair, h.stored entry hentry, rfl,
      hkeypair⟩

theorem plays_isExpired {metadata : KeyMetadata} {r : Except Error Bool}
    (h : (isExpired metadata : KeychainM K Bool).run.Plays trace r) :
    ∃ b now, r = .ok b ∧ (b = true ↔ ExpiredAt metadata now) ∧
      (metadata.expiresAt ≠ none → ⟨.now, now⟩ ∈ trace) := by
  unfold isExpired at h
  cases hexpiry : metadata.expiresAt with
  | none =>
      simp only [hexpiry] at h
      cases h
      refine ⟨false, ⟨0, by decide⟩, rfl, ?_, fun h => absurd rfl h⟩
      simp [ExpiredAt, hexpiry]
  | some expiry =>
      simp only [hexpiry] at h
      cases h with
      | @step _ _ now _ _ hrest =>
          cases hrest
          refine ⟨_, now, rfl, ?_, fun _ => List.mem_cons_self⟩
          simp [ExpiredAt, hexpiry]

/-- For every key that can expire the clock is read, and that decides. -/
theorem plays_expiredLabels {opened : List (OpenedEntry K)} {expired : List String}
    (h : (expiredLabels opened).run.Plays trace (.ok expired))
    (hnodup : (opened.map (·.metadata.label)).Nodup) :
    expired.Nodup ∧ ∃ now : String → SystemTime,
      (∀ o ∈ opened, o.metadata.expiresAt ≠ none →
        ⟨.now, now o.metadata.label⟩ ∈ trace) ∧
      ∀ label, label ∈ expired ↔
        ∃ o ∈ opened, o.metadata.label = label ∧ ExpiredAt o.metadata (now label) := by
  induction opened generalizing trace expired with
  | nil =>
      cases h
      exact ⟨List.nodup_nil, fun _ => ⟨0, by decide⟩, nofun, by simp⟩
  | cons first rest ih =>
      rw [List.map_cons, List.nodup_cons] at hnodup
      obtain ⟨hfirst, hrest⟩ := hnodup
      obtain ⟨b, before, after, rfl, hbefore, hafter⟩ := Prog.plays_bindOk h
      obtain ⟨_, reading, hb, hexpired, hread⟩ := plays_isExpired hbefore
      cases hb
      obtain ⟨labels, more, last, rfl, hlabels, hlast⟩ := Prog.plays_bindOk hafter
      cases hlast
      obtain ⟨hnodup, now, hnow, hmem⟩ := ih hlabels hrest
      have hnew : first.metadata.label ∉ labels := by
        intro hlabel
        obtain ⟨o, ho, hsame, -⟩ := (hmem _).mp hlabel
        exact hfirst (List.mem_map.mpr ⟨o, ho, hsame⟩)
      have hother : ∀ o ∈ rest, o.metadata.label ≠ first.metadata.label :=
        fun o ho hsame => hfirst (List.mem_map.mpr ⟨o, ho, hsame⟩)
      refine ⟨?_, Function.update now first.metadata.label reading, ?_, ?_⟩
      · split
        · exact List.nodup_cons.mpr ⟨hnew, hnodup⟩
        · exact hnodup
      · intro o ho hexpires
        rcases List.mem_cons.mp ho with rfl | ho
        · rw [Function.update_self]
          exact List.mem_append_left _ (hread hexpires)
        · rw [Function.update_of_ne (hother o ho), List.append_nil]
          exact List.mem_append_right _ (hnow o ho hexpires)
      · intro label
        by_cases hlabel : label = first.metadata.label
        · subst hlabel
          have hfirstOnly : (∃ o ∈ first :: rest,
              o.metadata.label = first.metadata.label ∧
                ExpiredAt o.metadata reading) ↔ ExpiredAt first.metadata reading := by
            constructor
            · rintro ⟨o, ho, hsame, hat⟩
              rcases List.mem_cons.mp ho with rfl | ho
              · exact hat
              · exact absurd hsame (hother o ho)
            · exact fun hat => ⟨first, List.mem_cons_self, rfl, hat⟩
          rw [Function.update_self, hfirstOnly, ← hexpired]
          cases b with
          | true => simp
          | false => simpa using hnew
        · have hrestOnly : (∃ o ∈ first :: rest, o.metadata.label = label ∧
              ExpiredAt o.metadata (now label)) ↔ label ∈ labels := by
            rw [hmem]
            constructor
            · rintro ⟨o, ho, hsame, hat⟩
              rcases List.mem_cons.mp ho with rfl | ho
              · exact absurd hsame.symm hlabel
              · exact ⟨o, ho, hsame, hat⟩
            · rintro ⟨o, ho, hboth⟩
              exact ⟨o, List.mem_cons_of_mem _ ho, hboth⟩
          rw [Function.update_of_ne hlabel, hrestOnly]
          split
          · simp [hlabel]
          · rfl

end Checks

/-! ## The removals -/

section Removals

variable {env : Environment K} {w w' : World K} {trace : List (Exchange (Op K) Reply)}

/-- Removing labels that hold entries: all of them go, or the first failure ends
it. -/
theorem plays_removeLabels (hremoval : env.Removal) {labels : List String}
    {removed : ℕ} {r : Except Error ℕ}
    (hplays : (removeLabels labels removed : KeychainM K ℕ).run.Plays trace r)
    (hreplays : (machine env).Replays w trace w') (hnodup : labels.Nodup)
    (hheld : ∀ label ∈ labels, (w.store label).isSome = true) :
    w'.cipher = w.cipher ∧
    (∀ label, w'.store label = w.store label ∨
      label ∈ labels ∧ w'.store label = none) ∧
    (∀ n, r = .ok n → n = removed + labels.length ∧
      ∀ label ∈ labels, w'.store label = none) ∧
    ∀ label e, ⟨.remove label, .error e⟩ ∈ trace → r = .error e := by
  induction labels generalizing trace removed w with
  | nil =>
      cases hplays
      cases hreplays
      refine ⟨rfl, fun _ => Or.inl rfl, ?_, nofun⟩
      rintro n ⟨⟩
      exact ⟨rfl, nofun⟩
  | cons label rest ih =>
      obtain ⟨hlabel, hrest⟩ := List.nodup_cons.mp hnodup
      cases hplays with
      | @step _ _ reply trace _ hplays =>
      cases hreplays with
      | @step _ _ _ u _ _ hstep hreplays =>
      obtain ⟨store, hremoves, rfl⟩ := hstep
      cases reply with
      | error e =>
          cases hplays
          cases hreplays
          refine ⟨rfl, ?_, nofun, ?_⟩
          · intro other
            rcases hremoval.fails hremoves with rfl | rfl
            · exact Or.inl rfl
            · by_cases hother : other = label
              · subst hother
                exact Or.inr ⟨List.mem_cons_self, Function.update_self ..⟩
              · exact Or.inl (Function.update_of_ne hother _ _)
          · intro other e' hmem
            cases List.mem_singleton.mp hmem
            rfl
      | ok existed =>
          obtain ⟨hexisted, rfl⟩ := hremoval.removes hremoves
          rw [hheld label List.mem_cons_self] at hexisted
          subst hexisted
          obtain ⟨hcipher, hstore, hok, hfails⟩ := ih hplays hreplays hrest (by
            intro other hother
            have hne : other ≠ label := fun h => hlabel (h ▸ hother)
            have hheld' := hheld other (List.mem_cons_of_mem _ hother)
            rwa [← Function.update_of_ne hne none w.store] at hheld')
          refine ⟨hcipher, ?_, ?_, ?_⟩
          · intro other
            rcases hstore other with hsame | ⟨hmem, hnone⟩
            · by_cases hother : other = label
              · subst hother
                refine Or.inr ⟨List.mem_cons_self, hsame.trans ?_⟩
                exact Function.update_self ..
              · exact Or.inl (hsame.trans (Function.update_of_ne hother _ _))
            · exact Or.inr ⟨List.mem_cons_of_mem _ hmem, hnone⟩
          · intro n hn
            obtain ⟨hcount, hgone⟩ := hok n hn
            refine ⟨by simp only [if_true] at hcount; rw [List.length_cons]; omega, ?_⟩
            intro other hother
            rcases List.mem_cons.mp hother with rfl | hother
            · rcases hstore other with hsame | ⟨-, hnone⟩
              · exact hsame.trans (Function.update_self ..)
              · exact hnone
            · exact hgone other hother
          · intro other e hmem
            rcases List.mem_cons.mp hmem with heq | hmem
            · cases heq
            · exact hfails other e hmem

end Removals

/-! ## One listing -/

/-- The operation asks the backend for a list. -/
def Op.lists : Op K → Bool
  | .list => true
  | _ => false

section Listing

variable {identity : Identity K} {α : Type}

/-- The program does not ask for a list. -/
abbrev Listless (x : KeychainM K α) : Prop :=
  x.run.Calls (·.lists = false)

theorem listless_call {o : Op K} (h : o.lists = false) : Listless (call o) :=
  Prog.Calls.bind (Prog.calls_op h) fun _ => trivial

theorem listless_writeLock : Listless (writeLock : KeychainM K CipherId) := by
  refine (listless_call rfl).bindExcept fun _ => ?_
  refine (listless_call rfl).bindExcept fun slot => ?_
  cases slot with
  | none => trivial
  | some cipher => trivial

theorem listless_loadListed (listed : List KeyMetadata) (labels : List String) :
    Listless (loadListed listed labels : KeychainM K _) := by
  induction listed generalizing labels with
  | nil => trivial
  | cons metadata rest ih =>
      have hcheck : Listless (checkLabel metadata.label : KeychainM K Unit) := by
        unfold checkLabel
        split <;> trivial
      refine hcheck.bindExcept fun _ => ?_
      apply calls_unless
      refine Prog.Calls.bindExcept (Prog.calls_op rfl) fun found => ?_
      cases found with
      | none => trivial
      | some entry =>
          apply calls_unless
          exact (ih _).bindExcept fun _ => trivial

theorem listless_openEntries (cipher : CipherId) (entries : List EncryptedEntry) :
    Listless (openEntries identity cipher entries) := by
  induction entries with
  | nil => trivial
  | cons entry rest ih =>
      refine Prog.Calls.bindExcept ?_ fun _ => ih.bindExcept fun _ => trivial
      unfold openEntry
      apply calls_unless
      refine Prog.Calls.bindExcept (Prog.calls_op rfl) fun plaintext => ?_
      have hkey : ∀ r : Except String K, Listless (keyResult r : KeychainM K K) := by
        intro r
        cases r <;> trivial
      refine (hkey _).bindExcept fun keypair => ?_
      apply calls_unless
      exact (listless_call rfl).bindExcept fun _ => trivial

theorem listless_expiredLabels (opened : List (OpenedEntry K)) :
    Listless (expiredLabels opened) := by
  induction opened with
  | nil => trivial
  | cons first rest ih =>
      refine Prog.Calls.bindExcept ?_ fun _ => ih.bindExcept fun _ => trivial
      unfold isExpired
      split
      · trivial
      · exact (listless_call rfl).bindExcept fun _ => trivial

theorem listless_removeLabels (labels : List String) (removed : ℕ) :
    Listless (removeLabels labels removed : KeychainM K ℕ) := by
  induction labels generalizing removed with
  | nil => trivial
  | cons label rest ih =>
      exact Prog.Calls.bindExcept (Prog.calls_op rfl) fun _ => ih _

theorem listless_finishMutation {work : KeychainM K α} (hwork : Listless work) :
    Listless (finishMutation work) := by
  refine Prog.Calls.bind (Prog.calls_op rfl) fun _ => Prog.Calls.bind hwork fun _ => ?_
  exact Prog.Calls.bind (Prog.calls_op rfl) fun _ => trivial

end Listing

/-! ## The whole call -/

section Purge

variable {identity : Identity K} {env : Environment K} {cipher : CipherId}
  {w w' : World K} {trace : List (Exchange (Op K) Reply)}

/-- What `purge_expired` does before it removes anything. -/
def expiredKeys (identity : Identity K) : KeychainM K (List String) := do
  let cipher ← writeLock
  let entries ← loadEntries
  let opened ← openEntries identity cipher entries
  expiredLabels opened

theorem purgeExpired_eq :
    purgeExpired identity = (do
      let expired ← expiredKeys identity
      if expired.isEmpty then return 0
      finishMutation (removeLabels expired 0)) := by
  simp [purgeExpired, expiredKeys]

theorem reader_expiredKeys : Reader (expiredKeys identity) := by
  refine reader_writeLock.bindExcept fun cipher => ?_
  refine (reader_of_quiet calls_loadEntries).bindExcept fun entries => ?_
  refine (reader_of_quiet (calls_openEntries cipher entries)).bindExcept fun opened => ?_
  exact reader_of_quiet (calls_expiredLabels opened)

theorem reads_writeLock {old : World K} (hw : Untouched old w) :
    Reads env old writeLock (fun cipher => old.cipher = some cipher) w := by
  refine ⟨hw, ?_⟩
  rintro r u rfl
  refine ⟨hw, ?_⟩
  rintro slot u ⟨hslot, rfl⟩
  cases slot with
  | none => exact ⟨hw, trivial⟩
  | some cipher => exact ⟨hw, hw.cipher_eq.symm.trans hslot.symm⟩

/-- The checks ask for one list, and if they end well all of it was authentic. -/
theorem checked_of_plays (hbackend : env.Contract) (hcipher : w.cipher = some cipher)
    {expired : List String}
    (hplays : (expiredKeys identity).run.Plays trace (.ok expired))
    (hreplays : (machine env).Replays w trace w') :
    ∃ listed, Checked identity env cipher w.store trace listed expired ∧
      ∀ other, ⟨.list, .ok other⟩ ∈ trace → other = listed := by
  have hw := untouched_refl w
  obtain ⟨c, lockTrace, rest, rfl, hlock, hrest⟩ := Prog.plays_bindOk hplays
  obtain ⟨w₁, hlocked, hrun₁⟩ := Machine.replays_append.mp hreplays
  obtain ⟨hw, hc⟩ := (reads_writeLock hw).along hlock hlocked
  obtain rfl : cipher = c := Option.some.inj (hcipher.symm.trans (hc c rfl))
  obtain ⟨entries, loadTrace, rest, rfl, hload, hopening⟩ := Prog.plays_bindOk hrest
  obtain ⟨w₂, hloaded, hrun₂⟩ := Machine.replays_append.mp hrun₁
  obtain ⟨listed, getTrace, rfl, hget⟩ : ∃ listed getTrace,
      loadTrace = ⟨.list, .ok listed⟩ :: getTrace ∧
        (loadListed listed [] : KeychainM K _).run.Plays getTrace (.ok entries) := by
    cases hload with
    | @step _ _ reply rest _ hrest =>
        cases reply with
        | error e => cases hrest
        | ok listed => exact ⟨listed, rest, rfl, hrest⟩
  obtain ⟨w₀, hlist, hgot⟩ : ∃ w₀, (machine env).step .list w₁ (.ok listed) w₀ ∧
      (machine env).Replays w₀ getTrace w₂ := by
    cases hloaded with
    | step hlist hgot => exact ⟨_, hlist, hgot⟩
  have hw₀ : Untouched w w₀ := hw.step hlist rfl
  obtain ⟨hw, hfound⟩ := (reads_loadListed hbackend hw₀ listed []).along hget hgot
  have hfound := hfound entries rfl
  obtain ⟨opened, openTrace, clockTrace, rfl, hopen, hclock⟩ :=
    Prog.plays_bindOk hopening
  obtain ⟨w₃, hopened, -⟩ := Machine.replays_append.mp hrun₂
  obtain ⟨-, hopens⟩ := (reads_openEntries hw cipher entries).along hopen hopened
  obtain ⟨hmetadata, hopens⟩ := hopens opened rfl
  rw [hfound.metadata_eq] at hmetadata
  have hauthentic := hfound.authentic hopens
  have hlabels : opened.map (·.metadata.label) = listed.map (·.label) := by
    rw [← hmetadata, List.map_map]
    rfl
  obtain ⟨hnodup, now, hnow, hmem⟩ := plays_expiredLabels hclock (hlabels ▸ hauthentic.1)
  refine ⟨listed, ⟨by simp, hauthentic, hnodup, now, ?_, ?_⟩, ?_⟩
  · intro metadata hmetadata' hexpires
    rw [← hmetadata] at hmetadata'
    obtain ⟨o, ho, rfl⟩ := List.mem_map.mp hmetadata'
    have hreading := hnow o ho hexpires
    simp only [List.mem_append]
    exact Or.inr (Or.inr (Or.inr hreading))
  · intro label
    rw [hmem, ← hmetadata]
    simp only [List.mem_map, exists_exists_and_eq_and]
  · intro other hother
    have hnone : ∀ {α : Type} {x : KeychainM K α} {trace : List (Exchange (Op K) Reply)}
        {r : Except Error α}, Listless x → x.run.Plays trace r →
        ⟨.list, .ok other⟩ ∉ trace := by
      intro α x trace r hx hplays hmem
      cases hx.plays hplays _ hmem
    simp only [List.mem_append, List.mem_cons] at hother
    rcases hother with hother | (hother | hother) | hother | hother
    · exact absurd hother (hnone listless_writeLock hlock)
    · cases hother
      rfl
    · exact absurd hother (hnone (listless_loadListed _ _) hget)
    · exact absurd hother (hnone (listless_openEntries _ _) hopen)
    · exact absurd hother (hnone (listless_expiredLabels _) hclock)

theorem Checked.append {first second : List (Exchange (Op K) Reply)}
    {store : Store} {listed : List KeyMetadata} {expired : List String}
    (h : Checked identity env cipher store first listed expired) :
    Checked identity env cipher store (first ++ second) listed expired := by
  obtain ⟨hlisting, hauthentic, hnodup, now, hnow, hmem⟩ := h
  refine ⟨List.mem_append_left _ hlisting, hauthentic, hnodup, now, ?_, hmem⟩
  exact fun metadata hmetadata hexpires =>
    List.mem_append_left _ (hnow metadata hmetadata hexpires)

/-- A key that was checked is there. -/
theorem Checked.held {store : Store} {listed : List KeyMetadata} {expired : List String}
    (h : Checked identity env cipher store trace listed expired) {label : String}
    (hlabel : label ∈ expired) : (store label).isSome = true := by
  obtain ⟨now, -, hmem⟩ := h.clock
  obtain ⟨metadata, hmetadata, rfl, -⟩ := (hmem label).mp hlabel
  obtain ⟨-, entry, -, hentry, -⟩ := h.authentic.2 metadata hmetadata
  rw [hentry]
  rfl

/-- What `purge_expired` has done between two worlds. -/
structure Purged (identity : Identity K) (env : Environment K) (cipher : CipherId)
    (w w' : World K) (trace : List (Exchange (Op K) Reply)) {α : Type}
    (count : ℕ → α) (r : Except Error α) : Prop where
  usable : w'.cipher = w.cipher
  /-- A bad list is refused. -/
  refused : ∀ listed, ⟨.list, .ok listed⟩ ∈ trace →
    ¬AllAuthentic identity env cipher w.store listed →
    (∃ e, r = .error e) ∧ w'.store = w.store
  /-- The expired keys are gone, and nothing else has changed. -/
  removed : ∀ a, r = .ok a → ∃ listed expired,
    Checked identity env cipher w.store trace listed expired ∧
    a = count expired.length ∧
    (∀ label ∈ expired, (w.store label).isSome = true ∧ w'.store label = none) ∧
    ∀ label ∉ expired, w'.store label = w.store label
  /-- Where a removal fails, only expired keys can be gone. -/
  failed : ∀ label e, ⟨.remove label, .error e⟩ ∈ trace → r = .error e ∧
    ∃ listed expired, Checked identity env cipher w.store trace listed expired ∧
      ∀ other, w'.store other = w.store other ∨
        other ∈ expired ∧ w'.store other = none

/-- Failed checks. -/
theorem purged_of_unchecked {α : Type} {count : ℕ → α} {e : Error}
    (hplays : (expiredKeys identity).run.Plays trace (.error e))
    (hreplays : (machine env).Replays w trace w') :
    Purged identity env cipher w w' trace count (.error e) := by
  have huntouched := reader_expiredKeys.plays hplays
  have hintact : Intact w w' := hreplays.keeps (C := Intact w)
    (fun x hx u v hu hstep =>
      hu.trans (intact_of_step (huntouched x hx) hstep)) ⟨rfl, rfl⟩
  refine ⟨hintact.1, fun _ _ _ => ⟨⟨e, rfl⟩, hintact.2⟩, nofun, ?_⟩
  intro label e' hmem
  cases huntouched _ hmem

/-- The removals run without the cipher, which is put back after them. -/
theorem replays_finishMutation {α : Type} {work : KeychainM K α} {r : Except Error α}
    (hplays : (finishMutation work).run.Plays trace r)
    (hreplays : (machine env).Replays w trace w') :
    ∃ between v, work.run.Plays between r ∧
      (machine env).Replays { w with cipher := none } between v ∧
      w'.cipher = w.cipher ∧ w'.store = v.store ∧
      ∀ x ∈ trace, failedWrite x = true → x ∈ between := by
  obtain ⟨slot, detach, rest, rfl, hdetach, hplays⟩ := Prog.plays_bind hplays
  obtain ⟨u, hdetached, hrun⟩ := Machine.replays_append.mp hreplays
  obtain ⟨result, between, rest, rfl, hwork, hplays⟩ := Prog.plays_bind hplays
  obtain ⟨v, hworked, hrun⟩ := Machine.replays_append.mp hrun
  obtain ⟨_, set, rest, rfl, hset, hplays⟩ := Prog.plays_bind hplays
  obtain ⟨v', hsetted, hrun⟩ := Machine.replays_append.mp hrun
  cases hplays
  cases hrun
  cases hdetach with
  | step hdone =>
  cases hdone
  cases hdetached with
  | step hstep hrefl =>
  cases hrefl
  obtain ⟨rfl, rfl⟩ := hstep
  cases hset with
  | step hdone =>
  cases hdone
  cases hsetted with
  | step hstep hrefl =>
  cases hrefl
  obtain rfl := hstep
  refine ⟨between, v, hwork, hworked, rfl, rfl, ?_⟩
  intro x hx hfailed
  simp only [List.mem_append, List.mem_singleton, List.append_nil] at hx
  rcases hx with rfl | hx | rfl
  · cases hfailed
  · exact hx
  · cases hfailed

theorem purged_of_plays (hbackend : env.Contract) (hremoval : env.Removal)
    (hcipher : w.cipher = some cipher) {r : Except Error ℕ}
    (hplays : (purgeExpired identity).run.Plays trace r)
    (hreplays : (machine env).Replays w trace w') :
    Purged identity env cipher w w' trace id r := by
  rw [purgeExpired_eq] at hplays
  rcases Prog.plays_bindExcept hplays with
    ⟨expired, first, second, rfl, hchecks, hremovals⟩ | ⟨e, rfl, hchecks⟩
  swap
  · exact purged_of_unchecked hchecks hreplays
  obtain ⟨u, hchecked, hremoved⟩ := Machine.replays_append.mp hreplays
  have huntouched := reader_expiredKeys.plays hchecks
  have hintact : Intact w u := hchecked.keeps (C := Intact w)
    (fun x hx u v hu hstep =>
      hu.trans (intact_of_step (huntouched x hx) hstep)) ⟨rfl, rfl⟩
  obtain ⟨listed, hfound, honly⟩ := checked_of_plays hbackend hcipher hchecks hchecked
  have hfound' : Checked identity env cipher w.store (first ++ second) listed expired :=
    hfound.append
  -- the rest of the call asks for no other list
  have hrefused : ∀ other, ⟨.list, .ok other⟩ ∈ first ++ second →
      ¬AllAuthentic identity env cipher w.store other → False := by
    intro other hother hbad
    rcases List.mem_append.mp hother with hother | hother
    · exact hbad (honly other hother ▸ hfound.authentic)
    · have hlistless : Listless (K := K) (if expired.isEmpty then return 0
          else finishMutation (removeLabels expired 0)) := by
        split
        · trivial
        · exact listless_finishMutation (listless_removeLabels expired 0)
      cases hlistless.plays hremovals _ hother
  have hfirst : ∀ label e, ⟨.remove label, .error e⟩ ∉ first :=
    fun label e hmem => by cases huntouched _ hmem
  cases hexpired : expired.isEmpty with
  | true =>
      rw [List.isEmpty_iff] at hexpired
      subst hexpired
      cases hremovals
      cases hremoved
      refine ⟨hintact.1, fun other hother hbad =>
        (hrefused other hother hbad).elim, ?_, ?_⟩
      · rintro _ ⟨⟩
        exact ⟨listed, [], hfound', rfl, nofun, fun label _ => congrFun hintact.2 label⟩
      · intro label e hmem
        rw [List.append_nil] at hmem
        exact absurd hmem (hfirst label e)
  | false =>
      simp only [hexpired, Bool.false_eq_true, if_false] at hremovals
      obtain ⟨between, v, hwork, hworked, hslot, hstore, hfailures⟩ :=
        replays_finishMutation hremovals hremoved
      obtain ⟨-, hgone, hok, hfails⟩ := plays_removeLabels hremoval hwork hworked
        hfound.nodup (fun label hlabel => hintact.2 ▸ hfound.held hlabel)
      have hchanged : ∀ label, w'.store label = w.store label ∨
          label ∈ expired ∧ w'.store label = none := by
        intro label
        rw [hstore, ← hintact.2]
        exact hgone label
      refine ⟨hslot.trans hintact.1,
        fun other hother hbad => (hrefused other hother hbad).elim, ?_, ?_⟩
      · rintro n rfl
        obtain ⟨hcount, hall⟩ := hok n rfl
        refine ⟨listed, expired, hfound', by simpa using hcount, ?_, ?_⟩
        · exact fun label hlabel => ⟨hfound.held hlabel, hstore ▸ hall label hlabel⟩
        · exact fun label hlabel => (hchanged label).resolve_right fun h => hlabel h.1
      · intro label e hmem
        rcases List.mem_append.mp hmem with hmem | hmem
        · exact absurd hmem (hfirst label e)
        · exact ⟨hfails label e (hfailures _ hmem rfl), listed, expired,
            hfound', hchanged⟩

/-- `purge_expired` removes exactly the authentic keys that have expired.  If
anything is wrong with what the backend lists, it fails and removes nothing; if
it returns a number, that many keys are gone, all of them authentic and expired
when they were checked, no such key is left, and everything else is as it was;
if a removal fails, it returns that error, and only expired keys can be gone.
The cipher is in its slot again in any case. -/
theorem purgeExpired_removes_expired {disabled : Bool} (hbackend : env.Contract)
    (hremoval : env.Removal) (hcipher : w.cipher = some cipher)
    {r : Except Error (Value K)}
    (hcall : (program identity disabled .purgeExpired).Plays trace r)
    (hrun : (machine env).Replays w trace w') :
    Purged identity env cipher w w' trace .count r := by
  rcases Prog.plays_bindExcept hcall with
    ⟨n, first, second, rfl, hpurge, hreturn⟩ | ⟨e, rfl, hpurge⟩
  · cases hreturn
    rw [List.append_nil] at hrun ⊢
    obtain ⟨husable, hrefused, hremoved, hfailed⟩ :=
      purged_of_plays hbackend hremoval hcipher hpurge hrun
    refine ⟨husable, ?_, ?_, ?_⟩
    · intro listed hlisted hbad
      obtain ⟨⟨e, he⟩, -⟩ := hrefused listed hlisted hbad
      cases he
    · rintro _ ⟨⟩
      obtain ⟨listed, expired, hchecked, rfl, hgone⟩ := hremoved n rfl
      exact ⟨listed, expired, hchecked, rfl, hgone⟩
    · intro label e hmem
      cases (hfailed label e hmem).1
  · obtain ⟨husable, hrefused, -, hfailed⟩ :=
      purged_of_plays hbackend hremoval hcipher hpurge hrun
    refine ⟨husable, ?_, nofun, ?_⟩
    · exact fun listed hlisted hbad => ⟨⟨e, rfl⟩, (hrefused listed hlisted hbad).2⟩
    · intro label e' hmem
      obtain ⟨he, hchanged⟩ := hfailed label e' hmem
      cases he
      exact ⟨rfl, hchanged⟩

end Purge

/-! ## A purge that fails halfway -/

/-- The identity of one byte under a label, until some time. -/
def agingEntry (label : Label) (expiry : SystemTime) : EncryptedEntry :=
  let metadata : KeyMetadata :=
    { label := label.1
      keyType := .ed25519
      version := 1
      createdAt := ⟨0, SystemTime.epoch_bounded⟩
      expiresAt := some expiry
      publicKey := [5]
      label_lt := label.bounded
      publicKey_lt := heldKey_lt }
  ⟨metadata, (1 :: metadataAad metadata) ++ [5]⟩

/-- Both keys have expired, and that under `"b"` cannot be removed. -/
def grudgingBackend : Simulation UInt8 :=
  { halfwayBackend with
    now := fun _ => ⟨9, by decide⟩
    remove := fun store label =>
      if label = "b" then (.error (.backend (.os .other)), store)
      else (.ok (store label).isSome, Function.update store label none) }

theorem grudgingBackend_contract : grudgingBackend.environment.Contract :=
  ⟨halfwayBackend_contract.gets, halfwayBackend_contract.replaces,
    halfwayBackend_contract.fails⟩

theorem grudgingBackend_removal : grudgingBackend.environment.Removal where
  removes := by
    intro store store' label existed h
    simp only [Simulation.environment, grudgingBackend] at h
    split at h
    · cases (Prod.mk.inj h).1
    · obtain ⟨hexisted, rfl⟩ := Prod.mk.inj h
      exact ⟨Except.ok.inj hexisted, rfl⟩
  fails := by
    intro store store' label e h
    simp only [Simulation.environment, grudgingBackend] at h
    split at h
    · exact Or.inl (Prod.mk.inj h).2
    · cases (Prod.mk.inj h).1

def agedWorld : World UInt8 :=
  { cipher := some 1
    store := fun label =>
      if label = "a" then some (agingEntry ⟨"a", labelBytes_a_lt⟩ ⟨5, by decide⟩)
      else if label = "b" then some (agingEntry ⟨"b", labelBytes_b_lt⟩ ⟨7, by decide⟩)
      else none
    log := [] }

theorem purgeExpired_removes_expired_busy :
    ∃ trace w, (program byteIdentity false .purgeExpired).Plays trace
        (.error (.backend (.os .other))) ∧
      (machine grudgingBackend.environment).Replays agedWorld trace w ∧
      w.store "a" = none ∧ w.store "b" = agedWorld.store "b" ∧
      Purged byteIdentity grudgingBackend.environment 1 agedWorld w trace
        (Value.count : ℕ → Value UInt8)
        (.error (.backend (.os .other))) := by
  have hplays := Prog.plays_record grudgingBackend.exec
    (program byteIdentity false .purgeExpired) agedWorld
  have hreplays := Machine.replays_record grudgingBackend.step_exec
    (program byteIdentity false .purgeExpired) agedWorld
  have hresult : (Prog.record grudgingBackend.exec
      (program byteIdentity false .purgeExpired) agedWorld).2.1 =
        .error (.backend (.os .other)) := rfl
  rw [hresult] at hplays
  refine ⟨_, _, hplays, hreplays, by decide +kernel, by decide +kernel, ?_⟩
  exact purgeExpired_removes_expired grudgingBackend_contract grudgingBackend_removal rfl
    hplays hreplays

end Connexa.Keystore.Keychain
