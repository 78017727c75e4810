import Connexa.Keystore.Keychain.Views

/-!
# A keychain answers like its vault

Any number of tasks call clones of one keychain over a backend that does not fail.
Whatever their interleaving, and whichever callers go away, callers see what they
would see of a vault that answers one call at a time.
-/

namespace Connexa.Keystore.Keychain.Vault

open Sections (Looks Proceeds Stage)

variable {K : Type} {identity : Identity K} {env : Environment K} {v v' : Vault K}
  {w : World K} {disabled : Bool} {label : String} {α β : Type}

/-- The rest of a method, by what it leads to. -/
abbrev Goes (identity : Identity K) (env : Environment K)
    (Q : Except Error α → Stage (Vault K) (World K) → Prop) (x : KeychainM K α)
    (st : Stage (Vault K) (World K)) : Prop :=
  Proceeds (machine env) Op.kind (Rep identity env) Q x.run st

/-- The task has the lock, and its world stands for the vault. -/
abbrev Stands (identity : Identity K) (env : Environment K) (v : Vault K) (guard : Guard)
    (st : Stage (Vault K) (World K)) : Prop :=
  st.Holds (Rep identity env) v guard

/-! ## Checks and locks -/

section Rules

variable {Q : Except Error α → Stage (Vault K) (World K) → Prop}
  {st : Stage (Vault K) (World K)}

theorem goes_disableCheck {x : Unit → KeychainM K α}
    (hx : disabled = false → Goes identity env Q (x ()) st)
    (herror : disabled = true → Q (.error .disabled) st) :
    Goes identity env Q (disableCheck disabled >>= x) st := by
  cases disabled with
  | true => exact herror rfl
  | false => exact hx rfl

theorem goes_checkLabel {x : Unit → KeychainM K α}
    (hx : validateLabel label = .ok () → Goes identity env Q (x ()) st)
    (herror : ∀ e, validateLabel label = .error e → Q (.error e) st) :
    Goes identity env Q (checkLabel label >>= x) st := by
  unfold checkLabel
  cases hlabel : validateLabel label with
  | error e => exact herror e hlabel
  | ok u => exact hx hlabel

theorem goes_readLock {x : CipherId → KeychainM K α}
    (hx : ∀ v st, Stands identity env v .read st →
      Goes identity env Q (x v.cipher) st) :
    Goes identity env Q (readLock >>= x) .before := by
  refine ⟨trivial, ?_⟩
  rintro w r w' - hstep v hw
  refine ⟨hstep, trivial, ?_⟩
  rintro w₁ slot w₁' hw₁ ⟨rfl, rfl⟩
  refine ⟨hw₁, ?_⟩
  rw [hw₁.cipher_eq]
  exact hx v _ ⟨rfl, rfl⟩

theorem goes_writeLock {x : CipherId → KeychainM K α}
    (hx : ∀ v st, Stands identity env v .write st →
      Goes identity env Q (x v.cipher) st) :
    Goes identity env Q (writeLock >>= x) .before := by
  refine ⟨trivial, ?_⟩
  rintro w r w' - hstep v hw
  refine ⟨hstep, fun _ => hw, ?_⟩
  rintro w₁ slot w₁' rfl ⟨rfl, rfl⟩
  rw [hw.cipher_eq]
  exact hx v _ ⟨rfl, rfl, rfl, hw⟩

theorem goes_unlock {x : Unit → KeychainM K α} (hst : Stands identity env v .read st)
    (hx : Goes identity env Q (x ()) (.after v)) :
    Goes identity env Q (call Op.unlock >>= x) st := by
  cases st with
  | reading v' =>
      obtain ⟨-, rfl⟩ := hst
      exact ⟨trivial, fun w r w' hw hstep => ⟨hstep, hx⟩⟩
  | writing v' detached w => cases hst.1
  | _ => exact hst.elim

/-- Sequencing without errors. -/
theorem goes_bind {x : KeychainM K β} {f : β → KeychainM K α}
    {P : β → Stage (Vault K) (World K) → Prop}
    (hx : Goes identity env (fun r st => ∃ b, r = .ok b ∧ P b st) x st)
    (hf : ∀ b st, P b st → Goes identity env Q (f b) st) :
    Goes identity env Q (x >>= f) st := by
  refine Proceeds.bind (hx.mono ?_)
  rintro _ st ⟨b, rfl, hb⟩
  exact hf b st hb

/-- A reader may look at the clock after it has given the lock back. -/
theorem goes_isExpired (metadata : KeyMetadata) :
    Goes identity env (fun r st => ∃ expired, r = .ok expired ∧ st = .after v ∧
      Judged env metadata expired) (isExpired metadata) (.after v) := by
  unfold isExpired
  cases hexpiry : metadata.expiresAt with
  | none =>
      refine ⟨false, rfl, rfl, ?_⟩
      rw [Judged, hexpiry]
  | some expiry =>
      refine ⟨trivial, ?_⟩
      rintro w now w' - ⟨hclock, rfl⟩
      refine ⟨rfl, _, rfl, rfl, ?_⟩
      rw [Judged, hexpiry]
      exact ⟨_, now, hclock, rfl⟩

/-- The cipher is taken out of its slot, and put back after the work. -/
theorem goes_finishMutation {work : KeychainM K α} {C : Except Error α → World K → Prop}
    (hst : Stands identity env v .write st)
    (hwork : ∀ w, Rep identity env v w → Goes identity env
      (fun r st => ∃ w', st = .writing v true w' ∧ C r w') work
      (.writing v true { w with cipher := none }))
    (hQ : ∀ r w, C r w → Q r (.writing v true { w with cipher := some v.cipher })) :
    Goes identity env Q (finishMutation work) st := by
  cases st with
  | writing v' detached w =>
      obtain ⟨-, rfl, rfl, hw⟩ := hst
      refine ⟨fun _ => hw, ?_⟩
      rintro w₁ slot w' rfl ⟨rfl, rfl⟩
      rw [hw.cipher_eq]
      have hrest : Proceeds (machine env) Op.kind (Rep identity env) Q
          (work.run >>= fun result => do
            Prog.op (Op.setCipher (some v'.cipher))
            return result)
          (.writing v' true { w₁ with cipher := none }) := by
        refine Proceeds.bind ((hwork _ hw).mono ?_)
        rintro r _ ⟨w', rfl, hC⟩
        refine ⟨nofun, ?_⟩
        rintro _ _ w₂ rfl rfl
        exact hQ r _ hC
      exact hrest
  | reading v' => cases hst.1
  | _ => exact hst.elim

end Rules

/-! ## Storing -/

/-- A keypair that was sealed is stored. -/
theorem Rep.put (h : Rep identity env v w) {w' : World K} {entry : EncryptedEntry}
    {opened : OpenedEntry K} (hvalid : validateLabel label = .ok ())
    (hmetadata : entry.metadata = opened.metadata)
    (hopens : Opens identity env v.cipher label entry opened.keypair)
    (hcipher : w'.cipher = some v.cipher)
    (hstore : w'.store = Function.update w.store label (some entry)) :
    Rep identity env (v.put label opened) w' := by
  refine ⟨hcipher, fun other => ?_⟩
  rw [hstore]
  change Keeps identity env v.cipher other _
    (Function.update v.entries label (some opened) other)
  by_cases hother : other = label
  · subst hother
    rw [Function.update_self, Function.update_self]
    exact .kept hvalid hmetadata hopens
  · rw [Function.update_of_ne hother, Function.update_of_ne hother]
    exact h.keeps other

section Stores

variable {st : Stage (Vault K) (World K)} {keypair : K} {expiry : Expiry}
  {version : Fin (2 ^ 32)} {kind : Mutation}

theorem goes_store (henv : env.Reliable) (hciphers : env.Ciphers)
    (hround : identity.RoundTrips) {label : Label}
    (hst : Stands identity env v .write st) :
    Goes identity env (fun r st => ∃ v', Stores identity env disabled label keypair expiry
        version v r v' ∧ st.Leaves (Rep identity env) v v')
      (store identity disabled label keypair expiry version kind v.cipher) st := by
  refine goes_disableCheck (fun henabled => ?_) fun h => ⟨v, .disabled h, hst.leaves⟩
  refine goes_checkLabel (fun hvalid => ?_) fun e he =>
    ⟨v, .invalid henabled he, hst.leaves⟩
  refine (views_call (o := Op.now) (P := fun now => ∃ log, env.clock log now)
    (E := fun _ => False) rfl (Or.inr rfl)
    fun w now w' _ hstep => ⟨w.log, hstep.1⟩).proceeds hst ?_ fun _ _ _ he => he.elim
  rintro createdAt st hst ⟨log, hclock⟩
  have hmatches : identity.Matches keypair
      (stamp identity label keypair expiry version createdAt) := ⟨rfl, rfl⟩
  refine (views_sealEntry hciphers hround hmatches).proceeds hst ?_
    fun e st hst he => ⟨v, .unsealed henabled hvalid he, hst.leaves⟩
  rintro entry st hst ⟨hmetadata, hopens⟩
  refine goes_finishMutation (C := fun r w' => r = .ok () ∧ ∃ w, Rep identity env v w ∧
    w'.store = Function.update w.store label.1 (some entry)) hst (fun w hw => ?_) ?_
  · refine ⟨nofun, ?_⟩
    rintro _ r w' rfl ⟨store, hputs, rfl⟩
    obtain ⟨rfl, rfl⟩ := henv.faultless.puts hputs
    refine ⟨_, rfl, rfl, w, hw, ?_⟩
    rw [show label.1 = entry.metadata.label from congrArg KeyMetadata.label
      hmetadata.symm]
    rfl
  · rintro _ w' ⟨rfl, w, hw, hstore⟩
    exact ⟨_, .stored henabled hvalid hclock, rfl, nofun,
      hw.put hvalid hmetadata hopens rfl hstore⟩

end Stores

/-! ## The calls -/

/-- Every result of the call is an answer of a vault that the world stands for. -/
abbrev Answers (identity : Identity K) (env : Environment K) (disabled : Bool)
    (call : Call K) : Prop :=
  Goes identity env
    (fun r st => st.Ends (Rep identity env) (Answer identity env disabled) call r)
    (method identity disabled call) .before

section Calls

variable (henv : env.Reliable) (hciphers : env.Ciphers) (hround : identity.RoundTrips)

include henv hciphers hround

theorem answers_insert (label : Label) (keypair : K) (expiry : Expiry) :
    Answers identity env disabled (.insert label keypair expiry) := by
  refine Proceeds.mapExcept (goes_writeLock fun v st hst => ?_)
  refine (goes_store henv hciphers hround hst).mono ?_
  rintro r st ⟨v', hstores, hst⟩
  exact hst.ends (.insert hstores)

theorem answers_generate (label : Label) (keyType : KeyType) :
    Answers identity env disabled (.generate label keyType) := by
  refine Proceeds.mapExcept ?_
  unfold generate generateKeypair
  split
  · next hgenerate =>
      refine ⟨trivial, ?_⟩
      rintro w keypair w' - ⟨hkeypair, rfl⟩
      refine ⟨rfl, Proceeds.mapExcept (f := fun _ => keypair) (goes_writeLock
        fun v st hst => (goes_store henv hciphers hround hst).mono ?_)⟩
      rintro r st ⟨v', hstores, hst⟩
      refine hst.ends ?_
      cases r with
      | error e => exact .generate hgenerate hkeypair hstores
      | ok u => exact .generate hgenerate hkeypair hstores
  · next hgenerate =>
      exact fun v => .ungenerated (by simpa using hgenerate)

theorem answers_rotate (label : Label) (key : RotateKey K) (expiry : Expiry) :
    Answers identity env disabled (.rotate label key expiry) := by
  refine Proceeds.mapExcept (goes_writeLock fun v st hst => ?_)
  refine goes_checkLabel (fun hvalid => ?_) fun e he => hst.ends (.rotateInvalid he)
  refine (views_backendGet henv label.1 (E := fun _ => False)).proceeds hst ?_
    fun _ _ _ he => he.elim
  intro found st hst hfound
  generalize hopened : v.entries label.1 = opened at hfound
  cases hfound with
  | missing => exact hst.ends (.rotateMissing hvalid hopened)
  | @kept entry opened hlabel hmetadata hopens =>
      refine (views_openEntry (E := fun _ => False) hciphers
        (.kept hlabel hmetadata hopens)).proceeds hst ?_ fun _ _ _ he => he.elim
      rintro _ st hst rfl
      refine (views_rotateKeypair key).proceeds hst ?_ ?_
      · intro keypair st hst hkey
        refine (goes_store henv hciphers hround hst).mono ?_
        rintro r st ⟨v', hstores, hst⟩
        exact hst.ends (.rotate hvalid hopened hkey hstores)
      · rintro _ st hst ⟨keyType, rfl, hgenerate, rfl⟩
        exact hst.ends (.rotateUngenerated hvalid hopened hgenerate)

theorem answers_getOrCreate (label : Label) :
    Answers identity env disabled (.getOrCreate label) := by
  have hcreate : ∀ v st, Stands identity env v .write st → disabled = false →
      validateLabel label.1 = .ok () → v.entries label.1 = none →
      Goes identity env (fun r st => st.Ends (Rep identity env)
          (Answer identity env disabled) (.getOrCreate label) (r.map Value.keypair))
        (do
          let keypair ← call (Op.generate .ed25519)
          store identity disabled label keypair .never 1 .create v.cipher
          return keypair) st := by
    intro v st hst henabled hvalid hnone
    refine (views_call (o := Op.generate .ed25519)
      (P := fun keypair => env.generates .ed25519 keypair) (E := fun _ => False) rfl
      (Or.inr rfl) fun w keypair w' _ hstep => hstep.1).proceeds hst ?_
      fun _ _ _ he => he.elim
    intro keypair st hst hkeypair
    refine Proceeds.mapExcept (f := fun _ => keypair)
      ((goes_store henv hciphers hround hst).mono ?_)
    rintro r st ⟨v', hstores, hst⟩
    refine hst.ends ?_
    cases r with
    | error e => exact .create henabled hvalid hnone hkeypair hstores
    | ok u => exact .create henabled hvalid hnone hkeypair hstores
  refine Proceeds.mapExcept (goes_writeLock fun v st hst => ?_)
  refine goes_disableCheck (fun henabled => ?_) fun h => hst.ends (.findDisabled h)
  refine goes_checkLabel (fun hvalid => ?_) fun e he =>
    hst.ends (.findInvalid henabled he)
  refine (views_backendGet henv label.1 (E := fun _ => False)).proceeds hst ?_
    fun _ _ _ he => he.elim
  intro found st hst hfound
  generalize hopened : v.entries label.1 = opened at hfound
  cases hfound with
  | missing => exact hcreate v st hst henabled hvalid hopened
  | @kept entry opened hlabel hmetadata hopens =>
      refine (views_openEntry (E := fun _ => False) hciphers
        (.kept hlabel hmetadata hopens)).proceeds hst ?_ fun _ _ _ he => he.elim
      rintro found st hst rfl
      refine (views_isExpired (E := fun _ => False) found.metadata).proceeds hst ?_
        fun _ _ _ he => he.elim
      intro expired st hst hexpired
      cases expired with
      | true => exact hst.ends (.findExpired henabled hvalid hopened hexpired)
      | false =>
          refine (views_call (o := Op.found label.1 found.keypair) (P := fun _ => True)
            (E := fun _ => False) rfl (Or.inl rfl) fun _ _ _ _ _ => trivial).proceeds hst
            ?_ fun _ _ _ he => he.elim
          intro _ st hst _
          exact hst.ends (.find henabled hvalid hopened hexpired)

end Calls

section Readers

variable (henv : env.Reliable) (hciphers : env.Ciphers)

include henv hciphers

/-- The entry under a label, as the reader saw it. -/
theorem goes_authenticatedEntry :
    Goes identity env (fun r st => ∃ a, r = .ok a ∧ ∃ v, st = .after v ∧
      a = v.entries label) (authenticatedEntry identity label) .before := by
  refine goes_readLock fun v st hst => ?_
  refine (views_backendGet henv label (E := fun _ => False)).proceeds hst ?_
    fun _ _ _ he => he.elim
  intro found st hst hfound
  generalize hopened : v.entries label = opened at hfound
  cases hfound with
  | missing => exact goes_unlock hst ⟨_, rfl, v, rfl, hopened.symm⟩
  | @kept entry opened hlabel hmetadata hopens =>
      refine (views_openEntry (E := fun _ => False) hciphers
        (.kept hlabel hmetadata hopens)).proceeds hst ?_ fun _ _ _ he => he.elim
      rintro _ st hst rfl
      exact goes_unlock hst ⟨_, rfl, v, rfl, hopened.symm⟩

theorem answers_get (label : String) :
    Answers identity env disabled (.get label) := by
  refine Proceeds.mapExcept ?_
  refine goes_disableCheck (fun henabled => ?_) fun h _ => .getDisabled h
  refine goes_checkLabel (fun hvalid => ?_) fun e he _ => .getInvalid henabled he
  refine goes_bind (goes_authenticatedEntry henv hciphers) ?_
  rintro found _ ⟨v, rfl, hopened⟩
  cases found with
  | none => exact Answer.getMissing henabled hvalid hopened.symm
  | some opened =>
      refine goes_bind (goes_isExpired opened.metadata) ?_
      rintro expired _ ⟨rfl, hexpired⟩
      cases expired with
      | true => exact Answer.getExpired henabled hvalid hopened.symm hexpired
      | false => exact Answer.get henabled hvalid hopened.symm hexpired

theorem answers_metadata (label : String) :
    Answers identity env disabled (.metadata label) := by
  refine Proceeds.mapExcept ?_
  refine goes_checkLabel (fun hvalid => ?_) fun e he _ => .metadataInvalid he
  refine goes_bind (goes_authenticatedEntry henv hciphers) ?_
  rintro _ _ ⟨v, rfl, rfl⟩
  exact Answer.metadata hvalid

theorem answers_list : Answers identity env disabled .list := by
  refine Proceeds.mapExcept (Proceeds.mapExcept (goes_readLock fun v st hst => ?_))
  refine (views_loadEntries henv (E := fun _ => False)).proceeds hst ?_
    fun _ _ _ he => he.elim
  rintro entries st hst ⟨-, listed, hlists, hentries⟩
  refine (views_openEntries (E := fun _ => False) hciphers hentries).proceeds hst ?_
    fun _ _ _ he => he.elim
  intro opened st hst hopened
  refine goes_unlock hst ?_
  have hanswer : Answer identity env disabled .list v
      (.ok (.listed (opened.map (·.metadata)))) v := by
    rw [map_metadata_of_holds hopened]
    exact .list hlists
  exact hanswer

end Readers

/-! ## Removals -/

variable {st : Stage (Vault K) (World K)}

theorem Rep.removeAll (h : Rep identity env v w) {w' : World K} {labels : List String}
    (hcipher : w'.cipher = some v.cipher)
    (hstore : ∀ label, w'.store label =
      if labels.contains label then none else w.store label) :
    Rep identity env (v.removeAll labels) w' := by
  refine ⟨hcipher, fun label => ?_⟩
  rw [hstore]
  change Keeps identity env v.cipher label _
    (if labels.contains label then none else v.entries label)
  split
  · exact .missing
  · exact h.keeps label

theorem goes_removeLabels (henv : env.Reliable) {labels : List String}
    (hnodup : labels.Nodup) (hheld : ∀ label ∈ labels, (w.store label).isSome = true)
    (removed : ℕ) :
    Goes identity env (fun r st => ∃ w', st = .writing v true w' ∧
        r = .ok (removed + labels.length) ∧ ∀ label, w'.store label =
          if labels.contains label then none else w.store label)
      (removeLabels labels removed) (.writing v true w) := by
  induction labels generalizing removed w with
  | nil => exact ⟨w, rfl, rfl, fun _ => rfl⟩
  | cons label rest ih =>
      obtain ⟨hlabel, hrest⟩ := List.nodup_cons.mp hnodup
      refine ⟨nofun, ?_⟩
      rintro w₁ r w' rfl ⟨store, hremoves, rfl⟩
      obtain ⟨rfl, rfl⟩ := henv.faultless.removes hremoves
      rw [hheld label List.mem_cons_self]
      have hheld' : ∀ other ∈ rest,
          (Function.update w₁.store label none other).isSome = true := by
        intro other hother
        have hne : other ≠ label := fun h => hlabel (h ▸ hother)
        rw [Function.update_of_ne hne]
        exact hheld other (List.mem_cons_of_mem _ hother)
      refine (ih hrest hheld' (removed + 1)).mono ?_
      rintro r _ ⟨w', rfl, rfl, hstore⟩
      refine ⟨w', rfl, ?_, fun other => ?_⟩
      · rw [List.length_cons, Nat.add_assoc, Nat.add_comm 1]
      · rw [hstore, List.contains_cons]
        by_cases hother : other = label
        · subst hother
          simp [World.record]
        · simp [World.record, hother]

/-- Some labels are removed while the cipher is out of its slot. -/
theorem goes_removal (hst : Stands identity env v .write st)
    {work : KeychainM K α} {labels : List String} {a : α}
    {Q : Except Error α → Stage (Vault K) (World K) → Prop}
    (hwork : ∀ w, Rep identity env v w → Goes identity env
      (fun r st => ∃ w', st = .writing v true w' ∧ r = .ok a ∧ ∀ label, w'.store label =
        if labels.contains label then none else w.store label)
      work (.writing v true { w with cipher := none }))
    (hQ : ∀ st, st.Leaves (Rep identity env) v (v.removeAll labels) → Q (.ok a) st) :
    Goes identity env Q (finishMutation work) st := by
  refine goes_finishMutation (C := fun r w' => r = .ok a ∧ ∃ w, Rep identity env v w ∧
    ∀ label, w'.store label = if labels.contains label then none else w.store label) hst
    (fun w hw => (hwork w hw).mono ?_) ?_
  · rintro r _ ⟨w', rfl, rfl, hstore⟩
    exact ⟨w', rfl, rfl, w, hw, hstore⟩
  · rintro _ w' ⟨rfl, w, hw, hstore⟩
    exact hQ _ ⟨rfl, nofun, hw.removeAll rfl hstore⟩

theorem answers_remove (henv : env.Reliable) (label : String) :
    Answers identity env disabled (.remove label) := by
  refine Proceeds.mapExcept (goes_writeLock fun v st hst => ?_)
  refine goes_checkLabel (fun hvalid => ?_) fun e he => hst.ends (.removeInvalid he)
  refine goes_removal hst (fun w hw => ⟨nofun, ?_⟩)
    fun st (hst : st.Leaves _ v (v.removeAll [label])) => hst.ends (.remove hvalid)
  rintro w₁ r w' rfl ⟨store, hremoves, rfl⟩
  obtain ⟨rfl, rfl⟩ := henv.faultless.removes hremoves
  refine ⟨_, rfl, congrArg Except.ok (hw.isSome_eq label), fun other => ?_⟩
  by_cases hother : other = label
  · subst hother
    simp [World.record]
  · simp [World.record, hother]

/-- The labels that are purged are those of the identities that have expired. -/
theorem expires_of_listed {listed : List KeyMetadata} {opened : List (OpenedEntry K)}
    {expired : List String} (hlabeled : v.WellLabeled) (hlists : v.Lists listed)
    (hopened : List.Forall₂ v.Holds listed opened) (hnodup : expired.Nodup)
    (hjudged : ∀ label ∈ expired, ∃ o ∈ opened, o.metadata.label = label ∧
      Judged env o.metadata true)
    (hspared : ∀ o ∈ opened, o.metadata.label ∉ expired → Judged env o.metadata false) :
    v.Expires env expired := by
  have hheld : ∀ o, o ∈ opened ↔ v.entries o.metadata.label = some o := by
    intro o
    rw [mem_iff_of_holds hopened, and_iff_right_iff_imp, hlists.mem_iff]
    exact fun ho => ⟨_, o, ho, rfl⟩
  refine ⟨hnodup, fun label hlabel => ?_, fun label o ho hout => ?_⟩
  · obtain ⟨o, ho, rfl, hexpired⟩ := hjudged label hlabel
    exact ⟨o, (hheld o).mp ho, hexpired⟩
  · obtain ⟨-, rfl⟩ := hlabeled label o ho
    exact hspared o ((hheld o).mpr ho) hout

theorem answers_purgeExpired (henv : env.Reliable) (hciphers : env.Ciphers) :
    Answers identity env disabled .purgeExpired := by
  refine Proceeds.mapExcept (goes_writeLock fun v st hst => ?_)
  refine (views_loadEntries henv (E := fun _ => False)).proceeds hst ?_
    fun _ _ _ he => he.elim
  rintro entries st hst ⟨hlabeled, listed, hlists, hentries⟩
  refine (views_openEntries (E := fun _ => False) hciphers hentries).proceeds hst ?_
    fun _ _ _ he => he.elim
  intro opened st hst hopened
  have hlabels : (opened.map (·.metadata.label)).Nodup := by
    have hnodup := hlists.nodup
    rwa [← map_metadata_of_holds hopened, List.map_map] at hnodup
  refine (views_expiredLabels (E := fun _ => False) hlabels).proceeds hst ?_
    fun _ _ _ he => he.elim
  rintro expired st hst ⟨hnodup, hjudged, hspared⟩
  have hexpires := expires_of_listed hlabeled hlists hopened hnodup hjudged hspared
  cases hempty : expired.isEmpty with
  | true =>
      obtain rfl := List.isEmpty_iff.mp hempty
      exact hst.leaves.ends (.purge hexpires)
  | false =>
      simp only [Bool.false_eq_true, if_false]
      refine goes_removal hst (fun w hw => ?_) fun st hst => hst.ends (.purge hexpires)
      refine (goes_removeLabels henv hnodup (fun label hlabel => ?_) 0).mono ?_
      · obtain ⟨o, ho, -⟩ := hexpires.judged label hlabel
        have hsome := hw.isSome_eq label
        rw [ho] at hsome
        exact hsome
      · rintro r st ⟨w', rfl, rfl, hstore⟩
        exact ⟨w', rfl, by rw [Nat.zero_add], hstore⟩

/-! ## Another cipher -/

/-- All entries are sealed anew, and the new cipher is put in the slot. -/
theorem Rep.migrate {newCipher : CipherId} (h : Rep identity env v w)
    (hbackend : env.Contract) {listed : List KeyMetadata} {entries : List EncryptedEntry}
    (hlists : v.Lists listed) (hrenewed : List.Forall₂ (Renewed identity env v newCipher)
      listed entries) {store : Store}
    (hput : env.putManys w.store entries (.ok ()) store) {w' : World K}
    (hcipher : w'.cipher = some newCipher) (hstore : w'.store = store) :
    Rep identity env { v with cipher := newCipher } w' := by
  have hlabels := labels_of_renewed hrenewed
  obtain ⟨hnew, hrest⟩ := hbackend.replaces (hlabels ▸ hlists.nodup) hput
  refine ⟨hcipher, fun label => ?_⟩
  rw [hstore]
  by_cases hmem : label ∈ listed.map (·.label)
  · obtain ⟨metadata, hmetadata, rfl⟩ := List.mem_map.mp hmem
    obtain ⟨entry, hentry, hlabel, opened, hopened, hkeeps⟩ :=
      exists_renewed hrenewed hmetadata
    have hstored := hnew entry hentry
    rw [hlabel] at hstored
    rw [hstored]
    exact hopened ▸ hkeeps
  · -- nothing is stored under any other label
    have hkeeps := h.keeps label
    cases hopened : v.entries label with
    | none =>
        rw [hrest label (hlabels ▸ hmem)]
        rw [hopened] at hkeeps
        generalize w.store label = found at hkeeps
        cases hkeeps
        exact .missing
    | some opened =>
        have hlisted := (hlists.mem_iff opened.metadata).mpr ⟨label, opened, hopened, rfl⟩
        have hlabel := (h.wellLabeled label opened hopened).2
        exact absurd (List.mem_map.mpr ⟨_, hlisted, hlabel⟩) hmem

theorem answers_migrateCipher (henv : env.Reliable) (hciphers : env.Ciphers)
    (hround : identity.RoundTrips) (newCipher : CipherId) :
    Answers identity env disabled (.migrateCipher newCipher) := by
  refine Proceeds.mapExcept (goes_writeLock fun v st hst => ?_)
  refine goes_disableCheck (fun henabled => ?_) fun h => hst.ends (.migrateDisabled h)
  refine (views_loadEntries henv (E := fun _ => False)).proceeds hst ?_
    fun _ _ _ he => he.elim
  rintro entries st hst ⟨-, listed, hlists, hentries⟩
  refine (views_reseal hciphers hround hentries).proceeds hst ?_ ?_
  swap
  · rintro e st hst ⟨label, opened, hopened, he⟩
    exact hst.ends (.migrateUnsealed henabled hopened he)
  intro resealed st hst hrenewed
  cases st with
  | writing v' detached w =>
      obtain ⟨-, rfl, rfl, hw⟩ := hst
      refine ⟨fun _ => hw, ?_⟩
      rintro w₁ slot w' rfl ⟨rfl, rfl⟩
      refine ⟨nofun, ?_⟩
      rintro w₂ r w' rfl ⟨store, hputs, rfl⟩
      obtain rfl := henv.putManys hputs
      refine ⟨nofun, ?_⟩
      rintro w₃ _ w' rfl rfl
      exact ⟨nofun, _, .migrate henabled,
        hw.migrate henv.contract hlists hrenewed hputs rfl rfl⟩
  | reading v' => cases hst.1
  | _ => exact hst.elim

/-! ## Every interleaving -/

theorem answers (henv : env.Reliable) (hciphers : env.Ciphers)
    (hround : identity.RoundTrips) (call : Call K) :
    Answers identity env disabled call := by
  cases call with
  | insert label keypair expiry =>
      exact answers_insert henv hciphers hround label keypair expiry
  | generate label keyType => exact answers_generate henv hciphers hround label keyType
  | rotate label key expiry => exact answers_rotate henv hciphers hround label key expiry
  | get label => exact answers_get henv hciphers label
  | getOrCreate label => exact answers_getOrCreate henv hciphers hround label
  | list => exact answers_list henv hciphers
  | metadata label => exact answers_metadata henv hciphers label
  | remove label => exact answers_remove henv label
  | purgeExpired => exact answers_purgeExpired henv hciphers
  | migrateCipher newCipher => exact answers_migrateCipher henv hciphers hround newCipher

/-- What callers of clones of a keychain see, whatever the interleaving and whichever
callers go away, is what they could see of a vault that answers at once: a reader is
answered by the vault as it was at one moment of its call, and a writer changes it at
one moment of its call or not at all.  Whenever nobody writes, the backend holds what
opens to the vault under the cipher in the slot. -/
theorem clones_answer_as_vault (henv : env.Reliable) (hciphers : env.Ciphers)
    (hround : identity.RoundTrips) (hrep : Rep identity env v w)
    {history : List (CallEvent (Call K) (Except Error (Value K)))} {s : Clones K}
    (hrun : Shown (System.Shows (machine env) Op.kind (program identity disabled))
      ⟨w, fun _ => none, []⟩ history s) :
    ∃ a, Shown (Sections.Step (Answer identity env disabled)) (Sections.initial v)
        history a ∧
      ((∀ i task, s.tasks i = some task → task.guard ≠ .write) →
        Rep identity env a.value s.world) :=
  Sections.shown_of_shows (answers henv hciphers hround) hrep hrun

/-- The plain backend, which lists whatever it holds. -/
def listingBackend : Environment UInt8 :=
  { plainBackend.environment with
    lists := fun store r => ∃ listed, r = .ok listed ∧ (listed.map (·.label)).Nodup ∧
      ∀ metadata, metadata ∈ listed ↔
        ∃ entry, store metadata.label = some entry ∧ entry.metadata = metadata }

theorem plainBackend_replaces (entries : List EncryptedEntry) (store : Store)
    (hnodup : (entries.map (·.metadata.label)).Nodup) :
    (∀ entry ∈ entries, (plainBackend.putMany store entries).2 entry.metadata.label =
      some entry) ∧
    ∀ label ∉ entries.map (·.metadata.label),
      (plainBackend.putMany store entries).2 label = store label := by
  induction entries generalizing store with
  | nil => exact ⟨nofun, fun _ _ => rfl⟩
  | cons first rest ih =>
      rw [List.map_cons, List.nodup_cons] at hnodup
      obtain ⟨hnew, hrest⟩ := ih
        (Function.update store first.metadata.label (some first)) hnodup.2
      refine ⟨fun entry hentry => ?_, fun label hlabel => ?_⟩
      · rcases List.mem_cons.mp hentry with rfl | hentry
        · exact (hrest _ hnodup.1).trans (Function.update_self ..)
        · exact hnew entry hentry
      · rw [List.map_cons, List.mem_cons, not_or] at hlabel
        exact (hrest label hlabel.2).trans (Function.update_of_ne hlabel.1 _ _)

theorem listingBackend_reliable : listingBackend.Reliable where
  faultless := ⟨plainBackend_faultless.gets, plainBackend_faultless.puts,
    plainBackend_faultless.removes⟩
  contract :=
    { gets := fun h => Except.ok.inj h
      replaces := by
        intro store store' entries hnodup h
        obtain ⟨-, rfl⟩ := Prod.mk.inj h
        exact plainBackend_replaces entries store hnodup
      fails := fun h => by cases (Prod.mk.inj h).1 }
  lists h := h
  putManys h := (Prod.mk.inj h).1

theorem listingBackend_ciphers : listingBackend.Ciphers :=
  ⟨plainBackend_ciphers.functional, plainBackend_ciphers.inverse⟩

theorem listingBackend_exec (o : Op UInt8) (w : World UInt8) (ho : (!o.lists) = true) :
    (machine listingBackend).step o w (plainBackend.exec o w).1
    (plainBackend.exec o w).2 := by
  have hstep := plainBackend.step_exec o w
  cases o with
  | list => cases ho
  | _ => exact hstep

/-- A call without any other on the listing backend. -/
theorem listingBackend_call {s : Clones UInt8} (hnobody : ∀ j, s.tasks j = none)
    (c : Call UInt8) {a : Except Error (Value UInt8)} {w : World UInt8}
    (hresult :
      ((program byteIdentity false c).record plainBackend.exec s.world).2 = (a, w))
    (hruns : Sections.runsAlone Op.kind (!Op.lists ·)
      ((program byteIdentity false c).record plainBackend.exec s.world).1 .none = true) :
    ∃ s', Shown
      (System.Shows (machine listingBackend) Op.kind (program byteIdentity false)) s
        [.called 0 c, .returned 0 c a] s' ∧
      (∀ j, s'.tasks j = none) ∧ s'.world = w :=
  Sections.shown_call listingBackend_exec hnobody c hresult hruns

/-- An identity is inserted and found. -/
def foundHistory : List (CallEvent (Call UInt8) (Except Error (Value UInt8))) :=
  let insert := Call.insert ⟨"a", labelBytes_a_lt⟩ 9 .never
  let find := Call.getOrCreate ⟨"a", labelBytes_a_lt⟩
  [.called 0 insert, .returned 0 insert (.ok .unit)] ++
    [.called 0 find, .returned 0 find (.ok (.keypair 9))]

theorem clones_answer_as_vault_found :
    ∃ s a, Shown (System.Shows (machine listingBackend) Op.kind
        (program byteIdentity false)) ⟨⟨some 0, fun _ => none, []⟩, fun _ => none, []⟩
        foundHistory s ∧
      Shown (Sections.Step (Answer byteIdentity listingBackend false))
        (Sections.initial ⟨0, fun _ => none⟩) foundHistory a ∧
      Rep byteIdentity listingBackend a.value s.world := by
  obtain ⟨s₁, hfirst, hnobody₁, hworld₁⟩ := listingBackend_call
    (s := ⟨⟨some 0, fun _ => none, []⟩, fun _ => none, []⟩) (fun _ => rfl)
    (.insert ⟨"a", labelBytes_a_lt⟩ 9 .never) rfl (by decide +kernel)
  obtain ⟨s, hsecond, hnobody, -⟩ := listingBackend_call hnobody₁
    (.getOrCreate ⟨"a", labelBytes_a_lt⟩) (by rw [hworld₁])
      (by rw [hworld₁]; decide +kernel)
  have hrun := hfirst.trans hsecond
  have hrep : Rep byteIdentity listingBackend ⟨0, fun _ => none⟩
      ⟨some 0, fun _ => none, []⟩ := ⟨rfl, fun _ => .missing⟩
  obtain ⟨a, hshown, hvalue⟩ := clones_answer_as_vault listingBackend_reliable
    listingBackend_ciphers byteIdentity_roundTrips hrep hrun
  refine ⟨s, a, hrun, hshown, hvalue fun i task htask => ?_⟩
  rw [hnobody i] at htask
  cases htask

end Connexa.Keystore.Keychain.Vault
