import Connexa.Keystore.Keychain.Vault

/-!
# What a keychain sees of its vault

The parts of the methods that only look, under the lock.  In a world that stands for a
vault they never fail, except where a key type cannot be generated or a keypair cannot
be sealed, and they find what the vault holds.
-/

namespace Connexa.Keystore.Keychain.Vault

open Sections (Looks Proceeds Stage)
open Machine (Yields)

variable {K : Type} {identity : Identity K} {env : Environment K} {v : Vault K}
  {w : World K} {disabled : Bool} {α β : Type}

/-- A part of a method that only looks at the vault, by its result. -/
abbrev Views (identity : Identity K) (env : Environment K) (v : Vault K)
    (x : KeychainM K α) (P : α → Prop) (E : Error → Prop) : Prop :=
  Looks (machine env) Op.kind (Rep identity env) v x P E

/-! ## Looking -/

section Looking

variable {P : α → Prop} {E : Error → Prop} {x : KeychainM K α} {label : String}
  {cipher : CipherId}

theorem views_of_run {Q : Except Error α → Prop}
    (h : ∀ guard st, st.Holds (Rep identity env) v guard →
      Proceeds (machine env) Op.kind (Rep identity env)
        (fun r st => st.Holds (Rep identity env) v guard ∧ Q r) x.run st)
    (hok : ∀ a, Q (.ok a) → P a) (herror : ∀ e, Q (.error e) → E e) :
    Views identity env v x P E := by
  intro guard st hst
  refine (h guard st hst).mono ?_
  rintro (e | a) st ⟨hst, hr⟩
  · exact ⟨hst, herror e hr⟩
  · exact ⟨hst, hok a hr⟩

theorem views_call {o : Op K} {P : Reply o → Prop} (ho : o.touches = false)
    (hkind : o.kind = .shared ∨ o.kind = .free)
    (h : ∀ w r w', Rep identity env v w → (machine env).step o w r w' → P r) :
    Views identity env v (call o) P E := by
  intro guard st hst
  refine Proceeds.bind ((Sections.proceeds_look hkind hst fun w r w' hw hstep =>
    ⟨hw.step ho hstep, h w r w' hw hstep⟩).mono ?_)
  exact fun r st hr => hr

theorem views_checkLabel {x : Unit → KeychainM K α}
    (hx : validateLabel label = .ok () → Views identity env v (x ()) P E)
    (herror : ∀ e, validateLabel label = .error e → E e) :
    Views identity env v (checkLabel label >>= x) P E := by
  unfold checkLabel
  cases hlabel : validateLabel label with
  | error e => exact fun _ _ hst => ⟨hst, herror e hlabel⟩
  | ok u => exact hx hlabel

/-- A check that succeeds. -/
theorem views_unless {c : Prop} [Decidable c] {e : Error} {x : Unit → KeychainM K α}
    (hc : ¬c) (hx : Views identity env v (x ()) P E) :
    Views identity env v (if c then throw e >>= x else x ()) P E := by
  rw [if_neg hc]
  exact hx

theorem views_backendGet (henv : env.Reliable) (label : String) :
    Views identity env v (backendGet label)
      (fun found => Keeps identity env v.cipher label found (v.entries label)) E := by
  refine views_of_run (Q := fun r => ∃ found, r = .ok found ∧
    Keeps identity env v.cipher label found (v.entries label)) ?_ ?_ ?_
  · intro guard st hst
    refine Sections.proceeds_look (Or.inl rfl) hst fun w r w' hw hstep => ?_
    exact ⟨hw.step rfl hstep, _, henv.faultless.gets hstep.1, hw.keeps label⟩
  · rintro found ⟨_, ⟨⟩, hfound⟩
    exact hfound
  · rintro e ⟨_, ⟨⟩, -⟩

/-- What the backend holds opens to what the vault holds. -/
theorem views_openEntry (hciphers : env.Ciphers) {entry : EncryptedEntry}
    {opened : OpenedEntry K}
    (h : Keeps identity env cipher label (some entry) (some opened)) :
    Views identity env v (openEntry identity cipher label entry) (· = opened) E := by
  cases h with
  | kept hvalid hmetadata hopens =>
      obtain ⟨hlabel, hmatches, log, plaintext, hdecrypts, hkeypair⟩ := hopens
      have hdecrypt : Views identity env v (ExceptT.mk (Prog.op
          (Op.decrypt cipher (metadataAad entry.metadata) entry.ciphertext)))
          (· = plaintext) E := by
        refine views_of_run (Q := (· = .ok plaintext)) ?_ ?_ ?_
        · intro guard st hst
          refine Sections.proceeds_look (Or.inl rfl) hst fun w r w' hw hstep => ?_
          exact ⟨hw.step rfl hstep, hciphers.functional hstep.1 hdecrypts⟩
        · rintro _ ⟨⟩
          rfl
        · rintro e ⟨⟩
      unfold openEntry
      refine views_unless (fun hne => hne hlabel) (hdecrypt.bind ?_)
      rintro _ rfl
      rw [hkeypair]
      refine Looks.bind (P := (· = opened.keypair)) (Sections.looks_pure rfl) ?_
      rintro _ rfl
      refine views_unless (fun hnot => hnot hmatches) ?_
      refine (views_call (P := fun _ => True) rfl (Or.inl rfl)
        fun _ _ _ _ _ => trivial).bind fun _ _ => Sections.looks_pure ?_
      rw [hmetadata]

theorem views_isExpired (metadata : KeyMetadata) :
    Views identity env v (isExpired metadata) (Judged env metadata) E := by
  unfold isExpired
  cases hexpiry : metadata.expiresAt with
  | none =>
      refine Sections.looks_pure ?_
      rw [Judged, hexpiry]
  | some expiry =>
      refine (views_call (o := Op.now) (P := fun now => ∃ log, env.clock log now) rfl
        (Or.inr rfl) fun w now w' _ hstep => ⟨w.log, hstep.1⟩).bind ?_
      rintro now ⟨log, hclock⟩
      refine Sections.looks_pure ?_
      rw [Judged, hexpiry]
      exact ⟨log, now, hclock, rfl⟩

theorem views_generateKeypair {keyType : KeyType} :
    Views identity env v (generateKeypair identity keyType)
      (fun keypair => identity.canGenerate keyType = true ∧ env.generates keyType keypair)
      fun e => identity.canGenerate keyType = false ∧
        e = .unsupportedKeyType keyType := by
  unfold generateKeypair
  split
  · next hgenerate =>
      exact views_call rfl (Or.inr rfl) fun w keypair w' _ hstep => ⟨hgenerate, hstep.1⟩
  · next hgenerate => exact Sections.looks_throw ⟨by simpa using hgenerate, rfl⟩

theorem views_rotateKeypair (key : RotateKey K) :
    Views identity env v (rotateKeypair identity key) (Replaces identity env key)
      fun e => ∃ keyType, key = .generate keyType ∧
        identity.canGenerate keyType = false ∧ e = .unsupportedKeyType keyType := by
  cases key with
  | keypair keypair => exact Sections.looks_pure (.keypair keypair)
  | generate keyType =>
      exact views_generateKeypair.mono (fun keypair h => .generate h.1 h.2)
        fun e h => ⟨keyType, rfl, h⟩

/-- Sealing a keypair: the entry opens to it again. -/
theorem views_sealEntry (hciphers : env.Ciphers) (hround : identity.RoundTrips)
    {metadata : KeyMetadata} {keypair : K}
    (hmatches : identity.Matches keypair metadata) :
    Views identity env v (sealEntry identity cipher metadata keypair)
      (fun entry => entry.metadata = metadata ∧
        Opens identity env cipher metadata.label entry keypair)
      (Unsealable identity env cipher keypair) := by
  have hplain : Views identity env v (keyResult (identity.toProtobufEncoding keypair))
      (fun plaintext => identity.toProtobufEncoding keypair = .ok plaintext)
      (Unsealable identity env cipher keypair) := by
    cases hencoding : identity.toProtobufEncoding keypair with
    | error text => exact Sections.looks_throw (Or.inl ⟨text, hencoding, rfl⟩)
    | ok plaintext => exact Sections.looks_pure rfl
  refine hplain.bind fun plaintext hplaintext => ?_
  have hencrypt : Views identity env v (ExceptT.mk (Prog.op
      (Op.encrypt cipher (metadataAad metadata) plaintext metadata keypair)))
      (fun ciphertext =>
        Opens identity env cipher metadata.label ⟨metadata, ciphertext⟩ keypair)
      (Unsealable identity env cipher keypair) := by
    refine views_of_run (Q := fun r => ∃ log,
      env.encrypts log cipher (metadataAad metadata) plaintext r) ?_ ?_ ?_
    · intro guard st hst
      refine Sections.proceeds_look (Or.inl rfl) hst fun w r w' hw hstep => ?_
      exact ⟨hw.step rfl hstep, w.log, hstep.1⟩
    · rintro ciphertext ⟨log, hencrypts⟩
      exact opens_of_encrypts hciphers hround hmatches hplaintext hencrypts
    · rintro e ⟨log, hencrypts⟩
      exact Or.inr ⟨log, _, _, hencrypts⟩
  exact hencrypt.bind fun ciphertext hopens => Sections.looks_pure ⟨rfl, hopens⟩

/-- The entry of the backend opens to the identity with the metadata. -/
def Keeps.Found (identity : Identity K) (env : Environment K) (v : Vault K)
    (metadata : KeyMetadata) (entry : EncryptedEntry) : Prop :=
  ∃ opened, v.entries metadata.label = some opened ∧ opened.metadata = metadata ∧
    Keeps identity env v.cipher metadata.label (some entry) (some opened)

theorem Keeps.Found.metadata_eq {metadata : KeyMetadata} {entry : EncryptedEntry}
    (h : Keeps.Found identity env v metadata entry) : entry.metadata = metadata := by
  obtain ⟨opened, -, hmetadata, hkeeps⟩ := h
  cases hkeeps with
  | kept hvalid hsame hopens => exact hsame.trans hmetadata

theorem views_loadListed (henv : env.Reliable) {listed : List KeyMetadata}
    {labels : List String} (hnodup : (listed.map (·.label)).Nodup)
    (hnew : ∀ metadata ∈ listed, metadata.label ∉ labels)
    (hlabeled : v.WellLabeled) (hlisted : ∀ metadata ∈ listed, ∃ label opened,
      v.entries label = some opened ∧ opened.metadata = metadata) :
    Views identity env v (loadListed listed labels)
      (List.Forall₂ (Keeps.Found identity env v) listed) E := by
  induction listed generalizing labels with
  | nil => exact Sections.looks_pure .nil
  | cons metadata rest ih =>
      rw [List.map_cons, List.nodup_cons] at hnodup
      obtain ⟨label, opened, hopened, rfl⟩ := hlisted metadata List.mem_cons_self
      obtain ⟨hvalid, rfl⟩ := hlabeled label opened hopened
      have hrest :
          Views identity env v (loadListed rest (opened.metadata.label :: labels))
          (List.Forall₂ (Keeps.Found identity env v) rest) E := by
        refine ih hnodup.2 (fun other hother hmem => ?_)
          fun other hother => hlisted other (List.mem_cons_of_mem _ hother)
        rcases List.mem_cons.mp hmem with hsame | hmem
        · exact hnodup.1 (hsame ▸ List.mem_map_of_mem hother)
        · exact hnew other (List.mem_cons_of_mem _ hother) hmem
      refine views_checkLabel (fun _ => ?_) fun e he => ?_
      swap
      · rw [hvalid] at he
        cases he
      refine views_unless (hnew opened.metadata List.mem_cons_self)
        ((views_backendGet henv opened.metadata.label).bind ?_)
      intro found hfound
      rw [hopened] at hfound
      have hkeeps := hfound
      cases hfound with
      | @kept entry _ _ hsame hopens =>
          refine views_unless ?_ (hrest.bind fun entries hentries =>
            Sections.looks_pure (.cons ⟨opened, hopened, rfl, hkeeps⟩ hentries))
          rw [not_not, ← hsame]
          simp [sameMetadata]

theorem views_loadEntries (henv : env.Reliable) :
    Views identity env v loadEntries (fun entries => v.WellLabeled ∧ ∃ listed,
      v.Lists listed ∧ List.Forall₂ (Keeps.Found identity env v) listed entries) E := by
  have hlist : Views identity env v
      (ExceptT.mk (Prog.op Op.list) : KeychainM K (List KeyMetadata))
      (fun listed => v.WellLabeled ∧ v.Lists listed) E := by
    refine views_of_run (Q := fun r => ∃ listed, r = .ok listed ∧ v.WellLabeled ∧
      v.Lists listed) ?_ ?_ ?_
    · intro guard st hst
      refine Sections.proceeds_look (Or.inl rfl) hst fun w r w' hw hstep => ?_
      obtain ⟨listed, rfl, hlists⟩ := hw.lists henv hstep.1
      exact ⟨hw.step rfl hstep, listed, rfl, hw.wellLabeled, hlists⟩
    · rintro listed ⟨_, ⟨⟩, h⟩
      exact h
    · rintro e ⟨_, ⟨⟩, -⟩
  refine hlist.bind ?_
  rintro listed ⟨hlabeled, hlists⟩
  exact (views_loadListed henv hlists.nodup (fun _ _ => List.not_mem_nil) hlabeled
    fun metadata hmetadata => (hlists.mem_iff metadata).mp hmetadata).mono
      (fun entries hentries => ⟨hlabeled, listed, hlists, hentries⟩) fun _ h => h

/-- The identity of the vault with the metadata. -/
def Holds (v : Vault K) (metadata : KeyMetadata) (opened : OpenedEntry K) : Prop :=
  v.entries metadata.label = some opened ∧ opened.metadata = metadata

theorem map_metadata_of_holds {listed : List KeyMetadata} {opened : List (OpenedEntry K)}
    (h : List.Forall₂ v.Holds listed opened) : opened.map (·.metadata) = listed := by
  induction h with
  | nil => rfl
  | cons hfirst _ ih => rw [List.map_cons, hfirst.2, ih]

theorem mem_iff_of_holds {listed : List KeyMetadata} {opened : List (OpenedEntry K)}
    (h : List.Forall₂ v.Holds listed opened) {o : OpenedEntry K} :
    o ∈ opened ↔ o.metadata ∈ listed ∧ v.entries o.metadata.label = some o := by
  induction h with
  | nil => simp
  | @cons metadata first rest others hfirst _ ih =>
      obtain ⟨hopened, rfl⟩ := hfirst
      rw [List.mem_cons, List.mem_cons, ih]
      constructor
      · rintro (rfl | ⟨hmem, ho⟩)
        · exact ⟨Or.inl rfl, hopened⟩
        · exact ⟨Or.inr hmem, ho⟩
      · rintro ⟨hsame | hmem, ho⟩
        · rw [hsame, hopened] at ho
          exact Or.inl (Option.some.inj ho).symm
        · exact Or.inr ⟨hmem, ho⟩

theorem views_openEntries (hciphers : env.Ciphers) {listed : List KeyMetadata}
    {entries : List EncryptedEntry}
    (h : List.Forall₂ (Keeps.Found identity env v) listed entries) :
    Views identity env v (openEntries identity v.cipher entries)
      (List.Forall₂ v.Holds listed) E := by
  induction h with
  | nil => exact Sections.looks_pure .nil
  | cons hfound _ ih =>
      have hlabel := congrArg KeyMetadata.label hfound.metadata_eq
      obtain ⟨opened, hopened, hmetadata, hkeeps⟩ := hfound
      rw [← hlabel] at hkeeps
      refine (views_openEntry hciphers hkeeps).bind ?_
      rintro _ rfl
      exact ih.bind fun others hothers =>
        Sections.looks_pure (.cons ⟨hopened, hmetadata⟩ hothers)

theorem views_expiredLabels {opened : List (OpenedEntry K)}
    (hnodup : (opened.map (·.metadata.label)).Nodup) :
    Views identity env v (expiredLabels opened) (fun expired =>
      expired.Nodup ∧
        (∀ label ∈ expired, ∃ o ∈ opened, o.metadata.label = label ∧
          Judged env o.metadata true) ∧
        ∀ o ∈ opened, o.metadata.label ∉ expired → Judged env o.metadata false) E := by
  induction opened with
  | nil => exact Sections.looks_pure ⟨List.nodup_nil, nofun, nofun⟩
  | cons first rest ih =>
      rw [List.map_cons, List.nodup_cons] at hnodup
      obtain ⟨hfirst, hrest⟩ := hnodup
      refine (views_isExpired first.metadata).bind fun expired hexpired => ?_
      refine (ih hrest).bind ?_
      rintro labels ⟨hlabels, hjudged, hspared⟩
      have hnew : first.metadata.label ∉ labels := by
        intro hmem
        obtain ⟨o, ho, hsame, -⟩ := hjudged _ hmem
        exact hfirst (List.mem_map.mpr ⟨o, ho, hsame⟩)
      cases expired with
      | true =>
          refine Sections.looks_pure ⟨List.nodup_cons.mpr ⟨hnew, hlabels⟩, ?_, ?_⟩
          · intro label hlabel
            rcases List.mem_cons.mp hlabel with rfl | hlabel
            · exact ⟨first, List.mem_cons_self, rfl, hexpired⟩
            · obtain ⟨o, ho, hboth⟩ := hjudged label hlabel
              exact ⟨o, List.mem_cons_of_mem _ ho, hboth⟩
          · intro o ho hout
            rcases List.mem_cons.mp ho with rfl | ho
            · exact absurd List.mem_cons_self hout
            · exact hspared o ho fun hmem => hout (List.mem_cons_of_mem _ hmem)
      | false =>
          refine Sections.looks_pure ⟨hlabels, ?_, ?_⟩
          · intro label hlabel
            obtain ⟨o, ho, hboth⟩ := hjudged label hlabel
            exact ⟨o, List.mem_cons_of_mem _ ho, hboth⟩
          · intro o ho hout
            rcases List.mem_cons.mp ho with rfl | ho
            · exact hexpired
            · exact hspared o ho hout

/-- An entry that opens under the new cipher to the identity with the metadata. -/
def Renewed (identity : Identity K) (env : Environment K) (v : Vault K)
    (newCipher : CipherId) (metadata : KeyMetadata) (entry : EncryptedEntry) : Prop :=
  entry.metadata.label = metadata.label ∧ ∃ opened,
    v.entries metadata.label = some opened ∧
    Keeps identity env newCipher metadata.label (some entry) (some opened)

theorem labels_of_renewed {newCipher : CipherId} {listed : List KeyMetadata}
    {entries : List EncryptedEntry}
    (h : List.Forall₂ (Renewed identity env v newCipher) listed entries) :
    entries.map (·.metadata.label) = listed.map (·.label) := by
  induction h with
  | nil => rfl
  | cons hfirst _ ih => rw [List.map_cons, List.map_cons, ih, hfirst.1]

theorem exists_renewed {newCipher : CipherId} {listed : List KeyMetadata}
    {entries : List EncryptedEntry} {metadata : KeyMetadata}
    (h : List.Forall₂ (Renewed identity env v newCipher) listed entries)
    (hmem : metadata ∈ listed) :
    ∃ entry ∈ entries, Renewed identity env v newCipher metadata entry := by
  induction h with
  | nil => cases hmem
  | cons hfirst _ ih =>
      rcases List.mem_cons.mp hmem with rfl | hmem
      · exact ⟨_, List.mem_cons_self, hfirst⟩
      · obtain ⟨entry, hentry, hrenewed⟩ := ih hmem
        exact ⟨entry, List.mem_cons_of_mem _ hentry, hrenewed⟩

theorem views_reseal (hciphers : env.Ciphers) (hround : identity.RoundTrips)
    {newCipher : CipherId} {listed : List KeyMetadata} {entries : List EncryptedEntry}
    (h : List.Forall₂ (Keeps.Found identity env v) listed entries) :
    Views identity env v (reseal identity v.cipher newCipher entries)
      (List.Forall₂ (Renewed identity env v newCipher) listed)
      fun e => ∃ label opened, v.entries label = some opened ∧
        Unsealable identity env newCipher opened.keypair e := by
  induction h with
  | nil => exact Sections.looks_pure .nil
  | cons hfound _ ih =>
      have hlabel := congrArg KeyMetadata.label hfound.metadata_eq
      obtain ⟨opened, hopened, hmetadata, hkeeps⟩ := hfound
      rw [← hlabel] at hkeeps
      refine (views_openEntry hciphers hkeeps).bind ?_
      rintro _ rfl
      cases hkeeps with
      | kept hvalid hsame hopens =>
          refine ((views_sealEntry hciphers hround (hsame ▸ hopens.2.1)).mono
            (fun _ h => h) fun e he => ⟨_, _, hopened, he⟩).bind ?_
          rintro entry ⟨hentry, hreopens⟩
          refine ih.bind fun others hothers => Sections.looks_pure (.cons ?_ hothers)
          rw [← hsame, hlabel] at hreopens
          refine ⟨by rw [hentry, hmetadata], _, hopened, .kept ?_ hentry hreopens⟩
          rw [← hlabel]
          exact hvalid

end Looking

end Connexa.Keystore.Keychain.Vault
