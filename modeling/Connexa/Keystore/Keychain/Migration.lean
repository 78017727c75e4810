import Connexa.Keystore.Keychain.Refusals
import Connexa.Keystore.Keychain.Rules

/-!
# Changing the cipher

`migrate_cipher` works alone: it holds the write guard from its first look at
the slot to its end.  While it runs and after it, cipher and backend are as
before, or every label opens under the new cipher as it did before, or the slot
is empty.  In the last case it stays empty.
-/

namespace Connexa.Keystore.Keychain

open Machine (Yields)

variable {K : Type}

/-- What the `Keystore` trait asks of a backend: `get` tells what is there,
`put_many` replaces what it is given, and when it fails it may have replaced
any of it. -/
structure Environment.Contract (env : Environment K) : Prop where
  gets : ∀ {store label found}, env.gets store label (.ok found) →
    found = store label
  replaces : ∀ {store store' : Store} {entries : List EncryptedEntry},
    (entries.map (·.metadata.label)).Nodup →
    env.putManys store entries (.ok ()) store' →
    (∀ entry ∈ entries, store' entry.metadata.label = some entry) ∧
      ∀ label ∉ entries.map (·.metadata.label), store' label = store label
  fails : ∀ {store store' : Store} {entries : List EncryptedEntry} {e},
    env.putManys store entries (.error e) store' →
    ∀ label, store' label = store label ∨
      ∃ entry ∈ entries, entry.metadata.label = label ∧ store' label = some entry

/-- The label opens to the keypair and the metadata. -/
def OpensTo (identity : Identity K) (env : Environment K) (cipher : CipherId)
    (store : Store) (label : String) (opened : OpenedEntry K) : Prop :=
  ∃ entry, store label = some entry ∧ entry.metadata = opened.metadata ∧
    Opens identity env cipher label entry opened.keypair

/-- Cipher and backend are as they were. -/
def Intact (old w : World K) : Prop :=
  w.cipher = old.cipher ∧ w.store = old.store

/-- Every label opens under the new cipher as it did under the old one. -/
def Migrated (identity : Identity K) (env : Environment K)
    (cipher newCipher : CipherId) (old w : World K) : Prop :=
  w.cipher = some newCipher ∧ ∀ label opened,
    OpensTo identity env newCipher w.store label opened ↔
      OpensTo identity env cipher old.store label opened

/-- `put_many` was called after the history `before` and failed. -/
def PutManyFailed (before log : List (Event K)) : Prop :=
  ∃ entries, Recorded before (.replaced entries false) log

/-! ## Reading -/

/-- Nothing was written since `old`, and the cipher is where it was. -/
structure Untouched (old w : World K) : Prop where
  cipher_eq : w.cipher = old.cipher
  store_eq : w.store = old.store
  log_eq : ∃ events, w.log = old.log ++ events ∧
    ∀ entries succeeded, .replaced entries succeeded ∉ events

theorem untouched_refl (w : World K) : Untouched w w :=
  ⟨rfl, rfl, [], by simp, nofun⟩

theorem Untouched.intact {old w : World K} (h : Untouched old w) : Intact old w :=
  ⟨h.cipher_eq, h.store_eq⟩

theorem Untouched.record {old w : World K} (h : Untouched old w)
    {events : List (Event K)}
    (hevents : ∀ entries succeeded, .replaced entries succeeded ∉ events) :
    Untouched old (w.record events) := by
  obtain ⟨earlier, hlog, hearlier⟩ := h.log_eq
  refine ⟨h.cipher_eq, h.store_eq, earlier ++ events, ?_, ?_⟩
  · rw [World.record, hlog, List.append_assoc]
  · intro entries succeeded hmem
    rcases List.mem_append.mp hmem with hmem | hmem
    · exact hearlier entries succeeded hmem
    · exact hevents entries succeeded hmem

/-- What reads leaves slot and backend alone. -/
theorem Untouched.step {env : Environment K} {old w w' : World K} {o : Op K}
    {r : Reply o} (h : Untouched old w) (hstep : (machine env).step o w r w')
    (ho : o.quiet = true) : Untouched old w' := by
  cases o with
  | cipher => exact hstep.2 ▸ h
  | get label => exact hstep.2 ▸ h
  | list => exact hstep.2 ▸ h
  | now => exact hstep.2 ▸ h
  | generate keyType => exact hstep.2 ▸ h
  | decrypt cipher aad ciphertext => exact hstep.2 ▸ h
  | encrypt cipher aad plaintext metadata keypair =>
      rw [hstep.2]
      apply h.record
      cases r with
      | ok ciphertext => simp [sealEvents]
      | error e => simp [sealEvents]
  | accept cipher label entry keypair =>
      rw [show w' = _ from hstep]
      exact h.record (by simp)
  | found label keypair =>
      rw [show w' = _ from hstep]
      exact h.record (by simp)
  | _ => cases ho

section Reading

variable {identity : Identity K} {env : Environment K} {cipher newCipher : CipherId}
  {old w : World K} {α β : Type}

/-- A program that only reads, with what is known of its result. -/
abbrev Reads (env : Environment K) (old : World K) (x : KeychainM K α)
    (P : α → Prop) (w : World K) : Prop :=
  (machine env).Safe (Untouched old) (Yields (fun a _ => P a) fun _ _ => True) x.run w

theorem reads_bind {x : KeychainM K α} {f : α → KeychainM K β} {P : α → Prop}
    {Q : β → Prop} (hx : Reads env old x P w)
    (hf : ∀ a w, Untouched old w → P a → Reads env old (f a) Q w) :
    Reads env old (x >>= f) Q w :=
  Machine.Safe.bindExcept
    (hx.monoExcept (fun _ h => h) hf fun _ _ _ h => h)

theorem reads_checkLabel {label : String} {x : KeychainM K α} {P : α → Prop}
    (hw : Untouched old w)
    (hx : validateLabel label = .ok () → Reads env old x P w) :
    Reads env old (checkLabel label >>= fun _ => x) P w := by
  unfold checkLabel
  cases hlabel : validateLabel label with
  | error e => exact ⟨hw, trivial⟩
  | ok u => exact hx hlabel

/-- `if c then throw e` in front of `f`. -/
theorem reads_unless {c : Prop} [Decidable c] {e : Error} {f : Unit → KeychainM K α}
    {P : α → Prop} (hw : Untouched old w) (hf : ¬c → Reads env old (f ()) P w) :
    Reads env old (if c then throw e >>= f else f ()) P w := by
  by_cases hc : c
  · rw [if_pos hc]
    exact ⟨hw, trivial⟩
  · rw [if_neg hc]
    exact hf hc

theorem reads_keyResult {r : Except String α} (hw : Untouched old w) :
    Reads env old (keyResult r) (fun a => r = .ok a) w := by
  cases r with
  | error e => exact ⟨hw, trivial⟩
  | ok a => exact ⟨hw, rfl⟩

theorem reads_disableCheck (hw : Untouched old w) (disabled : Bool) :
    Reads env old (disableCheck disabled) (fun _ => True) w := by
  cases disabled with
  | true => exact ⟨hw, trivial⟩
  | false => exact ⟨hw, trivial⟩

theorem reads_backendGet (hbackend : env.Contract) (hw : Untouched old w)
    (label : String) :
    Reads env old (backendGet label) (fun found => found = old.store label) w := by
  refine ⟨hw, ?_⟩
  intro r w' hstep
  refine ⟨hw.step hstep rfl, ?_⟩
  cases r with
  | error e => trivial
  | ok found => exact (hbackend.gets hstep.1).trans (congrFun hw.store_eq label)

/-- The entries of the listed metadata, as the backend holds them. -/
structure Found (store : Store) (labels : List String) (listed : List KeyMetadata)
    (entries : List EncryptedEntry) : Prop where
  loaded : Loaded labels entries
  metadata_eq : entries.map (·.metadata) = listed
  stored : ∀ entry ∈ entries, store entry.metadata.label = some entry

theorem reads_loadListed (hbackend : env.Contract) (hw : Untouched old w)
    (listed : List KeyMetadata) (labels : List String) :
    Reads env old (loadListed listed labels) (Found old.store labels listed) w := by
  induction listed generalizing labels w with
  | nil => exact ⟨hw, ⟨List.nodup_nil, nofun⟩, rfl, nofun⟩
  | cons metadata rest ih =>
      refine reads_checkLabel hw fun hvalid => ?_
      apply reads_unless hw
      intro hnew
      refine reads_bind (reads_backendGet hbackend hw metadata.label) ?_
      rintro (_ | entry) w hw hfound
      · exact ⟨hw, trivial⟩
      apply reads_unless hw
      intro hsame
      rw [not_not] at hsame
      obtain rfl := eq_of_sameMetadata hsame
      refine reads_bind (ih hw _) fun entries w hw hrest => ⟨hw, ?_, ?_, ?_⟩
      · exact loaded_cons hvalid hnew hrest.loaded
      · rw [List.map_cons, hrest.metadata_eq]
      · intro other hother
        rcases List.mem_cons.mp hother with rfl | hother
        · exact hfound.symm
        · exact hrest.stored other hother

theorem reads_openEntry (hw : Untouched old w) (cipher : CipherId) (label : String)
    (entry : EncryptedEntry) :
    Reads env old (openEntry identity cipher label entry)
      (fun opened => opened.metadata = entry.metadata ∧
        Opens identity env cipher label entry opened.keypair) w := by
  unfold openEntry
  apply reads_unless hw
  intro hlabel
  rw [ne_eq, not_not] at hlabel
  have hdecrypt : Reads env old (ExceptT.mk (Prog.op
      (Op.decrypt cipher (metadataAad entry.metadata) entry.ciphertext)))
      (fun plaintext => ∃ log, env.decrypts log cipher (metadataAad entry.metadata)
        entry.ciphertext (.ok plaintext)) w := by
    refine ⟨hw, ?_⟩
    intro r w' hstep
    refine ⟨hw.step hstep rfl, ?_⟩
    cases r with
    | error e => trivial
    | ok plaintext => exact ⟨_, hstep.1⟩
  refine reads_bind hdecrypt ?_
  rintro plaintext w hw ⟨log, hplaintext⟩
  refine reads_bind (reads_keyResult hw) fun keypair w hw hkeypair => ?_
  apply reads_unless hw
  intro hmatches
  rw [not_not] at hmatches
  refine ⟨hw, ?_⟩
  rintro r w' hstep
  exact ⟨hw.step hstep rfl, rfl, hlabel, hmatches, log, plaintext, hplaintext, hkeypair⟩

theorem reads_sealEntry (hciphers : env.Ciphers) (hround : identity.RoundTrips)
    (hw : Untouched old w) {metadata : KeyMetadata} {keypair : K}
    (hmatches : identity.Matches keypair metadata) :
    Reads env old (sealEntry identity newCipher metadata keypair)
      (fun entry => entry.metadata = metadata ∧
        Opens identity env newCipher metadata.label entry keypair) w := by
  refine reads_bind (reads_keyResult hw) fun plaintext w hw hplain => ?_
  have hencrypt : Reads env old (ExceptT.mk (Prog.op
      (Op.encrypt newCipher (metadataAad metadata) plaintext metadata keypair)))
      (fun ciphertext =>
        Opens identity env newCipher metadata.label ⟨metadata, ciphertext⟩ keypair)
      w := by
    refine ⟨hw, ?_⟩
    intro r w' hstep
    refine ⟨hw.step hstep rfl, ?_⟩
    cases r with
    | error e => trivial
    | ok ciphertext =>
        exact opens_of_encrypts hciphers hround hmatches hplain hstep.1
  exact reads_bind hencrypt fun ciphertext w hw hopens => ⟨hw, rfl, hopens⟩

/-- The same identity, sealed with another cipher. -/
def Resealed (identity : Identity K) (env : Environment K)
    (cipher newCipher : CipherId) (original entry : EncryptedEntry) : Prop :=
  entry.metadata = original.metadata ∧ ∃ keypair,
    Opens identity env cipher original.metadata.label original keypair ∧
      Opens identity env newCipher original.metadata.label entry keypair

theorem reads_reseal (hciphers : env.Ciphers) (hround : identity.RoundTrips)
    (hw : Untouched old w) (originals : List EncryptedEntry) :
    Reads env old (reseal identity cipher newCipher originals)
      (List.Forall₂ (Resealed identity env cipher newCipher) originals) w := by
  induction originals generalizing w with
  | nil => exact ⟨hw, .nil⟩
  | cons original rest ih =>
      refine reads_bind (reads_openEntry hw _ _ _) ?_
      rintro ⟨keypair, _⟩ w hw ⟨rfl, hopens⟩
      refine reads_bind (reads_sealEntry hciphers hround hw hopens.2.1) ?_
      rintro entry w hw ⟨hmetadata, hnew⟩
      refine reads_bind (ih hw) fun entries w hw hrest => ⟨hw, .cons ?_ hrest⟩
      exact ⟨hmetadata, keypair, hopens, hnew⟩

end Reading

/-! ## Writing -/

section Writing

variable {identity : Identity K} {env : Environment K} {cipher newCipher : CipherId}
  {old w : World K} {originals entries : List EncryptedEntry} {store : Store}

/-- Every stored entry is sealed anew. -/
structure Prepared (identity : Identity K) (env : Environment K)
    (cipher newCipher : CipherId) (old : Store)
    (originals entries : List EncryptedEntry) : Prop where
  loaded : Loaded [] originals
  stored : ∀ entry ∈ originals, old entry.metadata.label = some entry
  complete : ∀ label entry, old label = some entry →
    entry.metadata ∈ originals.map (·.metadata)
  resealed : List.Forall₂ (Resealed identity env cipher newCipher) originals entries

theorem labels_of_resealed
    (h : List.Forall₂ (Resealed identity env cipher newCipher) originals entries) :
    entries.map (·.metadata.label) = originals.map (·.metadata.label) := by
  induction h with
  | nil => rfl
  | cons hhead _ ih => rw [List.map_cons, List.map_cons, ih, hhead.1]

theorem exists_resealed
    (h : List.Forall₂ (Resealed identity env cipher newCipher) originals entries)
    {original : EncryptedEntry} (hmem : original ∈ originals) :
    ∃ entry ∈ entries, Resealed identity env cipher newCipher original entry := by
  induction h with
  | nil => cases hmem
  | @cons first entry rest entries hhead _ ih =>
      rcases List.mem_cons.mp hmem with rfl | hmem
      · exact ⟨entry, List.mem_cons_self, hhead⟩
      · obtain ⟨entry, hentry, hresealed⟩ := ih hmem
        exact ⟨entry, List.mem_cons_of_mem _ hentry, hresealed⟩

/-- An entry that the backend holds under its own label was loaded. -/
theorem Prepared.mem_labels
    (h : Prepared identity env cipher newCipher old.store originals entries)
    {label : String} {entry : EncryptedEntry} (hstored : old.store label = some entry)
    (hlabel : entry.metadata.label = label) :
    label ∈ originals.map (·.metadata.label) := by
  obtain ⟨original, horiginal, hmetadata⟩ :=
    List.mem_map.mp (h.complete label entry hstored)
  exact List.mem_map.mpr ⟨original, horiginal, by rw [hmetadata, hlabel]⟩

/-- After `put_many` every label opens as before. -/
theorem Prepared.opensTo_iff (hbackend : env.Contract) (hciphers : env.Ciphers)
    (h : Prepared identity env cipher newCipher old.store originals entries)
    (hput : env.putManys old.store entries (.ok ()) store) (label : String)
    (opened : OpenedEntry K) :
    OpensTo identity env newCipher store label opened ↔
      OpensTo identity env cipher old.store label opened := by
  have hlabels := labels_of_resealed h.resealed
  obtain ⟨hnew, hrest⟩ := hbackend.replaces (hlabels ▸ h.loaded.1) hput
  by_cases hmem : label ∈ originals.map (·.metadata.label)
  · -- the label holds an entry that was sealed anew
    obtain ⟨original, horiginal, rfl⟩ := List.mem_map.mp hmem
    obtain ⟨entry, hentry, hmetadata, keypair, hopens, hopens'⟩ :=
      exists_resealed h.resealed horiginal
    have hold := h.stored original horiginal
    have hstore : store original.metadata.label = some entry := by
      rw [← hmetadata]
      exact hnew entry hentry
    constructor
    · rintro ⟨found, hfound, hopened, hkeypair⟩
      obtain rfl : entry = found := Option.some.inj (hstore.symm.trans hfound)
      refine ⟨original, hold, hmetadata.symm.trans hopened, ?_⟩
      rw [hkeypair.eq hciphers hopens']
      exact hopens
    · rintro ⟨found, hfound, hopened, hkeypair⟩
      obtain rfl : original = found := Option.some.inj (hold.symm.trans hfound)
      refine ⟨entry, hstore, hmetadata.trans hopened, ?_⟩
      rw [hkeypair.eq hciphers hopens]
      exact hopens'
  · -- nothing is stored under any other label that could open
    have hstore : store label = old.store label := hrest label (hlabels ▸ hmem)
    constructor
    · rintro ⟨found, hfound, -, hkeypair⟩
      exact absurd (h.mem_labels (hstore ▸ hfound) hkeypair.1) hmem
    · rintro ⟨found, hfound, -, hkeypair⟩
      exact absurd (h.mem_labels hfound hkeypair.1) hmem

/-- If all originals are there after a failed `put_many`, nothing has changed. -/
theorem Prepared.store_eq (hbackend : env.Contract)
    (h : Prepared identity env cipher newCipher old.store originals entries)
    {e : Error} (hput : env.putManys old.store entries (.error e) store)
    (hread : ∀ original ∈ originals, store original.metadata.label = some original) :
    store = old.store := by
  funext label
  rcases hbackend.fails hput label with hsame | ⟨entry, hentry, rfl, -⟩
  · exact hsame
  · have hmem : entry.metadata.label ∈ originals.map (·.metadata.label) := by
      rw [← labels_of_resealed h.resealed]
      exact List.mem_map_of_mem hentry
    obtain ⟨original, horiginal, hlabel⟩ := List.mem_map.mp hmem
    rw [← hlabel, hread original horiginal, h.stored original horiginal]

/-- While `migrate_cipher` runs. -/
def Between (identity : Identity K) (env : Environment K)
    (cipher newCipher : CipherId) (old w : World K) : Prop :=
  Intact old w ∨ w.cipher = none ∨
    Migrated identity env cipher newCipher old w ∧ ¬PutManyFailed old.log w.log

/-- When `migrate_cipher` is done. -/
def Outcomes (identity : Identity K) (env : Environment K)
    (cipher newCipher : CipherId) (old : World K) {α : Type} :
    Except Error α → World K → Prop :=
  Yields (fun _ => Migrated identity env cipher newCipher old) fun _ w =>
    Intact old w ∨ w.cipher = none ∧ PutManyFailed old.log w.log

theorem eq_of_sameEntry {a b : EncryptedEntry} (h : sameEntry a b = true) :
    a = b := by
  obtain ⟨hciphertext, hmetadata⟩ := (Bool.and_eq_true _ _).mp h
  cases a
  cases b
  cases eq_of_sameMetadata hmetadata
  cases of_decide_eq_true hciphertext
  rfl

/-- What was read back is there. -/
theorem safe_readBack (hbackend : env.Contract) (originals : List EncryptedEntry) :
    (machine env).Safe (· = w)
      (fun intact _ => intact = true →
        ∀ original ∈ originals, w.store original.metadata.label = some original)
      (readBack originals) w := by
  induction originals with
  | nil => exact ⟨rfl, nofun⟩
  | cons original rest ih =>
      refine ⟨rfl, ?_⟩
      rintro (e | _ | entry) w' ⟨hget, rfl⟩
      · exact ⟨rfl, nofun⟩
      · exact ⟨rfl, nofun⟩
      · change (machine env).Safe _ _ (if sameEntry entry original then readBack rest
          else return false) _
        split
        · next hsame =>
          obtain rfl := eq_of_sameEntry hsame
          refine ih.mono (fun _ h => h) ?_
          intro intact t ht hrest hintact other hother
          rcases List.mem_cons.mp hother with rfl | hother
          · exact (hbackend.gets hget).symm
          · exact hrest hintact other hother
        · exact ⟨rfl, nofun⟩

theorem Untouched.not_failed (h : Untouched old w) :
    ¬PutManyFailed old.log (w.log ++ [.replaced entries true]) := by
  rintro ⟨failed, before, after, hlog, more, rfl⟩
  obtain ⟨events, hevents, hnot⟩ := h.log_eq
  rw [hevents, List.append_assoc, List.append_assoc] at hlog
  have hmem : Event.replaced failed false ∈ events ++ [.replaced entries true] := by
    rw [List.append_cancel_left hlog]
    simp
  rcases List.mem_append.mp hmem with hmem | hmem
  · exact hnot failed false hmem
  · cases List.mem_singleton.mp hmem

theorem safe_replaceAll (hbackend : env.Contract) (hciphers : env.Ciphers)
    (h : Prepared identity env cipher newCipher old.store originals entries)
    (hw : Untouched old w) :
    (machine env).Safe (Between identity env cipher newCipher old)
      (Outcomes identity env cipher newCipher old)
      (replaceAll newCipher old.cipher originals entries : KeychainM K Unit).run
      { w with cipher := none } := by
  have hempty : ∀ v : World K, v.cipher = none →
      Between identity env cipher newCipher old v := fun v hv => Or.inr (Or.inl hv)
  refine ⟨hempty _ rfl, ?_⟩
  rintro (error | ⟨⟩) w' ⟨store, hput, rfl⟩
  · rw [show World.store _ = old.store from hw.store_eq] at hput
    change (machine env).Safe _ _ (readBack originals >>= fun intact =>
      if intact then Prog.op (Op.setCipher old.cipher) >>= fun _ =>
        pure (Except.error error)
      else pure (Except.error error)) _
    apply Machine.Safe.bind
    refine (safe_readBack hbackend originals).mono (fun v hv => hempty v (hv ▸ rfl)) ?_
    rintro intact _ rfl hread
    cases intact with
    | true =>
        refine ⟨hempty _ rfl, ?_⟩
        rintro r w' rfl
        have hstore : store = old.store := h.store_eq hbackend hput (hread rfl)
        exact ⟨Or.inl ⟨rfl, hstore⟩, Or.inl ⟨rfl, hstore⟩⟩
    | false =>
        obtain ⟨events, hevents, -⟩ := hw.log_eq
        exact ⟨hempty _ rfl, Or.inr ⟨rfl, entries, recorded_snoc ⟨events, hevents.symm⟩⟩⟩
  · rw [show World.store _ = old.store from hw.store_eq] at hput
    refine ⟨hempty _ rfl, ?_⟩
    rintro r w' rfl
    have hopens := h.opensTo_iff hbackend hciphers hput
    exact ⟨Or.inr (Or.inr ⟨⟨rfl, hopens⟩, hw.not_failed⟩), rfl, hopens⟩

/-- The list names everything that the backend holds. -/
def Environment.Lists (env : Environment K) (store : Store) : Prop :=
  ∀ listed, env.lists store (.ok listed) →
    ∀ label entry, store label = some entry → entry.metadata ∈ listed

/-- A part of `migrate_cipher`, from its start in `old`. -/
abbrev Migrates (identity : Identity K) (env : Environment K)
    (cipher newCipher : CipherId) (old : World K) {α : Type} (x : KeychainM K α)
    (w : World K) : Prop :=
  (machine env).Safe (Between identity env cipher newCipher old)
    (Outcomes identity env cipher newCipher old) x.run w

/-- What reads changes nothing, whether it fails or not. -/
theorem migrates_reads_bind {α β : Type} {x : KeychainM K α} {f : α → KeychainM K β}
    {P : α → Prop} (hx : Reads env old x P w)
    (hf : ∀ a w, Untouched old w → P a →
      Migrates identity env cipher newCipher old (f a) w) :
    Migrates identity env cipher newCipher old (x >>= f) w := by
  apply Machine.Safe.bindExcept
  refine hx.mono (fun v hv => Or.inl hv.intact) ?_
  rintro (e | a) v hv hr
  · exact Or.inl hv.intact
  · exact hf a v hv hr

theorem reads_loadEntries (hbackend : env.Contract) (hlists : env.Lists old.store)
    (hw : Untouched old w) :
    Reads env old loadEntries (fun entries => ∃ listed,
      Found old.store [] listed entries ∧ ∀ label entry,
        old.store label = some entry → entry.metadata ∈ listed) w := by
  have hlist : Reads env old (ExceptT.mk (Prog.op Op.list))
      (fun listed => ∀ label entry, old.store label = some entry →
        entry.metadata ∈ listed) w := by
    refine ⟨hw, ?_⟩
    intro r w' hstep
    refine ⟨hw.step hstep rfl, ?_⟩
    cases r with
    | error e => trivial
    | ok listed => exact hlists listed (hw.store_eq ▸ hstep.1)
  refine reads_bind hlist fun listed w hw hall => ?_
  exact (reads_loadListed hbackend hw listed []).monoExcept (fun _ h => h)
    (fun entries _ _ hfound => ⟨listed, hfound, hall⟩) fun _ _ _ h => h

/-- `migrate_cipher` on its own, from its call with a cipher in the slot. -/
theorem safe_migrateCipher (hbackend : env.Contract) (hciphers : env.Ciphers)
    (hround : identity.RoundTrips) (hlists : env.Lists old.store)
    (hcipher : old.cipher = some cipher) (disabled : Bool) :
    (machine env).Safe (Between identity env cipher newCipher old)
      (Outcomes identity env cipher newCipher old)
      (program identity disabled (.migrateCipher newCipher)) old := by
  have hold := untouched_refl old
  have hmigrate : Migrates identity env cipher newCipher old
      (migrateCipher identity disabled newCipher) old := by
    refine ⟨Or.inl hold.intact, ?_⟩
    rintro r w rfl
    refine ⟨Or.inl hold.intact, ?_⟩
    rintro r w ⟨hr, rfl⟩
    obtain rfl : r = some cipher := hr.trans hcipher
    refine migrates_reads_bind (reads_disableCheck hold disabled) fun _ w hw _ => ?_
    refine migrates_reads_bind (reads_loadEntries hbackend hlists hw) ?_
    rintro originals w hw ⟨listed, hfound, hall⟩
    refine migrates_reads_bind (reads_reseal hciphers hround hw originals) ?_
    intro entries w hw hresealed
    have hprepared : Prepared identity env cipher newCipher _ originals entries :=
      ⟨hfound.loaded, hfound.stored, hfound.metadata_eq ▸ hall, hresealed⟩
    refine ⟨Or.inl hw.intact, ?_⟩
    rintro r w' ⟨rfl, rfl⟩
    rw [hw.cipher_eq]
    exact safe_replaceAll hbackend hciphers hprepared hw
  apply Machine.Safe.bindExcept
  exact hmigrate.monoExcept (fun _ h => h) (fun _ v hv h => ⟨hv, h⟩) fun _ _ _ h => h

end Writing

/-! ## Among clones -/

section Clones

variable {identity : Identity K} {env : Environment K} {disabled : Bool}
  {lost : Option (Except Error (Value K))} {cipher newCipher : CipherId}
  {w w' : World K} {s t : Clones K}
  {task now : Task (Op K) Reply (Call K) (Except Error (Value K)) (World K)} {i : ℕ}

/-- A task without a guard changes nothing. -/
theorem Phase.Step.idle {p q : Phase} {o : Op K} {r : Reply o} (h : p.Step o q)
    (hguard : p.guard = .none) (hasked : p ≠ .asked .none)
    (hstep : World.step env o w r w') : w' = w := by
  cases h with
  | free hkind hp => exact step_of_free hkind hstep
  | read hkind hquiet hp =>
      rcases hp with rfl | rfl | ⟨n, rfl⟩
      · cases hguard
      · cases hguard
      · cases hguard
  | readLock => exact hstep
  | writeLock => exact hstep
  | refused => exact absurd (congrArg Phase.asked hguard) hasked
  | _ => cases hguard

/-- A task that still depends on its caller leaves slot and backend alone. -/
theorem Phase.Step.intact {p q : Phase} {o : Op K} {r : Reply o} (h : p.Step o q)
    (hdetached : q.detached = false) (hstep : World.step env o w r w') :
    Intact w w' := by
  cases h with
  | free hkind hp => exact step_of_free hkind hstep ▸ ⟨rfl, rfl⟩
  | read hkind hquiet hp => exact ((untouched_refl w).step hstep hquiet).intact
  | readLock => exact hstep ▸ ⟨rfl, rfl⟩
  | writeLock => exact hstep ▸ ⟨rfl, rfl⟩
  | unlock => exact hstep ▸ ⟨rfl, rfl⟩
  | refused => exact hstep.2 ▸ ⟨rfl, rfl⟩
  | readable => exact hstep.2 ▸ ⟨rfl, rfl⟩
  | writable => exact hstep.2 ▸ ⟨rfl, rfl⟩
  | _ => cases hdetached

/-- What `migrate_cipher` has done when the clones are in `t`, if it took the
lock in `s` and its task `now` has the number `i`.  A task that is stopped in
the middle of `put_many` is one that is stopped after a failed one. -/
structure AllOrNothing (identity : Identity K) (env : Environment K) (disabled : Bool)
    (lost : Option (Except Error (Value K))) (cipher newCipher : CipherId)
    (i : ℕ) (s t : Clones K)
    (now : Task (Op K) Reply (Call K) (Except Error (Value K)) (World K)) : Prop where
  /-- Whenever there is a cipher in the slot, every label opens as before. -/
  between : Intact s.world t.world ∨ t.world.cipher = none ∨
    Migrated identity env cipher newCipher s.world t.world
  early : now.detached = false → Intact s.world t.world
  /-- The old cipher is put back only if all is as before. -/
  failed : PutManyFailed s.world.log t.world.log →
    Intact s.world t.world ∨ t.world.cipher = none
  ok : ∀ value, now.prog = .done (.ok value) →
    Migrated identity env cipher newCipher s.world t.world
  error : ∀ e, now.prog = .done (.error e) → Intact s.world t.world ∨
    t.world.cipher = none ∧ PutManyFailed s.world.log t.world.log
  /-- The end of the task changes nothing, and if it leaves an empty slot then
  nothing ever changes again. -/
  later : ∀ u, System.Step (machine env) Op.kind (program identity disabled) lost t u →
    u.tasks i = none → u.world = t.world ∧ (t.world.cipher = none →
      ∀ v, Relation.ReflTransGen
        (System.Step (machine env) Op.kind (program identity disabled) lost) u v →
        v.world = t.world ∧ ∀ e ∈ v.returned,
          Accounted identity disabled u e.call e.started e.result)

/-- An empty slot that a writer leaves behind stays empty. -/
theorem empty_forever
    (ht : System.Reachable (machine env) Op.kind (program identity disabled) lost w t)
    (hnow : t.tasks i = some now) (hguard : now.guard = .write) {u : Clones K}
    (hstep : System.Step (machine env) Op.kind (program identity disabled) lost t u)
    (hgone : u.tasks i = none) (hslot : t.world.cipher = none) {v : Clones K}
    (hrun : Relation.ReflTransGen
      (System.Step (machine env) Op.kind (program identity disabled) lost) u v) :
    v.world = t.world ∧ ∀ e ∈ v.returned,
      Accounted identity disabled u e.call e.started e.result := by
  obtain ⟨-, hworld, hrest⟩ := hstep.gone hnow hgone
  have hfree : ∀ j other, u.tasks j = some other → other.guard = .none := by
    intro j other hother
    have hne : j ≠ i := by
      rintro rfl
      rw [hgone] at hother
      cases hother
    rw [hrest j hne] at hother
    exact ht.exclusive hnow hother hne hguard
  have hstuck := stuck_of_empty (ht.step hstep) (hworld ▸ hslot) hfree hrun
  exact ⟨hstuck.world_eq.trans hworld, hstuck.accounted⟩

/-- What is known of the task that migrates from `old` while it has the lock. -/
structure Migrating (identity : Identity K) (env : Environment K) (disabled : Bool)
    (cipher newCipher : CipherId) (old : World K)
    (task : Task (Op K) Reply (Call K) (Except Error (Value K)) (World K))
    (w : World K) : Prop where
  phase : ∃ p, InPhase identity disabled id task p
  safe : (machine env).Safe (Between identity env cipher newCipher old)
    (Outcomes identity env cipher newCipher old) task.prog w
  early : task.detached = false → Intact old w

theorem migrating_of_locked (hbackend : env.Contract) (hciphers : env.Ciphers)
    (hround : identity.RoundTrips)
    (hs : System.Reachable (machine env) Op.kind (program identity disabled) lost w s)
    (htask : s.tasks i = some task) (hcall : task.call = .migrateCipher newCipher)
    (hran : task.ran = [.writeLock]) (hcipher : s.world.cipher = some cipher)
    (hlists : env.Lists s.world.store) :
    Migrating identity env disabled cipher newCipher s.world task s.world := by
  refine ⟨exists_inPhase id hs htask, ?_, fun _ => ⟨rfl, rfl⟩⟩
  obtain ⟨k, r, hprogram, hprog⟩ := hs.prog_of_ran htask hran
  rw [hcall] at hprogram
  have hsafe : (machine env).Safe (Between identity env cipher newCipher s.world)
      (Outcomes identity env cipher newCipher s.world)
      (program identity disabled (.migrateCipher newCipher)) s.world :=
    safe_migrateCipher hbackend hciphers hround hlists hcipher disabled
  rw [hprogram] at hsafe
  rw [hprog]
  exact hsafe.2 r s.world rfl

theorem Migrating.advance {old : World K} {o : Op K}
    {k : Reply o → Prog (Op K) Reply (Except Error (Value K))} {r : Reply o}
    (h : Migrating identity env disabled cipher newCipher old task w)
    (hprog : task.prog = .call o k) (hstep : (machine env).step o w r w') :
    Migrating identity env disabled cipher newCipher old
      (task.advance Op.kind o (k r)) w' := by
  obtain ⟨p, hp⟩ := h.phase
  obtain ⟨hnext, hp'⟩ := hp.advance hprog r
  have hsafe := h.safe
  rw [hprog] at hsafe
  refine ⟨⟨_, hp'⟩, hsafe.2 r w' hstep, fun hdetached => ?_⟩
  have hintact : Intact w w' := hnext.intact (hp'.detached_eq ▸ hdetached) hstep
  have hold := h.early (Bool.or_eq_false_iff.mp hdetached).1
  exact ⟨hintact.1.trans hold.1, hintact.2.trans hold.2⟩

/-- A migration is all or nothing, whatever the clones do meanwhile. -/
theorem migrateCipher_all_or_nothing (hbackend : env.Contract)
    (hciphers : env.Ciphers) (hround : identity.RoundTrips)
    (hs : System.Reachable (machine env) Op.kind (program identity disabled) lost w s)
    (htask : s.tasks i = some task) (hcall : task.call = .migrateCipher newCipher)
    (hran : task.ran = [.writeLock]) (hcipher : s.world.cipher = some cipher)
    (hlists : env.Lists s.world.store)
    (hduring : System.During (machine env) Op.kind (program identity disabled) lost i s t)
    (hnow : t.tasks i = some now) :
    AllOrNothing identity env disabled lost cipher newCipher i s t now := by
  have hmigrating : Migrating identity env disabled cipher newCipher s.world now
      t.world := by
    refine hduring.invariant
      (J := Migrating identity env disabled cipher newCipher s.world) hs ?_ ?_ ?_ ?_ hnow
    · intro first hfirst
      obtain rfl : task = first := Option.some.inj (htask.symm.trans hfirst)
      exact migrating_of_locked hbackend hciphers hround hs htask hcall hran
        hcipher hlists
    · exact fun task o k r v v' _ h hprog hstep => h.advance hprog hstep
    · rintro task v ⟨⟨p, hp⟩, hsafe, hearly⟩
      exact ⟨⟨p, hp.follows, hp.guard_eq, hp.detached_eq, hp.ran, hp.asked_ne⟩, hsafe,
        hearly⟩
    · intro u hu j other o k r v hother hguard hprog hstep
      obtain ⟨p, hp⟩ := exists_inPhase id hu hother
      exact (hp.advance hprog r).1.idle (hp.guard_eq.symm.trans hguard) hp.asked_ne hstep
  have hbetween := hmigrating.safe.here
  refine ⟨?_, hmigrating.early, ?_, ?_, ?_, ?_⟩
  · exact hbetween.imp_right fun h => h.imp_right fun h => h.1
  · intro hfailed
    exact hbetween.imp_right fun h => h.resolve_right fun h => h.2 hfailed
  · intro value hprog
    have hsafe := hmigrating.safe
    rw [hprog] at hsafe
    exact hsafe.2
  · intro e hprog
    have hsafe := hmigrating.safe
    rw [hprog] at hsafe
    exact hsafe.2
  · intro u hstep hgone
    refine ⟨(hstep.gone hnow hgone).2.1, fun hslot v hrun => ?_⟩
    exact empty_forever (hduring.reachable hs) hnow (hduring.guard_eq hnow) hstep hgone
      hslot hrun

end Clones

/-! ## A migration that fails halfway -/

/-- `put_many` fails after its first entry. -/
def halfwayBackend : Simulation UInt8 :=
  { plainBackend with
    putMany := fun store entries =>
      (.error (.backend (.new .other "halfway")), match entries with
        | [] => store
        | entry :: _ => Function.update store entry.metadata.label (some entry)) }

theorem halfwayBackend_contract : halfwayBackend.environment.Contract where
  gets h := Except.ok.inj h
  replaces _ h := by cases (Prod.mk.inj h).1
  fails := by
    intro store store' entries e h label
    obtain ⟨-, rfl⟩ := Prod.mk.inj h
    cases entries with
    | nil => exact Or.inl rfl
    | cons entry rest =>
        by_cases hlabel : label = entry.metadata.label
        · subst hlabel
          exact Or.inr ⟨entry, List.mem_cons_self, rfl, Function.update_self _ _ _⟩
        · exact Or.inl (Function.update_of_ne hlabel _ _)

theorem halfwayBackend_ciphers : halfwayBackend.environment.Ciphers where
  functional h h' := h.trans h'.symm
  inverse := by
    intro log cipher aad plaintext ciphertext h
    have hplain : plainBackend.environment.encrypts log cipher aad plaintext
        (.ok ciphertext) := h
    exact plainBackend_ciphers.inverse hplain

theorem heldKey_lt : ([5] : Bytes).length < 2 ^ 64 := by decide

/-- The identity of one byte under `"a"`. -/
def heldEntry : EncryptedEntry :=
  let metadata : KeyMetadata :=
    { label := "a"
      keyType := .ed25519
      version := 1
      createdAt := ⟨0, SystemTime.epoch_bounded⟩
      expiresAt := none
      publicKey := [5]
      label_lt := labelBytes_a_lt
      publicKey_lt := heldKey_lt }
  ⟨metadata, (1 :: metadataAad metadata) ++ [5]⟩

def heldWorld : World UInt8 :=
  ⟨some 1, fun label => if label = "a" then some heldEntry else none, []⟩

theorem halfwayBackend_lists : halfwayBackend.environment.Lists heldWorld.store := by
  intro listed hlisted label entry hstored
  obtain rfl : listed = [heldEntry.metadata] := Except.ok.inj hlisted
  obtain ⟨-, rfl⟩ : label = "a" ∧ heldEntry = entry := by
    simpa [heldWorld] using hstored
  exact List.mem_singleton_self _

/-- A migration has just got the lock. -/
def lockedClones : Clones UInt8 :=
  (([.start 0 (.migrateCipher 2), .run 0] : List (Move (Call UInt8))).foldlM
    (System.move 1 halfwayBackend.exec Op.kind (program byteIdentity false) none)
    ⟨heldWorld, fun _ => none, []⟩).getD ⟨heldWorld, fun _ => none, []⟩

theorem migrateCipher_all_or_nothing_halfway :
    ∃ (t : Clones UInt8)
      (now : Task (Op UInt8) Reply (Call UInt8) (Except Error (Value UInt8))
        (World UInt8)),
      System.During (machine halfwayBackend.environment) Op.kind
        (program byteIdentity false) none 0 lockedClones t ∧
      t.tasks 0 = some now ∧ t.world.cipher = none ∧
      AllOrNothing byteIdentity halfwayBackend.environment false none 1 2 0
        lockedClones t now := by
  have hs : System.Reachable (machine halfwayBackend.environment) Op.kind
      (program byteIdentity false) none heldWorld lockedClones :=
    .moves halfwayBackend.step_exec .init (fun _ _ => rfl)
      (show List.foldlM (System.move 1 _ _ _ _) _
        [.start 0 (.migrateCipher 2), .run 0] = some lockedClones from rfl)
  obtain ⟨task, htask, hcall, hran, hguard⟩ :
      ∃ task, lockedClones.tasks 0 = some task ∧
        task.call = .migrateCipher 2 ∧ task.ran = [.writeLock] ∧
        task.guard = .write := ⟨_, rfl, rfl, rfl, rfl⟩
  have hbound : ∀ j, 1 ≤ j → lockedClones.tasks j = none := by
    intro j hj
    cases j with
    | zero => cases hj
    | succ j => rfl
  have hrun : ∃ t, System.During (machine halfwayBackend.environment) Op.kind
      (program byteIdentity false) none 0 lockedClones t ∧
      decide (t.world.cipher = none) = true :=
    System.exists_during_of_schedule 1 halfwayBackend.exec halfwayBackend.step_exec
      htask hguard hbound (List.replicate 9 (.run 0)) _ (by decide +kernel)
  obtain ⟨t, hduring, hslot⟩ := hrun
  obtain ⟨now, hnow⟩ := hduring.exists_task
  exact ⟨t, now, hduring, hnow, of_decide_eq_true hslot,
    migrateCipher_all_or_nothing halfwayBackend_contract halfwayBackend_ciphers
      byteIdentity_roundTrips hs htask hcall hran rfl halfwayBackend_lists hduring hnow⟩

end Connexa.Keystore.Keychain
