import Connexa.Keystore.Keychain.Rules

/-!
# Authenticity against the storage

The backend may answer anything.  With a cipher that decrypts only what it has
encrypted under the same associated data, every entry that a method accepts is
one that the keychain has sealed itself, under the same label, with the cipher
that is in use.
-/

namespace Connexa.Keystore.Keychain

open Discipline

variable {K : Type}

/-- A cipher decrypts only what it has produced, under the same associated
data. -/
def Environment.Ideal (env : Environment K) : Prop :=
  ∀ log cipher aad ciphertext plaintext,
    env.decrypts log cipher aad ciphertext (.ok plaintext) →
    ∃ metadata keypair,
      Event.sealed cipher aad plaintext ciphertext metadata keypair ∈ log

/-- What is recorded is authentic: an entry is accepted only if exactly that
entry was sealed before, for the same keypair, under the same label and with
the cipher in use. -/
def Authentic (identity : Identity K) (pre : List (Event K)) : Event K → Prop
  | .sealed _ aad plaintext _ metadata keypair =>
      aad = metadataAad metadata ∧
        identity.toProtobufEncoding keypair = .ok plaintext
  | .accepted slot cipher label entry keypair =>
      slot = some cipher ∧ entry.metadata.label = label ∧
        ∃ aad plaintext, Event.sealed cipher aad plaintext entry.ciphertext
          entry.metadata keypair ∈ pre
  | _ => True

/-- The log stays authentic; readers leave the cipher in its slot. -/
def authenticity (identity : Identity K) : Discipline (World K) where
  Inv w := Chronicle (Authentic identity) w.log
  Reads v w := w.cipher = v.cipher ∧ v.log <+: w.log ∧
    (Chronicle (Authentic identity) v.log → Chronicle (Authentic identity) w.log)
  Moves v w := v.log <+: w.log ∧
    (Chronicle (Authentic identity) v.log → Chronicle (Authentic identity) w.log)
  reads_refl _ := ⟨rfl, List.prefix_rfl, id⟩
  reads_trans h₁ h₂ := ⟨h₂.1.trans h₁.1, h₁.2.1.trans h₂.2.1, h₂.2.2 ∘ h₁.2.2⟩
  moves_refl _ := ⟨List.prefix_rfl, id⟩
  moves_trans h₁ h₂ := ⟨h₁.1.trans h₂.1, h₂.2 ∘ h₁.2⟩
  moves_of_reads h := h.2
  inv_of_reads hinv h := h.2.2 hinv

variable {identity : Identity K} {env : Environment K}

theorem recording_authenticity : Recording (authenticity identity) where
  cipher h := h.1
  log h := h.1

theorem moves_of_log_eq {v w : World K} (h : w.log = v.log) :
    (authenticity identity).Moves v w := by
  refine ⟨by rw [h], ?_⟩
  rw [h]
  exact id

theorem moves_of_snoc {v w : World K} {e : Event K} (h : w.log = v.log ++ [e])
    (he : Authentic identity v.log e) : (authenticity identity).Moves v w := by
  refine ⟨by rw [h]; exact List.prefix_append _ _, fun hv => ?_⟩
  rw [h]
  exact hv.snoc he

/-! ## What a task knows -/

/-- The lock is held, and the cipher is in its slot. -/
def Locked (identity : Identity K) (before : List (Event K))
    (F : List (Event K) → Prop) (cipher : CipherId) (w : World K) : Prop :=
  InOrder (authenticity identity) before F w ∧ w.cipher = some cipher

section Knowledge

variable {before : List (Event K)} {F G : List (Event K) → Prop}
  {cipher : CipherId} {guard : Guard} {w : World K}

theorem stable_since (hF : Rising F) :
    (authenticity identity).Stable guard (Since before F) :=
  recording_authenticity.stable_since hF

/-- Whatever a task may do keeps the log in order. -/
theorem InOrder.moves {w' : World K} (h : InOrder (authenticity identity) before F w)
    (hF : Rising F) (hmoves : (authenticity identity).Moves w w') :
    InOrder (authenticity identity) before F w' :=
  ⟨⟨h.1.1.trans hmoves.1, hF _ _ hmoves.1 h.1.2⟩, hmoves.2 h.2⟩

theorem held_locked (hF : Rising F) (hguard : guard ≠ .none) :
    Held (authenticity identity) guard (Locked identity before F cipher) where
  stable := by
    cases guard with
    | none => exact absurd rfl hguard
    | read =>
        exact (held_inOrder recording_authenticity hF hguard).stable.and
          (recording_authenticity.stable_cipher hguard _)
    | write => exact stable_write _
  inv _ _ h := h.1.2

theorem Locked.mono (h : Locked identity before F cipher w)
    (hFG : ∀ l, F l → G l) : Locked identity before G cipher w :=
  ⟨h.1.mono hFG, h.2⟩

/-- One more authentic event. -/
theorem Locked.snoc {e : Event K} (h : Locked identity before F cipher w)
    (he : Authentic identity w.log e) (hG : G (w.log ++ [e])) :
    Locked identity before G cipher (w.record [e]) :=
  ⟨⟨⟨h.1.1.1.trans (List.prefix_append _ _), hG⟩, h.1.2.snoc he⟩, h.2⟩

end Knowledge

/-! ## Accepted entries -/

/-- An entry with this keypair and metadata was accepted under the label after
the history `before`. -/
def Accepted (before : List (Event K)) (label : String) (opened : OpenedEntry K)
    (log : List (Event K)) : Prop :=
  ∃ cipher entry, entry.metadata = opened.metadata ∧
    Recorded before (.accepted (some cipher) cipher label entry opened.keypair) log

/-- An entry was stored under the label with this version. -/
def Stored (before : List (Event K)) (kind : Mutation) (label : String)
    (version : Fin (2 ^ 32)) (keypair : K) (log : List (Event K)) : Prop :=
  ∃ entry, entry.metadata.label = label ∧ entry.metadata.version = version ∧
    Recorded before (.stored kind entry keypair) log

/-- A key that can expire was accepted under the label, and removed after
that. -/
def Discarded (before : List (Event K)) (label : String) (log : List (Event K)) :
    Prop :=
  ∃ opened accepted, opened.metadata.label = label ∧
    opened.metadata.expiresAt.isSome = true ∧
    Accepted before label opened accepted ∧
    Recorded accepted (.removed label) log

/-- The entry is what the cipher made of an accepted one. -/
def CarriedOver (before : List (Event K)) (cipher : CipherId) (entry : EncryptedEntry)
    (log : List (Event K)) : Prop :=
  ∃ keypair plaintext,
    Accepted before entry.metadata.label ⟨keypair, entry.metadata⟩ log ∧
    Recorded before (.sealed cipher (metadataAad entry.metadata) plaintext
      entry.ciphertext entry.metadata keypair) log

theorem rising_accepted (before : List (Event K)) (label : String)
    (opened : OpenedEntry K) : Rising (Accepted before label opened) := by
  rintro l l' hl ⟨cipher, entry, hmetadata, hrecorded⟩
  exact ⟨cipher, entry, hmetadata, hrecorded.mono hl⟩

theorem rising_stored (before : List (Event K)) (kind : Mutation)
    (label : String) (version : Fin (2 ^ 32)) (keypair : K) :
    Rising (Stored before kind label version keypair) := by
  rintro l l' hl ⟨entry, hlabel, hversion, hrecorded⟩
  exact ⟨entry, hlabel, hversion, hrecorded.mono hl⟩

theorem rising_discarded (before : List (Event K)) (label : String) :
    Rising (Discarded before label) := by
  rintro l l' hl ⟨opened, accepted, hlabel, hexpires, haccepted, hrecorded⟩
  exact ⟨opened, accepted, hlabel, hexpires, haccepted, hrecorded.mono hl⟩

theorem rising_carriedOver (before : List (Event K)) (cipher : CipherId)
    (entry : EncryptedEntry) : Rising (CarriedOver before cipher entry) := by
  rintro l l' hl ⟨keypair, plaintext, haccepted, hsealed⟩
  exact ⟨keypair, plaintext, rising_accepted _ _ _ l l' hl haccepted, hsealed.mono hl⟩

/-- What decrypts was sealed for the same metadata and the same keypair. -/
theorem sealed_of_decrypted (hideal : env.Ideal) (hround : identity.RoundTrips)
    {log : List (Event K)} (hlog : Chronicle (Authentic identity) log)
    {cipher : CipherId} {entry : EncryptedEntry} {plaintext : Bytes} {keypair : K}
    (hdec : Decrypted env cipher entry plaintext log)
    (hkeypair : identity.fromProtobufEncoding plaintext = .ok keypair) :
    Event.sealed cipher (metadataAad entry.metadata) plaintext entry.ciphertext
      entry.metadata keypair ∈ log := by
  obtain ⟨pre, hpre, hdecrypts⟩ := hdec
  obtain ⟨metadata, sealedKeypair, hmem⟩ := hideal _ _ _ _ _ hdecrypts
  have hmem := hpre.subset hmem
  obtain ⟨before, after, heq⟩ := List.mem_iff_append.mp hmem
  obtain ⟨haad, hencoding⟩ := hlog before _ after heq
  obtain rfl : entry.metadata = metadata := eq_of_metadataAad_eq haad
  have hsame := (hround _ _ hencoding).symm.trans hkeypair
  obtain rfl : sealedKeypair = keypair := Except.ok.inj hsame
  exact hmem

section Entries

variable {before : List (Event K)} {F : List (Event K) → Prop}
  {cipher : CipherId} {guard : Guard} {detached stops : Bool} {label : String}

theorem spec_openEntry_authentic (hideal : env.Ideal) (hround : identity.RoundTrips)
    (hF : Rising F) (hguard : guard ≠ .none) (entry : EncryptedEntry) :
    Spec (authenticity identity) env stops
      (View.Has guard detached (Locked identity before F cipher))
      (openEntry identity cipher label entry)
      fun opened => View.Has guard detached fun w =>
        Locked identity before (fun l => F l ∧ Accepted before label opened l)
          cipher w ∧ opened.metadata = entry.metadata := by
  refine spec_openEntry recording_authenticity hguard (held_locked hF hguard) ?_ ?_
  · intro opened
    refine (held_locked ?_ hguard).stable.and fun _ _ _ h => h
    exact hF.and (rising_accepted before label opened)
  · intro w plaintext keypair hw hlabel hdec hkeypair _
    have hsealed := sealed_of_decrypted hideal hround hw.1.2 hdec hkeypair
    have hauthentic : Authentic identity w.log
        (.accepted w.cipher cipher label entry keypair) :=
      ⟨hw.2, hlabel, _, _, hsealed⟩
    refine ⟨?_, hw.snoc hauthentic ⟨hF _ _ (List.prefix_append _ _) hw.1.1.2,
      cipher, entry, rfl, ?_⟩, rfl⟩
    · cases guard with
      | none => exact absurd rfl hguard
      | read => exact ⟨rfl, moves_of_snoc rfl hauthentic⟩
      | write => exact moves_of_snoc rfl hauthentic
    · rw [hw.2]
      exact recorded_snoc hw.1.1.1

/-- Some entry or none was found; what was found is accepted. -/
theorem spec_authenticatedEntry (hideal : env.Ideal) (hround : identity.RoundTrips) :
    Spec (authenticity identity) env stops
      (View.Has .none detached (Since before fun _ => True))
      (authenticatedEntry identity label)
      fun found => View.Has .none detached (Since before fun l =>
        ∀ opened, found = some opened → Accepted before label opened l) := by
  refine (spec_readLock recording_authenticity
    (stable_since rising_true)).bind fun cipher => ?_
  change Spec _ _ _ (View.Has .read detached
    (Locked identity before (fun _ => True) cipher)) _ _
  have hheld : Held (authenticity identity) .read
      (Locked identity before (fun _ => True) cipher) :=
    held_locked rising_true nofun
  refine (spec_backendGet (B := fun _ => Locked identity before (fun _ => True)
    cipher) (by decide) hheld (fun _ => hheld.stable) fun _ _ hw _ => hw).bind ?_
  rintro (_ | entry)
  · refine (spec_unlock hheld (stable_since rising_true)
      fun _ hw => hw.1.1).bind fun _ => ?_
    exact spec_pure (stable_since rising_true).lasting fun v hv =>
      hv.mono fun w hw => ⟨hw.1, nofun⟩
  · refine (spec_openEntry_authentic hideal hround rising_true (by decide) entry).bind
      fun opened => spec_of_fact fun _ => ?_
    have hrising := rising_true.and (rising_accepted before label opened)
    refine (spec_unlock (held_locked hrising (by decide)) (stable_since hrising)
      fun _ hw => hw.1.1).bind fun _ => ?_
    refine spec_pure (stable_since hrising).lasting fun v hv => hv.mono ?_
    rintro w ⟨hbefore, -, haccepted⟩
    refine ⟨hbefore, ?_⟩
    rintro _ ⟨⟩
    exact haccepted

/-! ### Lists of entries -/

/-- Entries with the metadata of others have their labels. -/
theorem nodup_labels {α β : Type} {f : α → KeyMetadata} {g : β → KeyMetadata}
    {xs : List α} {ys : List β} (h : xs.map f = ys.map g)
    (hnodup : (ys.map fun y => (g y).label).Nodup) :
    (xs.map fun x => (f x).label).Nodup := by
  have hlabels := congrArg (List.map (·.label)) h
  rw [List.map_map, List.map_map] at hlabels
  exact hlabels ▸ hnodup

theorem spec_loadListed {A : World K → Prop} (hguard : guard ≠ .none)
    (hA : Held (authenticity identity) guard A) (listed : List KeyMetadata)
    (labels : List String) :
    Spec (authenticity identity) env stops (View.Has guard detached A)
      (loadListed listed labels)
      fun entries => View.Has guard detached fun w =>
        A w ∧ Loaded labels entries := by
  induction listed generalizing labels with
  | nil =>
      exact spec_pure hA.secure.lasting fun v hv =>
        hv.mono fun w hw => ⟨hw, List.nodup_nil, nofun⟩
  | cons metadata rest ih =>
      refine spec_checkLabel hA.secure fun hvalid => ?_
      apply spec_unless hA.secure
      intro hnew
      refine (spec_backendGet (B := fun _ => A) hguard hA
        (fun _ => hA.stable) fun _ _ hw _ => hw).bind ?_
      rintro (_ | entry)
      · exact spec_throw hA.secure _
      · apply spec_unless hA.secure
        intro hsame
        rw [not_not] at hsame
        obtain rfl := eq_of_sameMetadata hsame
        refine (ih (entry.metadata.label :: labels)).bind fun entries =>
          spec_of_fact fun hloaded => ?_
        exact spec_pure hA.secure.lasting fun v hv =>
          hv.mono fun w hw => ⟨hw, loaded_cons hvalid hnew hloaded⟩

theorem spec_loadEntries {A : World K → Prop} (hguard : guard ≠ .none)
    (hA : Held (authenticity identity) guard A) :
    Spec (authenticity identity) env stops (View.Has guard detached A) loadEntries
      fun entries => View.Has guard detached fun w => A w ∧ Loaded [] entries := by
  have hlist : Spec (authenticity identity) env stops (View.Has guard detached A)
      (ExceptT.mk (Prog.op Op.list)) fun _ => View.Has guard detached A := by
    refine spec_fallible hA fun v hv => ok_shared (R := Reply) (o := Op.list)
      (B := Outcome A fun _ => A) rfl hv hA.stable
      (stable_outcome hA.stable fun _ => hA.stable) hA.leaves ?_
    rintro w r w' hw ⟨-, rfl⟩
    refine ⟨may_refl hguard w', ?_⟩
    cases r with
    | ok listed => exact hw
    | error e => exact hw
  exact hlist.bind fun listed => spec_loadListed hguard hA listed []

/-- All opened entries were accepted under their labels. -/
theorem spec_openEntries (hideal : env.Ideal) (hround : identity.RoundTrips)
    (hF : Rising F) (hguard : guard ≠ .none) (entries : List EncryptedEntry) :
    Spec (authenticity identity) env stops
      (View.Has guard detached (Locked identity before F cipher))
      (openEntries identity cipher entries)
      fun opened => View.Has guard detached fun w =>
        Locked identity before (fun l => F l ∧ ∀ o ∈ opened,
          Accepted before o.metadata.label o l) cipher w ∧
        opened.map (·.metadata) = entries.map (·.metadata) := by
  induction entries generalizing F with
  | nil =>
      refine spec_pure (held_locked hF hguard).secure.lasting fun v hv => ?_
      exact hv.mono fun w hw => ⟨hw.mono fun l hl => ⟨hl, nofun⟩, rfl⟩
  | cons entry rest ih =>
      refine (spec_openEntry_authentic hideal hround hF hguard entry).bind
        fun opened => spec_of_fact fun hopened => ?_
      have hrising := hF.and
        (rising_accepted before entry.metadata.label opened)
      refine (ih hrising).bind fun others => spec_of_fact fun hothers => ?_
      refine spec_pure (held_locked ?_ hguard).secure.lasting fun v hv => hv.mono ?_
      · intro l l' hl h
        exact ⟨hrising l l' hl h.1, fun o ho =>
          rising_accepted before _ o l l' hl (h.2 o ho)⟩
      · intro w hw
        refine ⟨hw.mono ?_, by rw [List.map_cons, List.map_cons, hopened, hothers]⟩
        rintro l ⟨⟨hl, haccepted⟩, hrest⟩
        refine ⟨hl, fun o ho => ?_⟩
        rcases List.mem_cons.mp ho with rfl | ho
        · rw [hopened]
          exact haccepted
        · exact hrest o ho

end Entries

/-! ## Mutations -/

section Mutations

variable {before : List (Event K)} {F : List (Event K) → Prop}
  {cipher : CipherId} {detached stops : Bool} {label : Label} {keypair : K}

/-- A new entry, and the record of its sealing. -/
theorem spec_sealEntry_authentic (hF : Rising F) (cipher' : CipherId)
    (metadata : KeyMetadata) (keypair : K) :
    Spec (authenticity identity) env stops
      (View.Has .write detached (Locked identity before F cipher))
      (sealEntry identity cipher' metadata keypair)
      fun entry => View.Has .write detached fun w =>
        Locked identity before (fun l => F l ∧ ∃ plaintext,
          Recorded before (.sealed cipher' (metadataAad metadata) plaintext
            entry.ciphertext metadata keypair) l) cipher w ∧
        entry.metadata = metadata := by
  refine spec_sealEntry (held_locked hF nofun) ?_
  intro w plaintext ciphertext hw hplain _
  have hauthentic : Authentic identity w.log (.sealed cipher'
      (metadataAad metadata) plaintext ciphertext metadata keypair) :=
    ⟨rfl, hplain⟩
  exact ⟨moves_of_snoc rfl hauthentic, hw.snoc hauthentic
    ⟨hF _ _ (List.prefix_append _ _) hw.1.1.2, plaintext, recorded_snoc hw.1.1.1⟩, rfl⟩

/-- The work of a mutation may record what needs no justification. -/
theorem spec_finishMutation_authentic {α : Type} {work : KeychainM K α}
    {G : Except Error α → List (Event K) → Prop}
    (hwork : ∀ v : View (World K),
      v.Has .write true (InOrder (authenticity identity) before F) →
      (authenticity identity).Ok (machine env) Op.kind stops
        (fun r v =>
          v.Has .write true (InOrder (authenticity identity) before (G r))) work.run v) :
    Spec (authenticity identity) env stops
      (View.Has .write detached (Locked identity before F cipher))
      (finishMutation work)
      fun a =>
        View.Has .write true (InOrder (authenticity identity) before (G (.ok a))) := by
  refine spec_finishMutation cipher
    (C := fun r => InOrder (authenticity identity) before (G r))
    ?_ ?_ ?_ ?_
  · exact fun w hw => ⟨hw.1.2, hw.2, moves_of_log_eq rfl⟩
  · intro v hv
    refine hwork v (hv.mono ?_)
    rintro w ⟨u, hu, rfl⟩
    exact hu.1
  · exact fun r _ _ w hw => hw.2
  · intro r w hw
    refine ⟨moves_of_log_eq rfl, ?_⟩
    cases r with
    | ok a => exact hw
    | error e => exact hw.2

theorem spec_store (hF : Rising F) {disabled : Bool} {expiry : Expiry}
    {version : Fin (2 ^ 32)} {kind : Mutation} :
    Spec (authenticity identity) env stops
      (View.Has .write detached (Locked identity before F cipher))
      (store identity disabled label keypair expiry version kind cipher)
      fun _ => View.Has .write true (InOrder (authenticity identity) before fun l => F l ∧
        Stored before kind label.1 version keypair l) := by
  have hheld : Held (authenticity identity) .write
      (Locked identity before F cipher) := held_locked hF nofun
  refine spec_disableCheck hheld.secure ?_
  refine spec_checkLabel hheld.secure fun _ => ?_
  refine (spec_free (B := fun _ => Locked identity before F cipher) rfl hheld
    (fun _ => hheld.stable) ?_).bind fun createdAt => ?_
  · rintro w r w' hw ⟨-, rfl⟩
    exact ⟨rfl, hw⟩
  refine (spec_sealEntry_authentic hF _ _ _).bind fun entry =>
    spec_of_fact fun hentry => ?_
  refine (spec_finishMutation_authentic (F := F)
    (G := fun r l => F l ∧ ∀ u, r = .ok u →
      Stored before kind label.1 version keypair l) ?_).mono
    (fun v hv => hv.mono fun w hw => hw.mono fun l hl => hl.1)
    (fun u v hv => hv.mono fun w hw => hw.mono fun l hl =>
      ⟨hl.1, hl.2 u rfl⟩) fun _ _ h => h
  intro v hv
  refine ok_shared (R := Reply) (o := Op.put entry kind keypair) rfl hv
    (stable_write _) (fun _ => stable_write _) (fun _ _ w hw => hw.2) ?_
  rintro w r w' ⟨hw, hinv⟩ ⟨store, -, rfl⟩
  cases r with
  | ok u =>
      have hmoves : (authenticity identity).Moves w
          (({ w with store := store }).record [.stored kind entry keypair]) :=
        moves_of_snoc rfl trivial
      refine ⟨hmoves, ⟨hw.1.trans hmoves.1, hF _ _ hmoves.1 hw.2, ?_⟩, hmoves.2 hinv⟩
      intro _ _
      exact ⟨entry, by rw [hentry], by rw [hentry], recorded_snoc hw.1⟩
  | error e =>
      rw [putEvents, World.record_nil]
      exact ⟨moves_of_log_eq rfl, ⟨hw.1, hw.2, nofun⟩, hinv⟩

theorem moves_remove (w : World K) (store : Store) (label : String)
    (r : Except Error Bool) : (authenticity identity).Moves w
      (({ w with store := store }).record (removeEvents label r)) := by
  rcases r with e | _ | _
  · exact moves_of_log_eq (List.append_nil _)
  · exact moves_of_log_eq (List.append_nil _)
  · exact moves_of_snoc rfl trivial

/-- Nothing of what is known depends on what the backend does. -/
theorem ok_backend {α : Type} {p : Prog (Op K) Reply α} {v : View (World K)}
    (hF : Rising F)
    (hp : p.Calls fun o => match o with
      | .get _ | .putMany _ | .remove _ | .setCipher _ => True
      | _ => False)
    (hv : v.Has .write true (InOrder (authenticity identity) before F)) :
    (authenticity identity).Ok (machine env) Op.kind stops
      (fun _ v => v.Has .write true (InOrder (authenticity identity) before F)) p v := by
  refine ok_of_calls ?_ (fun _ _ w hw => hw.2) ?_ hp hv
  · intro o ho
    cases o <;> first | rfl | exact ho.elim
  · intro o w r w' ho hw hstep
    have hmoves : (authenticity identity).Moves w w' := by
      cases o with
      | get label =>
          obtain ⟨-, rfl⟩ := hstep
          exact moves_of_log_eq rfl
      | putMany entries =>
          obtain ⟨store, -, rfl⟩ := hstep
          exact moves_of_snoc rfl trivial
      | remove label =>
          obtain ⟨store, -, rfl⟩ := hstep
          exact moves_remove w store label r
      | setCipher cipher =>
          obtain rfl := hstep
          exact moves_of_log_eq rfl
      | _ => exact ho.elim
    exact ⟨hmoves, hw.moves hF hmoves⟩

end Mutations

/-! ## Methods -/

/-- What the record says of a method's result: it comes from accepted entries,
or from one that the method has stored.  The other methods accept nothing. -/
def Vouched (before log : List (Event K)) : Call K → Value K → Prop
  | .get label, .keypair keypair =>
      ∃ metadata, Accepted before label ⟨keypair, metadata⟩ log
  | .metadata label, .metadata (some metadata) =>
      ∃ keypair, Accepted before label ⟨keypair, metadata⟩ log
  | .list, .listed listed =>
      (listed.map (·.label)).Nodup ∧ ∀ metadata ∈ listed,
        validateLabel metadata.label = .ok () ∧
        ∃ keypair, Accepted before metadata.label ⟨keypair, metadata⟩ log
  | .getOrCreate label, .keypair keypair =>
      (∃ metadata, Accepted before label.1 ⟨keypair, metadata⟩ log) ∨
        Stored before .create label.1 1 keypair log
  | .rotate label _ _, .unit =>
      ∃ opened keypair, Accepted before label.1 opened log ∧
        Stored before .rotate label.1 (nextVersion opened.metadata.version)
          keypair log
  | .purgeExpired, .count removed =>
      ∃ labels : List String, labels.Nodup ∧ labels.length = removed ∧
        ∀ label ∈ labels, Discarded before label log
  | .migrateCipher newCipher, .unit =>
      ∃ entries : List EncryptedEntry,
        (entries.map (·.metadata.label)).Nodup ∧
        (∀ entry ∈ entries, CarriedOver before newCipher entry log) ∧
        Recorded before (.replaced entries true) log
  | _, _ => True

theorem rising_vouched (before : List (Event K)) (call : Call K)
    (value : Value K) : Rising fun log => Vouched before log call value := by
  intro l l' hl h
  cases call <;> cases value <;> try trivial
  case rotate.unit =>
      obtain ⟨opened, keypair, haccepted, hstored⟩ := h
      exact ⟨opened, keypair, rising_accepted _ _ _ _ _ hl haccepted,
        rising_stored _ _ _ _ _ _ _ hl hstored⟩
  case get.keypair =>
      obtain ⟨metadata, haccepted⟩ := h
      exact ⟨metadata, rising_accepted _ _ _ _ _ hl haccepted⟩
  case getOrCreate.keypair =>
      rcases h with ⟨metadata, haccepted⟩ | hstored
      · exact Or.inl ⟨metadata, rising_accepted _ _ _ _ _ hl haccepted⟩
      · exact Or.inr (rising_stored _ _ _ _ _ _ _ hl hstored)
  case list.listed =>
      refine ⟨h.1, fun metadata hmem => ⟨(h.2 metadata hmem).1, ?_⟩⟩
      obtain ⟨keypair, haccepted⟩ := (h.2 metadata hmem).2
      exact ⟨keypair, rising_accepted _ _ _ _ _ hl haccepted⟩
  case metadata.metadata label found =>
      cases found with
      | none => trivial
      | some metadata =>
          obtain ⟨keypair, haccepted⟩ := h
          exact ⟨keypair, rising_accepted _ _ _ _ _ hl haccepted⟩
  case purgeExpired.count =>
      obtain ⟨labels, hnodup, hlength, hdiscarded⟩ := h
      exact ⟨labels, hnodup, hlength, fun label hlabel =>
        rising_discarded _ _ _ _ hl (hdiscarded label hlabel)⟩
  case migrateCipher.unit =>
      obtain ⟨entries, hnodup, hcarried, hreplaced⟩ := h
      exact ⟨entries, hnodup, fun entry hentry =>
        rising_carriedOver _ _ _ _ _ hl (hcarried entry hentry), hreplaced.mono hl⟩

/-- The method's results are vouched for. -/
def Vouches (identity : Identity K) (env : Environment K) (disabled : Bool)
    (call : Call K) : Prop :=
  ∀ before, Spec (authenticity identity) env true
    (View.Has .none false (Since before fun _ => True))
    (method identity disabled call)
    fun value v => (authenticity identity).Settled v ∧
      Vouched before v.world.log call value

section Methods

variable {before : List (Event K)} {F : List (Event K) → Prop}
  {cipher : CipherId} {guard : Guard} {detached : Bool} {disabled : Bool}
  {label : Label} {keypair : K}

/-- A method ends with a value that is vouched for. -/
theorem spec_value {A : World K → Prop} {call : Call K} {value : Value K}
    (hA : Held (authenticity identity) guard A)
    (h : ∀ w, A w → Vouched before w.log call value) :
    Spec (authenticity identity) env true (View.Has guard detached A) (pure value)
      fun value v => (authenticity identity).Settled v ∧
        Vouched before v.world.log call value :=
  spec_pure hA.secure.lasting fun v hv =>
    ⟨hA.secure.settled v hv, h _ hv.holds⟩

theorem spec_writeLock_authentic :
    Spec (authenticity identity) env true
      (View.Has .none detached (Since before fun _ => True)) writeLock
      fun cipher => View.Has .write detached
        (Locked identity before (fun _ => True) cipher) :=
  spec_writeLock recording_authenticity (stable_since rising_true)

/-- Whether an entry is expired changes nothing that is known. -/
theorem spec_isExpired_authentic {A : World K → Prop}
    (hA : Held (authenticity identity) guard A) (metadata : KeyMetadata) :
    Spec (authenticity identity) env true (View.Has guard detached A)
      (isExpired metadata) fun _ => View.Has guard detached A :=
  spec_isExpired (B := fun _ => A) hA (fun _ => hA.stable) (fun _ hw _ => hw)
    fun _ _ _ hw _ _ => hw

theorem spec_insert (expiry : Expiry) :
    Spec (authenticity identity) env true
      (View.Has .none detached (Since before fun _ => True))
      (insert identity disabled label keypair expiry)
      fun _ =>
        View.Has .write true (InOrder (authenticity identity) before fun _ => True) :=
  spec_writeLock_authentic.bind fun _ => (spec_store rising_true).mono
    (fun _ h => h) (fun _ _ hv => hv.mono fun _ hw => hw.mono fun _ h => h.1)
    fun _ _ h => h

theorem vouches_insert (expiry : Expiry) :
    Vouches identity env disabled (.insert label keypair expiry) := fun _ =>
  (spec_insert expiry).bind fun _ =>
    spec_value (held_inOrder recording_authenticity rising_true (by decide))
      fun _ _ => trivial

theorem vouches_generate (keyType : KeyType) :
    Vouches identity env disabled (.generate label keyType) := by
  intro before
  have hgenerate : Spec (authenticity identity) env true
      (View.Has .none false (Since before fun _ => True))
      (generate identity disabled label keyType)
      fun _ =>
        View.Has .write true (InOrder (authenticity identity) before fun _ => True) := by
    refine (spec_generateKeypair (held_none (stable_since rising_true))
      keyType).bind fun keypair => (spec_insert .never).bind fun _ => ?_
    exact spec_pure (held_inOrder recording_authenticity rising_true
      (by decide)).secure.lasting
      fun _ h => h
  exact hgenerate.bind fun _ =>
    spec_value (held_inOrder recording_authenticity rising_true (by decide))
      fun _ _ => trivial

theorem vouches_rotate (hideal : env.Ideal) (hround : identity.RoundTrips)
    (key : RotateKey K) (expiry : Expiry) :
    Vouches identity env disabled (.rotate label key expiry) := by
  intro before
  have hheld : ∀ cipher, Held (authenticity identity) .write
      (Locked identity before (fun _ => True) cipher) :=
    fun cipher => held_locked rising_true (by decide)
  have hrotate : Spec (authenticity identity) env true
      (View.Has .none false (Since before fun _ => True))
      (rotate identity disabled label key expiry)
      fun _ => View.Has .write true (InOrder (authenticity identity) before fun l =>
        ∃ opened keypair, Accepted before label.1 opened l ∧
          Stored before .rotate label.1 (nextVersion opened.metadata.version)
            keypair l) := by
    refine spec_writeLock_authentic.bind fun cipher => ?_
    refine spec_checkLabel (hheld cipher).secure fun _ => ?_
    refine (spec_backendGet (B := fun _ => Locked identity before (fun _ => True)
      cipher) (by decide) (hheld cipher) (fun _ => (hheld cipher).stable)
      fun _ _ hw _ => hw).bind ?_
    rintro (_ | entry)
    · exact spec_throw (hheld cipher).secure _
    · refine (spec_openEntry_authentic hideal hround rising_true (by decide)
        entry).bind fun opened => spec_of_fact fun _ => ?_
      have hrising := rising_true.and (rising_accepted before label.1 opened)
      refine Triple.bind (B := fun _ => View.Has .write false
        (Locked identity before (fun l => True ∧ Accepted before label.1 opened l)
          cipher)) ?_ fun keypair => ?_
      · cases key with
        | keypair keypair =>
            exact spec_pure (stable_write _).lasting fun _ h => h
        | generate keyType =>
            exact spec_generateKeypair (held_locked hrising (by decide)) keyType
      · refine (spec_store hrising).mono (fun _ h => h) ?_ fun _ _ h => h
        exact fun _ _ hv => hv.mono fun _ hw => hw.mono fun _ h =>
          ⟨opened, keypair, h.1.2, h.2⟩
  refine hrotate.bind fun _ =>
    spec_value (held_inOrder recording_authenticity ?_ (by decide))
    fun _ hw => hw.1.2
  exact rising_vouched before (.rotate label key expiry) .unit

theorem vouches_get (hideal : env.Ideal) (hround : identity.RoundTrips)
    (label : String) : Vouches identity env disabled (.get label) := by
  intro before
  have hstart : Held (authenticity identity) .none
      (Since before fun _ => True) := held_none (stable_since rising_true)
  have hget : Spec (authenticity identity) env true
      (View.Has .none false (Since before fun _ => True))
      (get identity disabled label)
      fun keypair => View.Has .none false (Since before fun l =>
        ∃ metadata, Accepted before label ⟨keypair, metadata⟩ l) := by
    refine spec_disableCheck hstart.secure ?_
    refine spec_checkLabel hstart.secure fun _ => ?_
    refine (spec_authenticatedEntry hideal hround).bind ?_
    rintro (_ | opened)
    · exact spec_throw (held_none (stable_since fun _ _ _ _ => nofun)).secure _
    · have hrising : Rising fun l => ∀ o, some opened = some o →
          Accepted before label o l := fun l l' hl h o ho =>
        rising_accepted before label o l l' hl (h o ho)
      have hheld : Held (authenticity identity) .none (Since before fun l =>
        ∀ o, some opened = some o → Accepted before label o l) :=
        held_none (stable_since hrising)
      refine (spec_isExpired_authentic hheld opened.metadata).bind fun expired => ?_
      apply spec_unless hheld.secure
      intro _
      exact spec_pure hheld.secure.lasting fun v hv => hv.mono fun w hw =>
        ⟨hw.1, opened.metadata, hw.2 opened rfl⟩
  refine hget.bind fun keypair => spec_value (held_none (stable_since ?_))
    fun _ hw => hw.2
  exact rising_vouched before (.get label) (.keypair keypair)

theorem vouches_getOrCreate (hideal : env.Ideal) (hround : identity.RoundTrips) :
    Vouches identity env disabled (.getOrCreate label) := by
  intro before
  have hheld : ∀ cipher, Held (authenticity identity) .write
      (Locked identity before (fun _ => True) cipher) :=
    fun cipher => held_locked rising_true (by decide)
  -- an entry that is found is returned by the caller's own task
  have hgetOrCreate : Spec (authenticity identity) env true
      (View.Has .none false (Since before fun _ => True))
      (getOrCreate identity disabled label)
      fun keypair v => ∃ detached, v.Has .write detached
        (InOrder (authenticity identity) before fun l =>
          Vouched before l (.getOrCreate label) (.keypair keypair)) := by
    refine spec_writeLock_authentic.bind fun cipher => ?_
    refine spec_disableCheck (hheld cipher).secure ?_
    refine spec_checkLabel (hheld cipher).secure fun _ => ?_
    refine (spec_backendGet (B := fun _ => Locked identity before (fun _ => True)
      cipher) (by decide) (hheld cipher) (fun _ => (hheld cipher).stable)
      fun _ _ hw _ => hw).bind ?_
    rintro (_ | entry)
    · refine (spec_free (B := fun _ => Locked identity before (fun _ => True)
        cipher) rfl (hheld cipher) (fun _ => stable_write _) ?_).bind
        fun keypair => (spec_store rising_true).bind fun _ => ?_
      · rintro w r w' hw ⟨-, rfl⟩
        exact ⟨rfl, hw⟩
      · refine spec_pure (stable_write _).lasting fun v hv => ⟨true, ?_⟩
        exact hv.mono fun w hw => hw.mono fun l h => Or.inr h.2
    · refine (spec_openEntry_authentic hideal hround rising_true (by decide)
        entry).bind fun opened => spec_of_fact fun _ => ?_
      have hopened : Held (authenticity identity) .write (Locked identity before
          (fun l => True ∧ Accepted before label.1 opened l) cipher) :=
        held_locked (rising_true.and (rising_accepted before label.1 opened))
          (by decide)
      refine (spec_isExpired_authentic hopened opened.metadata).bind fun _ => ?_
      apply spec_unless hopened.secure
      intro _
      refine (spec_shared (B := fun _ => InOrder (authenticity identity) before fun l =>
        Vouched before l (.getOrCreate label) (.keypair opened.keypair)) rfl
        hopened (fun _ => stable_write _) ?_).bind fun _ =>
          spec_pure (stable_write _).lasting fun v hv => ⟨false, hv⟩
      rintro w r w' hw rfl
      have hmoves : (authenticity identity).Moves w
          (w.record [.found label.1 opened.keypair]) := moves_of_snoc rfl trivial
      have hvouched : InOrder (authenticity identity) before (fun l => Vouched before l
          (.getOrCreate label) (.keypair opened.keypair)) w :=
        hw.1.mono fun l h => Or.inl ⟨opened.metadata, h.2⟩
      exact ⟨hmoves, hvouched.moves (rising_vouched before _ _) hmoves⟩
  refine hgetOrCreate.bind fun keypair => ?_
  rintro v ⟨detached, hv⟩
  exact spec_value (held_inOrder recording_authenticity
    (rising_vouched before _ _) (by decide))
    (fun _ hw => hw.1.2) v hv

theorem vouches_metadata (hideal : env.Ideal) (hround : identity.RoundTrips)
    (label : String) : Vouches identity env disabled (.metadata label) := by
  intro before
  have hmetadata : Spec (authenticity identity) env true
      (View.Has .none false (Since before fun _ => True))
      (metadata identity label)
      fun found => View.Has .none false (Since before fun l =>
        Vouched before l (.metadata label) (.metadata found)) := by
    refine spec_checkLabel (held_none (stable_since rising_true)).secure
      fun _ => ?_
    refine (spec_authenticatedEntry hideal hround).bind fun found => ?_
    refine spec_pure (stable_since ?_).lasting fun v hv => hv.mono fun w hw => ?_
    · exact fun l l' hl h o ho => rising_accepted before label o l l' hl (h o ho)
    · cases found with
      | none => exact ⟨hw.1, trivial⟩
      | some opened => exact ⟨hw.1, opened.keypair, hw.2 opened rfl⟩
  exact hmetadata.bind fun found => spec_value
    (held_none (stable_since (rising_vouched before _ _))) fun _ hw => hw.2

theorem vouches_list (hideal : env.Ideal) (hround : identity.RoundTrips) :
    Vouches identity env disabled .list := by
  intro before
  have hlist : Spec (authenticity identity) env true
      (View.Has .none false (Since before fun _ => True)) (list identity)
      fun listed => View.Has .none false (Since before fun l =>
        Vouched before l .list (.listed listed)) := by
    refine Triple.bind (B := fun opened => View.Has .none false (Since before
      fun l => Vouched before l .list (.listed (opened.map (·.metadata))))) ?_
      fun opened => spec_pure (stable_since (rising_vouched before _ _)).lasting
        fun _ h => h
    refine (spec_readLock recording_authenticity
      (stable_since rising_true)).bind fun cipher => ?_
    change Spec _ _ _ (View.Has .read false
      (Locked identity before (fun _ => True) cipher)) _ _
    refine (spec_loadEntries (by decide) (held_locked rising_true
      (by decide))).bind fun entries => spec_of_fact fun hloaded => ?_
    refine (spec_openEntries hideal hround rising_true (by decide)
      entries).bind fun opened => spec_of_fact fun hopened => ?_
    have hvouched := rising_vouched before .list
      (.listed (opened.map (·.metadata)))
    refine (spec_unlock (held_locked ?_ (by decide)) (stable_since hvouched)
      ?_).bind fun _ => spec_pure (stable_since hvouched).lasting fun _ h => h
    · exact rising_true.and fun l l' hl h o ho =>
        rising_accepted before _ o l l' hl (h o ho)
    · intro w hw
      refine ⟨hw.1.1.1, by rw [List.map_map]; exact nodup_labels hopened hloaded.1, ?_⟩
      intro m hm
      constructor
      · rw [hopened] at hm
        obtain ⟨entry, hentry, rfl⟩ := List.mem_map.mp hm
        exact (hloaded.2 entry hentry).1
      · obtain ⟨o, ho, rfl⟩ := List.mem_map.mp hm
        exact ⟨o.keypair, hw.1.1.2.2 o ho⟩
  exact hlist.bind fun listed => spec_value
    (held_none (stable_since (rising_vouched before _ _))) fun _ hw => hw.2

theorem vouches_remove (label : String) :
    Vouches identity env disabled (.remove label) := by
  intro before
  have hremove : Spec (authenticity identity) env true
      (View.Has .none false (Since before fun _ => True)) (remove label)
      fun _ =>
        View.Has .write true (InOrder (authenticity identity) before fun _ => True) := by
    refine spec_writeLock_authentic.bind fun cipher => ?_
    refine spec_checkLabel (held_locked rising_true (by decide)).secure
      fun _ => ?_
    exact spec_finishMutation_authentic (G := fun _ _ => True) fun v hv =>
      ok_backend rising_true (Prog.calls_op trivial) hv
  exact hremove.bind fun _ =>
    spec_value (held_inOrder recording_authenticity rising_true (by decide))
      fun _ _ => trivial

/-- A removal: what it finds under the label is discarded. -/
theorem triple_remove (hF : Rising F) {label : String}
    (haccepted : ∀ l, F l → ∃ opened : OpenedEntry K, opened.metadata.label = label ∧
      opened.metadata.expiresAt.isSome = true ∧ Accepted before label opened l) :
    (authenticity identity).Triple (machine env) Op.kind true
      (View.Has .write true (InOrder (authenticity identity) before F))
      (ExceptT.mk (Prog.op (Op.remove label)) : KeychainM K Bool)
      (fun existed => View.Has .write true (InOrder (authenticity identity) before
        fun l => F l ∧ (existed = true → Discarded before label l)))
      fun _ => View.Has .write true
        (InOrder (authenticity identity) before fun _ => True) := by
  intro v hv
  refine (ok_shared (R := Reply) (o := Op.remove label)
    (B := fun r => InOrder (authenticity identity) before fun l =>
      F l ∧ (r = .ok true → Discarded before label l))
    rfl hv (stable_write _) (fun _ => stable_write _) (fun _ _ w hw => hw.2) ?_).mono ?_
  · rintro w r w' hw ⟨store, -, rfl⟩
    obtain ⟨opened, hlabel, hexpires, hopened⟩ := haccepted _ hw.1.2
    have hw' := hw.moves hF (moves_remove w store label r)
    refine ⟨moves_remove w store label r, ⟨hw'.1.1, hw'.1.2, ?_⟩, hw'.2⟩
    rintro rfl
    exact ⟨opened, w.log, hlabel, hexpires, hopened, recorded_snoc List.prefix_rfl⟩
  · rintro (e | existed) v' hv'
    · exact hv'.mono fun w hw => hw.mono fun _ _ => trivial
    · refine hv'.mono fun w hw => hw.mono fun l hl => ⟨hl.1, ?_⟩
      rintro rfl
      exact hl.2 rfl

/-- Removing accepted keys that can expire: every label that is counted was
removed. -/
theorem triple_removeLabels (hF : Rising F) {labels gone : List String}
    (haccepted : ∀ label ∈ labels, ∀ l, F l → ∃ opened : OpenedEntry K,
      opened.metadata.label = label ∧ opened.metadata.expiresAt.isSome = true ∧
        Accepted before label opened l)
    (hnodup : (gone ++ labels).Nodup) :
    (authenticity identity).Triple (machine env) Op.kind true
      (View.Has .write true (InOrder (authenticity identity) before fun l =>
        F l ∧ ∀ label ∈ gone, Discarded before label l))
      (removeLabels labels gone.length : KeychainM K ℕ)
      (fun removed => View.Has .write true (InOrder (authenticity identity) before
        fun l => Vouched before l .purgeExpired (.count removed)))
      fun _ => View.Has .write true
        (InOrder (authenticity identity) before fun _ => True) := by
  induction labels generalizing gone with
  | nil =>
      refine triple_pure (stable_write _).lasting fun v hv => ?_
      rw [List.append_nil] at hnodup
      exact hv.mono fun w hw => hw.mono fun l hl => ⟨gone, hnodup, rfl, hl.2⟩
  | cons label rest ih =>
      have hgone : Rising fun l => ∀ label ∈ gone, Discarded before label l :=
        fun l l' hl h other hother => rising_discarded before other l l' hl
          (h other hother)
      have hrest := fun other hother => haccepted other (List.mem_cons_of_mem _ hother)
      refine (triple_remove (hF.and hgone) fun l hl =>
        haccepted label List.mem_cons_self l hl.1).bind fun existed => ?_
      cases existed with
      | false =>
          refine (ih hrest (hnodup.sublist ?_)).mono
            (fun v hv => hv.mono fun w hw => hw.mono fun l hl => hl.1)
            (fun _ _ h => h) fun _ _ h => h
          exact (List.sublist_cons_self label rest).append_left gone
      | true =>
          have hnodup' : ((gone ++ [label]) ++ rest).Nodup := by
            rwa [List.append_assoc, List.singleton_append]
          have hmore := ih hrest hnodup'
          rw [List.length_append, List.length_singleton] at hmore
          refine hmore.mono (fun v hv => hv.mono fun w hw => hw.mono ?_)
            (fun _ _ h => h) fun _ _ h => h
          rintro l ⟨⟨hl, hdiscarded⟩, hlast⟩
          refine ⟨hl, fun other hother => ?_⟩
          rcases List.mem_append.mp hother with hother | hother
          · exact hdiscarded other hother
          · obtain rfl := List.mem_singleton.mp hother
            exact hlast rfl

/-- The labels are those of keys that can expire, in their order. -/
theorem spec_expiredLabels {A : World K → Prop}
    (hA : Held (authenticity identity) guard A) (opened : List (OpenedEntry K)) :
    Spec (authenticity identity) env true (View.Has guard detached A)
      (expiredLabels opened) fun labels => View.Has guard detached fun w =>
        A w ∧ labels.Sublist ((opened.filter (·.metadata.expiresAt.isSome)).map
          (·.metadata.label)) := by
  induction opened with
  | nil =>
      exact spec_pure hA.secure.lasting fun v hv =>
        hv.mono fun w hw => ⟨hw, List.Sublist.refl _⟩
  | cons o rest ih =>
      refine (spec_isExpired (B := fun expired w => A w ∧
        (expired = true → o.metadata.expiresAt.isSome = true)) hA
        (fun _ => hA.stable.and fun _ _ _ h => h) ?_ ?_).bind fun expired =>
          spec_of_fact fun hexpires => ih.bind fun labels =>
            spec_of_fact fun hlabels => spec_pure hA.secure.lasting fun v hv =>
              hv.mono fun w hw => ⟨hw, ?_⟩
      · exact fun w hw _ => ⟨hw, fun h => by cases h⟩
      · exact fun w expiry _ hw hexpiry _ => ⟨hw, fun _ => by simp [hexpiry]⟩
      · rw [List.filter_cons]
        cases expired with
        | false =>
            rw [if_neg Bool.false_ne_true]
            split
            · exact hlabels.cons _
            · exact hlabels
        | true =>
            rw [if_pos (hexpires rfl)]
            exact hlabels.cons_cons _

theorem vouches_purgeExpired (hideal : env.Ideal) (hround : identity.RoundTrips) :
    Vouches identity env disabled .purgeExpired := by
  intro before
  have hpurge : Spec (authenticity identity) env true
      (View.Has .none false (Since before fun _ => True)) (purgeExpired identity)
      fun removed v => ∃ detached, v.Has .write detached
        (InOrder (authenticity identity) before fun l =>
          Vouched before l .purgeExpired (.count removed)) := by
    refine spec_writeLock_authentic.bind fun cipher => ?_
    refine (spec_loadEntries (by decide) (held_locked rising_true
      (by decide))).bind fun entries => spec_of_fact fun hloaded => ?_
    refine (spec_openEntries hideal hround rising_true (by decide)
      entries).bind fun opened => spec_of_fact fun hopened => ?_
    have hrising : Rising fun l => True ∧ ∀ o ∈ opened,
        Accepted before o.metadata.label o l :=
      rising_true.and fun l l' hl h o ho => rising_accepted before _ o l l' hl (h o ho)
    have hheld : Held (authenticity identity) .write (Locked identity before
        (fun l => True ∧ ∀ o ∈ opened, Accepted before o.metadata.label o l) cipher) :=
      held_locked hrising (by decide)
    refine (spec_expiredLabels hheld opened).bind fun expired =>
      spec_of_fact fun hexpired => ?_
    split
    · exact spec_pure hheld.secure.lasting fun v hv => ⟨false, hv.mono fun w hw =>
        hw.1.mono fun l _ => ⟨[], List.nodup_nil, rfl, by simp⟩⟩
    · have hnodup : ([] ++ expired).Nodup := by
        refine hexpired.nodup ((List.filter_sublist.map _).nodup ?_)
        exact nodup_labels hopened hloaded.1
      have haccepted : ∀ label ∈ expired, ∀ l,
          (True ∧ ∀ o ∈ opened, Accepted before o.metadata.label o l) →
          ∃ o : OpenedEntry K, o.metadata.label = label ∧
            o.metadata.expiresAt.isSome = true ∧ Accepted before label o l := by
        intro label hlabel l hl
        obtain ⟨o, ho, rfl⟩ := List.mem_map.mp (hexpired.subset hlabel)
        obtain ⟨ho, hexpires⟩ := List.mem_filter.mp ho
        exact ⟨o, rfl, hexpires, hl.2 o ho⟩
      refine (spec_finishMutation_authentic
        (G := fun r l => ∀ removed, r = .ok removed →
          Vouched before l .purgeExpired (.count removed)) fun v hv => ?_).mono
        (fun _ h => h) (fun removed _ hv => ⟨true, hv.mono fun w hw =>
          hw.mono fun l hl => hl removed rfl⟩) fun _ _ h => h
      refine (triple_removeLabels hrising haccepted hnodup v (hv.mono fun w hw =>
        hw.mono fun l hl => ⟨hl, by simp⟩)).mono ?_
      rintro (e | removed) v' hv'
      · exact hv'.mono fun w hw => hw.mono fun l _ removed h => by cases h
      · refine hv'.mono fun w hw => hw.mono fun l hl => ?_
        rintro _ ⟨⟩
        exact hl
  refine hpurge.bind fun removed => ?_
  rintro v ⟨detached, hv⟩
  exact spec_value (held_inOrder recording_authenticity
    (rising_vouched before .purgeExpired (.count removed)) (by decide))
    (fun _ hw => hw.1.2) v hv

/-- Resealing accepts every entry before it seals it anew. -/
theorem spec_reseal (hideal : env.Ideal) (hround : identity.RoundTrips)
    (hF : Rising F) (newCipher : CipherId) (entries : List EncryptedEntry) :
    Spec (authenticity identity) env true
      (View.Has .write detached (Locked identity before F cipher))
      (reseal identity cipher newCipher entries)
      fun resealed => View.Has .write detached fun w =>
        Locked identity before (fun l => F l ∧
          ∀ entry ∈ resealed, CarriedOver before newCipher entry l) cipher w ∧
        resealed.map (·.metadata) = entries.map (·.metadata) := by
  induction entries generalizing F with
  | nil =>
      exact spec_pure (held_locked hF (by decide)).secure.lasting fun v hv =>
        hv.mono fun w hw => ⟨hw.mono fun l hl => ⟨hl, by simp⟩, rfl⟩
  | cons entry rest ih =>
      refine (spec_openEntry_authentic hideal hround hF (by decide)
        entry).bind fun opened => spec_of_fact fun hopened => ?_
      have haccepted := hF.and (rising_accepted before entry.metadata.label opened)
      refine (spec_sealEntry_authentic haccepted newCipher opened.metadata
        opened.keypair).bind fun sealed => spec_of_fact fun hsealed => ?_
      have hcarried := hF.and (rising_carriedOver before newCipher sealed)
      refine Triple.bind ((ih hcarried).mono (fun v hv => hv.mono fun w hw => hw.mono ?_)
        (fun _ _ h => h) fun _ _ h => h) fun others => spec_of_fact fun hothers => ?_
      · rintro l ⟨⟨hl, haccepted⟩, plaintext, hrecorded⟩
        refine ⟨hl, opened.keypair, plaintext, ?_, ?_⟩
        · rw [hsealed, hopened]
          rwa [← hopened] at haccepted ⊢
        · rwa [hsealed]
      · refine spec_pure (stable_write _).lasting fun v hv => hv.mono fun w hw => ?_
        have hmetadata : (sealed :: others).map (·.metadata) =
            (entry :: rest).map (·.metadata) := by
          rw [List.map_cons, List.map_cons, hsealed, hopened, hothers]
        refine ⟨hw.mono ?_, hmetadata⟩
        rintro l ⟨⟨hl, hfirst⟩, hrest⟩
        refine ⟨hl, fun other hother => ?_⟩
        rcases List.mem_cons.mp hother with rfl | hother
        · exact hfirst
        · exact hrest other hother

theorem calls_readBack (originals : List EncryptedEntry) :
    (readBack originals : Prog (Op K) Reply Bool).Calls fun o =>
      match o with
      | .get _ | .putMany _ | .remove _ | .setCipher _ => True
      | _ => False := by
  induction originals with
  | nil => trivial
  | cons original rest ih =>
      refine Prog.Calls.bind (Prog.calls_op trivial) ?_
      rintro (e | _ | entry)
      · trivial
      · trivial
      · dsimp only
        split
        · exact ih
        · trivial

/-- Only entries that `put_many` has taken become the ones in use. -/
theorem triple_replaceAll (hF : Rising F) (newCipher : CipherId)
    (previous : Option CipherId) (originals entries : List EncryptedEntry) :
    (authenticity identity).Triple (machine env) Op.kind true
      (View.Has .write true (InOrder (authenticity identity) before F))
      (replaceAll newCipher previous originals entries : KeychainM K Unit)
      (fun _ => View.Has .write true (InOrder (authenticity identity) before fun l =>
        F l ∧ Recorded before (.replaced entries true) l))
      fun _ => View.Has .write true (InOrder (authenticity identity) before F) := by
  intro v hv
  apply Ok.bind
  refine (ok_shared (R := Reply) (o := Op.putMany entries)
    (B := fun r => InOrder (authenticity identity) before fun l =>
      F l ∧ Recorded before (.replaced entries r.isOk) l)
    rfl hv (stable_write _) (fun _ => stable_write _) (fun _ _ w hw => hw.2) ?_).mono ?_
  · rintro w r w' hw ⟨store, -, rfl⟩
    have hmoves : (authenticity identity).Moves w (({ w with store := store }).record
        [.replaced entries r.isOk]) := moves_of_snoc rfl trivial
    have hw' := hw.moves hF hmoves
    exact ⟨hmoves, ⟨hw'.1.1, hw'.1.2, recorded_snoc hw.1.1⟩, hw'.2⟩
  · rintro (error | ⟨⟩) v' hv'
    · have hfailed := hv'.mono fun w hw => hw.mono fun l hl => hl.1
      apply Ok.bind
      refine (ok_backend hF (calls_readBack originals) hfailed).mono fun intact u hu => ?_
      cases intact with
      | true =>
          apply Ok.bind
          exact (ok_backend (p := Prog.op (Op.setCipher previous)) hF
            (Prog.calls_op trivial) hu).mono fun _ u hu w hw =>
              (stable_write _).lasting u w hw hu
      | false => exact fun w hw => (stable_write _).lasting u w hw hu
    · have hreplaced : Rising fun l => F l ∧ Recorded before (.replaced entries true) l :=
        hF.and fun l l' hl h => h.mono hl
      apply Ok.bind
      exact (ok_backend (p := Prog.op (Op.setCipher (some newCipher))) hreplaced
        (Prog.calls_op trivial) hv').mono fun _ u hu w hw =>
          (stable_write _).lasting u w hw hu

theorem vouches_migrateCipher (hideal : env.Ideal) (hround : identity.RoundTrips)
    (newCipher : CipherId) :
    Vouches identity env disabled (.migrateCipher newCipher) := by
  intro before
  have hmigrate : Spec (authenticity identity) env true
      (View.Has .none false (Since before fun _ => True))
      (migrateCipher identity disabled newCipher)
      fun _ => View.Has .write true (InOrder (authenticity identity) before fun l =>
        Vouched before l (.migrateCipher newCipher) .unit) := by
    refine spec_writeLock_authentic.bind fun cipher => ?_
    have hheld : Held (authenticity identity) .write
        (Locked identity before (fun _ => True) cipher) :=
      held_locked rising_true (by decide)
    refine spec_disableCheck hheld.secure ?_
    refine (spec_loadEntries (by decide) hheld).bind fun originals =>
      spec_of_fact fun hloaded => ?_
    refine (spec_reseal hideal hround rising_true newCipher originals).bind
      fun entries => spec_of_fact fun hentries => ?_
    have hcarried : Rising fun l => True ∧
        ∀ entry ∈ entries, CarriedOver before newCipher entry l :=
      rising_true.and fun l l' hl h entry hentry =>
        rising_carriedOver before newCipher entry l l' hl (h entry hentry)
    refine Triple.bind (B := fun _ => View.Has .write true
      (InOrder (authenticity identity) before fun l => True ∧
        ∀ entry ∈ entries, CarriedOver before newCipher entry l)) ?_ fun previous => ?_
    · refine triple_lift (fun v hv => ok_detach (R := Reply) (o := Op.detach)
        rfl hv (fun w hw => hw.1.2) ?_) fun _ _ h => h
      rintro w r w' hw ⟨-, rfl⟩
      exact ⟨moves_of_log_eq rfl, hw.1⟩
    · refine (triple_replaceAll hcarried newCipher previous originals entries).mono
        (fun _ h => h) (fun _ v hv => hv.mono fun w hw => hw.mono fun l hl => ?_)
        fun _ v hv hwrite => hv.holds.2
      refine ⟨entries, ?_, hl.1.2, hl.2⟩
      exact nodup_labels hentries hloaded.1
  exact hmigrate.bind fun _ => spec_value (held_inOrder recording_authenticity
    (rising_vouched before (.migrateCipher newCipher) .unit) (by decide))
      fun _ hw => hw.1.2

theorem vouches (hideal : env.Ideal) (hround : identity.RoundTrips)
    (call : Call K) : Vouches identity env disabled call := by
  cases call with
  | insert label keypair expiry => exact vouches_insert expiry
  | generate label keyType => exact vouches_generate keyType
  | rotate label key expiry => exact vouches_rotate hideal hround key expiry
  | get label => exact vouches_get hideal hround label
  | getOrCreate label => exact vouches_getOrCreate hideal hround
  | list => exact vouches_list hideal hround
  | metadata label => exact vouches_metadata hideal hround label
  | remove label => exact vouches_remove label
  | purgeExpired => exact vouches_purgeExpired hideal hround
  | migrateCipher newCipher => exact vouches_migrateCipher hideal hround newCipher

end Methods

/-! ## Every history -/

/-- Whatever the backend answers and however the tasks interleave: every
accepted entry is one that the keychain has sealed itself, and all results come
from accepted entries.  The keychain may be new, with an empty log, or have a
history of this kind. -/
theorem accepted_entries_were_sealed (identity : Identity K) (disabled : Bool)
    (env : Environment K) (hideal : env.Ideal) (hround : identity.RoundTrips)
    (w : World K) (hlog : Chronicle (Authentic identity) w.log) {s : Clones K}
    (hs : System.Reachable (machine env) Op.kind (program identity disabled)
      (some (.error .joinError)) w s) :
    Chronicle (Authentic identity) s.world.log ∧
      ∀ e ∈ s.returned, ∀ value, e.result = .ok value →
        Vouched e.started.log s.world.log e.call value := by
  have hsound : Sound (authenticity identity) (machine env) Op.kind true
      (fun call started result w => ∀ value, result = .ok value →
        Vouched started.log w.log call value) s := by
    refine sound_of_reachable ?_ ?_ ?_ ?_ hs
    · intro call started
      refine (vouches hideal hround call started.log ⟨.none, false, started⟩
        ⟨rfl, rfl, List.prefix_rfl, trivial⟩).mono ?_
      rintro (e | value) v h
      · exact ⟨h, nofun⟩
      · refine ⟨h.1, ?_⟩
        rintro _ ⟨⟩
        exact h.2
    · intro call started result w w' h hmoves value hvalue
      exact rising_vouched _ _ _ _ _ hmoves.1 (h value hvalue)
    · rintro call started _ w ⟨⟩
      exact nofun
    · exact hlog
  exact ⟨hsound.always, hsound.returned⟩

/-! ## A backend that swaps entries -/

/-- The plaintext that was sealed into a ciphertext. -/
def sealedPlaintext (cipher : CipherId) (aad ciphertext : Bytes) :
    Event UInt8 → Option Bytes
  | .sealed cipher' aad' plaintext ciphertext' _ _ =>
      if cipher' = cipher ∧ aad' = aad ∧ ciphertext' = ciphertext then
        some plaintext
      else none
  | _ => none

/-- A backend that answers for `"swapped"` what it holds for `"main"`, and a
cipher that looks its plaintexts up in the record. -/
def swappingBackend : Simulation UInt8 where
  get store label :=
    .ok (if label = "swapped" then store "main" else store label)
  list _ := .ok []
  put store entry :=
    (.ok (), Function.update store entry.metadata.label (some entry))
  putMany store _ := (.ok (), store)
  remove store _ := (.ok false, store)
  now _ := ⟨0, SystemTime.epoch_bounded⟩
  generate _ := 0
  encrypt log _ _ plaintext := .ok (UInt8.ofNat log.length :: plaintext)
  decrypt log cipher aad ciphertext :=
    match log.findSome? (sealedPlaintext cipher aad ciphertext) with
    | some plaintext => .ok plaintext
    | none => .error .decryptFailed

theorem swappingBackend_ideal : swappingBackend.environment.Ideal := by
  intro log cipher aad ciphertext plaintext h
  simp only [Simulation.environment, swappingBackend] at h
  split at h
  · next found hfound =>
    cases h
    obtain ⟨e, he, hplain⟩ := List.exists_of_findSome?_eq_some hfound
    cases e with
    | sealed cipher' aad' plaintext' ciphertext' metadata keypair =>
        simp only [sealedPlaintext, Option.ite_none_right_eq_some,
          Option.some.injEq] at hplain
        obtain ⟨⟨rfl, rfl, rfl⟩, rfl⟩ := hplain
        exact ⟨metadata, keypair, he⟩
    | _ => cases hplain
  · cases h

/-- Insert `"main"`, read it, and read `"swapped"`. -/
def swappingSchedule : List (Move (Call UInt8)) :=
  [Move.start 0 (.insert ⟨"main", by decide⟩ 7 .never)] ++
    List.replicate 7 (Move.run 0) ++ [Move.finish 0, Move.start 0 (.get "main")] ++
    List.replicate 6 (Move.run 0) ++ [Move.finish 0, Move.start 0 (.get "swapped")] ++
    List.replicate 3 (Move.run 0) ++ [Move.finish 0]

theorem accepted_entries_were_sealed_swapped :
    ∃ s : Clones UInt8, System.Reachable (machine swappingBackend.environment)
        Op.kind (program byteIdentity false) (some (.error .joinError))
        ⟨some 0, fun _ => none, []⟩ s ∧
      s.returned.map (·.result.isOk) = [true, true, false] ∧
      Chronicle (Authentic byteIdentity) s.world.log ∧
      ∀ e ∈ s.returned, ∀ value, e.result = .ok value →
        Vouched e.started.log s.world.log e.call value := by
  have hrun : ∃ s : Clones UInt8,
      System.Reachable (machine swappingBackend.environment) Op.kind
        (program byteIdentity false) (some (.error .joinError))
        ⟨some 0, fun _ => none, []⟩ s ∧
      decide (s.returned.map (·.result.isOk) = [true, true, false]) = true :=
    System.exists_reachable_of_schedule 1 swappingBackend.exec
      swappingBackend.step_exec _ swappingSchedule _ (by decide +kernel)
  obtain ⟨s, hs, hreturned⟩ := hrun
  exact ⟨s, hs, of_decide_eq_true hreturned,
    accepted_entries_were_sealed byteIdentity false _ swappingBackend_ideal
      byteIdentity_roundTrips _ Chronicle.nil hs⟩

end Connexa.Keystore.Keychain
