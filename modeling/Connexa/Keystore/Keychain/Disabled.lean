import Connexa.Keystore.Keychain.Purges

/-!
# Disabled keychains

Most methods that would write ask `disable_check` first.  `remove` and
`purge_expired` do not: on a disabled keychain they remove what is there to be
removed.  Everything else leaves the backend as it is, in any order and under any
interleaving.
-/

namespace Connexa.Keystore.Keychain

variable {K : Type}

/-- The backend holds this content, and only this cipher is ever in the slot. -/
structure Holds (store : Store) (cipher : CipherId) (w : World K) : Prop where
  store_eq : w.store = store
  slot : ∀ c, w.cipher = some c → c = cipher

/-- The call finds nothing that it could remove: no entry under the label of a
`remove`, and at the time that a `purge_expired` reads from the clock no expired
key, where all that the backend lists is authentic. -/
def Harmless (identity : Identity K) (env : Environment K) (cipher : CipherId)
    (store : Store) : Call K → (o : Op K) → Reply o → Prop
  | .remove label, _, _ => validateLabel label = .ok () → store label = none
  | .purgeExpired, .now, now => ∀ listed, env.lists store (.ok listed) →
      AllAuthentic identity env cipher store listed →
      ∀ metadata ∈ listed, ¬ExpiredAt metadata now
  | _, _, _ => True

section Keeping

variable {identity : Identity K} {env : Environment K} {cipher : CipherId}
  {store : Store} {allowed : (o : Op K) → Reply o → Prop} {α β : Type}

theorem Holds.of_intact {w w' : World K} (h : Holds store cipher w) (hw : Intact w w') :
    Holds store cipher w' :=
  ⟨hw.2.trans h.store_eq, fun c hc => h.slot c (hw.1.symm.trans hc)⟩

theorem Holds.step {w w' : World K} {o : Op K} {r : Reply o} (h : Holds store cipher w)
    (ho : o.touches = false) (hstep : (machine env).step o w r w') :
    Holds store cipher w' :=
  h.of_intact (intact_of_step ho hstep)

/-- The program leaves the content alone while it is told what is allowed, with
what is known of its result. -/
abbrev Leaves (env : Environment K) (allowed : (o : Op K) → Reply o → Prop)
    (store : Store) (cipher : CipherId) (x : KeychainM K α) (P : α → Prop) : Prop :=
  ((machine env).only allowed).Keeps (Holds store cipher)
    (fun r => ∀ a, r = .ok a → P a) x.run

theorem leaves_pure {a : α} {P : α → Prop} (h : P a) :
    Leaves env allowed store cipher (pure a) P := by
  rintro _ ⟨⟩
  exact h

theorem leaves_reader {x : KeychainM K α} (hx : Reader x) :
    Leaves env allowed store cipher x fun _ => True :=
  (Machine.keeps_of_calls (fun _ _ _ _ ho hs hstep => hs.step ho hstep) hx).only.mono
    fun _ _ _ _ => trivial

theorem leaves_reader_bind {x : KeychainM K α} {f : α → KeychainM K β} {P : β → Prop}
    (hx : Reader x) (hf : ∀ a, Leaves env allowed store cipher (f a) P) :
    Leaves env allowed store cipher (x >>= f) P :=
  (leaves_reader hx).bindExcept fun a _ => hf a

/-- An operation that reads, by its replies on this content. -/
theorem leaves_op {o : Op K} {k : Reply o → Except Error α} {P : α → Prop}
    {x : KeychainM K α} (hx : x.run = .call o fun r => .done (k r))
    (ho : o.touches = false)
    (h : ∀ s r t a, Holds store cipher s → (machine env).step o s r t →
      k r = .ok a → P a) :
    Leaves env allowed store cipher x P := by
  change ((machine env).only allowed).Keeps _ _ (x.run)
  rw [hx]
  exact fun s r t hs hstep => ⟨hs.step ho hstep.1, fun a ha => h s r t a hs hstep.1 ha⟩

/-- `if c then throw e` in front of `f`. -/
theorem leaves_unless {c : Prop} [Decidable c] {e : Error} {f : Unit → KeychainM K α}
    {P : α → Prop} (hf : ¬c → Leaves env allowed store cipher (f ()) P) :
    Leaves env allowed store cipher (if c then throw e >>= f else f ()) P := by
  by_cases hc : c
  · rw [if_pos hc]
    exact nofun
  · rw [if_neg hc]
    exact hf hc

theorem leaves_checkLabel (label : String) :
    Leaves env allowed store cipher (checkLabel label) fun _ =>
      validateLabel label = .ok () := by
  unfold checkLabel
  cases hlabel : validateLabel label with
  | error e => exact nofun
  | ok u => exact fun _ _ => rfl

theorem leaves_writeLock :
    Leaves env allowed store cipher writeLock fun c => c = cipher := by
  refine (leaves_reader (reader_call rfl)).bindExcept fun _ _ => ?_
  rintro s slot t hs ⟨⟨rfl, rfl⟩, -⟩
  refine ⟨hs, ?_⟩
  cases hslot : t.cipher with
  | none => exact nofun
  | some c =>
      rintro _ ⟨⟩
      exact hs.slot c hslot

theorem leaves_backendGet (hbackend : env.Contract) (label : String) :
    Leaves env allowed store cipher (backendGet label) fun found =>
      found = store label := by
  refine leaves_op (o := .get label) (k := id) rfl rfl ?_
  rintro s _ t found hs ⟨hget, -⟩ rfl
  exact (hbackend.gets hget).trans (congrFun hs.store_eq label)

theorem leaves_loadListed (hbackend : env.Contract) (listed : List KeyMetadata)
    (labels : List String) :
    Leaves env allowed store cipher (loadListed listed labels)
      (Found store labels listed) := by
  induction listed generalizing labels with
  | nil => exact leaves_pure ⟨⟨List.nodup_nil, nofun⟩, rfl, nofun⟩
  | cons metadata rest ih =>
      refine (leaves_checkLabel metadata.label).bindExcept fun _ hvalid => ?_
      apply leaves_unless
      intro hnew
      refine (leaves_backendGet hbackend metadata.label).bindExcept ?_
      rintro (_ | entry) hfound
      · exact nofun
      apply leaves_unless
      intro hsame
      rw [not_not] at hsame
      obtain rfl := eq_of_sameMetadata hsame
      refine (ih _).bindExcept fun entries hrest => leaves_pure ⟨?_, ?_, ?_⟩
      · exact loaded_cons hvalid hnew hrest.loaded
      · rw [List.map_cons, hrest.metadata_eq]
      · intro other hother
        rcases List.mem_cons.mp hother with rfl | hother
        · exact hfound.symm
        · exact hrest.stored other hother

theorem leaves_loadEntries (hbackend : env.Contract) :
    Leaves env allowed store cipher loadEntries fun entries =>
      ∃ listed, env.lists store (.ok listed) ∧ Found store [] listed entries := by
  have hlist :
      Leaves env allowed store cipher (ExceptT.mk (Prog.op Op.list) : KeychainM K _)
      fun listed => env.lists store (.ok listed) := by
    refine leaves_op (o := .list) (k := id) rfl rfl ?_
    rintro s _ t listed hs ⟨hlist, -⟩ rfl
    exact hs.store_eq ▸ hlist
  refine hlist.bindExcept fun listed hlisted => ?_
  refine (leaves_loadListed hbackend listed []).mono ?_
  exact fun r hfound entries hr => ⟨listed, hlisted, hfound entries hr⟩

theorem leaves_openEntry (label : String) (entry : EncryptedEntry) :
    Leaves env allowed store cipher (openEntry identity cipher label entry) fun opened =>
      opened.metadata = entry.metadata ∧
        Opens identity env cipher label entry opened.keypair := by
  unfold openEntry
  apply leaves_unless
  intro hlabel
  rw [ne_eq, not_not] at hlabel
  have hdecrypt : Leaves env allowed store cipher (ExceptT.mk (Prog.op
      (Op.decrypt cipher (metadataAad entry.metadata) entry.ciphertext)))
      (fun plaintext => ∃ log, env.decrypts log cipher (metadataAad entry.metadata)
        entry.ciphertext (.ok plaintext)) := by
    refine leaves_op (o := .decrypt cipher _ _) (k := id) rfl rfl ?_
    rintro s _ t plaintext hs ⟨hdecrypts, -⟩ rfl
    exact ⟨s.log, hdecrypts⟩
  refine hdecrypt.bindExcept ?_
  rintro plaintext ⟨log, hplaintext⟩
  have hkey : Leaves env allowed store cipher
      (keyResult (identity.fromProtobufEncoding plaintext))
      fun keypair => identity.fromProtobufEncoding plaintext = .ok keypair := by
    cases identity.fromProtobufEncoding plaintext with
    | error e => exact nofun
    | ok keypair =>
        rintro _ ⟨⟩
        rfl
  refine hkey.bindExcept fun keypair hkeypair => ?_
  apply leaves_unless
  intro hmatches
  rw [not_not] at hmatches
  refine leaves_reader_bind (reader_call rfl) fun _ =>
    leaves_pure ⟨rfl, hlabel, hmatches, ?_⟩
  exact ⟨log, plaintext, hplaintext, hkeypair⟩

theorem leaves_openEntries (entries : List EncryptedEntry) :
    Leaves env allowed store cipher (openEntries identity cipher entries) fun opened =>
      opened.map (·.metadata) = entries.map (·.metadata) ∧
        ∀ entry ∈ entries, ∃ keypair,
          Opens identity env cipher entry.metadata.label entry keypair := by
  induction entries with
  | nil => exact leaves_pure ⟨rfl, nofun⟩
  | cons entry rest ih =>
      refine (leaves_openEntry _ entry).bindExcept ?_
      rintro opened ⟨hmetadata, hopens⟩
      refine ih.bindExcept ?_
      rintro others ⟨hrest, hothers⟩
      refine leaves_pure ⟨?_, ?_⟩
      · rw [List.map_cons, List.map_cons, hmetadata, hrest]
      · intro other hother
        rcases List.mem_cons.mp hother with rfl | hother
        · exact ⟨_, hopens⟩
        · exact hothers other hother

/-- Keys that no allowed reading of the clock finds expired. -/
theorem leaves_expiredLabels {opened : List (OpenedEntry K)}
    (hfresh : ∀ o ∈ opened, ∀ now, allowed .now now → ¬ExpiredAt o.metadata now) :
    Leaves env allowed store cipher (expiredLabels opened) fun expired =>
      expired = [] := by
  induction opened with
  | nil => exact leaves_pure rfl
  | cons first rest ih =>
      have hfirst : Leaves env allowed store cipher (isExpired first.metadata)
        (· = false) := by
        unfold isExpired
        cases hexpiry : first.metadata.expiresAt with
        | none => exact leaves_pure rfl
        | some expiry =>
            rintro s now t hs ⟨⟨-, rfl⟩, hnow⟩
            refine ⟨hs, ?_⟩
            rintro _ ⟨⟩
            apply decide_eq_false
            intro hle
            exact hfresh first List.mem_cons_self now hnow ⟨expiry, hexpiry, hle⟩
      refine hfirst.bindExcept ?_
      rintro _ rfl
      have hrest := ih fun o ho => hfresh o (List.mem_cons_of_mem _ ho)
      refine hrest.bindExcept ?_
      rintro _ rfl
      exact leaves_pure rfl

/-- A removal under a label that holds nothing. -/
theorem leaves_remove (hremoval : env.Removal) {label : String}
    (hnone : ∀ o r, allowed o r → validateLabel label = .ok () → store label = none) :
    Leaves env allowed store cipher (remove label : KeychainM K Bool) fun _ => True := by
  refine leaves_reader_bind reader_writeLock fun c => ?_
  refine (leaves_checkLabel label).bindExcept fun _ hvalid => ?_
  -- the cipher is taken, the label removed and the cipher put back
  rintro s slot t hs ⟨⟨rfl, rfl⟩, hallowed⟩
  have hsame : Function.update store label none = store := by
    rw [← hnone _ _ hallowed hvalid]
    exact Function.update_eq_self label store
  refine ⟨⟨hs.store_eq, nofun⟩, ?_⟩
  rintro u r v hu ⟨⟨after, hremoves, rfl⟩, -⟩
  have hafter : after = store := by
    rw [hu.store_eq] at hremoves
    cases r with
    | ok existed => exact (hremoval.removes hremoves).2.trans hsame
    | error e =>
        rcases hremoval.fails hremoves with h | h
        · exact h
        · exact h.trans hsame
  refine ⟨⟨hafter, hu.slot⟩, ?_⟩
  rintro u' ⟨⟩ v' hu' ⟨rfl, -⟩
  exact ⟨⟨hu'.store_eq, hs.slot⟩, fun _ _ => trivial⟩

/-- A purge that finds nothing expired. -/
theorem leaves_purgeExpired (hbackend : env.Contract) :
    Leaves env (Harmless identity env cipher store .purgeExpired) store cipher
      (purgeExpired identity) fun _ => True := by
  refine leaves_writeLock.bindExcept ?_
  rintro cipher rfl
  refine (leaves_loadEntries hbackend).bindExcept ?_
  rintro entries ⟨listed, hlisted, hfound⟩
  refine (leaves_openEntries entries).bindExcept ?_
  rintro opened ⟨hmetadata, hopens⟩
  rw [hfound.metadata_eq] at hmetadata
  have hauthentic := hfound.authentic hopens
  have hkeys : ∀ o ∈ opened, ∀ now,
      Harmless identity env cipher store .purgeExpired .now now →
        ¬ExpiredAt o.metadata now := by
    intro o ho now hnow
    exact hnow listed hlisted hauthentic o.metadata (hmetadata ▸ List.mem_map_of_mem ho)
  refine (leaves_expiredLabels hkeys).bindExcept ?_
  rintro _ rfl
  exact leaves_pure trivial

theorem reader_disabled_store (label : Label) (keypair : K) (expiry : Expiry)
    (version : Fin (2 ^ 32)) (kind : Mutation) (c : CipherId) :
    Reader (Keychain.store identity true label keypair expiry version kind c) :=
  trivial

theorem reader_disabled_insert (label : Label) (keypair : K) (expiry : Expiry) :
    Reader (insert identity true label keypair expiry) :=
  reader_writeLock.bindExcept fun _ => reader_disabled_store ..

theorem reader_disabled_rotate (label : Label) (key : RotateKey K) (expiry : Expiry) :
    Reader (rotate identity true label key expiry) := by
  refine reader_writeLock.bindExcept fun c => ?_
  refine (reader_of_quiet (calls_checkLabel label.1)).bindExcept fun _ => ?_
  refine (reader_of_quiet (calls_backendGet label.1)).bindExcept fun found => ?_
  cases found with
  | none => trivial
  | some current =>
      refine (reader_of_quiet (calls_openEntry _ _ _)).bindExcept fun opened => ?_
      refine (reader_rotateKeypair key).bindExcept fun keypair => ?_
      exact reader_disabled_store ..

/-- Every call to a disabled keychain that finds nothing to remove. -/
theorem leaves_method (hbackend : env.Contract) (hremoval : env.Removal) (call : Call K) :
    Leaves env (Harmless identity env cipher store call) store cipher
      (method identity true call) fun _ => True := by
  have hreturn : ∀ {γ : Type} {x : KeychainM K γ} (value : γ → Value K), Reader x →
      Leaves env (Harmless identity env cipher store call) store cipher
        (x >>= fun a => pure (value a)) fun _ => True :=
    fun _ hx => leaves_reader_bind hx fun _ => leaves_pure trivial
  cases call with
  | insert label keypair expiry =>
      exact hreturn (fun _ => Value.unit) (reader_disabled_insert _ _ _)
  | generate label keyType =>
      refine hreturn _ ((reader_of_quiet (calls_generateKeypair keyType)).bindExcept ?_)
      exact fun keypair => (reader_disabled_insert _ _ _).bindExcept fun _ => trivial
  | rotate label key expiry =>
      exact hreturn (fun _ => Value.unit) (reader_disabled_rotate _ _ _)
  | get label => exact hreturn _ (reader_get label)
  | getOrCreate label => exact hreturn _ (reader_writeLock.bindExcept fun _ => trivial)
  | list => exact hreturn _ reader_list
  | metadata label => exact hreturn _ (reader_metadata label)
  | remove label =>
      exact (leaves_remove hremoval fun _ _ h => h).bindExcept fun _ _ =>
        leaves_pure trivial
  | purgeExpired =>
      exact (leaves_purgeExpired hbackend).bindExcept fun _ _ => leaves_pure trivial
  | migrateCipher newCipher =>
      exact hreturn (fun _ => Value.unit)
        (reader_writeLock.bindExcept fun _ => trivial)

end Keeping

/-- In every run of a disabled keychain's clones in which no `remove` finds an
entry under its label and no `purge_expired` reads a time at which an authentic
key has expired, the backend's content stays what it was. -/
theorem disabled_leaves_content {identity : Identity K} {env : Environment K}
    (hbackend : env.Contract) (hremoval : env.Removal) {w : World K} {cipher : CipherId}
    (hcipher : w.cipher = some cipher) {lost : Option (Except Error (Value K))}
    {s : Clones K}
    (hs : System.ReachableWhere (machine env)
      (Harmless identity env cipher w.store) Op.kind
      (program identity true) lost w s) :
    s.world.store = w.store := by
  have hinit : Holds w.store cipher w := by
    refine ⟨rfl, fun c hc => ?_⟩
    rw [hcipher] at hc
    exact (Option.some.inj hc).symm
  refine (hs.keeps (C := Holds w.store cipher) (fun call => ?_) hinit).store_eq
  exact (leaves_method hbackend hremoval call).mono fun _ _ => trivial

/-- Two calls to a disabled keychain remove a key, each on its own. -/
theorem disabled_removes_content :
    grudgingBackend.environment.Contract ∧ grudgingBackend.environment.Removal ∧
    (agedWorld.store "a").isSome = true ∧
    ∀ call ∈ ([.remove "a", .purgeExpired] : List (Call UInt8)),
      ∃ s : Clones UInt8, System.Reachable (machine grudgingBackend.environment) Op.kind
        (program byteIdentity true) none agedWorld s ∧ s.world.store "a" = none := by
  refine ⟨grudgingBackend_contract, grudgingBackend_removal, rfl, ?_⟩
  -- the backend after the first operations of a single call
  have hrun : ∀ (call : Call UInt8) (n : ℕ),
      (((.start 0 call :: List.replicate n (.run 0) : List (Move (Call UInt8))).foldlM
        (System.move 1 grudgingBackend.exec Op.kind (program byteIdentity true) none)
        ⟨agedWorld, fun _ => none, []⟩).any fun s =>
          (s.world.store "a").isNone) = true →
      ∃ s : Clones UInt8, System.Reachable (machine grudgingBackend.environment) Op.kind
        (program byteIdentity true) none agedWorld s ∧ s.world.store "a" = none := by
    intro call n hcall
    obtain ⟨s, hs, hnone⟩ := System.exists_reachable_of_schedule 1 grudgingBackend.exec
      grudgingBackend.step_exec agedWorld _ _ hcall
    exact ⟨s, hs, Option.isNone_iff_eq_none.mp hnone⟩
  intro call hcall
  rcases List.mem_pair.mp hcall with rfl | rfl
  · exact hrun (.remove "a") 4 (by decide +kernel)
  · exact hrun .purgeExpired 13 (by decide +kernel)

/-- The clock stands at 9, and the only key expires at 12. -/
def youngWorld : World UInt8 :=
  { cipher := some 1
    store := fun label =>
      if label = "a" then some (agingEntry ⟨"a", labelBytes_a_lt⟩ ⟨12, by decide⟩)
      else none
    log := [] }

/-- A call may remove what is not there, and purge before 12. -/
def sparing : Call UInt8 → (o : Op UInt8) → Reply o → Bool
  | .remove label, _, _ => label ≠ "a"
  | .purgeExpired, .now, now => now.nanos < 12
  | _, _, _ => true

theorem harmless_of_sparing (call : Call UInt8) (o : Op UInt8) (r : Reply o)
    (h : sparing call o r = true) :
    Harmless byteIdentity grudgingBackend.environment 1 youngWorld.store call o r := by
  cases call with
  | remove label =>
      intro _
      exact if_neg (of_decide_eq_true h)
  | purgeExpired =>
      cases o with
      | now =>
          rintro listed hlisted - metadata hmetadata ⟨expiry, hexpiry, hle⟩
          obtain rfl :
            listed = [(agingEntry ⟨"a", labelBytes_a_lt⟩ ⟨12, by decide⟩).metadata] :=
            Except.ok.inj hlisted
          rw [List.mem_singleton] at hmetadata
          subst hmetadata
          obtain rfl : (⟨12, by decide⟩ : SystemTime) = expiry := Option.some.inj hexpiry
          exact absurd (of_decide_eq_true h) (not_lt.mpr hle)
      | _ => trivial
  | _ => trivial

/-- An insertion, a removal and a purge, one after the other. -/
def harmlessSchedule : List (Move (Call UInt8)) :=
  [Move.start 0 (.insert ⟨"a", labelBytes_a_lt⟩ 7 .never)] ++ List.replicate 2
    (Move.run 0) ++
    [Move.finish 0, Move.start 0 (.remove "c")] ++ List.replicate 5 (Move.run 0) ++
    [Move.finish 0, Move.start 0 .purgeExpired] ++ List.replicate 7 (Move.run 0) ++
    [Move.finish 0]

theorem disabled_leaves_content_busy :
    ∃ s : Clones UInt8, System.ReachableWhere (machine grudgingBackend.environment)
        (Harmless byteIdentity grudgingBackend.environment 1 youngWorld.store) Op.kind
        (program byteIdentity true) none youngWorld s ∧
      s.returned.map (·.result.isOk) = [false, true, true] ∧
      s.world.store = youngWorld.store := by
  have hrun : ((harmlessSchedule.foldlM (System.moveWhere 1 grudgingBackend.exec Op.kind
      (program byteIdentity true) none sparing) ⟨youngWorld, fun _ => none, []⟩).any
        fun s =>
          decide (s.returned.map (·.result.isOk) = [false, true, true])) = true := by
    decide +kernel
  obtain ⟨s, hmoves, hreturned⟩ := (Option.any_eq_true _ _).mp hrun
  have hs := System.ReachableWhere.moves grudgingBackend.step_exec harmless_of_sparing
    .init (fun _ _ => rfl) hmoves
  exact ⟨s, hs, of_decide_eq_true hreturned,
    disabled_leaves_content grudgingBackend_contract grudgingBackend_removal rfl hs⟩

end Connexa.Keystore.Keychain
