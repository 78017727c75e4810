import Connexa.Keystore.Keychain.World

/-!
# The phases of a method

Every method goes through the same phases: it looks at the slot as soon as it
has the lock, it leaves slot and backend alone until it has detached, and it
does nothing any more once it has put a cipher back.  An empty slot ends it.
-/

namespace Connexa.Keystore.Keychain

open Machine (Yields)

variable {K : Type}

inductive Phase where
  /-- The lock was not taken yet. -/
  | fresh
  /-- The lock was taken; the next thing to do is to look at the slot. -/
  | asked (guard : Guard)
  /-- The slot was found empty. -/
  | refused (guard : Guard)
  | reading
  | writing
  /-- The cipher was taken out of the slot. -/
  | taken
  /-- So many writes were made. -/
  | written (writes : ℕ)
  /-- A cipher was put back after so many writes. -/
  | restored (writes : ℕ)
  /-- The lock was given up. -/
  | passed
  /-- No method gets here. -/
  | broken
  deriving DecidableEq

/-- The operation reads under a guard, or touches nothing at all. -/
def Op.quiet : Op K → Bool
  | .cipher => true
  | .get _ => true
  | .list => true
  | .now => true
  | .generate _ => true
  | .encrypt _ _ _ _ _ => true
  | .decrypt _ _ _ => true
  | .accept _ _ _ _ => true
  | .found _ _ => true
  | _ => false

/-- The operation writes to the backend. -/
def Op.writes : Op K → Bool
  | .put _ _ _ => true
  | .putMany _ => true
  | .remove _ => true
  | _ => false

/-- The phase after an operation and its reply. -/
def Phase.next : Phase → (o : Op K) → Reply o → Phase
  | .fresh, .now, _ => .fresh
  | .fresh, .generate _, _ => .fresh
  | .fresh, .readLock, _ => .asked .read
  | .fresh, .writeLock, _ => .asked .write
  | .asked guard, .cipher, none => .refused guard
  | .asked .read, .cipher, some _ => .reading
  | .asked .write, .cipher, some _ => .writing
  | .reading, .unlock, _ => .passed
  | .reading, o, _ => if o.quiet then .reading else .broken
  | .writing, .detach, _ => .taken
  | .writing, o, _ => if o.quiet then .writing else .broken
  | .taken, o, _ => if o.writes then .written 1 else .broken
  | .written writes, .get _, _ => .written writes
  | .written writes, .setCipher _, _ => .restored writes
  | .written writes, o, _ => if o.writes then .written (writes + 1) else .broken
  | .passed, .now, _ => .passed
  | .passed, .generate _, _ => .passed
  | _, _, _ => .broken

/-- The machine that follows the phases. -/
def phases (K : Type) : Machine (Op K) Reply Phase where
  step o p r q := q = p.next o r

/-- The error of a call that fails before it asks for the lock. -/
def beforeLock (identity : Identity K) (disabled : Bool) : Call K → Option Error
  | .generate _ keyType =>
      if identity.canGenerate keyType then none
      else some (.unsupportedKeyType keyType)
  | .get label =>
      if disabled then some .disabled
      else match validateLabel label with
        | .error e => some e
        | .ok () => none
  | .metadata label =>
      match validateLabel label with
      | .error e => some e
      | .ok () => none
  | _ => none

/-- How a call may end in a phase. -/
def Ends (identity : Identity K) (disabled : Bool) (call : Call K)
    (r : Except Error (Value K)) : Phase → Prop
  | .fresh => ∃ e, beforeLock identity disabled call = some e ∧ r = .error e
  | .refused _ => beforeLock identity disabled call = none ∧
      r = .error unknownResult
  | .reading => ∃ e, r = .error e
  | .writing => ∀ value, r = .ok value →
      (∃ label, call = .getOrCreate label) ∨ call = .purgeExpired
  | .written _ => (∃ cipher, call = .migrateCipher cipher) ∧ ∃ e, r = .error e
  | .restored writes => call = .purgeExpired ∨ writes = 1
  | .passed => True
  | _ => False

/-! ## The parts of the methods -/

section Parts

variable {identity : Identity K} {α : Type}

theorem calls_checkLabel (label : String) :
    (checkLabel label : KeychainM K Unit).run.Calls (·.quiet = true) := by
  unfold checkLabel
  split <;> trivial

theorem calls_disableCheck (disabled : Bool) :
    (disableCheck disabled : KeychainM K Unit).run.Calls (·.quiet = true) := by
  cases disabled <;> trivial

theorem calls_keyResult (r : Except String α) :
    (keyResult r : KeychainM K α).run.Calls (·.quiet = true) := by
  cases r <;> trivial

theorem calls_call {o : Op K} (h : o.quiet = true) :
    (call o).run.Calls (·.quiet = true) :=
  Prog.Calls.bind (Prog.calls_op h) fun _ => trivial

theorem calls_sealEntry (cipher : CipherId) (metadata : KeyMetadata)
    (keypair : K) :
    (sealEntry identity cipher metadata keypair).run.Calls (·.quiet = true) :=
  (calls_keyResult _).bindExcept fun _ =>
    Prog.Calls.bindExcept (Prog.calls_op rfl) fun _ => trivial

theorem calls_unless {P : Op K → Prop} {c : Prop} [Decidable c] {e : Error}
    {f : Unit → KeychainM K α} (h : (f ()).run.Calls P) :
    (if c then throw e >>= f else f () : KeychainM K α).run.Calls P := by
  split
  · trivial
  · exact h

theorem calls_openEntry (cipher : CipherId) (label : String)
    (entry : EncryptedEntry) :
    (openEntry identity cipher label entry).run.Calls (·.quiet = true) := by
  unfold openEntry
  apply calls_unless
  refine Prog.Calls.bindExcept (Prog.calls_op rfl) fun plaintext => ?_
  refine (calls_keyResult _).bindExcept fun keypair => ?_
  apply calls_unless
  exact (calls_call rfl).bindExcept fun _ => trivial

theorem calls_isExpired (metadata : KeyMetadata) :
    (isExpired metadata : KeychainM K Bool).run.Calls (·.quiet = true) := by
  unfold isExpired
  split
  · trivial
  · exact (calls_call rfl).bindExcept fun _ => trivial

theorem calls_generateKeypair (keyType : KeyType) :
    (generateKeypair identity keyType).run.Calls (·.quiet = true) := by
  unfold generateKeypair
  split
  · exact calls_call rfl
  · trivial

theorem calls_backendGet (label : String) :
    (backendGet label : KeychainM K _).run.Calls (·.quiet = true) :=
  Prog.calls_op rfl

theorem calls_loadListed (listed : List KeyMetadata) (labels : List String) :
    (loadListed listed labels : KeychainM K _).run.Calls (·.quiet = true) := by
  induction listed generalizing labels with
  | nil => trivial
  | cons metadata rest ih =>
      refine (calls_checkLabel _).bindExcept fun _ => ?_
      apply calls_unless
      refine (calls_backendGet _).bindExcept ?_
      rintro (_ | entry)
      · trivial
      · apply calls_unless
        exact (ih _).bindExcept fun _ => trivial

theorem calls_loadEntries :
    (loadEntries : KeychainM K _).run.Calls (·.quiet = true) :=
  Prog.Calls.bindExcept (Prog.calls_op rfl) fun listed => calls_loadListed listed []

theorem calls_openEntries (cipher : CipherId) (entries : List EncryptedEntry) :
    (openEntries identity cipher entries).run.Calls (·.quiet = true) := by
  induction entries with
  | nil => trivial
  | cons entry rest ih =>
      exact (calls_openEntry _ _ _).bindExcept fun _ =>
        ih.bindExcept fun _ => trivial

theorem calls_expiredLabels (opened : List (OpenedEntry K)) :
    (expiredLabels opened).run.Calls (·.quiet = true) := by
  induction opened with
  | nil => trivial
  | cons o rest ih =>
      exact (calls_isExpired _).bindExcept fun _ => ih.bindExcept fun _ => trivial

theorem calls_reseal (cipher newCipher : CipherId) (entries : List EncryptedEntry) :
    (reseal identity cipher newCipher entries).run.Calls (·.quiet = true) := by
  induction entries with
  | nil => trivial
  | cons entry rest ih =>
      exact (calls_openEntry _ _ _).bindExcept fun _ =>
        (calls_sealEntry _ _ _).bindExcept fun _ => ih.bindExcept fun _ => trivial

end Parts

/-! ## The phases of the parts -/

section Safe

variable {identity : Identity K} {disabled : Bool} {α β : Type}

/-- The program breaks no rule of its phase; its result and its last phase
satisfy `Q`. -/
abbrev Phased (Q : α → Phase → Prop) (p : Prog (Op K) Reply α) (phase : Phase) :
    Prop :=
  (phases K).Safe (· ≠ .broken) Q p phase

/-- What reads stays in its phase. -/
theorem phased_quiet {p : Prog (Op K) Reply α} {phase : Phase}
    (hphase : phase = .reading ∨ phase = .writing)
    (hp : p.Calls (·.quiet = true)) : Phased (fun _ q => q = phase) p phase := by
  have hne : phase ≠ .broken := by
    rcases hphase with rfl | rfl
    · nofun
    · nofun
  refine (Machine.safe_of_calls (C := (· = phase)) ?_ hp rfl).mono
    (fun q hq => hq ▸ hne) fun _ q hq _ => hq
  rintro o q r q' ho rfl rfl
  rcases hphase with rfl | rfl
  · cases o <;> first | rfl | cases ho
  · cases o <;> first | rfl | cases ho

section Bind

variable {P : β → Phase → Prop} {E : Error → Phase → Prop}

theorem phased_quiet_bind {x : KeychainM K α} {f : α → KeychainM K β}
    {phase : Phase} (hphase : phase = .reading ∨ phase = .writing)
    (hx : x.run.Calls (·.quiet = true)) (hE : ∀ e, E e phase)
    (hf : ∀ a, Phased (Yields P E) (f a).run phase) :
    Phased (Yields P E) (x >>= f).run phase := by
  apply Machine.Safe.bindExcept
  refine (phased_quiet hphase hx).mono (fun _ h => h) ?_
  rintro (e | a) q _ rfl
  · exact hE e
  · exact hf a

theorem phased_checkLabel_bind {x : KeychainM K β} {label : String}
    (hE : ∀ e, validateLabel label = .error e → E e .fresh)
    (hx : validateLabel label = .ok () → Phased (Yields P E) x.run .fresh) :
    Phased (Yields P E) (checkLabel label >>= fun _ => x).run .fresh := by
  unfold checkLabel
  cases hlabel : validateLabel label with
  | error e => exact ⟨nofun, hE e hlabel⟩
  | ok u => exact hx hlabel

theorem phased_readLock_bind {f : CipherId → KeychainM K β}
    (hE : E unknownResult (.refused .read))
    (hf : ∀ cipher, Phased (Yields P E) (f cipher).run .reading) :
    Phased (Yields P E) (readLock >>= f).run .fresh := by
  refine ⟨nofun, ?_⟩
  rintro r q rfl
  refine ⟨nofun, ?_⟩
  rintro (_ | cipher) q rfl
  · exact ⟨nofun, hE⟩
  · exact hf cipher

theorem phased_writeLock_bind {f : CipherId → KeychainM K β}
    (hE : E unknownResult (.refused .write))
    (hf : ∀ cipher, Phased (Yields P E) (f cipher).run .writing) :
    Phased (Yields P E) (writeLock >>= f).run .fresh := by
  refine ⟨nofun, ?_⟩
  rintro r q rfl
  refine ⟨nofun, ?_⟩
  rintro (_ | cipher) q rfl
  · exact ⟨nofun, hE⟩
  · exact hf cipher

end Bind

/-- A mutation ends with the cipher in its slot, whatever its work returns. -/
theorem phased_finishMutation {work : KeychainM K α} {N : ℕ → Prop}
    (hwork : Phased (fun _ q => ∃ writes, q = .written writes ∧ N writes)
      work.run .taken) :
    Phased (fun _ q => ∃ writes, q = .restored writes ∧ N writes)
      (finishMutation work).run .writing := by
  refine ⟨nofun, ?_⟩
  rintro cipher q rfl
  change Phased _ (work.run >>= fun result =>
    Prog.op (Op.setCipher cipher) >>= fun _ => pure result) _
  apply Machine.Safe.bind
  refine hwork.mono (fun _ h => h) ?_
  rintro result q hq ⟨writes, rfl, hwrites⟩
  refine ⟨hq, ?_⟩
  rintro r q rfl
  exact ⟨nofun, writes, rfl, hwrites⟩

theorem phased_write {o : Op K} (ho : o.writes = true) :
    Phased (fun _ q => ∃ writes, q = .written writes ∧ writes = 1)
      (Prog.op o) .taken := by
  refine ⟨nofun, ?_⟩
  rintro r q rfl
  have hnext : Phase.taken.next o r = .written 1 := by
    cases o <;> first | rfl | cases ho
  rw [hnext]
  exact ⟨nofun, 1, rfl, rfl⟩

theorem phased_store {label : Label} {keypair : K} {expiry : Expiry}
    {version : Fin (2 ^ 32)} {kind : Mutation} {cipher : CipherId} :
    Phased (Yields (fun _ q => q = .restored 1)
      fun _ q => q = .writing ∨ q = .restored 1)
      (store identity disabled label keypair expiry version kind cipher).run
      .writing := by
  refine phased_quiet_bind (Or.inr rfl) (calls_disableCheck disabled)
    (fun _ => Or.inl rfl) fun _ => ?_
  refine phased_quiet_bind (Or.inr rfl) (calls_checkLabel label.1)
    (fun _ => Or.inl rfl) fun _ => ?_
  refine phased_quiet_bind (Or.inr rfl) (calls_call rfl)
    (fun _ => Or.inl rfl) fun createdAt => ?_
  refine phased_quiet_bind (Or.inr rfl) (calls_sealEntry _ _ _)
    (fun _ => Or.inl rfl) fun entry => ?_
  refine (phased_finishMutation (phased_write rfl)).mono (fun _ h => h) ?_
  rintro (e | u) q - ⟨writes, rfl, rfl⟩
  · exact Or.inr rfl
  · rfl

/-- The removals of `purge_expired`, after the first. -/
theorem phased_removeLabels (labels : List String) (removed writes : ℕ) :
    Phased (fun _ q => ∃ writes, q = .written writes ∧ True)
      (removeLabels labels removed : KeychainM K ℕ).run (.written writes) := by
  induction labels generalizing removed writes with
  | nil => exact ⟨nofun, writes, rfl, trivial⟩
  | cons label rest ih =>
      refine ⟨nofun, ?_⟩
      rintro (e | existed) q rfl
      · exact ⟨nofun, writes + 1, rfl, trivial⟩
      · exact ih _ _

theorem phased_readBack (originals : List EncryptedEntry) (writes : ℕ) :
    Phased (fun _ q => q = .written writes)
      (readBack originals : Prog (Op K) Reply Bool) (.written writes) := by
  induction originals with
  | nil => exact ⟨nofun, rfl⟩
  | cons original rest ih =>
      refine ⟨nofun, ?_⟩
      rintro (e | _ | entry) q rfl
      · exact ⟨nofun, rfl⟩
      · exact ⟨nofun, rfl⟩
      · change Phased _ (if sameEntry entry original then readBack rest
          else return false) _
        split
        · exact ih
        · exact ⟨nofun, rfl⟩

theorem phased_replaceAll (newCipher : CipherId) (previous : Option CipherId)
    (originals entries : List EncryptedEntry) :
    Phased (Yields (fun _ q => q = .restored 1)
      fun _ q => q = .restored 1 ∨ q = .written 1)
      (replaceAll newCipher previous originals entries : KeychainM K Unit).run
      .taken := by
  refine ⟨nofun, ?_⟩
  rintro (error | u) q rfl
  · change Phased _ (readBack originals >>= fun intact =>
      if intact then Prog.op (Op.setCipher previous) >>= fun _ =>
        pure (Except.error error)
      else pure (Except.error error)) _
    apply Machine.Safe.bind
    refine (phased_readBack originals 1).mono (fun _ h => h) ?_
    rintro intact q _ rfl
    cases intact with
    | true =>
        refine ⟨nofun, ?_⟩
        rintro r q rfl
        exact ⟨nofun, Or.inl rfl⟩
    | false => exact ⟨nofun, Or.inr rfl⟩
  · refine ⟨nofun, ?_⟩
    rintro r q rfl
    exact ⟨nofun, rfl⟩

/-! ## The phases of the methods -/

variable (identity disabled) in
/-- The method goes through the phases and ends as the call may. -/
abbrev Follows (call : Call K) (value : α → Value K) (x : KeychainM K α)
    (phase : Phase) : Prop :=
  Phased (Yields (fun a => Ends identity disabled call (.ok (value a)))
    fun e => Ends identity disabled call (.error e)) x.run phase

variable {call : Call K}

theorem follows_value {value : α → Value K} {x : KeychainM K α}
    (hx : Follows identity disabled call value x .fresh) :
    Follows identity disabled call id (x >>= fun a => pure (value a)) .fresh := by
  apply Machine.Safe.bindExcept
  exact hx.monoExcept (fun _ h => h) (fun a q hq ha => ⟨hq, ha⟩) fun _ _ _ h => h

theorem ends_writing (identity : Identity K) (disabled : Bool) (call : Call K)
    (e : Error) : Ends identity disabled call (.error e) .writing := by
  intro value h
  cases h

theorem follows_store {label : Label} {keypair : K} {expiry : Expiry}
    {version : Fin (2 ^ 32)} {kind : Mutation} {cipher : CipherId}
    {value : Unit → Value K} :
    Follows identity disabled call value
      (store identity disabled label keypair expiry version kind cipher)
      .writing := by
  refine phased_store.monoExcept (fun _ h => h) ?_ ?_
  · rintro u q _ rfl
    exact Or.inr rfl
  · rintro e q _ (rfl | rfl)
    · exact ends_writing identity disabled call e
    · exact Or.inr rfl

theorem follows_insert {label : Label} {keypair : K} {expiry : Expiry}
    {value : Unit → Value K} (hlock : beforeLock identity disabled call = none) :
    Follows identity disabled call value
      (insert identity disabled label keypair expiry) .fresh :=
  phased_writeLock_bind ⟨hlock, rfl⟩ fun _ => follows_store

theorem follows_generate (label : Label) (keyType : KeyType) :
    Follows identity disabled (.generate label keyType) .keypair
      (generate identity disabled label keyType) .fresh := by
  unfold generate generateKeypair
  by_cases hcan : identity.canGenerate keyType
  · have hlock : beforeLock identity disabled (.generate label keyType) = none := by
      simp [beforeLock, hcan]
    rw [if_pos hcan]
    refine ⟨nofun, ?_⟩
    rintro keypair q rfl
    change Phased _ (insert identity disabled label keypair .never >>=
      fun _ => pure keypair : KeychainM K K).run .fresh
    have hinsert : Follows identity disabled (.generate label keyType)
        (fun _ => .keypair keypair)
        (insert identity disabled label keypair .never) .fresh :=
      follows_insert hlock
    apply Machine.Safe.bindExcept
    exact hinsert.monoExcept (fun _ h => h) (fun _ q hq h => ⟨hq, h⟩)
      fun _ _ _ h => h
  · rw [if_neg hcan]
    refine ⟨nofun, .unsupportedKeyType keyType, ?_, rfl⟩
    simp [beforeLock, hcan]

theorem follows_rotate (label : Label) (key : RotateKey K) (expiry : Expiry) :
    Follows identity disabled (.rotate label key expiry) (fun _ => .unit)
      (rotate identity disabled label key expiry) .fresh := by
  have hE := ends_writing identity disabled (.rotate label key expiry)
  refine phased_writeLock_bind ⟨rfl, rfl⟩ fun cipher => ?_
  refine phased_quiet_bind (Or.inr rfl) (calls_checkLabel label.1) hE fun _ => ?_
  refine phased_quiet_bind (Or.inr rfl) (calls_backendGet label.1) hE ?_
  rintro (_ | current)
  · exact ⟨nofun, hE _⟩
  · refine phased_quiet_bind (Or.inr rfl) (calls_openEntry _ _ _) hE fun opened => ?_
    refine phased_quiet_bind (Or.inr rfl) ?_ hE fun keypair => follows_store
    cases key with
    | keypair keypair => trivial
    | generate keyType => exact calls_generateKeypair keyType

theorem follows_getOrCreate (label : Label) :
    Follows identity disabled (.getOrCreate label) .keypair
      (getOrCreate identity disabled label) .fresh := by
  have hE := ends_writing identity disabled (.getOrCreate label)
  refine phased_writeLock_bind ⟨rfl, rfl⟩ fun cipher => ?_
  refine phased_quiet_bind (Or.inr rfl) (calls_disableCheck disabled) hE fun _ => ?_
  refine phased_quiet_bind (Or.inr rfl) (calls_checkLabel label.1) hE fun _ => ?_
  refine phased_quiet_bind (Or.inr rfl) (calls_backendGet label.1) hE ?_
  rintro (_ | entry)
  · refine phased_quiet_bind (Or.inr rfl) (calls_call rfl) hE fun keypair => ?_
    apply Machine.Safe.bindExcept
    refine phased_store.monoExcept (fun _ h => h) ?_ ?_
    · rintro u q _ rfl
      exact ⟨nofun, Or.inr rfl⟩
    · rintro e q _ (rfl | rfl)
      · exact hE e
      · exact Or.inr rfl
  · refine phased_quiet_bind (Or.inr rfl) (calls_openEntry _ _ _) hE fun opened => ?_
    refine phased_quiet_bind (Or.inr rfl) (calls_isExpired _) hE fun expired => ?_
    cases expired with
    | true => exact ⟨nofun, hE _⟩
    | false =>
        refine phased_quiet_bind (Or.inr rfl) (calls_call rfl) hE fun _ => ?_
        exact ⟨nofun, fun _ _ => Or.inl ⟨label, rfl⟩⟩

/-- A reader gives up the lock unless it fails. -/
theorem phased_authenticatedEntry (label : String) :
    Phased (Yields (fun _ q => q = .passed)
      fun e q => q = .reading ∨ q = .refused .read ∧ e = unknownResult)
      (authenticatedEntry identity label).run .fresh := by
  refine phased_readLock_bind (Or.inr ⟨rfl, rfl⟩) fun cipher => ?_
  refine phased_quiet_bind (Or.inl rfl) (calls_backendGet label)
    (fun _ => Or.inl rfl) ?_
  rintro (_ | entry)
  · refine ⟨nofun, ?_⟩
    rintro r q rfl
    exact ⟨nofun, rfl⟩
  · refine phased_quiet_bind (Or.inl rfl) (calls_openEntry _ _ _)
      (fun _ => Or.inl rfl) fun opened => ?_
    refine ⟨nofun, ?_⟩
    rintro r q rfl
    exact ⟨nofun, rfl⟩

/-- The errors of a reader. -/
theorem ends_of_reader (hlock : beforeLock identity disabled call = none)
    {e : Error} {q : Phase}
    (h : q = .reading ∨ q = .refused .read ∧ e = unknownResult) :
    Ends identity disabled call (.error e) q := by
  rcases h with rfl | ⟨rfl, rfl⟩
  · exact ⟨e, rfl⟩
  · exact ⟨hlock, rfl⟩

theorem phased_isExpired (metadata : KeyMetadata) :
    Phased (Yields (fun _ q => q = .passed) fun _ _ => False)
      (isExpired metadata : KeychainM K Bool).run .passed := by
  unfold isExpired
  cases metadata.expiresAt with
  | none => exact ⟨nofun, rfl⟩
  | some expiry =>
      refine ⟨nofun, ?_⟩
      rintro now q rfl
      exact ⟨nofun, rfl⟩

theorem follows_get (label : String) :
    Follows identity disabled (.get label) .keypair
      (get identity disabled label) .fresh := by
  cases disabled with
  | true => exact ⟨nofun, .disabled, rfl, rfl⟩
  | false =>
      refine phased_checkLabel_bind ?_ fun hlabel => ?_
      · exact fun e hlabel => ⟨e, by simp [beforeLock, hlabel], rfl⟩
      · have hlock : beforeLock identity false (.get label) = none := by
          simp [beforeLock, hlabel]
        apply Machine.Safe.bindExcept
        refine (phased_authenticatedEntry label).monoExcept (fun _ h => h) ?_
          fun e q _ h => ends_of_reader hlock h
        rintro (_ | opened) q _ rfl
        · exact ⟨nofun, trivial⟩
        · apply Machine.Safe.bindExcept
          refine (phased_isExpired opened.metadata).monoExcept (fun _ h => h) ?_
            fun _ _ _ h => h.elim
          rintro expired q _ rfl
          cases expired with
          | true => exact ⟨nofun, trivial⟩
          | false => exact ⟨nofun, trivial⟩

theorem follows_metadata (label : String) :
    Follows identity disabled (.metadata label) .metadata
      (metadata identity label) .fresh := by
  refine phased_checkLabel_bind ?_ fun hlabel => ?_
  · exact fun e hlabel => ⟨e, by simp [beforeLock, hlabel], rfl⟩
  · have hlock : beforeLock identity disabled (.metadata label) = none := by
      simp [beforeLock, hlabel]
    apply Machine.Safe.bindExcept
    refine (phased_authenticatedEntry label).monoExcept (fun _ h => h) ?_
      fun e q _ h => ends_of_reader hlock h
    rintro found q _ rfl
    exact ⟨nofun, trivial⟩

theorem follows_list :
    Follows identity disabled .list .listed (list identity) .fresh := by
  refine Machine.Safe.bindExcept (phased_readLock_bind ⟨rfl, rfl⟩ fun cipher => ?_)
  have hE : ∀ e, Ends identity disabled .list (.error e) .reading :=
    fun e => ⟨e, rfl⟩
  refine phased_quiet_bind (Or.inl rfl) calls_loadEntries hE fun entries => ?_
  refine phased_quiet_bind (Or.inl rfl) (calls_openEntries _ _) hE fun opened => ?_
  refine ⟨nofun, ?_⟩
  rintro r q rfl
  exact ⟨nofun, nofun, trivial⟩

theorem follows_remove (label : String) :
    Follows identity disabled (.remove label) .existed (remove label) .fresh := by
  have hE := ends_writing identity disabled (.remove label)
  refine phased_writeLock_bind ⟨rfl, rfl⟩ fun cipher => ?_
  refine phased_quiet_bind (Or.inr rfl) (calls_checkLabel label) hE fun _ => ?_
  refine (phased_finishMutation (phased_write rfl)).mono (fun _ h => h) ?_
  rintro (e | existed) q - ⟨writes, rfl, rfl⟩
  · exact Or.inr rfl
  · exact Or.inr rfl

theorem follows_purgeExpired :
    Follows identity disabled .purgeExpired .count (purgeExpired identity)
      .fresh := by
  have hE := ends_writing identity disabled .purgeExpired
  refine phased_writeLock_bind ⟨rfl, rfl⟩ fun cipher => ?_
  refine phased_quiet_bind (Or.inr rfl) calls_loadEntries hE fun entries => ?_
  refine phased_quiet_bind (Or.inr rfl) (calls_openEntries _ _) hE fun opened => ?_
  refine phased_quiet_bind (Or.inr rfl) (calls_expiredLabels _) hE fun expired => ?_
  cases expired with
  | nil => exact ⟨nofun, fun _ _ => Or.inr rfl⟩
  | cons label rest =>
      refine (phased_finishMutation (N := fun _ => True) ?_).mono
        (fun _ h => h) ?_
      · refine ⟨nofun, ?_⟩
        rintro (e | existed) q rfl
        · exact ⟨nofun, 1, rfl, trivial⟩
        · exact phased_removeLabels rest _ 1
      · rintro (e | removed) q - ⟨writes, rfl, -⟩
        · exact Or.inl rfl
        · exact Or.inl rfl

theorem follows_migrateCipher (newCipher : CipherId) :
    Follows identity disabled (.migrateCipher newCipher) (fun _ => .unit)
      (migrateCipher identity disabled newCipher) .fresh := by
  have hE := ends_writing identity disabled (.migrateCipher newCipher)
  refine phased_writeLock_bind ⟨rfl, rfl⟩ fun cipher => ?_
  refine phased_quiet_bind (Or.inr rfl) (calls_disableCheck disabled) hE fun _ => ?_
  refine phased_quiet_bind (Or.inr rfl) calls_loadEntries hE fun originals => ?_
  refine phased_quiet_bind (Or.inr rfl) (calls_reseal _ _ _) hE fun entries => ?_
  refine ⟨nofun, ?_⟩
  rintro previous q rfl
  change Phased _ (replaceAll newCipher previous originals entries).run .taken
  refine (phased_replaceAll newCipher previous originals entries).monoExcept
    (fun _ h => h) ?_ ?_
  · rintro u q _ rfl
    exact Or.inr rfl
  · rintro e q _ (rfl | rfl)
    · exact Or.inr rfl
    · exact ⟨⟨newCipher, rfl⟩, e, rfl⟩

/-- Every call goes through the phases. -/
theorem follows_program (identity : Identity K) (disabled : Bool) (call : Call K) :
    Phased (Ends identity disabled call) (program identity disabled call)
      .fresh := by
  have hmethod : Follows identity disabled call id (method identity disabled call)
      .fresh := by
    cases call with
    | insert label keypair expiry => exact follows_value (follows_insert rfl)
    | generate label keyType => exact follows_value (follows_generate label keyType)
    | rotate label key expiry => exact follows_value (follows_rotate label key expiry)
    | get label => exact follows_value (follows_get label)
    | getOrCreate label => exact follows_value (follows_getOrCreate label)
    | list => exact follows_value follows_list
    | metadata label => exact follows_value (follows_metadata label)
    | remove label => exact follows_value (follows_remove label)
    | purgeExpired => exact follows_value follows_purgeExpired
    | migrateCipher newCipher =>
        exact follows_value (follows_migrateCipher newCipher)
  refine hmethod.mono (fun _ h => h) ?_
  rintro (e | value) q _ h
  · exact h
  · exact h

end Safe

/-! ## The phases of the tasks -/

/-- The guard of a task in the phase. -/
def Phase.guard : Phase → Guard
  | .fresh => .none
  | .asked guard => guard
  | .refused guard => guard
  | .reading => .read
  | .passed => .none
  | .broken => .none
  | _ => .write

/-- A task in the phase no longer depends on its caller. -/
def Phase.detached : Phase → Bool
  | .taken => true
  | .written _ => true
  | .restored _ => true
  | _ => false

/-- The slot was not emptied and nothing was written. -/
def Unapplied (ran : List (Op K)) : Prop :=
  ∀ o ∈ ran, o.kind ≠ .detach ∧ o.writes = false

/-- What a task in the phase has done. -/
def Phase.Ran : Phase → List (Op K) → Prop
  | .taken, ran => ∃ pre, ran = pre ++ [.detach] ∧ Unapplied pre
  | .written writes, ran => ∃ pre work, ran = pre ++ .detach :: work ∧
      Unapplied pre ∧ work.countP Op.writes = writes
  | .restored writes, ran => ∃ pre work slot,
      ran = pre ++ .detach :: work ++ [.setCipher slot] ∧
      Unapplied pre ∧ work.countP Op.writes = writes
  | .passed, ran => Unapplied ran ∧ .unlock ∈ ran
  | _, ran => Unapplied ran

theorem Unapplied.snoc {ran : List (Op K)} {o : Op K} (h : Unapplied ran)
    (hkind : o.kind ≠ .detach) (hwrites : o.writes = false) :
    Unapplied (ran ++ [o]) := by
  intro x hx
  rcases List.mem_append.mp hx with hx | hx
  · exact h x hx
  · rw [List.mem_singleton.mp hx]
    exact ⟨hkind, hwrites⟩

/-- What an operation may do to the phase of a task. -/
inductive Phase.Step : Phase → Op K → Phase → Prop where
  | free {p : Phase} {o : Op K} (hkind : o.kind = .free)
      (hp : p = .fresh ∨ p = .passed ∨ p = .reading ∨ p = .writing) : Step p o p
  | read {p : Phase} {o : Op K} (hkind : o.kind = .shared)
      (hquiet : o.quiet = true)
      (hp : p = .reading ∨ p = .writing ∨ ∃ n, p = .written n) : Step p o p
  | readLock : Step .fresh .readLock (.asked .read)
  | writeLock : Step .fresh .writeLock (.asked .write)
  | refused {guard : Guard} : Step (.asked guard) .cipher (.refused guard)
  | readable : Step (.asked .read) .cipher .reading
  | writable : Step (.asked .write) .cipher .writing
  | unlock : Step .reading .unlock .passed
  | detach : Step .writing .detach .taken
  | write {o : Op K} (hwrites : o.writes = true) : Step .taken o (.written 1)
  | again {n : ℕ} {o : Op K} (hwrites : o.writes = true) :
      Step (.written n) o (.written (n + 1))
  | restore {n : ℕ} {slot : Option CipherId} :
      Step (.written n) (.setCipher slot) (.restored n)

theorem Phase.step_next {p : Phase} {o : Op K} {r : Reply o}
    (h : p.next o r ≠ .broken) : p.Step o (p.next o r) := by
  cases p <;> cases o <;> try exact absurd rfl h
  case asked.cipher guard =>
      cases guard <;> cases r <;> first
        | exact absurd rfl h
        | constructor
  all_goals first
    | exact .free rfl (by simp)
    | exact .read rfl rfl (by simp)
    | constructor <;> rfl

theorem Op.kind_of_writes {o : Op K} (h : o.writes = true) : o.kind = .shared := by
  cases o <;> first | rfl | cases h

theorem Op.writes_of_quiet {o : Op K} (h : o.quiet = true) : o.writes = false := by
  cases o <;> first | rfl | cases h

theorem Op.writes_of_free {o : Op K} (h : o.kind = .free) : o.writes = false := by
  cases o <;> first | rfl | cases h

section Step

variable {p q : Phase} {o : Op K} {ran : List (Op K)}

theorem Phase.Step.guard_eq (h : p.Step o q) : q.guard = o.kind.next p.guard := by
  cases h with
  | free hkind hp => rw [hkind]; rfl
  | read hkind hquiet hp => rw [hkind]; rfl
  | write hwrites => rw [Op.kind_of_writes hwrites]; rfl
  | again hwrites => rw [Op.kind_of_writes hwrites]; rfl
  | _ => rfl

theorem Phase.Step.detached_eq (h : p.Step o q) :
    q.detached = (p.detached || decide (o.kind = .detach)) := by
  cases h with
  | free hkind hp => simp [hkind]
  | read hkind hquiet hp => simp [hkind]
  | write hwrites => rfl
  | again hwrites => rfl
  | _ => rfl

theorem Phase.Step.ran_snoc (h : p.Step o q) (hp : p.Ran ran) : q.Ran (ran ++ [o]) := by
  have happend : ∀ n, Phase.Ran (.written n) ran → o.writes = false →
      Phase.Ran (.written n) (ran ++ [o]) := by
    rintro n ⟨pre, work, rfl, hpre, hwork⟩ hwrites
    exact ⟨pre, work ++ [o], by simp, hpre, by simp [hwork, hwrites]⟩
  cases h with
  | free hkind hphase =>
      have hsnoc : Unapplied ran → Unapplied (ran ++ [o]) := fun h =>
        h.snoc (by simp [hkind]) (Op.writes_of_free hkind)
      rcases hphase with rfl | rfl | rfl | rfl
      · exact hsnoc hp
      · exact ⟨hsnoc hp.1, List.mem_append_left _ hp.2⟩
      · exact hsnoc hp
      · exact hsnoc hp
  | read hkind hquiet hphase =>
      rcases hphase with rfl | rfl | ⟨n, rfl⟩
      · exact Unapplied.snoc hp (by simp [hkind]) (Op.writes_of_quiet hquiet)
      · exact Unapplied.snoc hp (by simp [hkind]) (Op.writes_of_quiet hquiet)
      · exact happend n hp (Op.writes_of_quiet hquiet)
  | readLock => exact hp.snoc nofun rfl
  | writeLock => exact hp.snoc nofun rfl
  | refused => exact Unapplied.snoc hp nofun rfl
  | readable => exact Unapplied.snoc hp nofun rfl
  | writable => exact Unapplied.snoc hp nofun rfl
  | unlock =>
      exact ⟨Unapplied.snoc hp nofun rfl,
        List.mem_append_right _ (List.mem_singleton_self _)⟩
  | detach => exact ⟨ran, rfl, hp⟩
  | write hwrites =>
      obtain ⟨pre, rfl, hpre⟩ := hp
      exact ⟨pre, [o], by simp, hpre, by simp [hwrites]⟩
  | again hwrites =>
      obtain ⟨pre, work, rfl, hpre, hwork⟩ := hp
      exact ⟨pre, work ++ [o], by simp, hpre, by simp [hwork, hwrites]⟩
  | @restore n slot =>
      obtain ⟨pre, work, rfl, hpre, hwork⟩ := hp
      exact ⟨pre, work, slot, by simp, hpre, hwork⟩

theorem Phase.Step.asked_ne (h : p.Step o q) (hp : p ≠ .asked .none) :
    q ≠ .asked .none := by
  cases h with
  | free hkind hphase => exact hp
  | read hkind hquiet hphase => exact hp
  | _ => nofun

end Step

section Tasks

variable {κ : Type}

/-- The task is in the phase: what it has done and what it will do. -/
structure InPhase (identity : Identity K) (disabled : Bool) (calls : κ → Call K)
    (task : Task (Op K) Reply κ (Except Error (Value K)) (World K)) (p : Phase) :
    Prop where
  follows : Phased (Ends identity disabled (calls task.call)) task.prog p
  guard_eq : task.guard = p.guard
  detached_eq : task.detached = p.detached
  ran : p.Ran task.ran
  asked_ne : p ≠ .asked .none

variable {identity : Identity K} {disabled : Bool} {calls : κ → Call K}
  {task : Task (Op K) Reply κ (Except Error (Value K)) (World K)} {p : Phase}

theorem InPhase.advance {o : Op K}
    {k : Reply o → Prog (Op K) Reply (Except Error (Value K))}
    (h : InPhase identity disabled calls task p) (hprog : task.prog = .call o k)
    (r : Reply o) :
    p.Step o (p.next o r) ∧ InPhase identity disabled calls
      (task.advance Op.kind o (k r)) (p.next o r) := by
  have hfollows := h.follows
  rw [hprog] at hfollows
  have hrest := hfollows.2 r _ rfl
  have hstep := Phase.step_next (hrest.here)
  exact ⟨hstep, hrest, by rw [hstep.guard_eq, ← h.guard_eq]; rfl,
    by rw [hstep.detached_eq, ← h.detached_eq]; rfl, hstep.ran_snoc h.ran,
    hstep.asked_ne h.asked_ne⟩

/-- Every task is in some phase. -/
theorem exists_inPhase (calls : κ → Call K) {M : Machine (Op K) Reply (World K)}
    {lost : Option (Except Error (Value K))} {w : World K}
    {s : System (Op K) Reply κ (Except Error (Value K)) (World K)}
    (hs : System.Reachable M Op.kind
      (fun call => program identity disabled (calls call)) lost w s) {i : ℕ}
    (htask : s.tasks i = some task) :
    ∃ p, InPhase identity disabled calls task p := by
  refine hs.tasks (T := fun task => ∃ p, InPhase identity disabled calls task p)
    ?_ ?_ ?_ htask
  · intro call w
    exact ⟨.fresh, follows_program identity disabled (calls call), rfl, rfl, nofun,
      nofun⟩
  · rintro task o k r ⟨p, hp⟩ hprog
    exact ⟨_, (hp.advance hprog r).2⟩
  · rintro task ⟨p, hp⟩
    exact ⟨p, hp.follows, hp.guard_eq, hp.detached_eq, hp.ran, hp.asked_ne⟩

end Tasks

end Connexa.Keystore.Keychain
