import Connexa.Support.Traces
import Connexa.Keystore.Keychain.Migration

/-!
# Calls that fail

A method touches the cipher slot and the backend only in its last part, and that
part fails only where the backend fails to write.  So a call that returns an
error for any other reason has touched nothing, whatever the others did
meanwhile.
-/

namespace Connexa.Keystore.Keychain

open Machine (Yields)

variable {K : Type}

/-- The operation may change the cipher slot or the backend. -/
def Op.touches : Op K → Bool
  | .detach => true
  | .setCipher _ => true
  | .put _ _ _ => true
  | .putMany _ => true
  | .remove _ => true
  | _ => false

/-- The backend failed to write or to remove. -/
def failedWrite : Exchange (Op K) Reply → Bool
  | ⟨.put _ _ _, .error _⟩ => true
  | ⟨.putMany _, .error _⟩ => true
  | ⟨.remove _, .error _⟩ => true
  | _ => false

/-- What a method has done so far. -/
inductive Touch where
  | clean
  | touched
  /-- The backend has failed to write. -/
  | failed
  deriving DecidableEq

def Touch.next (q : Touch) (x : Exchange (Op K) Reply) : Touch :=
  if q = .failed ∨ failedWrite x then .failed
  else if x.1.touches then .touched
  else q

theorem Op.touches_of_quiet {o : Op K} (h : o.quiet = true) : o.touches = false := by
  cases o <;> first | rfl | cases h

theorem Op.touches_of_failedWrite {x : Exchange (Op K) Reply}
    (h : failedWrite x = true) : x.1.touches = true := by
  obtain ⟨o, r⟩ := x
  cases o <;> first | rfl | cases h

/-- What does not touch slot and backend leaves them alone. -/
theorem intact_of_step {env : Environment K} {w w' : World K} {o : Op K} {r : Reply o}
    (ho : o.touches = false) (hstep : World.step env o w r w') : Intact w w' := by
  cases o with
  | readLock => exact hstep ▸ ⟨rfl, rfl⟩
  | writeLock => exact hstep ▸ ⟨rfl, rfl⟩
  | unlock => exact hstep ▸ ⟨rfl, rfl⟩
  | detach => cases ho
  | setCipher cipher => cases ho
  | put entry kind keypair => cases ho
  | putMany entries => cases ho
  | remove label => cases ho
  | _ =>
      have hmachine : (machine env).step _ w r w' := hstep
      exact ((untouched_refl w).step hmachine rfl).intact

/-! ## Methods that only read -/

section Readers

variable {identity : Identity K} {disabled : Bool} {α : Type}

/-- The program touches neither slot nor backend. -/
abbrev Reader (x : KeychainM K α) : Prop :=
  x.run.Calls (·.touches = false)

theorem reader_of_quiet {x : KeychainM K α} (h : x.run.Calls (·.quiet = true)) :
    Reader x :=
  h.mono fun _ => Op.touches_of_quiet

theorem reader_checkedCipher : Reader (checkedCipher : KeychainM K CipherId) := by
  refine Prog.Calls.bindExcept (reader_of_quiet (calls_call rfl)) fun slot => ?_
  cases slot with
  | none => trivial
  | some cipher => trivial

theorem reader_call {o : Op K} (h : o.touches = false) : Reader (call o) :=
  Prog.Calls.bind (Prog.calls_op h) fun _ => trivial

theorem reader_readLock : Reader (readLock : KeychainM K CipherId) :=
  (reader_call rfl).bindExcept fun _ => reader_checkedCipher

theorem reader_writeLock : Reader (writeLock : KeychainM K CipherId) :=
  (reader_call rfl).bindExcept fun _ => reader_checkedCipher

theorem reader_authenticatedEntry (label : String) :
    Reader (authenticatedEntry identity label) := by
  refine reader_readLock.bindExcept fun cipher => ?_
  refine (reader_of_quiet (calls_backendGet label)).bindExcept fun found => ?_
  cases found with
  | none => exact (reader_call rfl).bindExcept fun _ => trivial
  | some entry =>
      refine (reader_of_quiet (calls_openEntry cipher label entry)).bindExcept ?_
      exact fun _ => (reader_call rfl).bindExcept fun _ => trivial

theorem reader_authenticatedEntries : Reader (authenticatedEntries identity) := by
  refine reader_readLock.bindExcept fun cipher => ?_
  refine (reader_of_quiet calls_loadEntries).bindExcept fun entries => ?_
  refine (reader_of_quiet (calls_openEntries cipher entries)).bindExcept fun _ => ?_
  exact (reader_call rfl).bindExcept fun _ => trivial

theorem reader_get (label : String) : Reader (get identity disabled label) := by
  refine (reader_of_quiet (calls_disableCheck disabled)).bindExcept fun _ => ?_
  refine (reader_of_quiet (calls_checkLabel label)).bindExcept fun _ => ?_
  refine (reader_authenticatedEntry label).bindExcept fun found => ?_
  cases found with
  | none => trivial
  | some opened =>
      refine (reader_of_quiet (calls_isExpired opened.metadata)).bindExcept ?_
      intro expired
      cases expired with
      | true => trivial
      | false => trivial

theorem reader_list : Reader (list identity) :=
  reader_authenticatedEntries.bindExcept fun _ => trivial

theorem reader_metadata (label : String) : Reader (metadata identity label) := by
  refine (reader_of_quiet (calls_checkLabel label)).bindExcept fun _ => ?_
  exact (reader_authenticatedEntry label).bindExcept fun _ => trivial

end Readers

/-! ## Methods that write -/

section Writers

variable {identity : Identity K} {disabled : Bool} {α β : Type} {q : Touch}

/-- If the program fails, it has touched nothing or the backend has failed to
write. -/
abbrev Blameless (x : KeychainM K α) (q : Touch) : Prop :=
  (Machine.monitor Touch.next).Safe (fun _ => True)
    (Yields (fun _ _ => True) fun _ q => q ≠ .touched) x.run q

theorem blameless_reader_bind {x : KeychainM K α} {f : α → KeychainM K β}
    (hx : Reader x) (hf : ∀ a, Blameless (f a) .clean) :
    Blameless (x >>= f) .clean := by
  apply Machine.Safe.bindExcept
  refine (Machine.safe_of_calls (C := (· = Touch.clean)) ?_ hx rfl).mono
    (fun _ _ => trivial) ?_
  · rintro o q r q' ho rfl rfl
    have hwrite : failedWrite (⟨o, r⟩ : Exchange (Op K) Reply) = false := by
      by_contra hfailed
      have htouches : o.touches = true :=
        Op.touches_of_failedWrite (Bool.eq_true_of_not_eq_false hfailed)
      rw [ho] at htouches
      cases htouches
    simp [Touch.next, ho, hwrite]
  · rintro (e | a) q rfl -
    · exact nofun
    · exact hf a

theorem blameless_reader {x : KeychainM K α} (hx : Reader x) : Blameless x .clean := by
  rw [← bind_pure x]
  exact blameless_reader_bind hx fun _ => ⟨trivial, trivial⟩

theorem Blameless.bind_pure {x : KeychainM K α} (hx : Blameless x q) (f : α → β) :
    Blameless (x >>= fun a => pure (f a)) q :=
  Machine.Safe.bindExcept
    (hx.monoExcept (fun _ h => h) (fun _ _ _ _ => ⟨trivial, trivial⟩) fun _ _ _ h => h)

/-- The work of a mutation fails only where a write fails. -/
abbrev FailsByWrites (x : KeychainM K α) : Prop :=
  ∀ q, (Machine.monitor Touch.next).Safe (fun _ => True)
    (Yields (fun _ _ => True) fun _ q => q = .failed) x.run q

/-- A single write. -/
theorem failsByWrites_write {x : KeychainM K α} {o : Op K} {k : Reply o → Except Error α}
    (hx : x.run = .call o fun r => .done (k r))
    (hfails : ∀ r e, k r = .error e → failedWrite ⟨o, r⟩ = true) : FailsByWrites x := by
  intro q
  rw [hx]
  refine ⟨trivial, ?_⟩
  rintro r _ rfl
  refine ⟨trivial, ?_⟩
  cases hr : k r with
  | ok a => trivial
  | error e => simp [Touch.next, hfails r e hr]

theorem failsByWrites_removeLabels (labels : List String) (removed : ℕ) :
    FailsByWrites (removeLabels labels removed : KeychainM K ℕ) := by
  induction labels generalizing removed with
  | nil => exact fun q => ⟨trivial, trivial⟩
  | cons label rest ih =>
      intro q
      refine ⟨trivial, ?_⟩
      rintro (e | existed) _ rfl
      · exact ⟨trivial, by simp [Touch.next, failedWrite]⟩
      · exact ih _ _

theorem blameless_finishMutation {work : KeychainM K α} (hwork : FailsByWrites work) :
    Blameless (finishMutation work) .clean := by
  refine ⟨trivial, ?_⟩
  rintro cipher _ rfl
  change Machine.Safe _ _ _ (work.run >>= fun result =>
    Prog.op (Op.setCipher cipher) >>= fun _ => pure result) _
  apply Machine.Safe.bind
  refine (hwork _).mono (fun _ h => h) ?_
  rintro (e | a) q - h
  · refine ⟨trivial, ?_⟩
    rintro _ _ rfl
    refine ⟨trivial, ?_⟩
    simp [Touch.next, show q = .failed from h]
  · refine ⟨trivial, ?_⟩
    rintro _ _ rfl
    exact ⟨trivial, trivial⟩

theorem blameless_store (label : Label) (keypair : K) (expiry : Expiry)
    (version : Fin (2 ^ 32)) (kind : Mutation) (cipher : CipherId) :
    Blameless (store identity disabled label keypair expiry version kind cipher)
      .clean := by
  refine blameless_reader_bind (reader_of_quiet (calls_disableCheck disabled)) ?_
  intro _
  refine blameless_reader_bind (reader_of_quiet (calls_checkLabel label.1)) fun _ => ?_
  refine blameless_reader_bind (reader_call rfl) fun createdAt => ?_
  refine blameless_reader_bind (reader_of_quiet (calls_sealEntry _ _ _)) ?_
  intro entry
  apply blameless_finishMutation
  refine failsByWrites_write (o := .put entry kind keypair) (k := id) rfl ?_
  rintro _ e rfl
  rfl

theorem blameless_insert (label : Label) (keypair : K) (expiry : Expiry) :
    Blameless (insert identity disabled label keypair expiry) .clean :=
  blameless_reader_bind reader_writeLock fun _ => blameless_store ..

theorem blameless_generate (label : Label) (keyType : KeyType) :
    Blameless (generate identity disabled label keyType) .clean := by
  refine blameless_reader_bind (reader_of_quiet (calls_generateKeypair keyType)) ?_
  exact fun keypair => (blameless_insert label keypair .never).bind_pure fun _ => keypair

theorem reader_rotateKeypair (key : RotateKey K) :
    Reader (rotateKeypair identity key) := by
  cases key with
  | keypair keypair => trivial
  | generate keyType => exact reader_of_quiet (calls_generateKeypair keyType)

theorem blameless_rotate (label : Label) (key : RotateKey K) (expiry : Expiry) :
    Blameless (rotate identity disabled label key expiry) .clean := by
  refine blameless_reader_bind reader_writeLock fun cipher => ?_
  refine blameless_reader_bind (reader_of_quiet (calls_checkLabel label.1)) fun _ => ?_
  refine blameless_reader_bind (reader_of_quiet (calls_backendGet label.1))
    fun found => ?_
  cases found with
  | none => exact ⟨trivial, nofun⟩
  | some current =>
      refine blameless_reader_bind (reader_of_quiet (calls_openEntry _ _ _)) ?_
      intro opened
      refine blameless_reader_bind (reader_rotateKeypair key) fun keypair => ?_
      exact blameless_store ..

theorem blameless_getOrCreate (label : Label) :
    Blameless (getOrCreate identity disabled label) .clean := by
  refine blameless_reader_bind reader_writeLock fun cipher => ?_
  refine blameless_reader_bind (reader_of_quiet (calls_disableCheck disabled)) ?_
  intro _
  refine blameless_reader_bind (reader_of_quiet (calls_checkLabel label.1)) fun _ => ?_
  refine blameless_reader_bind (reader_of_quiet (calls_backendGet label.1))
    fun found => ?_
  cases found with
  | some entry =>
      refine blameless_reader_bind (reader_of_quiet (calls_openEntry _ _ _)) ?_
      intro opened
      refine blameless_reader_bind (reader_of_quiet (calls_isExpired _)) fun expired => ?_
      cases expired with
      | true => exact ⟨trivial, nofun⟩
      | false =>
          exact blameless_reader_bind (reader_call rfl) fun _ => ⟨trivial, trivial⟩
  | none =>
      refine blameless_reader_bind (reader_call rfl) fun keypair => ?_
      exact (blameless_store ..).bind_pure fun _ => keypair

theorem blameless_remove (label : String) :
    Blameless (remove label : KeychainM K Bool) .clean := by
  refine blameless_reader_bind reader_writeLock fun cipher => ?_
  refine blameless_reader_bind (reader_of_quiet (calls_checkLabel label)) fun _ => ?_
  apply blameless_finishMutation
  refine failsByWrites_write (o := .remove label) (k := id) rfl ?_
  rintro _ e rfl
  rfl

theorem blameless_purgeExpired : Blameless (purgeExpired identity) .clean := by
  refine blameless_reader_bind reader_writeLock fun cipher => ?_
  refine blameless_reader_bind (reader_of_quiet calls_loadEntries) fun entries => ?_
  refine blameless_reader_bind (reader_of_quiet (calls_openEntries _ _)) ?_
  intro opened
  refine blameless_reader_bind (reader_of_quiet (calls_expiredLabels opened)) ?_
  intro expired
  cases expired with
  | nil => exact ⟨trivial, trivial⟩
  | cons label rest =>
      exact blameless_finishMutation (failsByWrites_removeLabels _ _)

/-- A failed `put_many` is all that can fail once the cipher was taken. -/
theorem blameless_replaceAll (newCipher : CipherId) (previous : Option CipherId)
    (originals entries : List EncryptedEntry) (q : Touch) :
    Blameless (replaceAll newCipher previous originals entries : KeychainM K Unit) q := by
  refine ⟨trivial, ?_⟩
  rintro (error | ⟨⟩) _ rfl
  · have hfailed : Touch.next q (⟨.putMany entries, .error error⟩ :
        Exchange (Op K) Reply) = .failed := by simp [Touch.next, failedWrite]
    rw [hfailed]
    -- once the backend has failed, the monitor stays where it is
    have hstays : ∀ p : Prog (Op K) Reply (Except Error Unit), Blameless (ExceptT.mk p)
        .failed := by
      intro p
      refine (Machine.safe_of_calls (C := (· = Touch.failed)) (P := fun _ => True)
        ?_ ?_ rfl).mono (fun _ _ => trivial) ?_
      · rintro o q r q' - rfl rfl
        simp [Touch.next]
      · induction p with
        | done a => trivial
        | call o k ih => exact ⟨trivial, ih⟩
      · rintro (e | a) q rfl -
        · exact nofun
        · trivial
    exact hstays _
  · refine ⟨trivial, ?_⟩
    rintro _ _ rfl
    exact ⟨trivial, trivial⟩

theorem blameless_migrateCipher (newCipher : CipherId) :
    Blameless (migrateCipher identity disabled newCipher) .clean := by
  refine blameless_reader_bind reader_writeLock fun cipher => ?_
  refine blameless_reader_bind (reader_of_quiet (calls_disableCheck disabled)) ?_
  intro _
  refine blameless_reader_bind (reader_of_quiet calls_loadEntries) fun originals => ?_
  refine blameless_reader_bind (reader_of_quiet (calls_reseal _ _ _)) fun entries => ?_
  refine ⟨trivial, ?_⟩
  rintro previous _ rfl
  exact blameless_replaceAll ..

theorem blameless_method (call : Call K) :
    Blameless (method identity disabled call) .clean := by
  cases call with
  | insert label keypair expiry =>
      exact (blameless_insert label keypair expiry).bind_pure fun _ => Value.unit
  | generate label keyType => exact (blameless_generate label keyType).bind_pure _
  | rotate label key expiry =>
      exact (blameless_rotate label key expiry).bind_pure fun _ => Value.unit
  | get label => exact (blameless_reader (reader_get label)).bind_pure _
  | getOrCreate label => exact (blameless_getOrCreate label).bind_pure _
  | list => exact (blameless_reader reader_list).bind_pure _
  | metadata label => exact (blameless_reader (reader_metadata label)).bind_pure _
  | remove label => exact (blameless_remove label).bind_pure _
  | purgeExpired => exact blameless_purgeExpired.bind_pure _
  | migrateCipher newCipher =>
      exact (blameless_migrateCipher newCipher).bind_pure fun _ => Value.unit

end Writers

/-! ## Failed calls -/

section Failed

variable {trace : List (Exchange (Op K) Reply)}

/-- A trace without failed writes that the monitor finds untouched. -/
theorem untouching_of_foldl (hwrites : ∀ x ∈ trace, failedWrite x = false)
    (h : trace.foldl Touch.next .clean ≠ .touched) :
    ∀ x ∈ trace, x.1.touches = false := by
  -- what has touched something cannot become clean again
  have hstays : ∀ rest : List (Exchange (Op K) Reply),
      (∀ x ∈ rest, failedWrite x = false) →
      rest.foldl Touch.next .touched = .touched := by
    intro rest hrest
    induction rest with
    | nil => rfl
    | cons x rest ih =>
        have hnext : Touch.next .touched x = .touched := by
          simp [Touch.next, hrest x List.mem_cons_self]
        rw [List.foldl_cons, hnext]
        exact ih fun y hy => hrest y (List.mem_cons_of_mem _ hy)
  induction trace with
  | nil => exact nofun
  | cons x rest ih =>
      have hrest : ∀ y ∈ rest, failedWrite y = false := fun y hy =>
        hwrites y (List.mem_cons_of_mem _ hy)
      rw [List.foldl_cons] at h
      have hx : x.1.touches = false := by
        by_contra htouches
        apply h
        have hnext : Touch.next .clean x = .touched := by
          simp [Touch.next, hwrites x List.mem_cons_self,
            Bool.eq_true_of_not_eq_false htouches]
        rw [hnext]
        exact hstays rest hrest
      have hnext : Touch.next .clean x = .clean := by
        simp [Touch.next, hwrites x List.mem_cons_self, hx]
      rw [hnext] at h
      intro y hy
      rcases List.mem_cons.mp hy with rfl | hy
      · exact hx
      · exact ih hrest h y hy

/-- Clock and ciphers do not read the record. -/
structure Environment.Oblivious (env : Environment K) : Prop where
  clock : ∀ log log', env.clock log = env.clock log'
  encrypts : ∀ log log', env.encrypts log = env.encrypts log'
  decrypts : ∀ log log', env.decrypts log = env.decrypts log'

theorem Intact.symm {w w' : World K} (h : Intact w w') : Intact w' w :=
  ⟨h.1.symm, h.2.symm⟩

theorem Intact.trans {w w' w'' : World K} (h : Intact w w') (h' : Intact w' w'') :
    Intact w w'' :=
  ⟨h'.1.trans h.1, h'.2.trans h.2⟩

/-- Worlds that differ in their record only do the same. -/
theorem Environment.Oblivious.step {env : Environment K} (henv : env.Oblivious) {o : Op K}
    {u v u' : World K} {r : Reply o} (h : Intact u v) (hstep : World.step env o u r u') :
    ∃ v', World.step env o v r v' ∧ Intact u' v' := by
  obtain ⟨hcipher, hstore⟩ := h
  cases o with
  | readLock => exact ⟨v, rfl, hstep ▸ ⟨hcipher, hstore⟩⟩
  | writeLock => exact ⟨v, rfl, hstep ▸ ⟨hcipher, hstore⟩⟩
  | unlock => exact ⟨v, rfl, hstep ▸ ⟨hcipher, hstore⟩⟩
  | cipher =>
      obtain ⟨rfl, rfl⟩ := hstep
      exact ⟨v, ⟨hcipher.symm, rfl⟩, hcipher, hstore⟩
  | detach =>
      obtain ⟨rfl, rfl⟩ := hstep
      exact ⟨_, ⟨hcipher.symm, rfl⟩, rfl, hstore⟩
  | setCipher cipher =>
      cases hstep
      exact ⟨_, rfl, rfl, hstore⟩
  | get label =>
      obtain ⟨hget, rfl⟩ := hstep
      exact ⟨v, ⟨hstore ▸ hget, rfl⟩, hcipher, hstore⟩
  | list =>
      obtain ⟨hlist, rfl⟩ := hstep
      exact ⟨v, ⟨hstore ▸ hlist, rfl⟩, hcipher, hstore⟩
  | put entry kind keypair =>
      obtain ⟨store, hput, rfl⟩ := hstep
      exact ⟨_, ⟨store, hstore ▸ hput, rfl⟩, hcipher, rfl⟩
  | putMany entries =>
      obtain ⟨store, hput, rfl⟩ := hstep
      exact ⟨_, ⟨store, hstore ▸ hput, rfl⟩, hcipher, rfl⟩
  | remove label =>
      obtain ⟨store, hremove, rfl⟩ := hstep
      exact ⟨_, ⟨store, hstore ▸ hremove, rfl⟩, hcipher, rfl⟩
  | now =>
      obtain ⟨hclock, rfl⟩ := hstep
      exact ⟨v, ⟨henv.clock _ v.log ▸ hclock, rfl⟩, hcipher, hstore⟩
  | generate keyType =>
      obtain ⟨hgenerate, rfl⟩ := hstep
      exact ⟨v, ⟨hgenerate, rfl⟩, hcipher, hstore⟩
  | encrypt cipher aad plaintext metadata keypair =>
      obtain ⟨hencrypt, rfl⟩ := hstep
      exact ⟨_, ⟨henv.encrypts _ v.log ▸ hencrypt, rfl⟩, hcipher, hstore⟩
  | decrypt cipher aad ciphertext =>
      obtain ⟨hdecrypt, rfl⟩ := hstep
      exact ⟨v, ⟨henv.decrypts _ v.log ▸ hdecrypt, rfl⟩, hcipher, hstore⟩
  | accept cipher label entry keypair =>
      cases hstep
      exact ⟨_, rfl, hcipher, hstore⟩
  | found label keypair =>
      cases hstep
      exact ⟨_, rfl, hcipher, hstore⟩

/-- A call that fails although the backend wrote and removed all it was asked to
has changed nothing.  None of its steps changes the cipher slot or the backend,
wherever the others have moved them meanwhile; on its own it leaves both as they
were, and whatever is done afterwards can be done and is answered as if the call
had not been made. -/
theorem failed_calls_change_nothing {identity : Identity K} {disabled : Bool}
    {call : Call K} {e : Error}
    (hcall : (program identity disabled call).Plays trace (.error e))
    (hwrites : ∀ x ∈ trace, failedWrite x = false) (env : Environment K) :
    (∀ x ∈ trace, ∀ v v', (machine env).step x.1 v x.2 v' → Intact v v') ∧
    ∀ w w', (machine env).Replays w trace w' → Intact w w' ∧
      (env.Oblivious → ∀ later, (∃ v, (machine env).Replays w' later v) ↔
        ∃ v, (machine env).Replays w later v) := by
  have huntouched := untouching_of_foldl hwrites ((blameless_method call).plays hcall)
  have hsteps : ∀ x ∈ trace, ∀ v v', (machine env).step x.1 v x.2 v' → Intact v v' :=
    fun x hx v v' hstep => intact_of_step (huntouched x hx) hstep
  refine ⟨hsteps, fun w w' hreplays => ?_⟩
  have hintact : Intact w w' := hreplays.keeps (C := Intact w)
    (fun x hx u v hu hstep => hu.trans (hsteps x hx u v hstep)) ⟨rfl, rfl⟩
  refine ⟨hintact, fun henv later => ?_⟩
  have hsame : ∀ u u' v, Intact u u' → (machine env).Replays u later v →
      ∃ v', (machine env).Replays u' later v' := by
    intro u u' v hu hlater
    obtain ⟨v', hv', -⟩ := hlater.transfer (E := Intact)
      (fun o a b r a' hab hstep => henv.step hab hstep) hu
    exact ⟨v', hv'⟩
  constructor
  · rintro ⟨v, hv⟩
    exact hsame w' w v hintact.symm hv
  · rintro ⟨v, hv⟩
    exact hsame w w' v hintact hv

end Failed

/-- Replace the identity under `"a"` by one of a type that cannot be generated. -/
def unsupportedRotation : Call UInt8 :=
  .rotate ⟨"a", labelBytes_a_lt⟩ (.generate .rsa) .never

theorem failed_calls_change_nothing_rotation :
    ∃ trace, (program byteIdentity false unsupportedRotation).Plays trace
        (.error (.unsupportedKeyType .rsa)) ∧
      trace.any (fun x => match x with
        | ⟨.accept _ label _ _, _⟩ => label = "a"
        | _ => false) = true ∧
      ∃ w, (machine plainBackend.environment).Replays heldWorld trace w ∧
        Intact heldWorld w := by
  have hplays := Prog.plays_record plainBackend.exec
    (program byteIdentity false unsupportedRotation) heldWorld
  have hreplays := Machine.replays_record plainBackend.step_exec
    (program byteIdentity false unsupportedRotation) heldWorld
  have hresult : (Prog.record plainBackend.exec
      (program byteIdentity false unsupportedRotation) heldWorld).2.1 =
        .error (.unsupportedKeyType .rsa) := rfl
  rw [hresult] at hplays
  refine ⟨_, hplays, by decide +kernel, _, hreplays, ?_⟩
  exact ((failed_calls_change_nothing hplays (by decide +kernel) _).2 _ _ hreplays).1

end Connexa.Keystore.Keychain
