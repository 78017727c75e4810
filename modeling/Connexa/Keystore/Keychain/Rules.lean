import Mathlib.Logic.Function.Basic
import Connexa.Keystore.Keychain.World

/-!
# Rules for the keychain's methods

What the parts that the methods share need and give, for any discipline of the
keychain's tasks.  An error always leaves everything in order, so only what
holds before and after a result is stated.
-/

namespace Connexa.Keystore.Keychain

open Discipline
open Machine (Yields)

variable {K : Type}

/-- The program keeps to the discipline; `B` holds after a result. -/
abbrev Spec (D : Discipline (World K)) (env : Environment K) (stops : Bool)
    {α : Type} (A : View (World K) → Prop) (x : KeychainM K α)
    (B : α → View (World K) → Prop) : Prop :=
  D.Triple (machine env) Op.kind stops A x B fun _ => D.Settled

/-- The condition may stand when a method gives up. -/
structure Secure (D : Discipline (World K)) (A : View (World K) → Prop) :
    Prop where
  lasting : D.Lasting A
  settled : ∀ v, A v → D.Settled v

/-- A task with the guard can rely on the condition, and others can once it is
gone. -/
structure Held (D : Discipline (World K)) (guard : Guard)
    (A : World K → Prop) : Prop where
  stable : D.Stable guard A
  inv : guard = .write → ∀ w, A w → D.Inv w

variable {D : Discipline (World K)} {env : Environment K} {stops : Bool}
  {guard : Guard} {detached : Bool} {A : World K → Prop} {α β : Type}

theorem Held.secure (h : Held D guard A) :
    Secure D (View.Has guard detached A) where
  lasting := h.stable.lasting
  settled := by
    rintro v ⟨rfl, rfl, hv⟩ hguard
    exact h.inv hguard _ hv

theorem Held.leaves (h : Held D guard A) : D.Leaves stops guard detached A :=
  fun hguard _ w hw => h.inv hguard w hw

theorem held_none (h : D.Stable .none A) : Held D .none A :=
  ⟨h, nofun⟩

theorem held_read (h : D.Stable .read A) : Held D .read A :=
  ⟨h, nofun⟩

theorem held_write (h : ∀ w, A w → D.Inv w) : Held D .write A :=
  ⟨stable_write A, fun _ => h⟩

/-! ## Checks -/

section Checks

variable {V : View (World K) → Prop} {x : KeychainM K α}
  {C : α → View (World K) → Prop}

theorem spec_throw (hV : Secure D V) (e : Error) :
    Spec D env stops V (throw e) C :=
  triple_throw hV.lasting hV.settled

theorem spec_pure {a : α} (hV : D.Lasting V) (hC : ∀ v, V v → C a v) :
    Spec D env stops V (pure a) C :=
  triple_pure hV hC

theorem spec_throw_bind (hV : Secure D V) (e : Error) {f : β → KeychainM K α} :
    Spec D env stops V (throw e >>= f) C :=
  (spec_throw (C := fun _ _ => False) hV e).bind fun _ _ h => h.elim

/-- `if c then throw e` in front of `f`. -/
theorem spec_unless (hV : Secure D V) {c : Prop} [Decidable c] {e : Error}
    {f : Unit → KeychainM K α} (h : ¬c → Spec D env stops V (f ()) C) :
    Spec D env stops V (if c then throw e >>= f else f ()) C := by
  by_cases hc : c
  · rw [if_pos hc]
    exact spec_throw_bind hV e
  · rw [if_neg hc]
    exact h hc

theorem spec_checkLabel (hV : Secure D V) {label : String}
    (h : validateLabel label = .ok () → Spec D env stops V x C) :
    Spec D env stops V (checkLabel label >>= fun _ => x) C := by
  cases hlabel : validateLabel label with
  | error e =>
      simp only [checkLabel, hlabel]
      exact spec_throw_bind hV e
  | ok u =>
      simp only [checkLabel, hlabel]
      exact h hlabel

theorem spec_disableCheck (hV : Secure D V) {disabled : Bool}
    (h : Spec D env stops V x C) :
    Spec D env stops V (disableCheck disabled >>= fun _ => x) C := by
  cases disabled with
  | true => exact spec_throw_bind hV _
  | false => exact h

theorem spec_keyResult (hV : Secure D V) {r : Except String β}
    {f : β → KeychainM K α}
    (h : ∀ b, r = .ok b → Spec D env stops V (f b) C) :
    Spec D env stops V (keyResult r >>= f) C := by
  cases r with
  | error e => exact spec_throw_bind hV _
  | ok b => exact h b rfl

/-- A fact that does not depend on the world. -/
theorem spec_of_fact {φ : Prop}
    (h : φ → Spec D env stops (View.Has guard detached A) x C) :
    Spec D env stops (View.Has guard detached fun w => A w ∧ φ) x C :=
  fun v hv => h hv.holds.2 v (hv.mono fun _ hw => hw.1)

end Checks

/-! ## Primitives -/

section Primitives

theorem spec_shared {o : Op K} {B : Reply o → World K → Prop}
    (hkind : o.kind = .shared) (hA : Held D guard A)
    (hB : ∀ r, D.Stable guard (B r))
    (hstep : ∀ w r w', A w → World.step env o w r w' → D.May guard w w' ∧ B r w') :
    Spec D env stops (View.Has guard detached A) (call o)
      fun r => View.Has guard detached (B r) :=
  triple_lift (fun _ hv => ok_shared hkind hv hA.stable hB hA.leaves hstep)
    fun _ _ h => h

theorem spec_free {o : Op K} {B : Reply o → World K → Prop}
    (hkind : o.kind = .free) (hA : Held D guard A)
    (hB : ∀ r, D.Stable guard (B r))
    (hstep : ∀ w r w', A w → World.step env o w r w' → w' = w ∧ B r w) :
    Spec D env stops (View.Has guard detached A) (call o)
      fun r => View.Has guard detached (B r) :=
  triple_lift (fun _ hv => ok_free hkind hv hA.stable hB hA.leaves hstep)
    fun _ _ h => h

/-- What a fallible primitive leaves: `B` with a result, `A` after an error. -/
def Outcome (A : World K → Prop) (B : α → World K → Prop) :
    Except Error α → World K → Prop
  | .ok a => B a
  | .error _ => A

theorem stable_outcome {B : α → World K → Prop} (hA : D.Stable guard A)
    (hB : ∀ a, D.Stable guard (B a)) (r : Except Error α) :
    D.Stable guard (Outcome A B r) := by
  cases r with
  | ok a => exact hB a
  | error e => exact hA

theorem spec_fallible {V : View (World K) → Prop} {B : α → World K → Prop}
    {p : Prog (Op K) Reply (Except Error α)} (hA : Held D guard A)
    (hp : ∀ v, V v → D.Ok (machine env) Op.kind stops
      (fun r v => v.Has guard detached (Outcome A B r)) p v) :
    Spec D env stops V (ExceptT.mk p)
      fun a => View.Has guard detached (B a) := by
  intro v hv
  refine (hp v hv).mono ?_
  rintro (e | a) v' h
  · exact hA.secure.settled v' h
  · exact h

theorem may_refl (hguard : guard ≠ .none) (w : World K) : D.May guard w w := by
  cases guard with
  | none => exact absurd rfl hguard
  | read => exact D.reads_refl w
  | write => exact D.moves_refl w

/-- The backend's answer tells what `gets` says of it. -/
theorem spec_backendGet {B : Option EncryptedEntry → World K → Prop}
    {label : String} (hguard : guard ≠ .none) (hA : Held D guard A)
    (hB : ∀ r, D.Stable guard (B r))
    (hstep : ∀ w r, A w → env.gets w.store label (.ok r) → B r w) :
    Spec D env stops (View.Has guard detached A) (backendGet label)
      fun r => View.Has guard detached (B r) := by
  refine spec_fallible hA fun v hv => ok_shared (R := Reply) (o := Op.get label)
    (B := Outcome A B) rfl hv hA.stable (stable_outcome hA.stable hB) hA.leaves ?_
  rintro w r w' hw ⟨hgets, rfl⟩
  refine ⟨may_refl hguard w', ?_⟩
  cases r with
  | ok found => exact hstep w' found hw hgets
  | error e => exact hw

theorem spec_unlock {B : World K → Prop} (hA : Held D guard A)
    (hB : D.Stable .none B) (hstep : ∀ w, A w → B w) :
    Spec D env stops (View.Has guard detached A) (call .unlock)
      fun _ => View.Has .none detached B := by
  refine triple_lift (fun v hv => ok_unlock rfl hv hA.stable (fun _ => hB)
    hA.inv ?_) fun _ _ h => h
  rintro w r w' hw rfl
  exact ⟨rfl, hstep w' hw⟩

end Primitives

/-! ## The cipher slot and the log -/

/-- Readers leave the cipher alone, and the log only grows. -/
structure Recording (D : Discipline (World K)) : Prop where
  cipher : ∀ {v w}, D.Reads v w → w.cipher = v.cipher
  log : ∀ {v w}, D.Moves v w → v.log <+: w.log

theorem Recording.stable_cipher (hD : Recording D) (hguard : guard ≠ .none)
    (slot : Option CipherId) : D.Stable guard fun w => w.cipher = slot := by
  cases guard with
  | none => exact absurd rfl hguard
  | read => exact fun w w' hrely h => (hD.cipher hrely).trans h
  | write => exact stable_write _

theorem Recording.rely_log (hD : Recording D) {v w : World K}
    (h : D.Rely guard v w) : v.log <+: w.log := by
  cases guard with
  | none => exact hD.log h
  | read => exact hD.log (D.moves_of_reads h)
  | write =>
      obtain rfl : v = w := h
      exact List.prefix_rfl

/-- Facts about the log that stay true as it grows. -/
def Rising (F : List (Event K) → Prop) : Prop :=
  ∀ l l', l <+: l' → F l → F l'

/-- The log has grown from `before`, and `F` holds of it. -/
def Since (before : List (Event K)) (F : List (Event K) → Prop) (w : World K) :
    Prop :=
  before <+: w.log ∧ F w.log

section Facts

variable {before : List (Event K)} {F G : List (Event K) → Prop}

theorem rising_true : Rising (K := K) fun _ => True :=
  fun _ _ _ _ => trivial

theorem Rising.and (hF : Rising F) (hG : Rising G) :
    Rising fun l => F l ∧ G l :=
  fun l l' hl h => ⟨hF l l' hl h.1, hG l l' hl h.2⟩

/-- What growing histories keep, others cannot take away. -/
theorem Recording.stable_log (hD : Recording D) (hF : Rising F) :
    D.Stable guard fun w => F w.log :=
  fun _ _ hrely h => hF _ _ (hD.rely_log hrely) h

theorem Recording.stable_since (hD : Recording D) (hF : Rising F) :
    D.Stable guard (Since before F) :=
  (hD.stable_log fun _ _ hl h => h.trans hl).and (hD.stable_log hF)

/-- The log has grown from `before`, `F` holds of it, and everything is in
order. -/
def InOrder (D : Discipline (World K)) (before : List (Event K))
    (F : List (Event K) → Prop) (w : World K) : Prop :=
  Since before F w ∧ D.Inv w

theorem held_inOrder (hD : Recording D) (hF : Rising F) (hguard : guard ≠ .none) :
    Held D guard (InOrder D before F) where
  stable := by
    cases guard with
    | none => exact absurd rfl hguard
    | read => exact (hD.stable_since hF).and stable_inv
    | write => exact stable_write _
  inv _ _ h := h.2

theorem InOrder.mono {w : World K} (h : InOrder D before F w)
    (hFG : ∀ l, F l → G l) : InOrder D before G w :=
  ⟨⟨h.1.1, hFG _ h.1.2⟩, h.2⟩

end Facts

/-! ## Locking -/

section Locking

variable (hD : Recording D)

include hD

theorem spec_checkedCipher (hguard : guard ≠ .none) (hA : Held D guard A) :
    Spec D env stops (View.Has guard detached A) checkedCipher
      fun cipher => View.Has guard detached
        fun w => A w ∧ w.cipher = some cipher := by
  have hslot : ∀ slot, Held D guard fun w => A w ∧ w.cipher = slot :=
    fun slot => ⟨hA.stable.and (hD.stable_cipher hguard slot),
      fun hwrite w hw => hA.inv hwrite w hw.1⟩
  refine (spec_shared (B := fun r w => A w ∧ w.cipher = r) rfl hA
    (fun r => (hslot r).stable) ?_).bind ?_
  · rintro w r w' hw ⟨rfl, rfl⟩
    exact ⟨may_refl hguard w', hw, rfl⟩
  · intro r
    cases r with
    | none => exact spec_throw (hslot none).secure _
    | some cipher => exact spec_pure (hslot (some cipher)).secure.lasting fun _ h => h

theorem spec_readLock (hA : D.Stable .none A) :
    Spec D env stops (View.Has .none detached A) readLock
      fun cipher => View.Has .read detached
        fun w => (A w ∧ D.Inv w) ∧ w.cipher = some cipher := by
  have hread := hA.read.and stable_inv
  have hlock : Spec D env stops (View.Has .none detached A) (call .readLock)
      fun _ => View.Has .read detached fun w => A w ∧ D.Inv w := by
    refine triple_lift (fun v hv => ok_lockRead rfl hv hA (fun _ => hread) ?_)
      fun _ _ h => h
    rintro w r w' hw hinv rfl
    exact ⟨rfl, hw, hinv⟩
  exact hlock.bind fun _ => spec_checkedCipher hD nofun (held_read hread)

theorem spec_writeLock (hA : D.Stable .none A) :
    Spec D env stops (View.Has .none detached A) writeLock
      fun cipher => View.Has .write detached
        fun w => (A w ∧ D.Inv w) ∧ w.cipher = some cipher := by
  have hlock : Spec D env stops (View.Has .none detached A) (call .writeLock)
      fun _ => View.Has .write detached fun w => A w ∧ D.Inv w := by
    refine triple_lift (fun v hv => ok_lockWrite rfl hv hA ?_) fun _ _ h => h
    rintro w r w' hw hinv rfl
    exact ⟨rfl, hw, hinv⟩
  exact hlock.bind fun _ =>
    spec_checkedCipher hD nofun (held_write fun _ hw => hw.2)

end Locking

/-! ## Entries -/

theorem eq_of_sameMetadata {a b : KeyMetadata} (h : sameMetadata a b = true) :
    a = b := by
  cases a
  cases b
  simpa [sameMetadata, and_assoc] using h

theorem World.record_nil (w : World K) : w.record [] = w := by
  simp [World.record]

section Entries

variable {identity : Identity K} {cipher : CipherId} {label : String}
  {entry : EncryptedEntry} {metadata : KeyMetadata} {keypair : K}

/-- A sealed entry is recorded with the plaintext that the cipher got. -/
theorem spec_sealEntry {B : EncryptedEntry → World K → Prop}
    (hA : Held D .write A)
    (hstep : ∀ w plaintext ciphertext, A w →
      identity.toProtobufEncoding keypair = .ok plaintext →
      env.encrypts w.log cipher (metadataAad metadata) plaintext (.ok ciphertext) →
      let w' := w.record [.sealed cipher (metadataAad metadata) plaintext
        ciphertext metadata keypair]
      D.Moves w w' ∧ B ⟨metadata, ciphertext⟩ w') :
    Spec D env stops (View.Has .write detached A)
      (sealEntry identity cipher metadata keypair)
      fun e => View.Has .write detached (B e) := by
  refine spec_keyResult hA.secure fun plaintext hplain => ?_
  have hencrypt : Spec D env stops (View.Has .write detached A)
      (ExceptT.mk (Prog.op (Op.encrypt cipher (metadataAad metadata) plaintext
        metadata keypair)))
      fun ciphertext => View.Has .write detached (B ⟨metadata, ciphertext⟩) := by
    refine spec_fallible hA fun v hv => ok_shared (R := Reply)
      (o := Op.encrypt cipher (metadataAad metadata) plaintext metadata keypair)
      (B := Outcome A fun ciphertext => B ⟨metadata, ciphertext⟩) rfl hv
      (stable_write _) (fun _ => stable_write _) hA.leaves ?_
    rintro w r w' hw ⟨hencrypts, rfl⟩
    cases r with
    | ok ciphertext => exact hstep w plaintext ciphertext hw hplain hencrypts
    | error e =>
        rw [sealEvents, World.record_nil]
        exact ⟨D.moves_refl w, hw⟩
  exact hencrypt.bind fun ciphertext => spec_pure (stable_write _).lasting
    fun _ h => h

/-- The cipher has decrypted to the plaintext at some point of the history. -/
def Decrypted (env : Environment K) (cipher : CipherId) (entry : EncryptedEntry)
    (plaintext : Bytes) (log : List (Event K)) : Prop :=
  ∃ pre, pre <+: log ∧ env.decrypts pre cipher (metadataAad entry.metadata)
    entry.ciphertext (.ok plaintext)

theorem Decrypted.mono {plaintext : Bytes} {log log' : List (Event K)}
    (h : Decrypted env cipher entry plaintext log) (hlog : log <+: log') :
    Decrypted env cipher entry plaintext log' := by
  obtain ⟨pre, hpre, hdecrypts⟩ := h
  exact ⟨pre, hpre.trans hlog, hdecrypts⟩

/-- An accepted entry has passed all checks and is recorded. -/
theorem spec_openEntry (hD : Recording D) {B : OpenedEntry K → World K → Prop}
    (hguard : guard ≠ .none) (hA : Held D guard A)
    (hB : ∀ o, D.Stable guard (B o))
    (hstep : ∀ w plaintext keypair, A w → entry.metadata.label = label →
      Decrypted env cipher entry plaintext w.log →
      identity.fromProtobufEncoding plaintext = .ok keypair →
      identity.Matches keypair entry.metadata →
      let w' := w.record [.accepted w.cipher cipher label entry keypair]
      D.May guard w w' ∧ B ⟨keypair, entry.metadata⟩ w') :
    Spec D env stops (View.Has guard detached A)
      (openEntry identity cipher label entry)
      fun o => View.Has guard detached (B o) := by
  unfold openEntry
  apply spec_unless hA.secure
  intro hlabel
  rw [ne_eq, not_not] at hlabel
  -- what is known of the plaintext lasts until the entry is accepted
  have hplain : ∀ plaintext, Held D guard fun w =>
      A w ∧ Decrypted env cipher entry plaintext w.log := fun plaintext =>
    ⟨hA.stable.and (hD.stable_log fun _ _ hlog h => h.mono hlog),
      fun hwrite w hw => hA.inv hwrite w hw.1⟩
  have hdecrypt : Spec D env stops (View.Has guard detached A)
      (ExceptT.mk (Prog.op (Op.decrypt cipher (metadataAad entry.metadata)
        entry.ciphertext)))
      fun plaintext => View.Has guard detached fun w =>
        A w ∧ Decrypted env cipher entry plaintext w.log := by
    refine spec_fallible hA fun v hv => ok_shared (R := Reply)
      (o := Op.decrypt cipher (metadataAad entry.metadata) entry.ciphertext)
      (B := Outcome A fun plaintext w =>
        A w ∧ Decrypted env cipher entry plaintext w.log) rfl hv hA.stable
      (stable_outcome hA.stable fun plaintext => (hplain plaintext).stable)
      hA.leaves ?_
    rintro w r w' hw ⟨hdecrypts, rfl⟩
    refine ⟨may_refl hguard w', ?_⟩
    cases r with
    | ok plaintext => exact ⟨hw, w'.log, List.prefix_rfl, hdecrypts⟩
    | error e => exact hw
  refine hdecrypt.bind fun plaintext => ?_
  refine spec_keyResult (hplain plaintext).secure fun keypair hkeypair => ?_
  apply spec_unless (hplain plaintext).secure
  intro hmatches
  rw [not_not] at hmatches
  refine (spec_shared (B := fun _ => B ⟨keypair, entry.metadata⟩) rfl
    (hplain plaintext) (fun _ => hB _) ?_).bind fun _ =>
      spec_pure (hB _).lasting fun _ h => h
  rintro w r w' ⟨hw, hdec⟩ rfl
  exact hstep w plaintext keypair hw hlabel hdec hkeypair hmatches

/-- The clock decides whether an entry with an expiry is expired. -/
theorem spec_isExpired {B : Bool → World K → Prop} (hA : Held D guard A)
    (hB : ∀ b, D.Stable guard (B b))
    (hnever : ∀ w, A w → metadata.expiresAt = none → B false w)
    (hread : ∀ w expiry now, A w → metadata.expiresAt = some expiry →
      env.clock w.log now → B (decide (expiry.nanos ≤ now.nanos)) w) :
    Spec D env stops (View.Has guard detached A) (isExpired metadata)
      fun b => View.Has guard detached (B b) := by
  unfold isExpired
  cases hexpiry : metadata.expiresAt with
  | none =>
      exact spec_pure hA.secure.lasting fun v hv =>
        hv.mono fun w hw => hnever w hw hexpiry
  | some expiry =>
      refine (spec_free
        (B := fun now => B (decide (expiry.nanos ≤ SystemTime.nanos now)))
        rfl hA (fun _ => hB _) ?_).bind fun now =>
          spec_pure (hB _).lasting fun _ h => h
      rintro w now w' hw ⟨hclock, rfl⟩
      exact ⟨rfl, hread w' expiry now hw hexpiry hclock⟩

theorem spec_generateKeypair (hA : Held D guard A) (keyType : KeyType) :
    Spec D env stops (View.Has guard detached A)
      (generateKeypair identity keyType) fun _ => View.Has guard detached A := by
  unfold generateKeypair
  split
  · refine spec_free (B := fun _ => A) rfl hA (fun _ => hA.stable) ?_
    rintro w r w' hw ⟨-, rfl⟩
    exact ⟨rfl, hw⟩
  · exact spec_throw hA.secure _

end Entries

/-! ## Mutations -/

/-- The work of a mutation runs without the cipher, which is put back after
it. -/
theorem spec_finishMutation {work : KeychainM K α} (cipher : CipherId)
    {B : α → World K → Prop} {C : Except Error α → World K → Prop}
    (hA : ∀ w, A w → D.Inv w ∧ w.cipher = some cipher ∧
      D.Moves w { w with cipher := none })
    (hwork : ∀ v : View (World K),
      v.Has .write true (fun w => ∃ u, A u ∧ w = { u with cipher := none }) →
      D.Ok (machine env) Op.kind stops (fun r v => v.Has .write true (C r))
        work.run v)
    (hC : ∀ r, D.Leaves stops .write true (C r))
    (hset : ∀ r w, C r w → D.Moves w { w with cipher := some cipher } ∧
      Outcome D.Inv B r { w with cipher := some cipher }) :
    Spec D env stops (View.Has .write detached A) (finishMutation work)
      fun a => View.Has .write true (B a) := by
  refine spec_fallible (held_write fun _ h => h) fun v hv => ?_
  apply Ok.bind
  refine (ok_detach (R := Reply) (o := Op.detach)
    (B := fun r w => r = some cipher ∧ ∃ u, A u ∧ w = { u with cipher := none })
    rfl hv (fun w hw => (hA w hw).1) ?_).mono ?_
  · rintro w r w' hw ⟨rfl, rfl⟩
    obtain ⟨-, hcipher, hmoves⟩ := hA w hw
    exact ⟨hmoves, hcipher, w, hw, rfl⟩
  · rintro r v' h
    obtain rfl : r = some cipher := h.holds.1
    apply Ok.bind
    refine (hwork v' (h.mono fun w hw => hw.2)).mono fun result v'' hresult => ?_
    apply Ok.bind
    refine (ok_shared (R := Reply) (o := Op.setCipher (some cipher))
      (B := fun _ => Outcome D.Inv B result) rfl hresult (stable_write _)
      (fun _ => stable_write _) (hC result) ?_).mono fun _ v hend w hw =>
        (stable_write _).lasting v w hw hend
    rintro w r w' hw rfl
    exact hset result w hw

/-! ## Lists of entries -/

/-- The labels are valid, distinct and not among the given ones. -/
def Loaded (labels : List String) (entries : List EncryptedEntry) : Prop :=
  (entries.map (·.metadata.label)).Nodup ∧ ∀ entry ∈ entries,
    validateLabel entry.metadata.label = .ok () ∧ entry.metadata.label ∉ labels

theorem loaded_cons {labels : List String} {entry : EncryptedEntry}
    {entries : List EncryptedEntry}
    (hvalid : validateLabel entry.metadata.label = .ok ())
    (hnew : entry.metadata.label ∉ labels)
    (h : Loaded (entry.metadata.label :: labels) entries) :
    Loaded labels (entry :: entries) := by
  constructor
  · rw [List.map_cons, List.nodup_cons]
    refine ⟨?_, h.1⟩
    intro hmem
    obtain ⟨other, hother, hlabel⟩ := List.mem_map.mp hmem
    exact (h.2 other hother).2 (hlabel ▸ List.mem_cons_self)
  · intro other hother
    rcases List.mem_cons.mp hother with rfl | hother
    · exact ⟨hvalid, hnew⟩
    · obtain ⟨hvalid, hnew⟩ := h.2 other hother
      exact ⟨hvalid, fun hmem => hnew (List.mem_cons_of_mem _ hmem)⟩

/-! ## What entries open to -/

/-- The protobuf encoding of a keypair can be read back. -/
def Identity.RoundTrips (identity : Identity K) : Prop :=
  ∀ keypair bytes, identity.toProtobufEncoding keypair = .ok bytes →
    identity.fromProtobufEncoding bytes = .ok keypair

/-- Decryption is a function of its arguments, and the inverse of encryption
under the same associated data. -/
structure Environment.Ciphers (env : Environment K) : Prop where
  functional : ∀ {log log' cipher aad ciphertext r r'},
    env.decrypts log cipher aad ciphertext r →
    env.decrypts log' cipher aad ciphertext r' → r = r'
  inverse : ∀ {log cipher aad plaintext ciphertext},
    env.encrypts log cipher aad plaintext (.ok ciphertext) →
    ∀ log', env.decrypts log' cipher aad ciphertext (.ok plaintext)

/-- The entry opens under the label to the keypair. -/
def Opens (identity : Identity K) (env : Environment K) (cipher : CipherId)
    (label : String) (entry : EncryptedEntry) (keypair : K) : Prop :=
  entry.metadata.label = label ∧ identity.Matches keypair entry.metadata ∧
    ∃ log plaintext, env.decrypts log cipher (metadataAad entry.metadata)
        entry.ciphertext (.ok plaintext) ∧
      identity.fromProtobufEncoding plaintext = .ok keypair

section Opens

variable {identity : Identity K} {cipher : CipherId} {label : String}
  {entry : EncryptedEntry} {keypair keypair' : K}

theorem Opens.eq (hciphers : env.Ciphers)
    (h : Opens identity env cipher label entry keypair)
    (h' : Opens identity env cipher label entry keypair') : keypair = keypair' := by
  obtain ⟨-, -, log, plaintext, hdecrypts, hkeypair⟩ := h
  obtain ⟨-, -, log', plaintext', hdecrypts', hkeypair'⟩ := h'
  cases hciphers.functional hdecrypts hdecrypts'
  exact Except.ok.inj (hkeypair.symm.trans hkeypair')

/-- What was sealed opens. -/
theorem opens_of_encrypts (hciphers : env.Ciphers) (hround : identity.RoundTrips)
    {metadata : KeyMetadata} {log : List (Event K)} {plaintext ciphertext : Bytes}
    (hmatches : identity.Matches keypair metadata)
    (hplain : identity.toProtobufEncoding keypair = .ok plaintext)
    (hencrypts : env.encrypts log cipher (metadataAad metadata) plaintext
      (.ok ciphertext)) :
    Opens identity env cipher metadata.label ⟨metadata, ciphertext⟩ keypair :=
  ⟨rfl, hmatches, log, plaintext, hciphers.inverse hencrypts log,
    hround keypair plaintext hplain⟩

end Opens

/-! ## A small instance -/

/-- Keypairs of one byte. -/
def byteIdentity : Identity UInt8 where
  keyType _ := .ed25519
  publicKey keypair := [keypair]
  publicKey_lt _ := by simp
  toProtobufEncoding keypair := .ok [keypair]
  fromProtobufEncoding
    | [keypair] => .ok keypair
    | _ => .error "not a keypair"
  canGenerate keyType := keyType = .ed25519

theorem byteIdentity_roundTrips : byteIdentity.RoundTrips := by
  rintro keypair _ ⟨⟩
  rfl

/-- A backend that holds the labels `"a"` and `"b"` without faults, and ciphers
that put themselves and the associated data in front of the plaintext. -/
def plainBackend : Simulation UInt8 where
  get store label := .ok (store label)
  list store := .ok (["a", "b"].filterMap fun label =>
    (store label).map (·.metadata))
  put store entry :=
    (.ok (), Function.update store entry.metadata.label (some entry))
  putMany store entries :=
    (.ok (), entries.foldl (fun store entry =>
      Function.update store entry.metadata.label (some entry)) store)
  remove store label :=
    (.ok (store label).isSome, Function.update store label none)
  now _ := ⟨0, SystemTime.epoch_bounded⟩
  generate _ := 5
  encrypt _ cipher aad plaintext :=
    .ok ((UInt8.ofNat cipher :: aad) ++ plaintext)
  decrypt _ cipher aad ciphertext :=
    if (UInt8.ofNat cipher :: aad) <+: ciphertext then
      .ok (ciphertext.drop (UInt8.ofNat cipher :: aad).length)
    else .error .decryptFailed

theorem plainBackend_ciphers : plainBackend.environment.Ciphers where
  functional h h' := h.trans h'.symm
  inverse := by
    rintro log cipher aad plaintext _ ⟨⟩ log'
    simp only [Simulation.environment, plainBackend, List.prefix_append, if_true,
      List.drop_left]

end Connexa.Keystore.Keychain
