import Connexa.Keystore.Keychain.Phases
import Connexa.Keystore.Keychain.Rules

/-!
# Identities and versions under concurrency

Any number of tasks insert, rotate, create, remove and read identities over a
backend without faults.  What the backend holds is at any time what the record
says was applied, `get_or_create` always answers with the stored identity, and
the versions count the rotations.
-/

namespace Connexa.Keystore.Keychain

open Discipline

variable {K : Type}

/-- A backend without faults. -/
structure Environment.Faultless (env : Environment K) : Prop where
  gets : ∀ {store label r}, env.gets store label r → r = .ok (store label)
  puts : ∀ {store entry r store'}, env.puts store entry r store' → r = .ok () ∧
    store' = Function.update store entry.metadata.label (some entry)
  removes : ∀ {store label r store'}, env.removes store label r store' →
    r = .ok (store label).isSome ∧ store' = Function.update store label none

/-! ## The record determines the store -/

/-- What an event does to the store. -/
def Event.apply (store : Store) : Event K → Store
  | .stored _ entry _ => Function.update store entry.metadata.label (some entry)
  | .removed label => Function.update store label none
  | _ => store

/-- The store after the recorded events. -/
def replay (init : Store) (log : List (Event K)) : Store :=
  log.foldl Event.apply init

theorem replay_snoc (init : Store) (log : List (Event K)) (e : Event K) :
    replay init (log ++ [e]) = e.apply (replay init log) := by
  simp [replay]

/-- A version may be stored over what is there before. -/
def Mutation.Allowed (kind : Mutation) (old : Option EncryptedEntry)
    (version : Fin (2 ^ 32)) : Prop :=
  match kind with
  | .insert => version = 1
  | .create => version = 1 ∧ old = none
  | .rotate => ∃ entry, old = some entry ∧
      version = nextVersion entry.metadata.version

/-- The clock has shown a time at which the entry was not expired. -/
def Unexpired (env : Environment K) (log : List (Event K))
    (metadata : KeyMetadata) : Prop :=
  ∀ expiry, metadata.expiresAt = some expiry →
    ∃ now, env.clock log now ∧ now.nanos < expiry.nanos

/-- What is stored opens to the recorded keypair and has the right version;
what `get_or_create` finds is stored, opens and is not expired. -/
def Faithful (identity : Identity K) (env : Environment K) (cipher : CipherId)
    (init : Store) (pre : List (Event K)) : Event K → Prop
  | .stored kind entry keypair =>
      kind.Allowed (replay init pre entry.metadata.label) entry.metadata.version ∧
        Opens identity env cipher entry.metadata.label entry keypair
  | .found label keypair =>
      ∃ entry, replay init pre label = some entry ∧
        Opens identity env cipher label entry keypair ∧
        Unexpired env pre entry.metadata
  | _ => True

/-- The event begins or ends an identity of the label. -/
def Event.Resets (label : String) : Event K → Prop
  | .stored .rotate _ _ => False
  | .stored _ entry _ => entry.metadata.label = label
  | .removed label' => label' = label
  | _ => False

/-- The event is a rotation of the label. -/
def Event.rotates (label : String) : Event K → Bool
  | .stored .rotate entry _ => entry.metadata.label = label
  | _ => false

/-- The number of rotations of the label. -/
def rotations (label : String) (log : List (Event K)) : ℕ :=
  log.countP (Event.rotates label)

section Histories

variable {identity : Identity K} {env : Environment K} {cipher : CipherId}
  {init : Store} {label : String} {pre post : List (Event K)}

theorem apply_of_not_resets {e : Event K} {store : Store}
    (hresets : ¬e.Resets label) (hrotates : e.rotates label = false) :
    e.apply store label = store label := by
  cases e with
  | stored kind entry keypair =>
      have hlabel : label ≠ entry.metadata.label := by
        rintro rfl
        cases kind <;> simp [Event.Resets, Event.rotates] at hresets hrotates
      simp [Event.apply, hlabel]
  | removed label' =>
      have hlabel : label ≠ label' := fun h => hresets h.symm
      simp [Event.apply, hlabel]
  | _ => rfl

theorem val_nextVersion (version : Fin (2 ^ 32)) :
    (nextVersion version : ℕ) = min ((version : ℕ) + 1) (2 ^ 32 - 1) := rfl

/-- Without resets the version counts the rotations. -/
theorem version_of_rotations {entry : EncryptedEntry}
    (hlog : Chronicle (Faithful identity env cipher init) (pre ++ post))
    (hentry : replay init pre label = some entry)
    (hpost : ∀ e ∈ post, ¬e.Resets label) :
    ∃ entry', replay init (pre ++ post) label = some entry' ∧
      (entry'.metadata.version : ℕ) =
        min ((entry.metadata.version : ℕ) + rotations label post) (2 ^ 32 - 1) := by
  induction post using List.reverseRecOn with
  | nil =>
      refine ⟨entry, by simpa using hentry, ?_⟩
      have := entry.metadata.version.isLt
      simp only [rotations, List.countP_nil]
      omega
  | append_singleton post e ih =>
      rw [← List.append_assoc] at hlog
      obtain ⟨hlog, hevent⟩ := Chronicle.snoc_iff.mp hlog
      obtain ⟨entry', hentry', hversion⟩ := ih hlog
        fun x hx => hpost x (List.mem_append_left _ hx)
      have hreset := hpost e (List.mem_append_right _ (List.mem_singleton_self e))
      rw [← List.append_assoc, replay_snoc, rotations, List.countP_append,
        List.countP_singleton]
      cases hrotates : e.rotates label with
      | false =>
          rw [apply_of_not_resets hreset hrotates]
          exact ⟨entry', hentry', by simpa [rotations] using hversion⟩
      | true =>
          cases e with
          | stored kind new keypair =>
              cases kind with
              | rotate =>
                  obtain rfl : new.metadata.label = label := by
                    simpa [Event.rotates] using hrotates
                  obtain ⟨old, hold, hnew⟩ := hevent.1
                  rw [hentry'] at hold
                  cases hold
                  refine ⟨new, by simp [Event.apply], ?_⟩
                  rw [hnew, val_nextVersion]
                  simp only [rotations] at hversion
                  simp only [if_true]
                  omega
              | _ => cases hrotates
          | _ => cases hrotates

/-- `get_or_create` has answered with the keypair at this point. -/
def Event.Identifies (label : String) (keypair : K) : Event K → Prop
  | .found label' keypair' => label' = label ∧ keypair' = keypair
  | .stored .create entry keypair' =>
      entry.metadata.label = label ∧ keypair' = keypair
  | _ => False

/-- The event is a mutation of the label by another operation than
`get_or_create`. -/
def Event.Mutates (label : String) : Event K → Prop
  | .stored .create _ _ => False
  | .stored _ entry _ => entry.metadata.label = label
  | .removed label' => label' = label
  | _ => False

/-- The answer of `get_or_create` is the stored identity. -/
theorem stored_of_identifies {e : Event K} {keypair : K}
    (he : e.Identifies label keypair)
    (hevent : Faithful identity env cipher init pre e) :
    ∃ entry, replay init (pre ++ [e]) label = some entry ∧
      Opens identity env cipher label entry keypair := by
  rw [replay_snoc]
  cases e with
  | found label' keypair' =>
      obtain ⟨rfl, rfl⟩ := he
      obtain ⟨entry, hentry, hopens, -⟩ := hevent
      exact ⟨entry, hentry, hopens⟩
  | stored kind entry keypair' =>
      cases kind with
      | create =>
          obtain ⟨rfl, rfl⟩ := he
          exact ⟨entry, by simp [Event.apply], hevent.2⟩
      | _ => exact he.elim
  | _ => exact he.elim

/-- What is stored stays if only `get_or_create` is at work on the label. -/
theorem replay_of_not_mutates {entry : EncryptedEntry}
    (hlog : Chronicle (Faithful identity env cipher init) (pre ++ post))
    (hentry : replay init pre label = some entry)
    (hpost : ∀ e ∈ post, ¬e.Mutates label) :
    replay init (pre ++ post) label = some entry := by
  induction post using List.reverseRecOn with
  | nil => simpa using hentry
  | append_singleton post e ih =>
      rw [← List.append_assoc] at hlog
      obtain ⟨hlog, hevent⟩ := Chronicle.snoc_iff.mp hlog
      have hkept := ih hlog fun x hx => hpost x (List.mem_append_left _ hx)
      have hmutates := hpost e (List.mem_append_right _ (List.mem_singleton_self e))
      rw [← List.append_assoc, replay_snoc]
      cases e with
      | stored kind new keypair =>
          have hlabel : label ≠ new.metadata.label := by
            rintro rfl
            cases kind with
            | create =>
                -- it would have found the entry instead
                have hnone := hevent.1.2
                rw [hkept] at hnone
                cases hnone
            | _ => exact hmutates rfl
          simpa [Event.apply, hlabel] using hkept
      | removed label' =>
          have hlabel : label ≠ label' := fun h => hmutates h.symm
          simpa [Event.apply, hlabel] using hkept
      | _ => exact hkept

/-- Two answers of `get_or_create` agree unless another operation has mutated
the label in between. -/
theorem answers_agree (hciphers : env.Ciphers) {mid : List (Event K)}
    {e e' : Event K} {keypair keypair' : K}
    (hlog : Chronicle (Faithful identity env cipher init)
      (pre ++ e :: mid ++ e' :: post))
    (he : e.Identifies label keypair) (he' : e'.Identifies label keypair')
    (hmid : ∀ x ∈ mid, ¬x.Mutates label) :
    keypair = keypair' ∧ ∃ key, e' = .found label key := by
  have hfirst := hlog pre e (mid ++ e' :: post) (by simp)
  have hsecond := hlog (pre ++ e :: mid) e' post rfl
  obtain ⟨entry, hentry, hopens⟩ := stored_of_identifies he hfirst
  have hprefix : Chronicle (Faithful identity env cipher init)
      ((pre ++ [e]) ++ mid) := by
    intro a x b hab
    exact hlog a x (b ++ e' :: post) (by
      rw [← List.cons_append, ← List.append_assoc, ← hab]
      simp)
  have hkept := replay_of_not_mutates hprefix hentry hmid
  rw [List.append_assoc, List.singleton_append] at hkept
  cases e' with
  | found label' key =>
      obtain ⟨rfl, rfl⟩ := he'
      obtain ⟨entry', hentry', hopens', -⟩ := hsecond
      rw [hkept] at hentry'
      cases hentry'
      exact ⟨hopens.eq hciphers hopens', key, rfl⟩
  | stored kind new key =>
      cases kind with
      | create =>
          obtain ⟨rfl, rfl⟩ := he'
          have hnone := hsecond.1.2
          rw [hkept] at hnone
          cases hnone
      | _ => exact he'.elim
  | _ => exact he'.elim

end Histories

/-! ## The discipline of the tasks -/

section Tasks

variable (identity : Identity K) (env : Environment K) (cipher : CipherId)
  (init : Store)

/-- The store is what the record says, and the record is faithful. -/
def Tidy (w : World K) : Prop :=
  w.store = replay init w.log ∧
    Chronicle (Faithful identity env cipher init) w.log

/-- Store and record always agree; whenever nobody writes, the cipher is in its
slot. -/
def identities : Discipline (World K) where
  Inv w := w.cipher = some cipher ∧ Tidy identity env cipher init w
  Reads v w := w.cipher = v.cipher ∧ v.log <+: w.log ∧
    (Tidy identity env cipher init v → Tidy identity env cipher init w)
  Moves v w := v.log <+: w.log ∧
    (Tidy identity env cipher init v → Tidy identity env cipher init w)
  reads_refl _ := ⟨rfl, List.prefix_rfl, id⟩
  reads_trans h₁ h₂ := ⟨h₂.1.trans h₁.1, h₁.2.1.trans h₂.2.1, h₂.2.2 ∘ h₁.2.2⟩
  moves_refl _ := ⟨List.prefix_rfl, id⟩
  moves_trans h₁ h₂ := ⟨h₁.1.trans h₂.1, h₂.2 ∘ h₁.2⟩
  moves_of_reads h := h.2
  inv_of_reads hinv h := ⟨h.1.trans hinv.1, h.2.2 hinv.2⟩

variable {identity env cipher init}

theorem recording_identities :
    Recording (identities identity env cipher init) where
  cipher h := h.1
  log h := h.1

theorem Tidy.snoc {v w : World K} {e : Event K}
    (h : Tidy identity env cipher init v) (hlog : w.log = v.log ++ [e])
    (hstore : w.store = e.apply v.store)
    (he : Faithful identity env cipher init v.log e) :
    Tidy identity env cipher init w := by
  constructor
  · rw [hstore, hlog, replay_snoc, h.1]
  · rw [hlog]
    exact h.2.snoc he

theorem moves_of_tidy {v w : World K} (hlog : v.log <+: w.log)
    (hw : Tidy identity env cipher init w) :
    (identities identity env cipher init).Moves v w :=
  ⟨hlog, fun _ => hw⟩

variable {before : List (Event K)} {F G : List (Event K) → Prop}
  {guard : Guard} {detached : Bool} {label : String} {w : World K}

/-- One more faithful event that leaves the store as it is. -/
theorem InOrder.record (e : Event K)
    (h : InOrder (identities identity env cipher init) before F w)
    (hstore : w.store = e.apply w.store)
    (he : Faithful identity env cipher init w.log e) (hG : G (w.log ++ [e])) :
    (identities identity env cipher init).Moves w (w.record [e]) ∧
      InOrder (identities identity env cipher init) before G (w.record [e]) := by
  have htidy : Tidy identity env cipher init (w.record [e]) :=
    h.2.2.snoc rfl hstore he
  have hgrown : w.log <+: (w.record [e]).log := List.prefix_append _ _
  exact ⟨moves_of_tidy hgrown htidy, ⟨h.1.1.trans hgrown, hG⟩, h.2.1, htidy⟩

theorem spec_writeLock_identities :
    Spec (identities identity env cipher init) env false
      (View.Has .none detached (Since before fun _ => True)) writeLock
      fun cipher' => View.Has .write detached fun w =>
        InOrder (identities identity env cipher init) before (fun _ => True) w ∧
          cipher' = cipher := by
  refine (spec_writeLock recording_identities
    (recording_identities.stable_since rising_true)).mono (fun _ h => h) ?_
    fun _ _ h => h
  rintro cipher' v ⟨hguard, hdetached, hw⟩
  refine ⟨hguard, hdetached, hw.1, ?_⟩
  exact Option.some.inj (hw.2.symm.trans hw.1.2.1)

/-- The backend tells what is in the store. -/
theorem spec_backendGet_identities (hfaultless : env.Faultless)
    {A : World K → Prop} (hA : ∀ w, A w → (identities identity env cipher init).Inv w) :
    Spec (identities identity env cipher init) env false
      (View.Has .write detached A) (backendGet label)
      fun found => View.Has .write detached fun w => A w ∧ w.store label = found := by
  refine spec_backendGet (by decide) (held_write hA) (fun _ => stable_write _) ?_
  intro w found hw hgets
  exact ⟨hw, (Except.ok.inj (hfaultless.gets hgets)).symm⟩

/-- Opening an entry records it and keeps the store. -/
theorem spec_openEntry_identities {P : World K → Prop}
    (hP : ∀ w w' : World K, w'.store = w.store → P w → P w')
    (entry : EncryptedEntry) :
    Spec (identities identity env cipher init) env false
      (View.Has .write detached fun w =>
        InOrder (identities identity env cipher init) before (fun _ => True) w ∧ P w)
      (openEntry identity cipher label entry)
      fun opened => View.Has .write detached fun w =>
        (InOrder (identities identity env cipher init) before (fun _ => True) w ∧
          P w) ∧ opened.metadata = entry.metadata ∧
            Opens identity env cipher label entry opened.keypair := by
  refine spec_openEntry recording_identities (by decide)
    (held_write fun w hw => hw.1.2) (fun _ => stable_write _) ?_
  rintro w plaintext keypair ⟨hw, hPw⟩ hlabel ⟨pre, -, hdecrypts⟩ hkeypair hmatches
  obtain ⟨hmoves, horder⟩ := hw.record (G := fun _ => True)
    (.accepted w.cipher cipher label entry keypair) rfl trivial trivial
  exact ⟨hmoves, ⟨horder, hP w _ rfl hPw⟩, rfl, hlabel, hmatches, pre, plaintext,
    hdecrypts, hkeypair⟩

/-- An entry for the keypair was stored under the label. -/
def Applied (before : List (Event K)) (kind : Mutation) (label : String)
    (keypair : K) (log : List (Event K)) : Prop :=
  ∃ entry, entry.metadata.label = label ∧
    Recorded before (.stored kind entry keypair) log

theorem rising_applied (before : List (Event K)) (kind : Mutation)
    (label : String) (keypair : K) :
    Rising (Applied before kind label keypair) := by
  rintro l l' hl ⟨entry, hlabel, hrecorded⟩
  exact ⟨entry, hlabel, hrecorded.mono hl⟩

/-- An allowed version is stored and recorded. -/
theorem spec_store_identities (hfaultless : env.Faultless) (hciphers : env.Ciphers)
    (hround : identity.RoundTrips) {disabled : Bool} {label : Label} {keypair : K}
    {expiry : Expiry} {version : Fin (2 ^ 32)} {kind : Mutation} :
    Spec (identities identity env cipher init) env false
      (View.Has .write detached fun w =>
        InOrder (identities identity env cipher init) before (fun _ => True) w ∧
          kind.Allowed (w.store label.1) version)
      (store identity disabled label keypair expiry version kind cipher)
      fun _ => View.Has .write true
        (InOrder (identities identity env cipher init) before
          (Applied before kind label.1 keypair)) := by
  have hheld : Held (identities identity env cipher init) .write fun w =>
      InOrder (identities identity env cipher init) before (fun _ => True) w ∧
        kind.Allowed (w.store label.1) version :=
    held_write fun w hw => hw.1.2
  refine spec_disableCheck hheld.secure ?_
  refine spec_checkLabel hheld.secure fun _ => ?_
  refine (spec_free (B := fun _ w =>
    InOrder (identities identity env cipher init) before (fun _ => True) w ∧
      kind.Allowed (w.store label.1) version) rfl hheld
    (fun _ => stable_write _) ?_).bind fun createdAt => ?_
  · rintro w r w' hw ⟨-, rfl⟩
    exact ⟨rfl, hw⟩
  refine Triple.bind (B := fun entry => View.Has .write detached fun w =>
    (InOrder (identities identity env cipher init) before (fun _ => True) w ∧
      kind.Allowed (w.store label.1) version) ∧ entry.metadata.label = label.1 ∧
      entry.metadata.version = version ∧
      Opens identity env cipher label.1 entry keypair)
    (spec_sealEntry hheld ?_) fun entry => spec_of_fact ?_
  · rintro w plaintext ciphertext ⟨hw, hallowed⟩ hplain hencrypts
    obtain ⟨hmoves, horder⟩ := hw.record (G := fun _ => True)
      (.sealed _ _ plaintext ciphertext _ keypair) rfl trivial trivial
    exact ⟨hmoves, ⟨horder, hallowed⟩, rfl, rfl,
      opens_of_encrypts hciphers hround ⟨rfl, rfl⟩ hplain hencrypts⟩
  rintro ⟨hlabel, rfl, hopens⟩
  refine spec_finishMutation cipher (C := fun r w => r = .ok () ∧
    Since before (Applied before kind label.1 keypair) w ∧
    Tidy identity env cipher init w) ?_ ?_ ?_ ?_
  · rintro w ⟨hw, -⟩
    exact ⟨hw.2, hw.2.1, moves_of_tidy List.prefix_rfl hw.2.2⟩
  · intro v hv
    refine ok_shared (R := Reply) (o := Op.put entry kind keypair) rfl hv
      (stable_write _) (fun _ => stable_write _) nofun ?_
    rintro _ r w' ⟨u, ⟨hu, hallowed⟩, rfl⟩ ⟨store, hputs, rfl⟩
    obtain ⟨rfl, rfl⟩ := hfaultless.puts hputs
    have hfaithful : Faithful identity env cipher init u.log
        (.stored kind entry keypair) := by
      rw [← hlabel] at hallowed hopens
      rw [hu.2.2.1] at hallowed
      exact ⟨hallowed, hopens⟩
    have htidy : Tidy identity env cipher init
        ⟨none, Function.update u.store entry.metadata.label (some entry),
          u.log ++ [.stored kind entry keypair]⟩ :=
      hu.2.2.snoc rfl rfl hfaithful
    have hgrown : u.log <+: u.log ++ [.stored kind entry keypair] :=
      List.prefix_append _ _
    exact ⟨moves_of_tidy hgrown htidy, rfl, ⟨hu.1.1.trans hgrown, entry, hlabel,
      recorded_snoc hu.1.1⟩, htidy⟩
  · rintro r _ (hdetached | hstops)
    · cases hdetached
    · cases hstops
  · rintro r w ⟨rfl, hsince, htidy⟩
    exact ⟨moves_of_tidy List.prefix_rfl htidy, hsince, rfl, htidy⟩

end Tasks

/-! ## Methods -/

/-- `insert`, `rotate`, `get_or_create`, `remove` and `get`. -/
def Call.Basic : Call K → Prop
  | .insert _ _ _ => True
  | .rotate _ _ _ => True
  | .getOrCreate _ => True
  | .remove _ => True
  | .get _ => True
  | _ => False

/-- What the record says of a call that has succeeded. -/
def Effected (before log : List (Event K)) : Call K → Value K → Prop
  | .insert label keypair _, .unit => Applied before .insert label.1 keypair log
  | .rotate label _ _, .unit =>
      ∃ keypair, Applied before .rotate label.1 keypair log
  | .getOrCreate label, .keypair keypair =>
      ∃ e, Event.Identifies label.1 keypair e ∧ Recorded before e log
  | .remove label, .existed true => Recorded before (.removed label) log
  | _, _ => True

theorem rising_effected (before : List (Event K)) (call : Call K)
    (value : Value K) : Rising fun log => Effected before log call value := by
  intro l l' hl h
  cases call <;> cases value <;> try trivial
  case insert.unit => exact rising_applied _ _ _ _ _ _ hl h
  case rotate.unit =>
      obtain ⟨keypair, happlied⟩ := h
      exact ⟨keypair, rising_applied _ _ _ _ _ _ hl happlied⟩
  case getOrCreate.keypair =>
      obtain ⟨e, he, hrecorded⟩ := h
      exact ⟨e, he, hrecorded.mono hl⟩
  case remove.existed label existed =>
      cases existed with
      | true => exact Recorded.mono h hl
      | false => trivial

/-- The call takes effect as recorded. -/
def Effects (identity : Identity K) (env : Environment K) (cipher : CipherId)
    (init : Store) (disabled : Bool) (call : Call K) : Prop :=
  ∀ before, Spec (identities identity env cipher init) env false
    (View.Has .none false (Since before fun _ => True))
    (method identity disabled call)
    fun value v => (identities identity env cipher init).Settled v ∧
      Effected before v.world.log call value

section Methods

variable {identity : Identity K} {env : Environment K} {cipher : CipherId}
  {init : Store} {disabled : Bool} {label : Label} {before : List (Event K)}

/-- A writer ends with a value whose effect is recorded. -/
theorem spec_written {call : Call K} {value : Value K} :
    Spec (identities identity env cipher init) env false
      (fun v => ∃ detached, v.Has .write detached
        (InOrder (identities identity env cipher init) before
          fun l => Effected before l call value))
      (pure value)
      fun value v => (identities identity env cipher init).Settled v ∧
        Effected before v.world.log call value := by
  rintro v ⟨detached, hv⟩
  have hwritten : Secure (identities identity env cipher init) (View.Has .write
      detached (InOrder (identities identity env cipher init) before
        fun l => Effected before l call value)) :=
    (held_write fun w hw => hw.2).secure
  exact spec_pure hwritten.lasting
    (fun v hv => ⟨hwritten.settled v hv, hv.holds.1.2⟩) v hv

theorem effects_insert (hfaultless : env.Faultless) (hciphers : env.Ciphers)
    (hround : identity.RoundTrips) (keypair : K) (expiry : Expiry) :
    Effects identity env cipher init disabled (.insert label keypair expiry) := by
  intro before
  have hinsert : Spec (identities identity env cipher init) env false
      (View.Has .none false (Since before fun _ => True))
      (insert identity disabled label keypair expiry)
      fun _ => View.Has .write true
        (InOrder (identities identity env cipher init) before
          (Applied before .insert label.1 keypair)) := by
    refine spec_writeLock_identities.bind fun cipher' => spec_of_fact ?_
    rintro rfl
    exact (spec_store_identities hfaultless hciphers hround).mono
      (fun v hv => hv.mono fun w hw => ⟨hw, rfl⟩) (fun _ _ h => h) fun _ _ h => h
  exact hinsert.bind fun _ v hv => spec_written v ⟨true, hv⟩

theorem effects_rotate (hfaultless : env.Faultless) (hciphers : env.Ciphers)
    (hround : identity.RoundTrips) (key : RotateKey K) (expiry : Expiry) :
    Effects identity env cipher init disabled (.rotate label key expiry) := by
  intro before
  have hrotate : Spec (identities identity env cipher init) env false
      (View.Has .none false (Since before fun _ => True))
      (rotate identity disabled label key expiry)
      fun _ => View.Has .write true
        (InOrder (identities identity env cipher init) before
          fun l => ∃ keypair, Applied before .rotate label.1 keypair l) := by
    refine spec_writeLock_identities.bind fun cipher' => spec_of_fact ?_
    rintro rfl
    refine spec_checkLabel (held_write fun w hw => hw.2).secure fun _ => ?_
    refine (spec_backendGet_identities hfaultless fun w hw => hw.2).bind ?_
    rintro (_ | current)
    · exact spec_throw (held_write fun w hw => hw.1.2).secure _
    · refine (spec_openEntry_identities (P := fun w => w.store label.1 = some current)
        (fun w w' hstore hw => by rw [hstore]; exact hw) current).bind
        fun opened => spec_of_fact ?_
      rintro ⟨hmetadata, -⟩
      have hheld : Held (identities identity env cipher' init) .write fun w =>
          InOrder (identities identity env cipher' init) before (fun _ => True) w ∧
            w.store label.1 = some current := held_write fun w hw => hw.1.2
      refine Triple.bind (B := fun _ => View.Has .write false fun w =>
        InOrder (identities identity env cipher' init) before (fun _ => True) w ∧
          w.store label.1 = some current) ?_ fun keypair => ?_
      · cases key with
        | keypair keypair => exact spec_pure hheld.secure.lasting fun _ h => h
        | generate keyType => exact spec_generateKeypair hheld keyType
      · refine (spec_store_identities hfaultless hciphers hround).mono
          (fun v hv => hv.mono fun w hw => ⟨hw.1, ?_⟩)
          (fun _ _ hv => hv.mono fun _ hw => hw.mono fun _ h => ⟨keypair, h⟩)
          fun _ _ h => h
        exact ⟨current, hw.2, by rw [hmetadata]⟩
  exact hrotate.bind fun _ v hv => spec_written v ⟨true, hv⟩

/-- An identity that is there and not expired is found; one that is not there
is created. -/
theorem effects_getOrCreate (hfaultless : env.Faultless) (hciphers : env.Ciphers)
    (hround : identity.RoundTrips) :
    Effects identity env cipher init disabled (.getOrCreate label) := by
  intro before
  have hgetOrCreate : Spec (identities identity env cipher init) env false
      (View.Has .none false (Since before fun _ => True))
      (getOrCreate identity disabled label)
      fun keypair v => ∃ detached, v.Has .write detached
        (InOrder (identities identity env cipher init) before fun l =>
          Effected before l (.getOrCreate label) (.keypair keypair)) := by
    refine spec_writeLock_identities.bind fun cipher' => spec_of_fact ?_
    rintro rfl
    refine spec_disableCheck (held_write fun w hw => hw.2).secure ?_
    refine spec_checkLabel (held_write fun w hw => hw.2).secure fun _ => ?_
    refine (spec_backendGet_identities hfaultless fun w hw => hw.2).bind ?_
    rintro (_ | entry)
    · have hheld : Held (identities identity env cipher' init) .write fun w =>
          InOrder (identities identity env cipher' init) before (fun _ => True) w ∧
            w.store label.1 = none := held_write fun w hw => hw.1.2
      refine (spec_free (B := fun _ w =>
        InOrder (identities identity env cipher' init) before (fun _ => True) w ∧
          w.store label.1 = none) rfl hheld (fun _ => stable_write _) ?_).bind
        fun keypair => Triple.bind (B := fun _ => View.Has .write true
          (InOrder (identities identity env cipher' init) before
            (Applied before .create label.1 keypair))) ?_ fun _ => ?_
      · rintro w r w' hw ⟨-, rfl⟩
        exact ⟨rfl, hw⟩
      · exact (spec_store_identities hfaultless hciphers hround).mono
          (fun v hv => hv.mono fun w hw => ⟨hw.1, rfl, hw.2⟩) (fun _ _ h => h)
          fun _ _ h => h
      · refine spec_pure (stable_write _).lasting fun v hv =>
          ⟨true, hv.mono fun w hw => hw.mono ?_⟩
        rintro l ⟨entry, hlabel, hrecorded⟩
        exact ⟨.stored .create entry keypair, ⟨hlabel, rfl⟩, hrecorded⟩
    · refine (spec_openEntry_identities (P := fun w => w.store label.1 = some entry)
        (fun w w' hstore hw => by rw [hstore]; exact hw) entry).bind
        fun opened => spec_of_fact ?_
      rintro ⟨hmetadata, hopens⟩
      have hheld : Held (identities identity env cipher' init) .write fun w =>
          InOrder (identities identity env cipher' init) before (fun _ => True) w ∧
            w.store label.1 = some entry := held_write fun w hw => hw.1.2
      refine (spec_isExpired (B := fun expired w =>
        (InOrder (identities identity env cipher' init) before (fun _ => True) w ∧
          w.store label.1 = some entry) ∧
          (expired = false → Unexpired env w.log entry.metadata)) hheld
        (fun _ => stable_write _) ?_ ?_).bind fun expired => ?_
      · intro w hw hnever
        refine ⟨hw, fun _ expiry hexpiry => ?_⟩
        rw [← hmetadata, hnever] at hexpiry
        cases hexpiry
      · intro w expiry now hw hexpiry hclock
        refine ⟨hw, fun hexpired expiry' hexpiry' => ⟨now, hclock, ?_⟩⟩
        rw [← hmetadata, hexpiry] at hexpiry'
        cases hexpiry'
        simpa using hexpired
      · apply spec_unless (held_write fun w hw => hw.1.1.2).secure
        intro hexpired
        have hexpired : expired = false := by simpa using hexpired
        refine (spec_shared (B := fun _ =>
          InOrder (identities identity env cipher' init) before fun l =>
            Effected before l (.getOrCreate label) (.keypair opened.keypair))
          rfl (held_write fun w hw => hw.1.1.2) (fun _ => stable_write _)
          ?_).bind fun _ => spec_pure (stable_write _).lasting fun v hv =>
            ⟨false, hv⟩
        rintro w r w' ⟨⟨hw, hstore⟩, hunexpired⟩ rfl
        refine hw.record (.found label.1 opened.keypair) rfl ?_ ?_
        · rw [hw.2.2.1] at hstore
          exact ⟨entry, hstore, hopens, hunexpired hexpired⟩
        · exact ⟨.found label.1 opened.keypair, ⟨rfl, rfl⟩,
            recorded_snoc hw.1.1⟩
  exact hgetOrCreate.bind fun keypair => spec_written

theorem effects_remove (hfaultless : env.Faultless) (label : String) :
    Effects identity env cipher init disabled (.remove label) := by
  intro before
  have hremove : Spec (identities identity env cipher init) env false
      (View.Has .none false (Since before fun _ => True)) (remove label)
      fun existed => View.Has .write true
        (InOrder (identities identity env cipher init) before fun l =>
          Effected before l (.remove label) (.existed existed)) := by
    refine spec_writeLock_identities.bind fun cipher' => spec_of_fact ?_
    rintro rfl
    refine spec_checkLabel (held_write fun w hw => hw.2).secure fun _ => ?_
    refine spec_finishMutation cipher' (C := fun r w => ∃ existed,
      r = .ok existed ∧ Since before (fun l =>
        Effected before l (.remove label) (.existed existed)) w ∧
      Tidy identity env cipher' init w) ?_ ?_ ?_ ?_
    · exact fun w hw => ⟨hw.2, hw.2.1, moves_of_tidy List.prefix_rfl hw.2.2⟩
    · intro v hv
      refine ok_shared (R := Reply) (o := Op.remove label) rfl hv
        (stable_write _) (fun _ => stable_write _) nofun ?_
      rintro _ r w' ⟨u, hu, rfl⟩ ⟨store, hremoves, rfl⟩
      obtain ⟨rfl, rfl⟩ := hfaultless.removes hremoves
      cases hexisted : u.store label with
      | none =>
          -- removing nothing changes nothing
          have hsame : Function.update u.store label none = u.store := by
            rw [← hexisted, Function.update_eq_self]
          simp only [Option.isSome_none, removeEvents, World.record_nil, hsame]
          exact ⟨(identities identity env cipher' init).moves_refl _, false, rfl,
            ⟨hu.1.1, trivial⟩, hu.2.2⟩
      | some entry =>
          simp only [Option.isSome_some, removeEvents]
          have htidy : Tidy identity env cipher' init
              ⟨none, Function.update u.store label none,
                u.log ++ [.removed label]⟩ := hu.2.2.snoc rfl rfl trivial
          have hgrown : u.log <+: u.log ++ [.removed label] :=
            List.prefix_append _ _
          exact ⟨moves_of_tidy hgrown htidy, true, rfl,
            ⟨hu.1.1.trans hgrown, recorded_snoc hu.1.1⟩, htidy⟩
    · rintro r _ (hdetached | hstops)
      · cases hdetached
      · cases hstops
    · rintro r w ⟨existed, rfl, hsince, htidy⟩
      exact ⟨moves_of_tidy List.prefix_rfl htidy, hsince, rfl, htidy⟩
  exact hremove.bind fun existed v hv => spec_written v ⟨true, hv⟩

/-- Readers only add to the record. -/
theorem effects_get (label : String) :
    Effects identity env cipher init disabled (.get label) := by
  intro before
  have hstart : Held (identities identity env cipher init) .none
      (Since before fun _ => True) :=
    held_none (recording_identities.stable_since rising_true)
  have hentry : Spec (identities identity env cipher init) env false
      (View.Has .none false (Since before fun _ => True))
      (authenticatedEntry identity label)
      fun _ => View.Has .none false (Since before fun _ => True) := by
    refine (spec_readLock recording_identities hstart.stable).bind fun cipher' => ?_
    have hheld : Held (identities identity env cipher init) .read fun w =>
        (Since before (fun _ => True) w ∧
          (identities identity env cipher init).Inv w) ∧ w.cipher = some cipher' :=
      held_read (((hstart.stable).read.and stable_inv).and
        (recording_identities.stable_cipher (by decide) _))
    refine (spec_backendGet (B := fun _ w => (Since before (fun _ => True) w ∧
      (identities identity env cipher init).Inv w) ∧ w.cipher = some cipher')
      (by decide) hheld (fun _ => hheld.stable) fun _ _ hw _ => hw).bind ?_
    rintro (_ | entry)
    · exact (spec_unlock hheld hstart.stable fun _ hw => hw.1.1).bind fun _ =>
        spec_pure hstart.secure.lasting fun _ h => h
    · refine (spec_openEntry recording_identities (B := fun _ w =>
        (Since before (fun _ => True) w ∧
          (identities identity env cipher init).Inv w) ∧ w.cipher = some cipher')
        (by decide) hheld (fun _ => hheld.stable) ?_).bind fun _ =>
        (spec_unlock hheld hstart.stable fun _ hw => hw.1.1).bind fun _ =>
          spec_pure hstart.secure.lasting fun _ h => h
      rintro w plaintext keypair ⟨hw, hcipher⟩ - - - -
      obtain ⟨hmoves, horder⟩ := InOrder.record (F := fun _ => True)
        (G := fun _ => True) (.accepted w.cipher cipher' label entry keypair) hw
        rfl trivial trivial
      exact ⟨⟨rfl, hmoves⟩, horder, hcipher⟩
  have hget : Spec (identities identity env cipher init) env false
      (View.Has .none false (Since before fun _ => True))
      (get identity disabled label)
      fun _ => View.Has .none false (Since before fun _ => True) := by
    refine spec_disableCheck hstart.secure ?_
    refine spec_checkLabel hstart.secure fun _ => ?_
    refine hentry.bind ?_
    rintro (_ | opened)
    · exact spec_throw hstart.secure _
    · refine (spec_isExpired (B := fun _ => Since before fun _ => True) hstart
        (fun _ => hstart.stable) (fun _ hw _ => hw)
        fun _ _ _ hw _ _ => hw).bind fun expired => ?_
      apply spec_unless hstart.secure
      intro _
      exact spec_pure hstart.secure.lasting fun _ h => h
  exact hget.bind fun keypair => spec_pure hstart.secure.lasting fun v hv =>
    ⟨hstart.secure.settled v hv, trivial⟩

theorem effects (hfaultless : env.Faultless) (hciphers : env.Ciphers)
    (hround : identity.RoundTrips) (call : Call K) (hcall : call.Basic) :
    Effects identity env cipher init disabled call := by
  cases call with
  | insert label keypair expiry =>
      exact effects_insert hfaultless hciphers hround keypair expiry
  | rotate label key expiry =>
      exact effects_rotate hfaultless hciphers hround key expiry
  | getOrCreate label => exact effects_getOrCreate hfaultless hciphers hround
  | remove label => exact effects_remove hfaultless label
  | get label => exact effects_get label
  | _ => exact hcall.elim

end Methods

/-! ## Every interleaving -/

/-- The calls of the five operations. -/
abbrev BasicCall (K : Type) := { call : Call K // call.Basic }

/-- Tasks that call the five operations on clones of one keychain. -/
abbrev BasicClones (K : Type) :=
  System (Op K) Reply (BasicCall K) (Except Error (Value K)) (World K)

/-- The one write of a mutation was made, between taking the cipher out of its
slot and putting it back. -/
def FullyApplied (ran : List (Op K)) : Prop :=
  ∃ pre work slot, ran = pre ++ .detach :: work ++ [.setCipher slot] ∧
    Unapplied pre ∧ work.countP Op.writes = 1

/-- No identity and no version is lost or duplicated. -/
structure IdentitiesKept (identity : Identity K) (env : Environment K)
    (cipher : CipherId) (init : Store) (s : BasicClones K) : Prop where
  /-- The backend holds what was applied. -/
  store : s.world.store = replay init s.world.log
  /-- Whenever nobody writes, the cipher is in its slot. -/
  slot : (∀ i task, s.tasks i = some task → task.guard ≠ .write) →
    s.world.cipher = some cipher
  /-- Every success is recorded while the call was running. -/
  recorded : ∀ e ∈ s.returned, ∀ value, e.result = .ok value →
    Effected e.started.log s.world.log e.call.1 value
  /-- The answer of `get_or_create` is the stored identity. -/
  stored : ∀ pre e post label keypair, s.world.log = pre ++ e :: post →
    e.Identifies label keypair →
    ∃ entry, replay init (pre ++ [e]) label = some entry ∧
      Opens identity env cipher label entry keypair
  /-- Its answers agree unless another operation comes in between. -/
  agree : ∀ pre e mid e' post label keypair keypair',
    s.world.log = pre ++ e :: mid ++ e' :: post →
    e.Identifies label keypair → e'.Identifies label keypair' →
    (∀ x ∈ mid, ¬x.Mutates label) → keypair = keypair'
  /-- It creates nothing where something is stored. -/
  created : ∀ pre entry keypair post,
    s.world.log = pre ++ .stored .create entry keypair :: post →
    replay init pre entry.metadata.label = none
  /-- It finds only what opens and is not expired. -/
  found : ∀ pre label keypair post,
    s.world.log = pre ++ .found label keypair :: post →
    ∃ entry, replay init pre label = some entry ∧
      Opens identity env cipher label entry keypair ∧
      Unexpired env pre entry.metadata
  /-- The version of an inserted or created identity is one more than the
  number of its rotations, as far as 32 bits reach. -/
  version : ∀ pre kind entry keypair post,
    s.world.log = pre ++ .stored kind entry keypair :: post → kind ≠ .rotate →
    (∀ e ∈ post, ¬e.Resets entry.metadata.label) →
    ∃ entry', s.world.store entry.metadata.label = some entry' ∧
      (entry'.metadata.version : ℕ) =
        min (1 + rotations entry.metadata.label post) (2 ^ 32 - 1)
  /-- Rotations also count from the version that was there at the start. -/
  version_init : ∀ label entry, init label = some entry →
    (∀ e ∈ s.world.log, ¬e.Resets label) →
    ∃ entry', s.world.store label = some entry' ∧
      (entry'.metadata.version : ℕ) =
        min ((entry.metadata.version : ℕ) + rotations label s.world.log)
          (2 ^ 32 - 1)

section Interleavings

variable {identity : Identity K} {env : Environment K} {cipher : CipherId}
  {init : Store} {disabled : Bool} {s s' : BasicClones K}

theorem IdentitiesKept.of_tidy (hciphers : env.Ciphers)
    (htidy : Tidy identity env cipher init s.world)
    (hslot : (∀ i task, s.tasks i = some task → task.guard ≠ .write) →
      s.world.cipher = some cipher)
    (hrecorded : ∀ e ∈ s.returned, ∀ value, e.result = .ok value →
      Effected e.started.log s.world.log e.call.1 value) :
    IdentitiesKept identity env cipher init s where
  store := htidy.1
  slot := hslot
  recorded := hrecorded
  stored pre e post label keypair heq he :=
    stored_of_identifies he (htidy.2 pre e post heq)
  agree pre e mid e' post label keypair keypair' heq he he' hmid :=
    (answers_agree hciphers (heq ▸ htidy.2) he he' hmid).1
  created pre entry keypair post heq := (htidy.2 pre _ post heq).1.2
  found pre label keypair post heq := htidy.2 pre _ post heq
  version pre kind entry keypair post heq hkind hpost := by
    have hstored := (htidy.2 pre _ post heq).1
    have hone : entry.metadata.version = 1 := by
      cases kind with
      | insert => exact hstored
      | create => exact hstored.1
      | rotate => exact absurd rfl hkind
    have hlog : s.world.log = (pre ++ [.stored kind entry keypair]) ++ post := by
      simp [heq]
    have hentry : replay init (pre ++ [.stored kind entry keypair])
        entry.metadata.label = some entry := by
      rw [replay_snoc]
      simp [Event.apply]
    obtain ⟨entry', hentry', hversion⟩ :=
      version_of_rotations (hlog ▸ htidy.2) hentry hpost
    rw [hone] at hversion
    exact ⟨entry', by rw [htidy.1, hlog]; exact hentry', hversion⟩
  version_init label entry hentry hlog := by
    have hcounted : ∃ entry', replay init ([] ++ s.world.log) label = some entry' ∧
        (entry'.metadata.version : ℕ) = min ((entry.metadata.version : ℕ) +
          rotations label s.world.log) (2 ^ 32 - 1) :=
      version_of_rotations htidy.2 hentry hlog
    rw [List.nil_append, ← htidy.1] at hcounted
    exact hcounted

/-- A task that goes away has applied its mutation or has not begun it. -/
theorem applied_or_not {w : World K} (hs : System.Reachable (machine env) Op.kind
      (fun call : BasicCall K => program identity disabled call.1) none w s)
    (hstep : System.Step (machine env) Op.kind
      (fun call : BasicCall K => program identity disabled call.1) none s s')
    {i : ℕ} {task} (htask : s.tasks i = some task) (hgone : s'.tasks i = none) :
    Unapplied task.ran ∨ FullyApplied task.ran := by
  obtain ⟨p, hp⟩ := exists_inPhase Subtype.val hs htask
  have hran := hp.ran
  rcases (hstep.gone htask hgone).1 with ⟨a, hprog⟩ | hdetached | ⟨-, hlost⟩
  · have hends := hp.follows
    rw [hprog] at hends
    obtain ⟨-, hends⟩ := hends
    cases p with
    | restored n =>
        rcases hends with hpurge | rfl
        · exact absurd task.call.2 (by rw [hpurge]; exact id)
        · exact Or.inr hran
    | written n =>
        obtain ⟨⟨newCipher, hmigrate⟩, -⟩ := hends
        exact absurd task.call.2 (by rw [hmigrate]; exact id)
    | taken => exact hends.elim
    | passed => exact Or.inl hran.1
    | _ => exact Or.inl hran
  · have hphase : p.detached = false := hp.detached_eq.symm.trans hdetached
    cases p with
    | restored n => cases hphase
    | written n => cases hphase
    | taken => cases hphase
    | passed => exact Or.inl hran.1
    | _ => exact Or.inl hran
  · exact absurd rfl hlost

end Interleavings

/-- However the tasks interleave and whichever callers are dropped, no identity
and no version is lost or duplicated, and every mutation is applied once or not
at all. -/
theorem identities_kept (identity : Identity K) (env : Environment K)
    (cipher : CipherId) (init : Store) (disabled : Bool)
    (hfaultless : env.Faultless) (hciphers : env.Ciphers)
    (hround : identity.RoundTrips) {s : BasicClones K}
    (hs : System.Reachable (machine env) Op.kind
      (fun call : BasicCall K => program identity disabled call.1) none
      ⟨some cipher, init, []⟩ s) :
    IdentitiesKept identity env cipher init s ∧
      ∀ s' i task, System.Step (machine env) Op.kind
          (fun call : BasicCall K => program identity disabled call.1) none s s' →
        s.tasks i = some task → s'.tasks i = none →
        Unapplied task.ran ∨ FullyApplied task.ran := by
  have hinit : Tidy identity env cipher init ⟨some cipher, init, []⟩ :=
    ⟨rfl, Chronicle.nil⟩
  have hsound : ∀ s, System.Reachable (machine env) Op.kind
      (fun call : BasicCall K => program identity disabled call.1) none
      ⟨some cipher, init, []⟩ s →
      Sound (identities identity env cipher init) (machine env) Op.kind false
        (fun (call : BasicCall K) started result w => ∀ value,
          result = .ok value → Effected started.log w.log call.1 value) s := by
    intro s hs
    refine sound_of_reachable ?_ ?_ ?_ ?_ hs
    · intro call started
      refine (effects hfaultless hciphers hround call.1 call.2 started.log
        ⟨.none, false, started⟩ ⟨rfl, rfl, List.prefix_rfl, trivial⟩).mono ?_
      rintro (e | value) v h
      · exact ⟨h, nofun⟩
      · refine ⟨h.1, ?_⟩
        rintro _ ⟨⟩
        exact h.2
    · intro call started result w w' h hmoves value hvalue
      exact rising_effected _ _ _ _ _ hmoves.1 (h value hvalue)
    · rintro call started a w ⟨⟩
    · exact ⟨rfl, hinit⟩
  have htidy := (moves_of_reachable hsound hs).2 hinit
  exact ⟨.of_tidy hciphers htidy (fun hnobody => ((hsound s hs).inv hnobody).1)
    (hsound s hs).returned, fun _ _ _ hstep htask hgone =>
      applied_or_not hs hstep htask hgone⟩

/-! ## Two callers and a rotation -/

theorem plainBackend_faultless : plainBackend.environment.Faultless where
  gets h := h
  puts h := Prod.mk.inj h
  removes h := Prod.mk.inj h

/-- Two callers of `get_or_create`, the first of which leaves while its identity
is written; then a rotation, and an insertion whose caller is dropped early. -/
def rotationSchedule : List (Move (BasicCall UInt8)) :=
  [Move.start 0 ⟨.getOrCreate ⟨"a", labelBytes_a_lt⟩, trivial⟩,
    Move.start 1 ⟨.getOrCreate ⟨"a", labelBytes_a_lt⟩, trivial⟩] ++
    List.replicate 7 (Move.run 0) ++ [Move.leave 0] ++ List.replicate 2 (Move.run 0) ++
    [Move.finish 0] ++ List.replicate 6 (Move.run 1) ++ [Move.finish 1,
    Move.start 2 ⟨.rotate ⟨"a", labelBytes_a_lt⟩ (.keypair 9) .never, trivial⟩] ++
    List.replicate 10 (Move.run 2) ++ [Move.finish 2,
    Move.start 3 ⟨.insert ⟨"a", labelBytes_a_lt⟩ 4 .never, trivial⟩] ++
    List.replicate 3 (Move.run 3) ++ [Move.drop 3]

theorem identities_kept_rotation :
    ∃ s : BasicClones UInt8,
      System.Reachable (machine plainBackend.environment) Op.kind
        (fun call : BasicCall UInt8 => program byteIdentity false call.1) none
        ⟨some 0, fun _ => none, []⟩ s ∧
      (s.returned.map (·.result.isOk) = [true, true] ∧
        (s.world.store "a").map (·.metadata.version) = some 2) ∧
      IdentitiesKept byteIdentity plainBackend.environment 0 (fun _ => none) s := by
  have hrun : ∃ s : BasicClones UInt8,
      System.Reachable (machine plainBackend.environment) Op.kind
        (fun call : BasicCall UInt8 => program byteIdentity false call.1) none
        ⟨some 0, fun _ => none, []⟩ s ∧
      decide (s.returned.map (·.result.isOk) = [true, true] ∧
        (s.world.store "a").map (·.metadata.version) = some 2) = true :=
    System.exists_reachable_of_schedule 4 plainBackend.exec
      plainBackend.step_exec _ rotationSchedule _ (by decide +kernel)
  obtain ⟨s, hs, hresults⟩ := hrun
  exact ⟨s, hs, of_decide_eq_true hresults,
    (identities_kept byteIdentity _ 0 _ false plainBackend_faultless
      plainBackend_ciphers byteIdentity_roundTrips hs).1⟩

end Connexa.Keystore.Keychain
