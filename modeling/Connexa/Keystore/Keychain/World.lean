import Connexa.Support.Discipline
import Connexa.Support.History
import Connexa.Keystore.Keychain.Programs

/-!
# The world of a keychain

What the clones of a keychain share: the cipher slot and the backend, and a
log of what was sealed, accepted and written, for the record only.  Backend,
ciphers, clock and key generators are parameters: an `Environment` says which
answers they may give.
-/

namespace Connexa.Keystore.Keychain

/-- What a backend holds under each label. -/
abbrev Store := String → Option EncryptedEntry

inductive Event (K : Type) where
  /-- A cipher produced a ciphertext. -/
  | sealed (cipher : CipherId) (aad plaintext ciphertext : Bytes)
      (metadata : KeyMetadata) (keypair : K)
  /-- An entry was accepted while `slot` was in the cipher slot. -/
  | accepted (slot : Option CipherId) (cipher : CipherId) (label : String)
      (entry : EncryptedEntry) (keypair : K)
  | stored (kind : Mutation) (entry : EncryptedEntry) (keypair : K)
  | removed (label : String)
  /-- `get_or_create` found an identity. -/
  | found (label : String) (keypair : K)
  /-- `put_many` was called. -/
  | replaced (entries : List EncryptedEntry) (succeeded : Bool)

structure World (K : Type) where
  cipher : Option CipherId
  store : Store
  log : List (Event K)

structure Environment (K : Type) where
  gets : Store → String → Except Error (Option EncryptedEntry) → Prop
  lists : Store → Except Error (List KeyMetadata) → Prop
  puts : Store → EncryptedEntry → Except Error Unit → Store → Prop
  putManys : Store → List EncryptedEntry → Except Error Unit → Store → Prop
  removes : Store → String → Except Error Bool → Store → Prop
  /-- The readings of the clock at some point of the history. -/
  clock : List (Event K) → SystemTime → Prop
  generates : KeyType → K → Prop
  encrypts : List (Event K) → CipherId → Bytes → Bytes → Except Error Bytes → Prop
  decrypts : List (Event K) → CipherId → Bytes → Bytes → Except Error Bytes → Prop

variable {K : Type}

/-- What a call of `encrypt` records. -/
def sealEvents (cipher : CipherId) (aad plaintext : Bytes)
    (metadata : KeyMetadata) (keypair : K) :
    Except Error Bytes → List (Event K)
  | .ok ciphertext => [.sealed cipher aad plaintext ciphertext metadata keypair]
  | .error _ => []

/-- What a call of `put` records. -/
def putEvents (kind : Mutation) (entry : EncryptedEntry) (keypair : K) :
    Except Error Unit → List (Event K)
  | .ok () => [.stored kind entry keypair]
  | .error _ => []

/-- What a call of `remove` records. -/
def removeEvents (label : String) : Except Error Bool → List (Event K)
  | .ok true => [.removed label]
  | _ => []

def World.record (w : World K) (events : List (Event K)) : World K :=
  { w with log := w.log ++ events }

def World.step (env : Environment K) :
    (o : Op K) → World K → Reply o → World K → Prop
  | .readLock, w, _, w' => w' = w
  | .writeLock, w, _, w' => w' = w
  | .unlock, w, _, w' => w' = w
  | .cipher, w, r, w' => r = w.cipher ∧ w' = w
  | .detach, w, r, w' => r = w.cipher ∧ w' = { w with cipher := none }
  | .setCipher cipher, w, _, w' => w' = { w with cipher := cipher }
  | .get label, w, r, w' => env.gets w.store label r ∧ w' = w
  | .put entry kind keypair, w, r, w' => ∃ store,
      env.puts w.store entry r store ∧
        w' = { w with store := store }.record (putEvents kind entry keypair r)
  | .putMany entries, w, r, w' => ∃ store,
      env.putManys w.store entries r store ∧
        w' = { w with store := store }.record [.replaced entries r.isOk]
  | .list, w, r, w' => env.lists w.store r ∧ w' = w
  | .remove label, w, r, w' => ∃ store, env.removes w.store label r store ∧
      w' = { w with store := store }.record (removeEvents label r)
  | .now, w, r, w' => env.clock w.log r ∧ w' = w
  | .generate keyType, w, r, w' => env.generates keyType r ∧ w' = w
  | .encrypt cipher aad plaintext metadata keypair, w, r, w' =>
      env.encrypts w.log cipher aad plaintext r ∧
        w' = w.record (sealEvents cipher aad plaintext metadata keypair r)
  | .decrypt cipher aad ciphertext, w, r, w' =>
      env.decrypts w.log cipher aad ciphertext r ∧ w' = w
  | .accept cipher label entry keypair, w, _, w' =>
      w' = w.record [.accepted w.cipher cipher label entry keypair]
  | .found label keypair, w, _, w' => w' = w.record [.found label keypair]

def machine (env : Environment K) : Machine (Op K) Reply (World K) where
  step := World.step env

/-- What the operations mean to the lock. -/
def Op.kind : Op K → OpKind
  | .readLock => .lockRead
  | .writeLock => .lockWrite
  | .unlock => .unlock
  | .detach => .detach
  | .now => .free
  | .generate _ => .free
  | _ => .shared

/-! ## Environments that can be run -/

/-- An environment whose answers are functions of the world. -/
structure Simulation (K : Type) where
  get : Store → String → Except Error (Option EncryptedEntry)
  list : Store → Except Error (List KeyMetadata)
  put : Store → EncryptedEntry → Except Error Unit × Store
  putMany : Store → List EncryptedEntry → Except Error Unit × Store
  remove : Store → String → Except Error Bool × Store
  now : List (Event K) → SystemTime
  generate : KeyType → K
  encrypt : List (Event K) → CipherId → Bytes → Bytes → Except Error Bytes
  decrypt : List (Event K) → CipherId → Bytes → Bytes → Except Error Bytes

namespace Simulation

variable (sim : Simulation K)

def environment : Environment K where
  gets store label r := r = sim.get store label
  lists store r := r = sim.list store
  puts store entry r store' := (r, store') = sim.put store entry
  putManys store entries r store' := (r, store') = sim.putMany store entries
  removes store label r store' := (r, store') = sim.remove store label
  clock log r := r = sim.now log
  generates keyType r := r = sim.generate keyType
  encrypts log cipher aad plaintext r := r = sim.encrypt log cipher aad plaintext
  decrypts log cipher aad ciphertext r :=
    r = sim.decrypt log cipher aad ciphertext

def exec : (o : Op K) → World K → Reply o × World K
  | .readLock, w => ((), w)
  | .writeLock, w => ((), w)
  | .unlock, w => ((), w)
  | .cipher, w => (w.cipher, w)
  | .detach, w => (w.cipher, { w with cipher := none })
  | .setCipher cipher, w => ((), { w with cipher := cipher })
  | .get label, w => (sim.get w.store label, w)
  | .put entry kind keypair, w =>
      let (r, store) := sim.put w.store entry
      (r, { w with store := store }.record (putEvents kind entry keypair r))
  | .putMany entries, w =>
      let (r, store) := sim.putMany w.store entries
      (r, { w with store := store }.record [.replaced entries r.isOk])
  | .list, w => (sim.list w.store, w)
  | .remove label, w =>
      let (r, store) := sim.remove w.store label
      (r, { w with store := store }.record (removeEvents label r))
  | .now, w => (sim.now w.log, w)
  | .generate keyType, w => (sim.generate keyType, w)
  | .encrypt cipher aad plaintext metadata keypair, w =>
      let r := sim.encrypt w.log cipher aad plaintext
      (r, w.record (sealEvents cipher aad plaintext metadata keypair r))
  | .decrypt cipher aad ciphertext, w =>
      (sim.decrypt w.log cipher aad ciphertext, w)
  | .accept cipher label entry keypair, w =>
      ((), w.record [.accepted w.cipher cipher label entry keypair])
  | .found label keypair, w => ((), w.record [.found label keypair])

theorem step_exec (o : Op K) (w : World K) :
    (machine sim.environment).step o w (sim.exec o w).1 (sim.exec o w).2 := by
  cases o with
  | put entry kind keypair => exact ⟨_, rfl, rfl⟩
  | putMany entries => exact ⟨_, rfl, rfl⟩
  | remove label => exact ⟨_, rfl, rfl⟩
  | cipher => exact ⟨rfl, rfl⟩
  | detach => exact ⟨rfl, rfl⟩
  | get label => exact ⟨rfl, rfl⟩
  | list => exact ⟨rfl, rfl⟩
  | now => exact ⟨rfl, rfl⟩
  | generate keyType => exact ⟨rfl, rfl⟩
  | encrypt cipher aad plaintext metadata keypair => exact ⟨rfl, rfl⟩
  | decrypt cipher aad ciphertext => exact ⟨rfl, rfl⟩
  | _ => rfl

end Simulation

/-! ## Calls -/

/-- The calls of a keychain's methods. -/
inductive Call (K : Type) where
  | insert (label : Label) (keypair : K) (expiry : Expiry)
  | generate (label : Label) (keyType : KeyType)
  | rotate (label : Label) (key : RotateKey K) (expiry : Expiry)
  | get (label : String)
  | getOrCreate (label : Label)
  | list
  | metadata (label : String)
  | remove (label : String)
  | purgeExpired
  /-- It returns one more clone of the keychain. -/
  | migrateCipher (newCipher : CipherId)

/-- What the methods return. -/
inductive Value (K : Type) where
  | unit
  | keypair (keypair : K)
  | existed (existed : Bool)
  | count (removed : ℕ)
  | metadata (metadata : Option KeyMetadata)
  | listed (metadata : List KeyMetadata)

def method (identity : Identity K) (disabled : Bool) :
    Call K → KeychainM K (Value K)
  | .insert label keypair expiry => do
      insert identity disabled label keypair expiry
      return .unit
  | .generate label keyType => do
      return .keypair (← generate identity disabled label keyType)
  | .rotate label key expiry => do
      rotate identity disabled label key expiry
      return .unit
  | .get label => do
      return .keypair (← get identity disabled label)
  | .getOrCreate label => do
      return .keypair (← getOrCreate identity disabled label)
  | .list => do
      return .listed (← list identity)
  | .metadata label => do
      return .metadata (← metadata identity label)
  | .remove label => do
      return .existed (← remove label)
  | .purgeExpired => do
      return .count (← purgeExpired identity)
  | .migrateCipher newCipher => do
      migrateCipher identity disabled newCipher
      return .unit

def program (identity : Identity K) (disabled : Bool) (call : Call K) :
    Prog (Op K) Reply (Except Error (Value K)) :=
  (method identity disabled call).run

/-- The tasks that use clones of one keychain. -/
abbrev Clones (K : Type) :=
  System (Op K) Reply (Call K) (Except Error (Value K)) (World K)

/-! ## Histories -/

/-- The event is recorded in the log after the history `before`. -/
def Recorded (before : List (Event K)) (e : Event K) (log : List (Event K)) :
    Prop :=
  ∃ pre post, log = pre ++ e :: post ∧ before <+: pre

theorem Recorded.mono {before log log' : List (Event K)} {e : Event K}
    (h : Recorded before e log) (hlog : log <+: log') :
    Recorded before e log' := by
  obtain ⟨pre, post, rfl, hbefore⟩ := h
  obtain ⟨more, rfl⟩ := hlog
  exact ⟨pre, post ++ more, by simp, hbefore⟩

theorem recorded_snoc {before log : List (Event K)} {e : Event K}
    (h : before <+: log) : Recorded before e (log ++ [e]) :=
  ⟨log, [], rfl, h⟩

end Connexa.Keystore.Keychain
