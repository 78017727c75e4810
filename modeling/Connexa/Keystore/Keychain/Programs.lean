import Connexa.Support.HashMap
import Connexa.Support.Program
import Connexa.Keystore.Metadata

/-!
# The keychain

The methods of `Keychain` in `keystore.rs` as programs.  What they call is
outside of the keychain: the lock and the cipher slot that clones share, the
storage backend, the ciphers, the clock and the key generators.  `detach` is
where a mutation takes the cipher out of its slot and goes on in a task of its
own, whatever becomes of its caller.
-/

namespace Connexa.Keystore.Keychain

/-- `libp2p::identity::Keypair`, as far as the keychain uses it. -/
structure Identity (K : Type) where
  keyType : K → KeyType
  /-- `keypair.public().encode_protobuf()` -/
  publicKey : K → Bytes
  publicKey_lt : ∀ keypair, (publicKey keypair).length < 2 ^ 64
  toProtobufEncoding : K → Except String Bytes
  fromProtobufEncoding : Bytes → Except String K
  /-- The key types that the enabled features can generate. -/
  canGenerate : KeyType → Bool

/-- Ciphers, by identity. -/
abbrev CipherId := ℕ

/-- A `&str` that is used as a label. -/
abbrev Label := { label : String // (labelBytes label).length < 2 ^ 64 }

theorem Label.bounded (label : Label) : (labelBytes label.1).length < 2 ^ 64 :=
  label.2

inductive Expiry where
  | never
  /-- A duration in nanoseconds. -/
  | after (ttl : ℕ)
  | at (time : SystemTime)

/-- `SystemTime::checked_add` of the standard library, whose seconds are an
`i64`. -/
def checkedAdd (time : SystemTime) (ttl : ℕ) : Option SystemTime :=
  if h : time.nanos + ttl < (2 ^ 63 * 10 ^ 9 : ℕ) then
    some ⟨time.nanos + ttl, by have := time.bounded; omega⟩
  else none

def Expiry.resolve (expiry : Expiry) (createdAt : SystemTime) :
    Option SystemTime :=
  match expiry with
  | .never => none
  | .after ttl => checkedAdd createdAt ttl
  | .at time => some time

inductive RotateKey (K : Type) where
  | keypair (keypair : K)
  | generate (keyType : KeyType)

structure OpenedEntry (K : Type) where
  keypair : K
  metadata : KeyMetadata

/-- Why an entry is stored, for the record only. -/
inductive Mutation where
  | insert
  | create
  | rotate
  deriving DecidableEq

/-! ## Primitives -/

inductive Op (K : Type) where
  /-- `self.cipher.read().await` -/
  | readLock
  /-- `self.cipher.clone().write_owned().await` -/
  | writeLock
  /-- the guard is dropped -/
  | unlock
  /-- what the guard gives access to -/
  | cipher
  /-- `guard.take()` and `spawn` -/
  | detach
  /-- `*guard = cipher` -/
  | setCipher (cipher : Option CipherId)
  | get (label : String)
  /-- `backend.put(entry)`; the rest is for the record only -/
  | put (entry : EncryptedEntry) (kind : Mutation) (keypair : K)
  | putMany (entries : List EncryptedEntry)
  | list
  | remove (label : String)
  /-- `SystemTime::now()` -/
  | now
  /-- `Keypair::generate_*` -/
  | generate (keyType : KeyType)
  /-- `cipher.encrypt(aad, plaintext)`; the rest is for the record only -/
  | encrypt (cipher : CipherId) (aad plaintext : Bytes) (metadata : KeyMetadata)
      (keypair : K)
  | decrypt (cipher : CipherId) (aad ciphertext : Bytes)
  /-- an entry was accepted under the label, for the record only -/
  | accept (cipher : CipherId) (label : String) (entry : EncryptedEntry)
      (keypair : K)
  /-- `get_or_create` found this identity, for the record only -/
  | found (label : String) (keypair : K)

@[reducible] def Reply {K : Type} : Op K → Type
  | .readLock => Unit
  | .writeLock => Unit
  | .unlock => Unit
  | .cipher => Option CipherId
  | .detach => Option CipherId
  | .setCipher _ => Unit
  | .get _ => Except Error (Option EncryptedEntry)
  | .put _ _ _ => Except Error Unit
  | .putMany _ => Except Error Unit
  | .list => Except Error (List KeyMetadata)
  | .remove _ => Except Error Bool
  | .now => SystemTime
  | .generate _ => K
  | .encrypt _ _ _ _ _ => Except Error Bytes
  | .decrypt _ _ _ => Except Error Bytes
  | .accept _ _ _ _ => Unit
  | .found _ _ => Unit

abbrev KeychainM (K : Type) := ExceptT Error (Prog (Op K) Reply)

section Methods

variable {K : Type} (identity : Identity K)

/-- A primitive that always succeeds. -/
def call (o : Op K) : KeychainM K (Reply o) :=
  ExceptT.lift (Prog.op o)

/-! ## Locking -/

def unknownResult : Error :=
  .backend (.new .other
    "keychain write result is unknown. Recover and reopen the backend")

/-- The cipher behind the guard that was just taken. -/
def checkedCipher : KeychainM K CipherId := do
  match ← call Op.cipher with
  | none => throw unknownResult
  | some cipher => return cipher

def readLock : KeychainM K CipherId := do
  call Op.readLock
  checkedCipher

def writeLock : KeychainM K CipherId := do
  call Op.writeLock
  checkedCipher

def disableCheck (disabled : Bool) : KeychainM K Unit :=
  if disabled then throw .disabled else pure ()

def checkLabel (label : String) : KeychainM K Unit :=
  match validateLabel label with
  | .error e => throw e
  | .ok () => pure ()

/-- `finish_mutation` -/
def finishMutation {α : Type} (work : KeychainM K α) : KeychainM K α :=
  ExceptT.mk do
    let cipher ← Prog.op Op.detach
    let result ← work.run
    Prog.op (Op.setCipher cipher)
    return result

/-! ## Entries -/

/-- A conversion of keypairs, whose error is `Error::Key`. -/
def keyResult {α : Type} (r : Except String α) : KeychainM K α :=
  match r with
  | .ok a => pure a
  | .error text => throw (.key text)

def sealEntry (cipher : CipherId) (metadata : KeyMetadata) (keypair : K) :
    KeychainM K EncryptedEntry := do
  let plaintext ← keyResult (identity.toProtobufEncoding keypair)
  let aad := metadataAad metadata
  let ciphertext ← (ExceptT.mk (Prog.op
    (Op.encrypt cipher aad plaintext metadata keypair)) : KeychainM K Bytes)
  return ⟨metadata, ciphertext⟩

/-- The keypair belongs to the metadata. -/
def Identity.Matches (keypair : K) (metadata : KeyMetadata) : Prop :=
  identity.keyType keypair = metadata.keyType ∧
    identity.publicKey keypair = metadata.publicKey

instance (keypair : K) (metadata : KeyMetadata) :
    Decidable (identity.Matches keypair metadata) :=
  inferInstanceAs (Decidable (_ ∧ _))

def openEntry (cipher : CipherId) (label : String) (entry : EncryptedEntry) :
    KeychainM K (OpenedEntry K) := do
  if entry.metadata.label ≠ label then throw .decryptFailed
  let aad := metadataAad entry.metadata
  let plaintext ← (ExceptT.mk (Prog.op
    (Op.decrypt cipher aad entry.ciphertext)) : KeychainM K Bytes)
  let keypair ← keyResult (identity.fromProtobufEncoding plaintext)
  if ¬identity.Matches keypair entry.metadata then throw .decryptFailed
  call (Op.accept cipher label entry keypair)
  return ⟨keypair, entry.metadata⟩

def backendGet (label : String) : KeychainM K (Option EncryptedEntry) :=
  ExceptT.mk (Prog.op (Op.get label))

def authenticatedEntry (label : String) :
    KeychainM K (Option (OpenedEntry K)) := do
  let cipher ← readLock
  match ← backendGet label with
  | none =>
      call Op.unlock
      return none
  | some entry =>
      let opened ← openEntry identity cipher label entry
      call Op.unlock
      return some opened

/-- `KeyMetadata::is_expired` -/
def isExpired (metadata : KeyMetadata) : KeychainM K Bool :=
  match metadata.expiresAt with
  | none => return false
  | some expiry => do
      let now ← call Op.now
      return decide (expiry.nanos ≤ now.nanos)

def sameMetadata (a b : KeyMetadata) : Bool :=
  a.label = b.label && a.keyType = b.keyType && a.version = b.version &&
    a.createdAt = b.createdAt && a.expiresAt = b.expiresAt &&
    a.publicKey = b.publicKey

def sameEntry (a b : EncryptedEntry) : Bool :=
  a.ciphertext = b.ciphertext && sameMetadata a.metadata b.metadata

/-- The loop of `load_entries`, with the labels met so far. -/
def loadListed : List KeyMetadata → List String → KeychainM K (List EncryptedEntry)
  | [], _ => pure []
  | metadata :: rest, labels => do
      checkLabel metadata.label
      if metadata.label ∈ labels then throw .decryptFailed
      match ← backendGet metadata.label with
      | none => throw (.notFound metadata.label)
      | some entry =>
          if ¬sameMetadata metadata entry.metadata then throw .decryptFailed
          let entries ← loadListed rest (metadata.label :: labels)
          return entry :: entries

def loadEntries : KeychainM K (List EncryptedEntry) := do
  let listed ← (ExceptT.mk (Prog.op Op.list) : KeychainM K (List KeyMetadata))
  loadListed listed []

def openEntries (cipher : CipherId) :
    List EncryptedEntry → KeychainM K (List (OpenedEntry K))
  | [] => pure []
  | entry :: rest => do
      let opened ← openEntry identity cipher entry.metadata.label entry
      let others ← openEntries cipher rest
      return opened :: others

def authenticatedEntries : KeychainM K (List (OpenedEntry K)) := do
  let cipher ← readLock
  let entries ← loadEntries
  let opened ← openEntries identity cipher entries
  call Op.unlock
  return opened

/-! ## Methods -/

/-- `generate_keypair` -/
def generateKeypair (keyType : KeyType) : KeychainM K K :=
  if identity.canGenerate keyType then call (Op.generate keyType)
  else throw (.unsupportedKeyType keyType)

def store (disabled : Bool) (label : Label) (keypair : K) (expiry : Expiry)
    (version : Fin (2 ^ 32)) (kind : Mutation) (cipher : CipherId) :
    KeychainM K Unit := do
  disableCheck disabled
  checkLabel label.1
  let createdAt ← call Op.now
  let metadata : KeyMetadata :=
    { label := label.1
      keyType := identity.keyType keypair
      version := version
      createdAt := createdAt
      expiresAt := expiry.resolve createdAt
      publicKey := identity.publicKey keypair
      label_lt := label.bounded
      publicKey_lt := identity.publicKey_lt keypair }
  let entry ← sealEntry identity cipher metadata keypair
  finishMutation (ExceptT.mk (Prog.op (Op.put entry kind keypair)))

/-- `insert` and `insert_with_expiry` -/
def insert (disabled : Bool) (label : Label) (keypair : K) (expiry : Expiry) :
    KeychainM K Unit := do
  let cipher ← writeLock
  store identity disabled label keypair expiry 1 .insert cipher

def generate (disabled : Bool) (label : Label) (keyType : KeyType) :
    KeychainM K K := do
  let keypair ← generateKeypair identity keyType
  insert identity disabled label keypair .never
  return keypair

/-- `saturating_add(1)` -/
def nextVersion (version : Fin (2 ^ 32)) : Fin (2 ^ 32) :=
  ⟨min (version + 1) (2 ^ 32 - 1), by omega⟩

/-- The replacement of a rotated key. -/
def rotateKeypair : RotateKey K → KeychainM K K
  | .keypair keypair => pure keypair
  | .generate keyType => generateKeypair identity keyType

def rotate (disabled : Bool) (label : Label) (key : RotateKey K)
    (expiry : Expiry) : KeychainM K Unit := do
  let cipher ← writeLock
  checkLabel label.1
  match ← backendGet label.1 with
  | none => throw (.notFound label.1)
  | some current =>
      let opened ← openEntry identity cipher label.1 current
      let version := nextVersion opened.metadata.version
      let keypair ← rotateKeypair identity key
      store identity disabled label keypair expiry version .rotate cipher

def get (disabled : Bool) (label : String) : KeychainM K K := do
  disableCheck disabled
  checkLabel label
  match ← authenticatedEntry identity label with
  | none => throw (.notFound label)
  | some opened =>
      if ← isExpired opened.metadata then throw (.expired label)
      return opened.keypair

def getOrCreate (disabled : Bool) (label : Label) : KeychainM K K := do
  let cipher ← writeLock
  disableCheck disabled
  checkLabel label.1
  match ← backendGet label.1 with
  | some entry =>
      let opened ← openEntry identity cipher label.1 entry
      if ← isExpired opened.metadata then throw (.expired label.1)
      call (Op.found label.1 opened.keypair)
      return opened.keypair
  | none =>
      let keypair ← call (Op.generate .ed25519)
      store identity disabled label keypair .never 1 .create cipher
      return keypair

def list : KeychainM K (List KeyMetadata) := do
  let opened ← authenticatedEntries identity
  return opened.map (·.metadata)

def metadata (label : String) : KeychainM K (Option KeyMetadata) := do
  checkLabel label
  let opened ← authenticatedEntry identity label
  return opened.map (·.metadata)

def remove (label : String) : KeychainM K Bool := do
  let _ ← writeLock
  checkLabel label
  finishMutation (ExceptT.mk (Prog.op (Op.remove label)))

/-- The labels of the expired entries. -/
def expiredLabels : List (OpenedEntry K) → KeychainM K (List String)
  | [] => pure []
  | opened :: rest => do
      let expired ← isExpired opened.metadata
      let labels ← expiredLabels rest
      return if expired then opened.metadata.label :: labels else labels

/-- Remove the labels and count those that were there. -/
def removeLabels : List String → ℕ → KeychainM K ℕ
  | [], removed => pure removed
  | label :: rest, removed => do
      let existed ← (ExceptT.mk (Prog.op (Op.remove label)) : KeychainM K Bool)
      removeLabels rest (if existed then removed + 1 else removed)

def purgeExpired : KeychainM K ℕ := do
  let cipher ← writeLock
  let entries ← loadEntries
  let opened ← openEntries identity cipher entries
  let expired ← expiredLabels opened
  if expired.isEmpty then return 0
  finishMutation (removeLabels expired 0)

/-- Open every entry with one cipher and seal it with another. -/
def reseal (cipher newCipher : CipherId) :
    List EncryptedEntry → KeychainM K (List EncryptedEntry)
  | [] => pure []
  | entry :: rest => do
      let opened ← openEntry identity cipher entry.metadata.label entry
      let sealed ← sealEntry identity newCipher opened.metadata opened.keypair
      let others ← reseal cipher newCipher rest
      return sealed :: others

/-- Whether all originals read back identical. -/
def readBack : List EncryptedEntry → Prog (Op K) Reply Bool
  | [] => return true
  | original :: rest => do
      match ← Prog.op (Op.get original.metadata.label) with
      | .ok (some entry) =>
          if sameEntry entry original then readBack rest else return false
      | _ => return false

/-- The spawned part of `migrate_cipher`. -/
def replaceAll (newCipher : CipherId) (previous : Option CipherId)
    (originals entries : List EncryptedEntry) : KeychainM K Unit :=
  ExceptT.mk do
    match ← Prog.op (Op.putMany entries) with
    | .error error =>
        if ← readBack originals then Prog.op (Op.setCipher previous)
        return .error error
    | .ok () =>
        Prog.op (Op.setCipher (some newCipher))
        return .ok ()

def migrateCipher (disabled : Bool) (newCipher : CipherId) :
    KeychainM K Unit := do
  let cipher ← writeLock
  disableCheck disabled
  let originals ← loadEntries
  let entries ← reseal identity cipher newCipher originals
  let previous ← call Op.detach
  replaceAll newCipher previous originals entries

end Methods

end Connexa.Keystore.Keychain
