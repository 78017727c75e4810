import Connexa.Support.Sections
import Connexa.Keystore.Keychain.Identities
import Connexa.Keystore.Keychain.Purges

/-!
# What a keychain is for

A `Vault` holds an identity and its metadata under each label.  It answers the calls
of a keychain at once and knows neither ciphertexts nor backends nor locks.  A world
stands for a vault when its backend holds what opens to the identities of the vault,
under the cipher that is in the slot.
-/

namespace Connexa.Keystore.Keychain

open Sections (Stage)

variable {K : Type}

/-- A backend that does what the `Keystore` trait asks of it and never fails. -/
structure Environment.Reliable (env : Environment K) : Prop where
  faultless : env.Faultless
  contract : env.Contract
  lists : ∀ {store r}, env.lists store r → ∃ listed, r = .ok listed ∧
    (listed.map (·.label)).Nodup ∧ ∀ metadata, metadata ∈ listed ↔
      ∃ entry, store metadata.label = some entry ∧ entry.metadata = metadata
  putManys : ∀ {store entries r store'}, env.putManys store entries r store' → r = .ok ()

structure Vault (K : Type) where
  /-- The cipher that seals the identities; no answer depends on it. -/
  cipher : CipherId
  entries : String → Option (OpenedEntry K)

namespace Vault

variable (identity : Identity K) (env : Environment K)

def put (v : Vault K) (label : String) (opened : OpenedEntry K) : Vault K :=
  { v with entries := Function.update v.entries label (some opened) }

def removeAll (v : Vault K) (labels : List String) : Vault K :=
  { v with entries := fun label =>
    if labels.contains label then none else v.entries label }

/-- A look at the clock tells whether the key has expired. -/
def Judged (metadata : KeyMetadata) (expired : Bool) : Prop :=
  match metadata.expiresAt with
  | none => expired = false
  | some expiry => ∃ log now, env.clock log now ∧
      expired = decide (expiry.nanos ≤ now.nanos)

/-- The cipher may fail to seal the keypair with the error. -/
def Unsealable (cipher : CipherId) (keypair : K) (e : Error) : Prop :=
  (∃ text, identity.toProtobufEncoding keypair = .error text ∧ e = .key text) ∨
    ∃ log aad plaintext, env.encrypts log cipher aad plaintext (.error e)

/-- The metadata that a keypair gets when it is stored. -/
def stamp (label : Label) (keypair : K) (expiry : Expiry) (version : Fin (2 ^ 32))
    (createdAt : SystemTime) : KeyMetadata where
  label := label.1
  keyType := identity.keyType keypair
  version := version
  createdAt := createdAt
  expiresAt := expiry.resolve createdAt
  publicKey := identity.publicKey keypair
  label_lt := label.bounded
  publicKey_lt := identity.publicKey_lt keypair

/-! ## Answers -/

/-- Storing a keypair under a label. -/
inductive Stores (disabled : Bool) (label : Label) (keypair : K) (expiry : Expiry)
    (version : Fin (2 ^ 32)) (v : Vault K) : Except Error Unit → Vault K → Prop where
  | disabled (h : disabled = true) :
      Stores disabled label keypair expiry version v (.error .disabled) v
  | invalid {e : Error} (h : disabled = false)
      (hlabel : validateLabel label.1 = .error e) :
      Stores disabled label keypair expiry version v (.error e) v
  | unsealed {e : Error} (h : disabled = false) (hlabel : validateLabel label.1 = .ok ())
      (he : Unsealable identity env v.cipher keypair e) :
      Stores disabled label keypair expiry version v (.error e) v
  | stored {log : List (Event K)} {createdAt : SystemTime} (h : disabled = false)
      (hlabel : validateLabel label.1 = .ok ()) (hclock : env.clock log createdAt) :
      Stores disabled label keypair expiry version v (.ok ())
        (v.put label.1
          ⟨keypair, stamp identity label keypair expiry version createdAt⟩)

/-- The replacement of a rotated key. -/
inductive Replaces : RotateKey K → K → Prop where
  | keypair (keypair : K) : Replaces (.keypair keypair) keypair
  | generate {keyType : KeyType} {keypair : K} (h : identity.canGenerate keyType = true)
      (hkeypair : env.generates keyType keypair) : Replaces (.generate keyType) keypair

/-- The metadata of all identities, in any order. -/
structure Lists (v : Vault K) (listed : List KeyMetadata) : Prop where
  nodup : (listed.map (·.label)).Nodup
  mem_iff : ∀ metadata, metadata ∈ listed ↔
    ∃ label opened, v.entries label = some opened ∧ opened.metadata = metadata

/-- The labels of all identities that are judged to have expired. -/
structure Expires (v : Vault K) (expired : List String) : Prop where
  nodup : expired.Nodup
  judged : ∀ label ∈ expired, ∃ opened, v.entries label = some opened ∧
    Judged env opened.metadata true
  spared : ∀ label opened, v.entries label = some opened → label ∉ expired →
    Judged env opened.metadata false

/-- What a vault may answer to a call, and the vault after it. -/
inductive Answer (disabled : Bool) : Call K → Vault K → Except Error (Value K) → Vault K →
    Prop where
  | insert {label : Label} {keypair : K} {expiry : Expiry} {v v' : Vault K}
      {r : Except Error Unit}
      (h : Stores identity env disabled label keypair expiry 1 v r v') :
      Answer disabled (.insert label keypair expiry) v (r.map fun _ => .unit) v'
  | ungenerated {label : Label} {keyType : KeyType} {v : Vault K}
      (h : identity.canGenerate keyType = false) :
      Answer disabled (.generate label keyType) v (.error (.unsupportedKeyType keyType)) v
  | generate {label : Label} {keyType : KeyType} {keypair : K} {v v' : Vault K}
      {r : Except Error Unit} (h : identity.canGenerate keyType = true)
      (hkeypair : env.generates keyType keypair)
      (hstores : Stores identity env disabled label keypair .never 1 v r v') :
      Answer disabled (.generate label keyType) v (r.map fun _ => .keypair keypair) v'
  | rotateInvalid {label : Label} {key : RotateKey K} {expiry : Expiry} {v : Vault K}
      {e : Error} (h : validateLabel label.1 = .error e) :
      Answer disabled (.rotate label key expiry) v (.error e) v
  | rotateMissing {label : Label} {key : RotateKey K} {expiry : Expiry} {v : Vault K}
      (h : validateLabel label.1 = .ok ()) (hnone : v.entries label.1 = none) :
      Answer disabled (.rotate label key expiry) v (.error (.notFound label.1)) v
  | rotateUngenerated {label : Label} {keyType : KeyType} {expiry : Expiry} {v : Vault K}
      {opened : OpenedEntry K} (hlabel : validateLabel label.1 = .ok ())
      (hopened : v.entries label.1 = some opened)
      (h : identity.canGenerate keyType = false) :
      Answer disabled (.rotate label (.generate keyType) expiry) v
        (.error (.unsupportedKeyType keyType)) v
  | rotate {label : Label} {key : RotateKey K} {expiry : Expiry} {v v' : Vault K}
      {opened : OpenedEntry K} {keypair : K} {r : Except Error Unit}
      (hlabel : validateLabel label.1 = .ok ())
        (hopened : v.entries label.1 = some opened)
      (hkey : Replaces identity env key keypair)
      (hstores : Stores identity env disabled label keypair expiry
        (nextVersion opened.metadata.version) v r v') :
      Answer disabled (.rotate label key expiry) v (r.map fun _ => .unit) v'
  | getDisabled {label : String} {v : Vault K} (h : disabled = true) :
      Answer disabled (.get label) v (.error .disabled) v
  | getInvalid {label : String} {v : Vault K} {e : Error} (h : disabled = false)
      (hlabel : validateLabel label = .error e) :
      Answer disabled (.get label) v (.error e) v
  | getMissing {label : String} {v : Vault K} (h : disabled = false)
      (hlabel : validateLabel label = .ok ()) (hnone : v.entries label = none) :
      Answer disabled (.get label) v (.error (.notFound label)) v
  | getExpired {label : String} {v : Vault K} {opened : OpenedEntry K}
      (h : disabled = false) (hlabel : validateLabel label = .ok ())
      (hopened : v.entries label = some opened)
      (hexpired : Judged env opened.metadata true) :
      Answer disabled (.get label) v (.error (.expired label)) v
  | get {label : String} {v : Vault K} {opened : OpenedEntry K} (h : disabled = false)
      (hlabel : validateLabel label = .ok ()) (hopened : v.entries label = some opened)
      (hexpired : Judged env opened.metadata false) :
      Answer disabled (.get label) v (.ok (.keypair opened.keypair)) v
  | findDisabled {label : Label} {v : Vault K} (h : disabled = true) :
      Answer disabled (.getOrCreate label) v (.error .disabled) v
  | findInvalid {label : Label} {v : Vault K} {e : Error} (h : disabled = false)
      (hlabel : validateLabel label.1 = .error e) :
      Answer disabled (.getOrCreate label) v (.error e) v
  | findExpired {label : Label} {v : Vault K} {opened : OpenedEntry K}
      (h : disabled = false) (hlabel : validateLabel label.1 = .ok ())
      (hopened : v.entries label.1 = some opened)
      (hexpired : Judged env opened.metadata true) :
      Answer disabled (.getOrCreate label) v (.error (.expired label.1)) v
  | find {label : Label} {v : Vault K} {opened : OpenedEntry K} (h : disabled = false)
      (hlabel : validateLabel label.1 = .ok ())
      (hopened : v.entries label.1 = some opened)
      (hexpired : Judged env opened.metadata false) :
      Answer disabled (.getOrCreate label) v (.ok (.keypair opened.keypair)) v
  | create {label : Label} {keypair : K} {v v' : Vault K} {r : Except Error Unit}
      (h : disabled = false) (hlabel : validateLabel label.1 = .ok ())
      (hnone : v.entries label.1 = none) (hkeypair : env.generates .ed25519 keypair)
      (hstores : Stores identity env disabled label keypair .never 1 v r v') :
      Answer disabled (.getOrCreate label) v (r.map fun _ => .keypair keypair) v'
  | list {v : Vault K} {listed : List KeyMetadata} (h : v.Lists listed) :
      Answer disabled .list v (.ok (.listed listed)) v
  | metadataInvalid {label : String} {v : Vault K} {e : Error}
      (hlabel : validateLabel label = .error e) :
      Answer disabled (.metadata label) v (.error e) v
  | metadata {label : String} {v : Vault K} (hlabel : validateLabel label = .ok ()) :
      Answer disabled (.metadata label) v
        (.ok (.metadata ((v.entries label).map (·.metadata)))) v
  | removeInvalid {label : String} {v : Vault K} {e : Error}
      (hlabel : validateLabel label = .error e) :
      Answer disabled (.remove label) v (.error e) v
  | remove {label : String} {v : Vault K} (hlabel : validateLabel label = .ok ()) :
      Answer disabled (.remove label) v (.ok (.existed (v.entries label).isSome))
        (v.removeAll [label])
  | purge {v : Vault K} {expired : List String} (h : v.Expires env expired) :
      Answer disabled .purgeExpired v (.ok (.count expired.length)) (v.removeAll expired)
  | migrateDisabled {newCipher : CipherId} {v : Vault K} (h : disabled = true) :
      Answer disabled (.migrateCipher newCipher) v (.error .disabled) v
  | migrateUnsealed {newCipher : CipherId} {v : Vault K} {label : String}
      {opened : OpenedEntry K} {e : Error} (h : disabled = false)
      (hopened : v.entries label = some opened)
      (he : Unsealable identity env newCipher opened.keypair e) :
      Answer disabled (.migrateCipher newCipher) v (.error e) v
  | migrate {newCipher : CipherId} {v : Vault K} (h : disabled = false) :
      Answer disabled (.migrateCipher newCipher) v (.ok .unit)
        { v with cipher := newCipher }

/-! ## Worlds that stand for a vault -/

/-- An entry of the backend and the identity that it opens to. -/
inductive Keeps (cipher : CipherId) (label : String) :
    Option EncryptedEntry → Option (OpenedEntry K) → Prop where
  | missing : Keeps cipher label none none
  | kept {entry : EncryptedEntry} {opened : OpenedEntry K}
      (hvalid : validateLabel label = .ok ())
        (hmetadata : entry.metadata = opened.metadata)
      (hopens : Opens identity env cipher label entry opened.keypair) :
      Keeps cipher label (some entry) (some opened)

structure Rep (v : Vault K) (w : World K) : Prop where
  cipher_eq : w.cipher = some v.cipher
  keeps : ∀ label, Keeps identity env v.cipher label (w.store label) (v.entries label)

section Rep

variable {identity env} {v : Vault K} {w w' : World K} {label : String}

/-- The history does not matter. -/
theorem Rep.of_intact (h : Rep identity env v w) (hw : Intact w w') :
    Rep identity env v w' :=
  ⟨hw.1.trans h.cipher_eq, fun label => hw.2 ▸ h.keeps label⟩

theorem Rep.step {o : Op K} {r : Reply o} (h : Rep identity env v w)
    (ho : o.touches = false) (hstep : (machine env).step o w r w') :
    Rep identity env v w' :=
  h.of_intact (intact_of_step ho hstep)

/-- Every identity is under a valid label, which its metadata tell. -/
def WellLabeled (v : Vault K) : Prop :=
  ∀ label opened, v.entries label = some opened →
    validateLabel label = .ok () ∧ opened.metadata.label = label

theorem Rep.exists_entry (h : Rep identity env v w) {opened : OpenedEntry K}
    (hopened : v.entries label = some opened) :
    ∃ entry, w.store label = some entry ∧ validateLabel label = .ok () ∧
      entry.metadata = opened.metadata ∧
      Opens identity env v.cipher label entry opened.keypair := by
  have hkeeps := h.keeps label
  rw [hopened] at hkeeps
  generalize w.store label = found at hkeeps
  cases hkeeps with
  | kept hvalid hmetadata hopens => exact ⟨_, rfl, hvalid, hmetadata, hopens⟩

theorem Rep.wellLabeled (h : Rep identity env v w) : v.WellLabeled := by
  intro label opened hopened
  obtain ⟨entry, -, hvalid, hmetadata, hopens⟩ := h.exists_entry hopened
  exact ⟨hvalid, hmetadata ▸ hopens.1⟩

theorem Rep.isSome_eq (h : Rep identity env v w) (label : String) :
    (w.store label).isSome = (v.entries label).isSome := by
  have hkeeps := h.keeps label
  generalize w.store label = found, v.entries label = opened at hkeeps
  cases hkeeps with
  | missing => rfl
  | kept hvalid hmetadata hopens => rfl

/-- What the backend lists are the metadata of the vault. -/
theorem Rep.lists (h : Rep identity env v w) (henv : env.Reliable)
    {r : Except Error (List KeyMetadata)} (hlists : env.lists w.store r) :
    ∃ listed, r = .ok listed ∧ v.Lists listed := by
  obtain ⟨listed, rfl, hnodup, hmem⟩ := henv.lists hlists
  refine ⟨listed, rfl, hnodup, fun metadata => (hmem metadata).trans ?_⟩
  constructor
  · rintro ⟨entry, hentry, hmetadata⟩
    have hkeeps := h.keeps metadata.label
    rw [hentry] at hkeeps
    generalize hopened : v.entries metadata.label = found at hkeeps
    cases hkeeps with
    | kept hvalid hsame hopens => exact ⟨metadata.label, _, hopened, hsame ▸ hmetadata⟩
  · rintro ⟨label, opened, hopened, rfl⟩
    obtain ⟨entry, hentry, -, hsame, -⟩ := h.exists_entry hopened
    rw [(h.wellLabeled label opened hopened).2]
    exact ⟨entry, hentry, hsame⟩

end Rep

end Vault

end Connexa.Keystore.Keychain
