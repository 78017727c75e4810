import Mathlib.Algebra.Ring.Nat

/-!
# Keystore entries and errors

The data types of `keystore.rs` that the keychain and the storage backends
share.  Lengths and times carry the bounds that the source's types give them.
-/

namespace Connexa.Keystore

abbrev Bytes := List UInt8

/-- `web_time::SystemTime`: nanoseconds relative to the Unix epoch, with whole
seconds that fit in 64 bits on either side of it.  This holds the times of the
standard library, whose seconds are signed, and those of a browser, which start
at the epoch. -/
structure SystemTime where
  nanos : ℤ
  bounded : nanos.natAbs < 2 ^ 64 * 10 ^ 9
  deriving DecidableEq

theorem SystemTime.epoch_bounded : Int.natAbs 0 < 2 ^ 64 * 10 ^ 9 := by decide

inductive KeyType where
  | ed25519
  | rsa
  | secp256k1
  | ecdsa
  deriving DecidableEq

/-- A label as the bytes of its UTF-8 encoding. -/
def labelBytes (label : String) : Bytes :=
  label.toUTF8.data.toList

theorem labelBytes_a_lt : (labelBytes "a").length < 2 ^ 64 := by decide

theorem labelBytes_b_lt : (labelBytes "b").length < 2 ^ 64 := by decide

instance neZero_versions : NeZero (2 ^ 32 : ℕ) := ⟨by decide⟩

structure KeyMetadata where
  label : String
  keyType : KeyType
  version : Fin (2 ^ 32)
  createdAt : SystemTime
  expiresAt : Option SystemTime
  publicKey : Bytes
  label_lt : (labelBytes label).length < 2 ^ 64
  publicKey_lt : publicKey.length < 2 ^ 64
  deriving DecidableEq

/-- An encrypted entry as a backend sees it. -/
structure EncryptedEntry where
  metadata : KeyMetadata
  ciphertext : Bytes
  deriving DecidableEq

/-- The kinds of `std::io::ErrorKind` that the source distinguishes. -/
inductive ErrorKind where
  | notFound
  | alreadyExists
  | isADirectory
  | directoryNotEmpty
  | invalidInput
  | invalidData
  | other
  deriving DecidableEq

mutual

/-- `std::io::Error`, by where it comes from. -/
inductive IoError where
  /-- Reported by the operating system. -/
  | os (kind : ErrorKind)
  /-- `io::Error::new(kind, text)`. -/
  | new (kind : ErrorKind) (text : String)
  /-- `io::Error::other` of a serialisation error. -/
  | codec (text : String)
  /-- `io::Error::other` of a keystore error. -/
  | keystore (error : Error)
  /-- `io::Error::other("{error}. Keystore recovery also failed with
  {recovery}")`. -/
  | recoveryFailed (error : Error) (recovery : IoError)
  /-- `io::Error::other` of a task that did not finish. -/
  | task

/-- The errors of the keystore. -/
inductive Error where
  | notFound (label : String)
  | expired (label : String)
  | encryptFailed
  | decryptFailed
  | key (text : String)
  | backend (error : IoError)
  | unsupportedKeyType (keyType : KeyType)
  | keyTypeMismatch (has wanted : KeyType)
  | invalidLabel (label : String)
  | joinError
  | disabled

end

/-- `std::io::Error::kind`. -/
def IoError.kind : IoError → ErrorKind
  | .os kind => kind
  | .new kind _ => kind
  | .codec _ => .other
  | .keystore _ => .other
  | .recoveryFailed _ _ => .other
  | .task => .other

def validateLabel (label : String) : Except Error Unit :=
  if label.isEmpty ∨ label = "." ∨ label = ".." ∨
      label.toList.any fun c => c == '/' || c == '\\' || c == '\x00' then
    .error (.invalidLabel label)
  else
    .ok ()

end Connexa.Keystore
