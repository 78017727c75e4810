import Connexa.Keystore.Entry

/-!
# Metadata as associated data

`metadata_aad` of `keystore.rs`: the bytes that bind a ciphertext to its
metadata.  Every field has a fixed width or its length in front of it, so the
bytes determine the metadata.
-/

namespace Connexa.Keystore

/-- `METADATA_AAD_DOMAIN` -/
def metadataAadDomain : Bytes :=
  labelBytes "connexa-keystore-metadata-v1"

/-- `to_be_bytes` of an integer with the given number of bytes. -/
def beBytes : ℕ → ℕ → Bytes
  | 0, _ => []
  | width + 1, n => beBytes width (n / 256) ++ [UInt8.ofNat (n % 256)]

def extendBytes (aad bytes : Bytes) : Bytes :=
  aad ++ beBytes 8 bytes.length ++ bytes

/-- The sign, the seconds and the nanoseconds of a time. -/
def extendTime (aad : Bytes) (time : SystemTime) : Bytes :=
  let beforeEpoch := decide (time.nanos < 0)
  let duration := time.nanos.natAbs
  aad ++ [if beforeEpoch then 1 else 0] ++
    beBytes 8 (duration / 10 ^ 9) ++ beBytes 4 (duration % 10 ^ 9)

def KeyType.byte : KeyType → UInt8
  | .ed25519 => 0
  | .rsa => 1
  | .secp256k1 => 2
  | .ecdsa => 3

def extendExpiry (aad : Bytes) (expiresAt : Option SystemTime) : Bytes :=
  match expiresAt with
  | some time => extendTime (aad ++ [1]) time
  | none => aad ++ [0]

def metadataAad (metadata : KeyMetadata) : Bytes :=
  let aad := metadataAadDomain
  let aad := extendBytes aad (labelBytes metadata.label)
  let aad := aad ++ [metadata.keyType.byte]
  let aad := aad ++ beBytes 4 metadata.version
  let aad := extendTime aad metadata.createdAt
  let aad := extendExpiry aad metadata.expiresAt
  extendBytes aad metadata.publicKey

/-! ## The bytes determine the metadata -/

@[simp] theorem length_beBytes (width n : ℕ) : (beBytes width n).length = width := by
  induction width generalizing n with
  | zero => rfl
  | succ width ih => simp [beBytes, ih]

theorem beBytes_inj {width a b : ℕ} (ha : a < 256 ^ width) (hb : b < 256 ^ width)
    (h : beBytes width a = beBytes width b) : a = b := by
  induction width generalizing a b with
  | zero =>
      rw [Nat.pow_zero, Nat.lt_one_iff] at ha hb
      rw [ha, hb]
  | succ width ih =>
      obtain ⟨hhigh, hlow⟩ := List.append_inj' h rfl
      have ha' : a / 256 < 256 ^ width :=
        Nat.div_lt_of_lt_mul (by rwa [Nat.pow_succ, Nat.mul_comm] at ha)
      have hb' : b / 256 < 256 ^ width :=
        Nat.div_lt_of_lt_mul (by rwa [Nat.pow_succ, Nat.mul_comm] at hb)
      have hdiv := ih ha' hb' hhigh
      have hmod : a % 256 = b % 256 := by
        have hbytes : UInt8.ofNat (a % 256) = UInt8.ofNat (b % 256) := by
          simpa using hlow
        have htoNat := congrArg UInt8.toNat hbytes
        simpa using htoNat
      omega

theorem labelBytes_inj {a b : String} (h : labelBytes a = labelBytes b) :
    a = b := by
  have hdata : a.toUTF8.data = b.toUTF8.data := Array.toList_inj.mp h
  have harray : a.toUTF8 = b.toUTF8 := ByteArray.ext hdata
  simpa [String.toByteArray_inj] using harray

/-- What `extendTime` appends. -/
def timeBytes (time : SystemTime) : Bytes :=
  extendTime [] time

/-- What `extendExpiry` appends. -/
def expiryBytes (expiresAt : Option SystemTime) : Bytes :=
  extendExpiry [] expiresAt

theorem extendTime_eq (aad : Bytes) (time : SystemTime) :
    extendTime aad time = aad ++ timeBytes time := by
  simp [timeBytes, extendTime]

theorem extendExpiry_eq (aad : Bytes) (expiresAt : Option SystemTime) :
    extendExpiry aad expiresAt = aad ++ expiryBytes expiresAt := by
  cases expiresAt with
  | none => rfl
  | some time => simp [expiryBytes, extendExpiry, extendTime_eq]

theorem length_timeBytes (time : SystemTime) : (timeBytes time).length = 13 := by
  simp [timeBytes, extendTime]

theorem timeBytes_inj {a b : SystemTime} (h : timeBytes a = timeBytes b) :
    a = b := by
  simp only [timeBytes, extendTime, List.nil_append, List.append_assoc] at h
  obtain ⟨hsign, hrest⟩ := List.append_inj h rfl
  obtain ⟨hsecs, hsub⟩ := List.append_inj hrest (by simp)
  have hsecs : a.nanos.natAbs / 10 ^ 9 = b.nanos.natAbs / 10 ^ 9 := by
    refine beBytes_inj ?_ ?_ hsecs
    · exact Nat.div_lt_of_lt_mul (by simpa [Nat.mul_comm] using a.bounded)
    · exact Nat.div_lt_of_lt_mul (by simpa [Nat.mul_comm] using b.bounded)
  have hsub : a.nanos.natAbs % 10 ^ 9 = b.nanos.natAbs % 10 ^ 9 := by
    have hlt : ∀ n : ℕ, n % 10 ^ 9 < 256 ^ 4 := fun n => by omega
    exact beBytes_inj (hlt _) (hlt _) hsub
  have habs : a.nanos.natAbs = b.nanos.natAbs := by
    rw [← Nat.div_add_mod a.nanos.natAbs (10 ^ 9), hsecs, hsub, Nat.div_add_mod]
  have hneg : a.nanos < 0 ↔ b.nanos < 0 := by
    by_cases ha : a.nanos < 0 <;> by_cases hb : b.nanos < 0 <;>
      simp [ha, hb] at hsign ⊢
  have hnanos : a.nanos = b.nanos := by omega
  cases a
  cases b
  simpa using hnanos

theorem expiryBytes_inj {a b : Option SystemTime} {x y : Bytes}
    (h : expiryBytes a ++ x = expiryBytes b ++ y) : a = b ∧ x = y := by
  cases a with
  | none =>
      cases b with
      | none => exact ⟨rfl, by simpa [expiryBytes, extendExpiry] using h⟩
      | some tb => simp [expiryBytes, extendExpiry, extendTime_eq] at h
  | some ta =>
      cases b with
      | none => simp [expiryBytes, extendExpiry, extendTime_eq] at h
      | some tb =>
          simp only [expiryBytes, extendExpiry, extendTime_eq, List.nil_append,
            List.cons_append, List.cons.injEq, true_and] at h
          obtain ⟨htime, hrest⟩ := List.append_inj h
            (by simp [length_timeBytes])
          exact ⟨congrArg some (timeBytes_inj htime), hrest⟩

theorem KeyType.byte_inj {a b : KeyType} (h : a.byte = b.byte) : a = b := by
  revert h
  cases a <;> cases b <;> decide

/-- A field with its length in front. -/
theorem lengthPrefixed_inj {a b x y : Bytes} (ha : a.length < 2 ^ 64)
    (hb : b.length < 2 ^ 64)
    (h : beBytes 8 a.length ++ (a ++ x) = beBytes 8 b.length ++ (b ++ y)) :
    a = b ∧ x = y := by
  obtain ⟨hlength, hrest⟩ := List.append_inj h (by simp)
  exact List.append_inj hrest (beBytes_inj ha hb hlength)

theorem metadataAad_eq (m : KeyMetadata) :
    metadataAad m = metadataAadDomain ++
      (beBytes 8 (labelBytes m.label).length ++ (labelBytes m.label ++
        (m.keyType.byte :: (beBytes 4 m.version ++ (timeBytes m.createdAt ++
          (expiryBytes m.expiresAt ++
            (beBytes 8 m.publicKey.length ++ (m.publicKey ++ [])))))))) := by
  simp [metadataAad, extendBytes, extendTime_eq, extendExpiry_eq]

theorem eq_of_metadataAad_eq {a b : KeyMetadata}
    (h : metadataAad a = metadataAad b) : a = b := by
  rw [metadataAad_eq, metadataAad_eq] at h
  have h := List.append_cancel_left h
  obtain ⟨hlabel, h⟩ := lengthPrefixed_inj a.label_lt b.label_lt h
  obtain ⟨hkeyType, h⟩ := List.cons.inj h
  obtain ⟨hversion, h⟩ := List.append_inj h (by simp)
  obtain ⟨hcreated, h⟩ := List.append_inj h (by simp [length_timeBytes])
  obtain ⟨hexpires, h⟩ := expiryBytes_inj h
  obtain ⟨hpublic, -⟩ := lengthPrefixed_inj a.publicKey_lt b.publicKey_lt h
  have hversion : a.version = b.version :=
    Fin.ext (beBytes_inj a.version.isLt b.version.isLt hversion)
  cases a
  cases b
  simp only [KeyMetadata.mk.injEq]
  exact ⟨labelBytes_inj hlabel, KeyType.byte_inj hkeyType, hversion,
    timeBytes_inj hcreated, hexpires, hpublic⟩

/-- No two metadata share their associated data. -/
theorem metadataAad_injective : Function.Injective metadataAad :=
  fun _ _ h => eq_of_metadataAad_eq h

end Connexa.Keystore
