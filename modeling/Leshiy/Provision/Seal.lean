import Leshiy.Lib.Crypto
import Leshiy.Provision.Basic

/-!
# The sealed blob

`seal` and `open` of `vault.rs`: the records as JSON, encrypted under a key derived from a passphrase.
`serde_json`, Argon2 and XChaCha20-Poly1305 are parameters.
-/

namespace Leshiy.Provision

open Leshiy.Lib

def MAGIC : List UInt8 := [0x4c, 0x56, 0x41, 0x55, 0x4c, 0x54, 0x31, 0x0a]

def SALT_LEN : Nat := 16

def NONCE_LEN : Nat := 24

structure Sealing (K : Type) where
  toVec : List ServerRecord → Except Str (List UInt8)
  fromSlice : List UInt8 → Except Str (List ServerRecord)
  hashPassword : Str → List UInt8 → Except Str K
  cipher : Aead K (Block NONCE_LEN)

namespace Sealing

variable {K : Type} (k : Sealing K)

def deriveKey (passphrase : Str) (salt : List UInt8) : Except Error K :=
  (k.hashPassword passphrase salt).mapError fun e => .vault ("argon2: ".toList ++ e)

/-- `salt` and `nonce` are drawn afresh. -/
def «seal» (records : List ServerRecord) (passphrase : Str) (salt : Block SALT_LEN)
    (nonce : Block NONCE_LEN) : Except Error (List UInt8) :=
  match k.toVec records with
  | .error e => .error (.vault ("encode: ".toList ++ e))
  | .ok plaintext =>
    match k.deriveKey passphrase salt.1 with
    | .error e => .error e
    | .ok key =>
      match k.cipher.encrypt key nonce [] plaintext with
      | none => .error (.vault "encrypt failed".toList)
      | some ct => .ok (MAGIC ++ (1 :: (salt.1 ++ (nonce.1 ++ ct))))

/-- What follows the magic bytes, at its length. -/
def openBody (body : List UInt8) (passphrase : Str) : Except Error (List ServerRecord) :=
  match body with
  | [] => .error (.vault "not a leshiy vault".toList)
  | version :: rest =>
    if version ≠ 1 then
      .error (.vault ("unsupported vault version: ".toList ++ Str.decimal version.toNat))
    else
      match k.deriveKey passphrase (rest.take SALT_LEN) with
      | .error e => .error e
      | .ok key =>
        match k.cipher.decrypt key (.ofList NONCE_LEN (rest.drop SALT_LEN)) []
          (rest.drop (SALT_LEN + NONCE_LEN)) with
        | none => .error (.vault "decrypt failed (wrong passphrase or corrupt)".toList)
        | some pt => (k.fromSlice pt).mapError fun e => .vault ("decode: ".toList ++ e)

def «open» (blob : List UInt8) (passphrase : Str) : Except Error (List ServerRecord) :=
  if blob.length < MAGIC.length + 1 + SALT_LEN + NONCE_LEN ∨ blob.take MAGIC.length ≠ MAGIC then
    .error (.vault "not a leshiy vault".toList)
  else k.openBody (blob.drop MAGIC.length) passphrase

variable {k} {records : List ServerRecord} {passphrase : Str} {salt : Block SALT_LEN}
  {nonce : Block NONCE_LEN} {blob : List UInt8}

/-- What `seal` puts together. -/
theorem seal_eq_ok (h : k.«seal» records passphrase salt nonce = .ok blob) :
    ∃ plaintext key ct, k.toVec records = .ok plaintext ∧
      k.deriveKey passphrase salt.1 = .ok key ∧ k.cipher.encrypt key nonce [] plaintext = some ct ∧
      blob = MAGIC ++ (1 :: (salt.1 ++ (nonce.1 ++ ct))) := by
  unfold «seal» at h
  split at h
  · cases h
  next plaintext hplaintext =>
  split at h
  · cases h
  next key hkey =>
  split at h
  · cases h
  next ct hct =>
  cases h
  exact ⟨plaintext, key, ct, hplaintext, hkey, hct, rfl⟩

/-- **What is sealed is opened** with the same passphrase, where JSON is read back and the cipher
decrypts what it has encrypted. -/
theorem open_seal (hjson : ∀ bytes, k.toVec records = .ok bytes → k.fromSlice bytes = .ok records)
    (hcipher : ∀ key pt ct, k.cipher.encrypt key nonce [] pt = some ct →
      k.cipher.decrypt key nonce [] ct = some pt)
    (h : k.«seal» records passphrase salt nonce = .ok blob) : k.open blob passphrase = .ok records := by
  obtain ⟨plaintext, key, ct, hplaintext, hkey, hct, rfl⟩ := seal_eq_ok h
  have hlen : ¬ (MAGIC ++ (1 :: (salt.1 ++ (nonce.1 ++ ct)))).length <
      MAGIC.length + 1 + SALT_LEN + NONCE_LEN := by
    simp only [List.length_append, List.length_cons, salt.2, nonce.2]
    omega
  have hmagic : (MAGIC ++ (1 :: (salt.1 ++ (nonce.1 ++ ct)))).take MAGIC.length = MAGIC :=
    List.take_left' rfl
  have hsalt : (salt.1 ++ (nonce.1 ++ ct)).take SALT_LEN = salt.1 := List.take_left' salt.2
  have hrest : (salt.1 ++ (nonce.1 ++ ct)).drop SALT_LEN = nonce.1 ++ ct := List.drop_left' salt.2
  have hnonce : Block.ofList NONCE_LEN (nonce.1 ++ ct) = nonce := by
    apply Subtype.ext
    show ((nonce.1 ++ ct) ++ List.replicate NONCE_LEN 0).take NONCE_LEN = nonce.1
    rw [List.append_assoc]
    exact List.take_left' nonce.2
  have hct' : (salt.1 ++ (nonce.1 ++ ct)).drop (SALT_LEN + NONCE_LEN) = ct := by
    rw [← List.drop_drop, hrest]
    exact List.drop_left' nonce.2
  unfold «open»
  rw [if_neg (not_or.mpr ⟨hlen, not_not.mpr hmagic⟩), List.drop_left' rfl]
  show k.openBody (1 :: (salt.1 ++ (nonce.1 ++ ct))) passphrase = _
  unfold openBody
  dsimp only
  rw [if_neg (not_not.mpr rfl), hsalt, hkey, hrest, hnonce, hct']
  dsimp only
  rw [hcipher key plaintext ct hct]
  dsimp only
  rw [hjson plaintext hplaintext]
  rfl

end Sealing

end Leshiy.Provision
