import Tenancit.Lib.Aead

/-!
`internal/crypto`: encryption under versioned keys. AES-256-GCM is the parameter `aead`,
its keys are `Key`. A `Cryptor` is one that `FromEnv` builds: the current version is
loaded and every loaded version is a positive 32-bit number.
-/
namespace Tenancit.Crypto

open Encoding

/-- The stored form of a secret value. -/
structure Encrypted where
  cipher : Bytes
  nonce : Bytes
  keyVersion : Int
  deriving DecidableEq

inductive CryptoError where
  | unknownKeyVersion (version : Int)
  | openFailed
  | notText
  deriving DecidableEq

/-- `maxStoredKeyVersion` -/
def maxStoredKeyVersion : Int := 2 ^ 31 - 1

structure Cryptor {Key : Type} (aead : Aead Key) where
  aeads : Int → Option Key
  current : Int
  currentKey : Key
  current_loaded : aeads current = some currentKey
  loaded_stored : ∀ {v k}, aeads v = some k → 0 < v ∧ v ≤ maxStoredKeyVersion

/-- The cryptor of a configuration with one key, under version 1. -/
def Cryptor.single {Key : Type} (aead : Aead Key) (key : Key) : Cryptor aead where
  aeads v := if v = 1 then some key else none
  current := 1
  currentKey := key
  current_loaded := rfl
  loaded_stored := by
    intro v k h
    split at h
    next hv =>
      subst hv
      decide
    next => cases h

namespace Cryptor

variable {Key : Type} {aead : Aead Key} {c d : Cryptor aead} {random : Nat → UInt8}

/-- The fresh nonce read from the random source. -/
def nonce (aead : Aead Key) (random : Nat → UInt8) : Bytes := (List.range aead.nonceSize).map random

@[simp] theorem length_nonce : (nonce aead random).length = aead.nonceSize := by simp [nonce]

/-- Seal under the current key version. -/
def encryptBytes (c : Cryptor aead) (random : Nat → UInt8) (plaintext : Bytes) : Encrypted where
  cipher := aead.sealText c.currentKey (nonce aead random) plaintext
  nonce := nonce aead random
  keyVersion := c.current

def encrypt (c : Cryptor aead) (random : Nat → UInt8) (plaintext : String) : Encrypted :=
  c.encryptBytes random (utf8 plaintext)

/-- Open under the recorded key version. -/
def decryptBytes (c : Cryptor aead) (e : Encrypted) : Except CryptoError Bytes :=
  match c.aeads e.keyVersion with
  | none => .error (.unknownKeyVersion e.keyVersion)
  | some key => match aead.openText key e.nonce e.cipher with
    | none => .error .openFailed
    | some plaintext => .ok plaintext

/-- The plaintexts of values are texts, so what opens is read as one. -/
def decrypt (c : Cryptor aead) (e : Encrypted) : Except CryptoError String :=
  match c.decryptBytes e with
  | .error err => .error err
  | .ok plaintext => match ofUtf8? plaintext with
    | none => .error .notText
    | some s => .ok s

def hasVersion (c : Cryptor aead) (version : Int) : Bool := (c.aeads version).isSome

/-- What the version opened under is loaded, so is its nonce length. -/
def nonceSize (c : Cryptor aead) (version : Int) : Option Nat :=
  (c.aeads version).map fun _ => aead.nonceSize

def overhead (c : Cryptor aead) (version : Int) : Option Nat :=
  (c.aeads version).map fun _ => aead.overhead

/-- The key that `c` encrypts with is still loaded in `d`, under the same version. -/
def Keeps (c d : Cryptor aead) : Prop := d.aeads c.current = some c.currentKey

/-- A version that both have loaded is one key in both: the key `c` encrypts with, or not loaded in
`d`. -/
def Agree (c d : Cryptor aead) : Prop := ∀ k, d.aeads c.current = some k → k = c.currentKey

theorem Keeps.agree (h : c.Keeps d) : c.Agree d := by
  intro k hk
  rw [h] at hk
  exact (Option.some.inj hk).symm

theorem keeps_refl (c : Cryptor aead) : c.Keeps c := c.current_loaded

/-- Along a list of cryptors, used one after the other, no key once used is dropped. -/
def KeysKept (cs : List (Cryptor aead)) : Prop := cs.Pairwise Keeps

theorem decryptBytes_eq_ok {e : Encrypted} {p : Bytes} : c.decryptBytes e = .ok p ↔
    ∃ key, c.aeads e.keyVersion = some key ∧ aead.openText key e.nonce e.cipher = some p := by
  unfold decryptBytes
  cases c.aeads e.keyVersion with
  | none => simp
  | some key => cases h : aead.openText key e.nonce e.cipher <;> simp [h]

theorem decryptBytes_encryptBytes (h : c.Keeps d) (p : Bytes) :
    d.decryptBytes (c.encryptBytes random p) = .ok p :=
  decryptBytes_eq_ok.mpr ⟨c.currentKey, h, aead.openText_sealText _ _ _ length_nonce⟩

/-- What opens at all opens to what was sealed. -/
theorem Agree.decryptBytes (h : c.Agree d) {p q : Bytes}
    (hq : d.decryptBytes (c.encryptBytes random p) = .ok q) : q = p := by
  obtain ⟨key, hkey, hopen⟩ := decryptBytes_eq_ok.mp hq
  obtain rfl := h key hkey
  have hseal := aead.openText_sealText c.currentKey (nonce aead random) p length_nonce
  exact Option.some.inj (hopen.symm.trans hseal)

theorem decrypt_of_bytes {e : Encrypted} {s : String} (h : c.decryptBytes e = .ok (utf8 s)) :
    c.decrypt e = .ok s := by
  simp [decrypt, h]

theorem decrypt_encrypt (h : c.Keeps d) (s : String) : d.decrypt (c.encrypt random s) = .ok s :=
  decrypt_of_bytes (decryptBytes_encryptBytes h _)

/-- A version that was current fits the `integer` column of values. -/
theorem toInt_ofInt_current (c : Cryptor aead) : (Int32.ofInt c.current).toInt = c.current := by
  obtain ⟨hpos, hle⟩ := c.loaded_stored c.current_loaded
  have hsize : Int32.size = 4294967296 := rfl
  rw [Int32.toInt_ofInt, Int.bmod_def, hsize]
  simp only [maxStoredKeyVersion] at hle
  omega

end Cryptor

end Tenancit.Crypto
