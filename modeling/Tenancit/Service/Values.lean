import Tenancit.Crypto
import Tenancit.Store.Catalog

/-! `service/values.go`: how a plaintext is put into the columns of a value row and read back. -/
namespace Tenancit.Service

open Encoding Crypto Store

/-- The errors of the services, with those they wrap. -/
inductive ServiceError where
  | store (err : PgError)
  | crypto (err : CryptoError)
  | resourceAliasExists
  | invalidResourceAlias
  | invalidResourceName
  | invalidResourceSource
  | inactiveDefinition
  | unknownDefinition
  | unknownTenant
  | unknownResource
  | unknownResourceField
  | missingRequiredField (key : String)
  | invalidFieldValue (key : String)
  deriving DecidableEq

namespace ServiceError

/-- The texts of the errors that reach a client. -/
def text : ServiceError → String
  | missingRequiredField key => "missing required field: " ++ key
  | invalidFieldValue key => "invalid value for field: " ++ key
  | resourceAliasExists => "resource alias already exists"
  | invalidResourceAlias => "invalid resource alias"
  | invalidResourceName => "invalid resource name"
  | invalidResourceSource => "invalid resource source"
  | inactiveDefinition => "definition is inactive"
  | unknownDefinition => "unknown definition"
  | unknownTenant => "unknown tenant"
  | unknownResource => "unknown resource"
  | unknownResourceField => "unknown resource field"
  | store _ => "store error"
  | crypto _ => "crypto error"

end ServiceError

variable {Key : Type} {aead : Aead Key}

/-- `MaskedValue`, the placeholder of the admin endpoints. -/
def maskedValue : String := "••••••••"

/-- A plaintext in the columns of a value, encrypted when the field is secret; the caller
fills the resource and the field. -/
def encodeValue (c : Cryptor aead) (isSecret : Bool) (plaintext : String) :
    Tx Catalog ServiceError Queries.UpsertResourceValueParams :=
  if isSecret = false then pure ⟨UUID.nil, UUID.nil, some plaintext, none, none, none⟩
  else do
    let t ← Program.Tx.draw (.store .unavailable)
    let enc := c.encrypt t.random plaintext
    pure ⟨UUID.nil, UUID.nil, none, some enc.cipher, some enc.nonce,
      some (Int32.ofInt enc.keyVersion)⟩

/-- The cleartext of a value row. -/
def decodeValue (c : Cryptor aead) (v : TenantResourceValue) : Except ServiceError String :=
  match v.valueCipher with
  | none => .ok (v.valuePlain.getD "")
  | some cipher =>
    let version := (v.keyVersion.map Int32.toInt).getD 0
    (c.decrypt ⟨cipher, v.nonce.getD [], version⟩).mapError .crypto

/-- Secret values are masked unless they are to be revealed. -/
def presentValue (c : Cryptor aead) (isSecret : Bool) (v : TenantResourceValue) (reveal : Bool) :
    Except ServiceError String :=
  if isSecret && !reveal then .ok maskedValue else decodeValue c v

/-- The value columns as `c` encodes the text in them, for a secret field or a plain one. -/
def Columns (c : Cryptor aead) (isSecret : Bool) (s : String) (valuePlain : Option String)
    (valueCipher nonce : Option Bytes) (keyVersion : Option Int32) : Prop :=
  if isSecret then valuePlain = none ∧ ∃ random, valueCipher = some (c.encrypt random s).cipher ∧
    nonce = some (c.encrypt random s).nonce ∧ keyVersion = some (Int32.ofInt c.current)
  else valuePlain = some s ∧ valueCipher = none ∧ nonce = none ∧ keyVersion = none

/-- The row holds the text, written by `c`. -/
def Holds (c : Cryptor aead) (isSecret : Bool) (s : String) (v : TenantResourceValue) : Prop :=
  Columns c isSecret s v.valuePlain v.valueCipher v.nonce v.keyVersion

theorem encodeValue_ok {c : Cryptor aead} {isSecret : Bool} {s : String} {ts ts' : List Tick}
    {k k' : Catalog} {p : Queries.UpsertResourceValueParams}
    (h : encodeValue c isSecret s ts k = .ok (p, ts', k')) :
    k' = k ∧ (∃ used, ts = used ++ ts') ∧
      Columns c isSecret s p.valuePlain p.valueCipher p.nonce p.keyVersion := by
  unfold encodeValue at h
  cases isSecret with
  | false =>
    rw [if_pos rfl, Program.Tx.pure_eq_ok] at h
    obtain ⟨rfl, rfl, rfl⟩ : p = _ ∧ ts' = ts ∧ k' = k := by simpa using h
    exact ⟨rfl, ⟨[], rfl⟩, by simp [Columns]⟩
  | true =>
    rw [if_neg (by decide), Program.Tx.bind_eq_ok] at h
    obtain ⟨t, ts₁, k₁, hdraw, h⟩ := h
    obtain ⟨rfl, rfl⟩ := Program.Tx.draw_eq_ok.mp hdraw
    obtain ⟨rfl, rfl, rfl⟩ : p = _ ∧ ts' = ts₁ ∧ k' = k₁ := by
      simpa using Program.Tx.pure_eq_ok.mp h
    exact ⟨rfl, ⟨[t], rfl⟩, by simpa [Columns, Cryptor.encrypt, Cryptor.encryptBytes] using
      ⟨t.random, rfl, rfl⟩⟩

/-- A reader that has the writer's key reads back what was written. -/
theorem decodeValue_holds {c d : Cryptor aead} {isSecret : Bool} {s : String}
    {v : TenantResourceValue} (h : Holds c isSecret s v) (hkeep : c.Keeps d) :
    decodeValue d v = .ok s := by
  cases isSecret with
  | false =>
    obtain ⟨hplain, hcipher, -, -⟩ : _ ∧ _ ∧ _ ∧ _ := by simpa [Holds, Columns] using h
    simp [decodeValue, hcipher, hplain]
  | true =>
    obtain ⟨-, random, hcipher, hnonce, hversion⟩ := by simpa only [Holds, Columns, if_true] using h
    have hdec : d.decrypt (c.encrypt random s) = .ok s := Cryptor.decrypt_encrypt hkeep s
    simp only [decodeValue, hcipher, hnonce, hversion, Option.map_some, Option.getD_some,
      Cryptor.toInt_ofInt_current]
    have heta : (⟨(c.encrypt random s).cipher, (c.encrypt random s).nonce, c.current⟩ : Encrypted) =
      c.encrypt random s := rfl
    rw [heta, hdec]
    rfl

end Tenancit.Service
