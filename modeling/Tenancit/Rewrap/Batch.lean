import Tenancit.Crypto
import Tenancit.Store.Catalog

/-!
`internal/rewrap/batch.go` and the row check of `preflight.go`: one batch of a campaign
selects encrypted values whose key version is not the target, skipping locked rows, and
encrypts each of them anew, comparing before it writes.
-/
namespace Tenancit.Rewrap

open Encoding Crypto Store
open Program.Tx (draw require ofExcept)

inductive RewrapError where
  | campaignLocked
  | invalidConfig
  | safetyEvidence
  | malformedCiphertext
  | missingKeyVersion
  | authentication
  | verification
  | casConflict
  | noProgress
  | report
  | canceled
  | store (err : PgError)
  deriving DecidableEq

variable {Key : Type} {aead : Aead Key}

/-- The stored form of an encrypted row. -/
def encryptedOf (row : TenantResourceValue) : Encrypted :=
  ⟨row.valueCipher.getD [], row.nonce.getD [], (row.keyVersion.map Int32.toInt).getD 0⟩

def authenticateRow (cryptor : Cryptor aead) (row : TenantResourceValue) :
    Except RewrapError Unit :=
  let e := encryptedOf row
  if row.valuePlain.isSome ∨ row.keyVersion = none ∨ e.keyVersion ≤
    0 then .error .malformedCiphertext
  else match cryptor.nonceSize e.keyVersion with
    | none => .error .missingKeyVersion
    | some nonceSize =>
      if e.nonce.length ≠ nonceSize ∨ e.cipher.length < (cryptor.overhead e.keyVersion).getD 0 then
        .error .malformedCiphertext
      else match cryptor.decryptBytes e with
        | .error _ => .error .authentication
        | .ok _ => .ok ()

/-- The row's plaintext under the current key, checked by opening it again. -/
def rewrapRow (cryptor : Cryptor aead) (random : Nat → UInt8) (row : TenantResourceValue) :
    Except RewrapError Encrypted :=
  match cryptor.decryptBytes (encryptedOf row) with
  | .error _ => .error .authentication
  | .ok plaintext =>
    let rewrapped := cryptor.encryptBytes random plaintext
    match cryptor.decryptBytes rewrapped with
    | .error _ => .error .verification
    | .ok verified => if plaintext = verified then .ok rewrapped else .error .verification

/-- An encrypted row under another version than the target. -/
def Stale (targetVersion : Int) (v : TenantResourceValue) : Prop :=
  v.valueCipher.isSome ∧ v.keyVersion ≠ some (Int32.ofInt targetVersion)

instance (targetVersion : Int) (v : TenantResourceValue) : Decidable (Stale targetVersion v) := by
  unfold Stale
  infer_instance

/-- `ORDER BY id LIMIT … FOR UPDATE SKIP LOCKED` -/
def selectBatch (targetVersion : Int) (batchSize : Nat) (locked : TenantResourceValue → Bool)
    (c : Catalog) : List TenantResourceValue :=
  ((c.values.filter fun v => Stale targetVersion v && !locked v).insertionSort
    fun v w => v.id ≤ w.id).take
    batchSize

/-- Comparison in SQL: nothing equals `NULL`. -/
def sqlEq {α : Type} [DecidableEq α] : Option α → Option α → Bool
  | some a, some b => a = b
  | _, _ => false

/-- The `WHERE` clause of the update: the row is still the one selected. -/
def sameRow (row v : TenantResourceValue) : Bool :=
  v.id = row.id && sqlEq v.keyVersion row.keyVersion && sqlEq v.valueCipher row.valueCipher &&
    sqlEq v.nonce row.nonce

/-- The columns the update sets. -/
def rewrite (targetVersion : Int) (e : Encrypted) (v : TenantResourceValue) : TenantResourceValue :=
  { v with
    valueCipher := some e.cipher, nonce := some e.nonce, keyVersion :=
      some (Int32.ofInt targetVersion) }

def updateRewrapped (targetVersion : Int) (row : TenantResourceValue) (e : Encrypted) (_ : Tick)
    (c : Catalog) : Except PgError (Nat × Catalog) :=
  .ok (c.values.countP (sameRow row),
    { c with values := Table.update (sameRow row) (rewrite targetVersion e) c.values })

/-- One row of a batch. -/
def processRow (cryptor : Cryptor aead) (targetVersion : Int) (row : TenantResourceValue) :
    Tx Catalog RewrapError Unit := do
  ofExcept (authenticateRow cryptor row)
  let t ← draw (.store .unavailable)
  let rewrapped ← ofExcept (rewrapRow cryptor t.random row)
  let affected ← (run (updateRewrapped targetVersion row rewrapped)).mapErr .store
  require (affected = 1) .casConflict

def processRows (cryptor : Cryptor aead) (targetVersion : Int) :
    List TenantResourceValue → Tx Catalog RewrapError Unit
  | [] => pure ()
  | row :: rows => do
    processRow cryptor targetVersion row
    processRows cryptor targetVersion rows

/-- The number of rows processed; `locked` are the rows that other transactions hold. -/
def processBatch (cryptor : Cryptor aead) (targetVersion : Int) (batchSize : Nat)
    (locked : TenantResourceValue → Bool) : Tx Catalog RewrapError Nat := do
  let batch ← (read fun c => .ok (selectBatch targetVersion batchSize locked c)).mapErr .store
  processRows cryptor targetVersion batch
  pure batch.length

/-- `remaining`: the encrypted rows that are not under the target version. -/
def remaining (targetVersion : Int) (c : Catalog) : Nat :=
  c.values.countP fun v => Stale targetVersion v

section spec

variable {cryptor : Cryptor aead} {random : Nat → UInt8} {row v : TenantResourceValue}
  {e : Encrypted} {targetVersion : Int}

theorem sqlEq_iff {α : Type} [DecidableEq α] {a b : Option α} :
    sqlEq a b = true ↔ a = b ∧ a.isSome := by
  cases a <;> cases b <;> simp [sqlEq]

theorem sameRow_iff : sameRow row v = true ↔ v.id = row.id ∧ encryptedOf v = encryptedOf row ∧
    v.keyVersion = row.keyVersion ∧ v.valueCipher = row.valueCipher ∧ v.nonce = row.nonce ∧
    row.keyVersion.isSome ∧ row.valueCipher.isSome ∧ row.nonce.isSome := by
  simp only [sameRow, Bool.and_eq_true, decide_eq_true_eq, sqlEq_iff]
  constructor
  · rintro ⟨⟨⟨hid, hversion, hv⟩, hcipher, hc⟩, hnonce, hn⟩
    exact ⟨hid, by simp [encryptedOf, hversion, hcipher, hnonce], hversion, hcipher,
      hnonce, hversion ▸ hv,
      hcipher ▸ hc, hnonce ▸ hn⟩
  · rintro ⟨hid, -, hversion, hcipher, hnonce, hv, hc, hn⟩
    exact ⟨⟨⟨hid, hversion, hversion ▸ hv⟩, hcipher, hcipher ▸ hc⟩, hnonce, hnonce ▸ hn⟩

theorem rewrapRow_congr (h : encryptedOf v = encryptedOf row) :
    rewrapRow cryptor random row = rewrapRow cryptor random v := by
  simp only [rewrapRow, h]

/-- A row rewrapped was opened, and is what the current key makes of its plaintext. -/
theorem rewrapRow_ok (h : rewrapRow cryptor random row = .ok e) :
    ∃ plaintext, cryptor.decryptBytes (encryptedOf row) = .ok plaintext ∧
      e = cryptor.encryptBytes random plaintext := by
  unfold rewrapRow at h
  split at h
  · cases h
  next plaintext hp =>
    refine ⟨plaintext, hp, ?_⟩
    simp only [Cryptor.decryptBytes_encryptBytes cryptor.keeps_refl, if_true] at h
    exact (Except.ok.inj h).symm

theorem processRow_ok {ts ts' : List Tick} {c c' : Catalog}
    (h : processRow cryptor targetVersion row ts c = .ok ((), ts', c')) :
    ∃ random e used, rewrapRow cryptor random row = .ok e ∧ authenticateRow cryptor row = .ok () ∧
      c.values.countP (sameRow row) = 1 ∧ ts = used ++ ts' ∧
      c' = { c with values := Table.update (sameRow row) (rewrite targetVersion e) c.values } := by
  obtain ⟨_, hauth, h₁⟩ := Program.Tx.ofExcept_bind_eq_ok.mp h
  obtain ⟨t, ts₁, rfl, h₂⟩ := Program.Tx.draw_bind_eq_ok.mp h₁
  obtain ⟨e, he, h₃⟩ := Program.Tx.ofExcept_bind_eq_ok.mp h₂
  obtain ⟨t', ts₂, n, c₁, rfl, hupdate, h₄⟩ := Program.Tx.statement_bind_eq_ok.mp h₃
  cases hupdate
  obtain ⟨hone, heq⟩ := Program.Tx.require_eq_ok.mp h₄
  cases heq
  exact ⟨t.random, e, [t, t'], he, hauth, hone, rfl, rfl⟩

theorem remaining_eq_zero {c : Catalog} :
    remaining targetVersion c = 0 ↔ ∀ v ∈ c.values, ¬Stale targetVersion v := by
  simp [remaining, List.countP_eq_zero]

end spec

end Tenancit.Rewrap
