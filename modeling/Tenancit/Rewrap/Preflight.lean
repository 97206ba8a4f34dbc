import Tenancit.Rewrap.Batch

/-!
`internal/rewrap/types.go` and `preflight.go`: the configuration of a campaign, its summary,
and the checks it makes on a snapshot of the encrypted rows before it writes.
-/
namespace Tenancit.Rewrap

open Encoding Crypto Store

structure Config where
  targetVersion : Int
  batchSize : Int
  dryRun : Bool
  confirmedWrite : Bool
  maxDuration : Duration
  noProgressTimeout : Duration
  pollInterval : Duration
  /-- Nothing where the text given does not parse; a missing one has been made up. -/
  jobID : Option UUID

structure InventoryItem where
  keyVersion : Option Int32
  rows : Nat

structure Summary where
  jobID : UUID
  targetVersion : Int
  dryRun : Bool
  scanned : Nat := 0
  rewrapped : Nat := 0
  batches : Nat := 0
  lockedRetries : Nat := 0
  remaining : Nat := 0
  inventory : List InventoryItem := []
  startedAt : Timestamp
  completedAt : Option Timestamp := none

variable {Key : Type} {aead : Aead Key}

/-- The configuration a campaign runs with, its defaults filled in, and its job. -/
def checkConfig (cryptor : Cryptor aead) (config : Config) : Except RewrapError (Config × UUID) :=
  match config.jobID with
  | none => .error .invalidConfig
  | some jobID =>
    if config.targetVersion ≤ 0 ∨ config.targetVersion ≠ cryptor.current ∨ config.batchSize < 1 ∨
        1000 < config.batchSize ∨ config.maxDuration ≤ 0 ∨
        (config.dryRun && config.confirmedWrite) then
      .error .invalidConfig
    else if !config.dryRun && !config.confirmedWrite then .error .invalidConfig
    else .ok ({ config with
      noProgressTimeout :=
        if config.noProgressTimeout ≤ 0 then Timestamp.seconds 30 else config.noProgressTimeout
      pollInterval := if config.pollInterval ≤ 0 then 250000 else config.pollInterval }, jobID)

/-- `WHERE value_cipher IS NOT NULL … ORDER BY id` -/
def encryptedRows (c : Catalog) : List TenantResourceValue :=
  (c.values.filter fun v => v.valueCipher.isSome).insertionSort fun v w => v.id ≤ w.id

/-- `ORDER BY key_version NULLS FIRST` -/
def nullsFirst : Option Int32 → Option Int32 → Prop
  | none, _ => True
  | some _, none => False
  | some v, some w => v ≤ w

instance : DecidableRel nullsFirst
  | none, _ => .isTrue trivial
  | some _, none => .isFalse id
  | some v, some w => inferInstanceAs (Decidable (v ≤ w))

/-- The encrypted rows counted by key version. -/
def inventory (c : Catalog) : List InventoryItem :=
  let versions := (encryptedRows c).map (·.keyVersion)
  (versions.dedup.insertionSort nullsFirst).map fun v => ⟨v, versions.count v⟩

/-- The checks on the inventory, in its order. -/
def checkInventory (cryptor : Cryptor aead) (targetVersion : Int) :
    List InventoryItem → Option RewrapError
  | [] => none
  | item :: items =>
    match item.keyVersion with
    | none => some .malformedCiphertext
    | some v =>
      if v.toInt ≤ 0 then some .malformedCiphertext
      else if targetVersion < v.toInt then some .invalidConfig
      else if cryptor.hasVersion v.toInt = false then some .missingKeyVersion
      else checkInventory cryptor targetVersion items

/-- The rows authenticated, page by page in the order of their identifiers, up to the first
that fails. -/
def authenticateAll (cryptor : Cryptor aead) : List TenantResourceValue → Nat × Option RewrapError
  | [] => (0, none)
  | row :: rows => match authenticateRow cryptor row with
    | .error e => (0, some e)
    | .ok _ =>
      let (scanned, err) := authenticateAll cryptor rows
      (scanned + 1, err)

/-- What the preflight adds to the summary, and why it failed; it reads one snapshot. -/
def preflight (cryptor : Cryptor aead) (targetVersion : Int) (summary : Summary) (c : Catalog) :
    Summary × Option RewrapError :=
  let summary := { summary with inventory := inventory c }
  match checkInventory cryptor targetVersion summary.inventory with
  | some e => (summary, some e)
  | none =>
    let (scanned, err) := authenticateAll cryptor (encryptedRows c)
    ({ summary with scanned := scanned }, err)

end Tenancit.Rewrap
