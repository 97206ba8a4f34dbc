import Tenancit.Service.Identity
import Tenancit.Service.ResourceFields

/-!
`service/provision.go` and `service/resource_update.go`: the operations on resources that
run inside a transaction of their caller. `now` is the start of that transaction.
-/
namespace Tenancit.Service

open Encoding Crypto Store Queries Text
open Program.Tx (require ofExcept)

variable {Key : Type} {aead : Aead Key}

/-- A `map[string]string`: assigning to a key puts the new entry in front. -/
abbrev StringMap := List (String × String)

namespace StringMap

def get? (m : StringMap) (key : String) : Option String :=
  (Table.lookup Prod.fst key m).map Prod.snd

def set (m : StringMap) (key value : String) : StringMap := (key, value) :: m

theorem get?_set {m : StringMap} {key value k : String} :
    (m.set key value).get? k = if key = k then some value else m.get? k := by
  simp only [get?, set, Table.lookup_cons]
  split <;> rfl

end StringMap

structure ProvisionResourceInput where
  name : String
  resourceAlias : String
  definitionKey : String
  sourceResourceId : Option UUID
  tenantId : UUID
  values : StringMap

/-- The trimmed name and alias. -/
def normalizeResourceIdentity (name resourceAlias : String) :
    Except ServiceError (String × String) :=
  let name := trimSpace name
  let resourceAlias := trimSpace resourceAlias
  if resourceAlias ≠ "" ∧ aliasFormat resourceAlias = false then .error .invalidResourceAlias
  else if name.length > 120 then .error .invalidResourceName
  else .ok (name, resourceAlias)

/-- The source of a linked resource and the fields it has a value for. -/
def provisionSource (in_ : ProvisionResourceInput) (definition : ResourceDefinition) :
    Tx Catalog ServiceError (Option UUID × List UUID) :=
  match in_.sourceResourceId with
  | none => pure (none, [])
  | some id => do
    let source ← (read (getResourceForLink id in_.tenantId)).mapErr fun _ => .invalidResourceSource
    require (source.resourceDefinitionId = definition.id ∧ source.status = .active ∧
      source.sourceResourceId = none) .invalidResourceSource
    let values ← (read (listResourceValues source.id)).mapErr .store
    pure (some source.id, values.map (·.resourceFieldId))

/-- The checks on the values given for the fields of the definition, in their order. -/
def checkProvided (values : StringMap) (providedBySource : List UUID) :
    List ResourceField → Except ServiceError Unit
  | [] => .ok ()
  | f :: fs =>
    let given := values.get? f.key
    if given.any (fun value => !validResourceValue f.dataType value)
      then .error (.invalidFieldValue f.key)
    else if f.required = true ∧ (given = none ∨ given = some "") ∧ f.id ∉ providedBySource then
      .error (.missingRequiredField f.key)
    else checkProvided values providedBySource fs

/-- Store the value given for a field. -/
def storeField (cryptor : Cryptor aead) (resourceId : UUID) (f : ResourceField) (value : String) :
    Tx Catalog ServiceError Unit := do
  let p ← encodeValue cryptor f.isSecret value
  let _ ← (run (upsertResourceValue { p with
    tenantResourceId := resourceId, resourceFieldId := f.id })).mapErr .store
  pure ()

/-- Store the values given for the fields of a new resource. -/
def storeFields (cryptor : Cryptor aead) (values : StringMap) (resourceId : UUID) :
    List ResourceField → Tx Catalog ServiceError Unit
  | [] => pure ()
  | f :: fs => do
    match values.get? f.key with
    | none => pure ()
    | some value => storeField cryptor resourceId f value
    storeFields cryptor values resourceId fs

/-- The alias of a new resource where none is given. -/
def defaultAlias (in_ : ProvisionResourceInput) (definition : ResourceDefinition)
    (resourceAlias : String) : String :=
  if resourceAlias ≠ "" then resourceAlias
  else if in_.definitionKey ≠ "" then in_.definitionKey
  else definition.key

def provisionResource (now : Timestamp) (cryptor : Cryptor aead) (in_ : ProvisionResourceInput) :
    Tx Catalog ServiceError TenantResource := do
  let definition ← (read (getDefinitionByKey in_.definitionKey)).mapErr fun
    | .noRows => .unknownDefinition
    | err => .store err
  require (definition.status = .active) .inactiveDefinition
  let (name, given) ← ofExcept (normalizeResourceIdentity in_.name in_.resourceAlias)
  let resourceAlias := defaultAlias in_ definition given
  require (aliasFormat resourceAlias = true) .invalidResourceAlias
  let fields ← (read (listFields definition.id)).mapErr .store
  let (sourceId, providedBySource) ← provisionSource in_ definition
  ofExcept (checkProvided in_.values providedBySource fields)
  let res ← (run (createTenantResource now ⟨in_.tenantId, definition.id, resourceAlias,
      if name = "" then resourceAlias else name, sourceId⟩)).mapErr fun
    | .uniqueViolation => .resourceAliasExists
    | .foreignKeyViolation => .unknownTenant
    | err => .store err
  storeFields cryptor in_.values res.id fields
  pure res

/-- `ProvisionResourceInTx` -/
def provisionResourceInTx (now : Timestamp) (cryptor : Cryptor aead)
    (in_ : ProvisionResourceInput) : Tx Catalog ServiceError TenantResource :=
  provisionResource now cryptor in_

/-- The non-empty values of a built resource. -/
def snapshotValues (fields : List ResourceFieldValue) : StringMap :=
  fields.foldl (fun m f => if f.value ≠ "" then m.set f.key f.value else m) []

/-- The revealed fields of one resource, as the duplicate reads them. -/
def snapshotFields (cryptor : Cryptor aead) (row : ResourceHeaderRow) (c : Catalog) :
    Except ServiceError (List ResourceFieldValue) :=
  (buildResourceFieldsBatch cryptor [resourceHeaderFromRow row] true c).map fun built =>
    built.flatMap (·.fields)

/-- An independent snapshot of the effective values of a resource: a duplicate has no source. -/
def duplicateResourceInTx (now : Timestamp) (cryptor : Cryptor aead) (tenantId resourceId : UUID)
    (resourceAlias : String) : Tx Catalog ServiceError TenantResource := do
  let row ← (read (getResourceHeader resourceId)).mapErr fun
    | .noRows => .unknownResource
    | err => .store err
  require (row.resource.tenantId = tenantId) .unknownResource
  let fields ← Program.Tx.query (.store .unavailable) (snapshotFields cryptor row)
  provisionResource now cryptor
    ⟨"", resourceAlias, row.definitionKey, none, tenantId, snapshotValues fields⟩

structure UpdateResourceFieldInput where
  fieldKey : String
  resourceId : UUID
  tenantId : UUID
  value : String

def updateResourceFieldInTx (cryptor : Cryptor aead) (in_ : UpdateResourceFieldInput) :
    Tx Catalog ServiceError ResourceField := do
  let resource ← (read (getTenantResource in_.resourceId in_.tenantId)).mapErr fun
    | .noRows => .unknownResource
    | err => .store err
  let fields ← (read (listFields resource.resourceDefinitionId)).mapErr .store
  match Table.lookup ResourceField.key in_.fieldKey fields with
  | none => Program.Tx.fail .unknownResourceField
  | some selected => do
    require (¬(selected.required = true ∧ in_.value = "")) (.missingRequiredField selected.key)
    require (validResourceValue selected.dataType in_.value = true)
      (.invalidFieldValue selected.key)
    storeField cryptor resource.id selected in_.value
    pure selected

/-- The value given in the input is not used. -/
def clearResourceFieldOverrideInTx (in_ : UpdateResourceFieldInput) :
    Tx Catalog ServiceError ResourceField := do
  let resource ← (read (getTenantResource in_.resourceId in_.tenantId)).mapErr fun
    | .noRows => .unknownResource
    | err => .store err
  match resource.sourceResourceId with
  | none => Program.Tx.fail .invalidResourceSource
  | some source => do
    let fields ← (read (listFields resource.resourceDefinitionId)).mapErr .store
    match Table.lookup ResourceField.key in_.fieldKey fields with
    | none => Program.Tx.fail .unknownResourceField
    | some field => do
      if field.required = true then
        let sourceValues ← (read (listResourceValues source)).mapErr .store
        require (∃ v ∈ sourceValues, v.resourceFieldId = field.id) (.missingRequiredField field.key)
      let _ ← (run (deleteResourceValue resource.id field.id)).mapErr .store
      pure field

end Tenancit.Service
