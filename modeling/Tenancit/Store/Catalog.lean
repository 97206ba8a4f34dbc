import Mathlib.Data.List.Sort
import Tenancit.Lib.Table
import Tenancit.Store.Schema

/-!
The statements of `store/queries/{tenants,definitions,resources}.sql` on tenants,
definitions and resources. `now` is the start of the transaction, `t.clock` the start of
the statement; identifiers come from `gen_random_uuid()`. A statement reports the
constraint it breaks and then changes nothing.
-/
namespace Tenancit.Store.Queries

open Encoding Table Text

/-- A `:one` query. -/
def one {α : Type} : Option α → Except PgError α
  | some a => .ok a
  | none => .error .noRows

section tenants

def createTenant (now : Timestamp) (slug name : String) (t : Tick) (c : Catalog) :
    Except PgError (Tenant × Catalog) :=
  let row : Tenant := ⟨t.ids 0, slug, name, .active, now, now⟩
  if ∃ x ∈ c.tenants, x.id = row.id ∨ x.slug = slug then .error .uniqueViolation
  else .ok (row, { c with tenants := c.tenants ++ [row] })

def getTenant (id : UUID) (c : Catalog) : Except PgError Tenant :=
  one (lookup Tenant.id id c.tenants)

def getTenantBySlug (slug : String) (c : Catalog) : Except PgError Tenant :=
  one (lookup Tenant.slug slug c.tenants)

def getTenantByHostname (hostname : String) (c : Catalog) : Except PgError Tenant :=
  one ((lookup TenantDomain.hostname hostname c.domains).bind fun d =>
    lookup Tenant.id d.tenantId c.tenants)

def updateTenant (now : Timestamp) (id : UUID) (name slug : String) (status : Status) (_ : Tick)
    (c : Catalog) : Except PgError (Tenant × Catalog) :=
  match lookup Tenant.id id c.tenants with
  | none => .error .noRows
  | some row =>
    let set : Tenant → Tenant := fun x =>
      { x with name := name, slug := slug, status := status, updatedAt := now }
    if ∃ x ∈ c.tenants, x.id ≠ id ∧ x.slug = slug then .error .uniqueViolation
    else .ok (set row, { c with tenants := update (fun x => x.id = id) set c.tenants })

/-- The resource is one of those that `p` selects. -/
def Gone (p : TenantResource → Bool) (c : Catalog) (id : UUID) : Prop :=
  ∃ r ∈ c.resources, p r = true ∧ r.id = id

instance (p : TenantResource → Bool) (c : Catalog) (id : UUID) : Decidable (Gone p c id) :=
  inferInstanceAs (Decidable (∃ r ∈ c.resources, p r = true ∧ r.id = id))

/-- Delete resources and, by cascade, their values. A resource that stays may not be
linked to one that goes. -/
def removeResources (p : TenantResource → Bool) (c : Catalog) : Except PgError Catalog :=
  if ∃ r ∈ c.resources, p r = false ∧ ∃ s, r.sourceResourceId = some s ∧ Gone p c s then
    .error .foreignKeyViolation
  else .ok { c with
    resources := delete p c.resources
    values := delete (fun v => Gone p c v.tenantResourceId) c.values }

/-- The rows deleted are counted; domains and resources go with their tenant. -/
def deleteTenant (id : UUID) (_ : Tick) (c : Catalog) : Except PgError (Nat × Catalog) :=
  match lookup Tenant.id id c.tenants with
  | none => .ok (0, c)
  | some _ => (removeResources (fun r => r.tenantId = id) c).map fun c' => (1, { c' with
      tenants := delete (fun x => x.id = id) c.tenants
      domains := delete (fun d => d.tenantId = id) c.domains })

/-- The check constraint `tenant_domains_hostname_canonical`. -/
def hostnameCanonical (hostname : String) : Bool :=
  hostname != "" &&
    hostname.toList = ((btrim hostname).toList.reverse.dropWhile (· = '.')).reverse.map lowerChar &&
    octetLength hostname = hostname.length

def addTenantDomain (now : Timestamp) (tenantId : UUID) (hostname : String)
    (t : Tick) (c : Catalog) : Except PgError (TenantDomain × Catalog) :=
  let row : TenantDomain := ⟨t.ids 0, tenantId, hostname, now⟩
  if !hostnameCanonical hostname then .error .checkViolation
  else if ∃ d ∈ c.domains, d.id = row.id ∨ d.hostname = hostname then .error .uniqueViolation
  else if ¬∃ x ∈ c.tenants, x.id = tenantId then .error .foreignKeyViolation
  else .ok (row, { c with domains := c.domains ++ [row] })

def getTenantDomain (id tenantId : UUID) (c : Catalog) : Except PgError TenantDomain :=
  one (c.domains.find? fun d => d.id = id && d.tenantId = tenantId)

def updateTenantDomain (id tenantId : UUID) (hostname : String) (_ : Tick) (c : Catalog) :
    Except PgError (TenantDomain × Catalog) :=
  match c.domains.find? fun d => d.id = id && d.tenantId = tenantId with
  | none => .error .noRows
  | some row =>
    if !hostnameCanonical hostname then .error .checkViolation
    else if ∃ d ∈ c.domains, d.id ≠ id ∧ d.hostname = hostname then .error .uniqueViolation
    else .ok ({ row with hostname := hostname }, { c with
      domains := update (fun d => d.id = id && d.tenantId = tenantId)
        (fun d => { d with hostname := hostname }) c.domains })

def removeTenantDomain (id tenantId : UUID) (_ : Tick) (c : Catalog) :
    Except PgError (Nat × Catalog) :=
  .ok (c.domains.countP fun d => d.id = id && d.tenantId = tenantId,
    { c with domains := delete (fun d => d.id = id && d.tenantId = tenantId) c.domains })

/-- `CountTenantChildren`: the domains and the resources of a tenant. -/
def countTenantChildren (id : UUID) (c : Catalog) : Except PgError (Nat × Nat) :=
  .ok (c.domains.countP fun d => d.tenantId = id, c.resources.countP fun r => r.tenantId = id)

end tenants

section definitions

def createDefinition (now : Timestamp) (key name description icon : String)
    (t : Tick) (c : Catalog) : Except PgError (ResourceDefinition × Catalog) :=
  let row : ResourceDefinition := ⟨t.ids 0, key, name, description, icon, .active, now, now⟩
  if ∃ d ∈ c.definitions, d.id = row.id ∨ d.key = key then .error .uniqueViolation
  else .ok (row, { c with definitions := c.definitions ++ [row] })

def getDefinition (id : UUID) (c : Catalog) : Except PgError ResourceDefinition :=
  one (lookup ResourceDefinition.id id c.definitions)

def getDefinitionByKey (key : String) (c : Catalog) : Except PgError ResourceDefinition :=
  one (lookup ResourceDefinition.key key c.definitions)

def changeDefinition (id : UUID) (set : ResourceDefinition → ResourceDefinition) (c : Catalog) :
    Except PgError (ResourceDefinition × Catalog) :=
  match lookup ResourceDefinition.id id c.definitions with
  | none => .error .noRows
  | some row =>
    .ok (set row, { c with definitions := update (fun d => d.id = id) set c.definitions })

def setDefinitionStatus (now : Timestamp) (id : UUID) (status : Status) (_ : Tick) (c : Catalog) :
    Except PgError (ResourceDefinition × Catalog) :=
  changeDefinition id (fun d => { d with status := status, updatedAt := now }) c

def updateDefinition (now : Timestamp) (id : UUID) (name description : String) (_ : Tick)
    (c : Catalog) : Except PgError (ResourceDefinition × Catalog) :=
  changeDefinition id (fun d => { d with
    name := name, description := description, updatedAt := now }) c

/-- The fields go with their definition; a resource that has the definition, or a value
of one of its fields, keeps it. -/
def deleteDefinition (id : UUID) (_ : Tick) (c : Catalog) : Except PgError (Nat × Catalog) :=
  match lookup ResourceDefinition.id id c.definitions with
  | none => .ok (0, c)
  | some _ =>
    if ∃ r ∈ c.resources, r.resourceDefinitionId = id then .error .foreignKeyViolation
    else if ∃ v ∈ c.values, ∃ f ∈ c.fields, f.resourceDefinitionId = id ∧ f.id =
      v.resourceFieldId then
      .error .foreignKeyViolation
    else .ok (1, { c with
      definitions := delete (fun d => d.id = id) c.definitions
      fields := delete (fun f => f.resourceDefinitionId = id) c.fields })

/-- The `touched` part of the statements on fields. -/
def touchDefinition (id : UUID) (at_ : Timestamp) (c : Catalog) : Catalog :=
  { c with
    definitions :=
      update (fun d => d.id = id) (fun d => { d with updatedAt := at_ }) c.definitions }

structure AddFieldParams where
  resourceDefinitionId : UUID
  key : String
  label : String
  hint : String
  dataType : String
  required : Bool
  isSecret : Bool
  sortOrder : Int32

def addField (arg : AddFieldParams) (t : Tick) (c : Catalog) :
    Except PgError (ResourceField × Catalog) :=
  let row : ResourceField := ⟨t.ids 0, arg.resourceDefinitionId, arg.key, arg.label, arg.hint,
    arg.dataType, arg.required, arg.isSecret, arg.sortOrder⟩
  if ∃ f ∈ c.fields, f.id = row.id ∨
      f.resourceDefinitionId = row.resourceDefinitionId ∧ f.key = row.key then
    .error .uniqueViolation
  else if ¬∃ d ∈ c.definitions, d.id = row.resourceDefinitionId then .error .foreignKeyViolation
  else .ok (row, touchDefinition row.resourceDefinitionId t.clock { c with
    fields := c.fields ++ [row] })

def findField (c : Catalog) (fieldId definitionId : UUID) : Option ResourceField :=
  c.fields.find? fun f => f.id = fieldId && f.resourceDefinitionId = definitionId

def getResourceField (fieldId definitionId : UUID) (c : Catalog) : Except PgError ResourceField :=
  one (findField c fieldId definitionId)

def updateField (fieldId definitionId : UUID) (label : String) (required : Bool) (t : Tick)
    (c : Catalog) : Except PgError (ResourceField × Catalog) :=
  match findField c fieldId definitionId with
  | none => .error .noRows
  | some row =>
    let set : ResourceField → ResourceField :=
      fun f => { f with label := label, required := required }
    .ok (set row, touchDefinition definitionId t.clock { c with
      fields :=
        update (fun f => f.id = fieldId && f.resourceDefinitionId = definitionId) set c.fields })

def removeField (fieldId definitionId : UUID) (t : Tick) (c : Catalog) :
    Except PgError (Nat × Catalog) :=
  match findField c fieldId definitionId with
  | none => .ok (0, c)
  | some row =>
    if ∃ v ∈ c.values, v.resourceFieldId = row.id then .error .foreignKeyViolation
    else .ok (1, touchDefinition definitionId t.clock { c with
      fields :=
        delete (fun f => f.id = fieldId && f.resourceDefinitionId = definitionId) c.fields })

/-- `ORDER BY sort_order, key` -/
def fieldOrder (f g : ResourceField) : Prop :=
  f.sortOrder < g.sortOrder ∨ f.sortOrder = g.sortOrder ∧ f.key ≤ g.key

instance : DecidableRel fieldOrder := fun f g => by
  unfold fieldOrder
  infer_instance

def fieldsOf (c : Catalog) (definitionId : UUID) : List ResourceField :=
  (c.fields.filter fun f => f.resourceDefinitionId = definitionId).insertionSort fieldOrder

def listFields (definitionId : UUID) (c : Catalog) : Except PgError (List ResourceField) :=
  .ok (fieldsOf c definitionId)

end definitions

section resources

/-- The alias format of `tenant_resource_alias_format`: `^[a-z0-9][a-z0-9._-]{0,62}$`. -/
def aliasFormat (s : String) : Bool :=
  match s.toList with
  | [] => false
  | c :: cs => (isLower c || isDigit c) && cs.length ≤ 62 &&
      cs.all fun c => isLower c || isDigit c || c = '.' || c = '_' || c = '-'

/-- The checks on the alias and the display name of a resource. -/
def ResourceNamesOk (resourceAlias displayName : String) : Prop :=
  btrim resourceAlias ≠ "" ∧ aliasFormat resourceAlias = true ∧ btrim displayName ≠ "" ∧
    displayName.length ≤ 120

instance (resourceAlias displayName : String) :
    Decidable (ResourceNamesOk resourceAlias displayName) := by
  unfold ResourceNamesOk
  infer_instance

def aliasKey (resourceAlias : String) : String := toLower (btrim resourceAlias)

/-- The trigger `validate_tenant_resource_source`. -/
def SourceValid (c : Catalog) (tenantId definitionId : UUID) : Option UUID → Prop
  | none => True
  | some id => ∃ source ∈ lookup TenantResource.id id c.resources, source.tenantId = tenantId ∧
      source.resourceDefinitionId = definitionId ∧ source.sourceResourceId = none

instance (c : Catalog) (tenantId definitionId : UUID) : (source : Option UUID) →
    Decidable (SourceValid c tenantId definitionId source)
  | none => .isTrue trivial
  | some id => match h : lookup TenantResource.id id c.resources with
    | none => .isFalse (by simp [SourceValid, h])
    | some source => decidable_of_iff (source.tenantId = tenantId ∧
        source.resourceDefinitionId = definitionId ∧ source.sourceResourceId = none)
        (by simp [SourceValid, h])

structure CreateTenantResourceParams where
  tenantId : UUID
  resourceDefinitionId : UUID
  resourceAlias : String
  displayName : String
  sourceResourceId : Option UUID

def createTenantResource (now : Timestamp) (arg : CreateTenantResourceParams) (t : Tick)
    (c : Catalog) : Except PgError (TenantResource × Catalog) :=
  let row : TenantResource := ⟨t.ids 0, arg.tenantId, arg.resourceDefinitionId, .active, now, now,
    arg.resourceAlias, arg.sourceResourceId, arg.displayName⟩
  if ¬SourceValid c row.tenantId row.resourceDefinitionId row.sourceResourceId
    then .error .checkViolation
  else if ¬ResourceNamesOk row.resourceAlias row.displayName ∨
    row.sourceResourceId = some row.id then
    .error .checkViolation
  else if ∃ r ∈ c.resources, r.id = row.id ∨
      r.tenantId = row.tenantId ∧ aliasKey r.resourceAlias = aliasKey row.resourceAlias then
    .error .uniqueViolation
  else if (¬∃ x ∈ c.tenants, x.id = row.tenantId) ∨
      ¬∃ d ∈ c.definitions, d.id = row.resourceDefinitionId then
    .error .foreignKeyViolation
  else .ok (row, { c with resources := c.resources ++ [row] })

def findResource (c : Catalog) (id tenantId : UUID) : Option TenantResource :=
  c.resources.find? fun r => r.id = id && r.tenantId = tenantId

def getTenantResource (id tenantId : UUID) (c : Catalog) : Except PgError TenantResource :=
  one (findResource c id tenantId)

/-- The query is that of `GetTenantResource` without the row lock. -/
def getResourceForLink (id tenantId : UUID) (c : Catalog) : Except PgError TenantResource :=
  one (findResource c id tenantId)

def changeResource (id tenantId : UUID) (set : TenantResource → TenantResource) (c : Catalog) :
    Catalog :=
  { c with resources := update (fun r => r.id = id && r.tenantId = tenantId) set c.resources }

def updateTenantResourceIdentity (now : Timestamp) (id tenantId : UUID)
    (resourceAlias displayName : String) (_ : Tick) (c : Catalog) :
    Except PgError (TenantResource × Catalog) :=
  match findResource c id tenantId with
  | none => .error .noRows
  | some row =>
    let set : TenantResource → TenantResource := fun r =>
      { r with resourceAlias := resourceAlias, displayName := displayName, updatedAt := now }
    if ¬ResourceNamesOk resourceAlias displayName then .error .checkViolation
    else if ∃ r ∈ c.resources, r.id ≠ id ∧ r.tenantId = tenantId ∧
        aliasKey r.resourceAlias = aliasKey resourceAlias then
      .error .uniqueViolation
    else .ok (set row, changeResource id tenantId set c)

def setTenantResourceStatus (now : Timestamp) (id tenantId : UUID) (status : Status) (_ : Tick)
    (c : Catalog) : Except PgError (TenantResource × Catalog) :=
  match findResource c id tenantId with
  | none => .error .noRows
  | some row =>
    let set : TenantResource → TenantResource :=
      fun r => { r with status := status, updatedAt := now }
    .ok (set row, changeResource id tenantId set c)

def deleteTenantResource (id tenantId : UUID) (_ : Tick) (c : Catalog) :
    Except PgError (Nat × Catalog) :=
  match findResource c id tenantId with
  | none => .ok (0, c)
  | some _ =>
    (removeResources (fun r => r.id = id && r.tenantId = tenantId) c).map fun c' => (1, c')

def getActiveResourceByTenantAndAlias (tenantId : UUID) (resourceAlias : String) (c : Catalog) :
    Except PgError TenantResource :=
  one (c.resources.find? fun r => r.tenantId = tenantId &&
    aliasKey r.resourceAlias = aliasKey resourceAlias && r.status = .active)

/-- A row of `GetResourceHeader` and `ListResourceHeadersByTenant`. -/
structure ResourceHeaderRow where
  resource : TenantResource
  definitionKey : String
  definitionName : String
  definitionUpdatedAt : Timestamp
  sourceAlias : Option String
  sourceUpdatedAt : Option Timestamp

def headerRow (c : Catalog) (r : TenantResource) : Option ResourceHeaderRow :=
  (lookup ResourceDefinition.id r.resourceDefinitionId c.definitions).map fun d =>
    let source := r.sourceResourceId.bind fun id => lookup TenantResource.id id c.resources
    ⟨r, d.key, d.name, d.updatedAt, source.map (·.resourceAlias), source.map (·.updatedAt)⟩

/-- `ORDER BY tr.created_at, tr.id` -/
def resourceOrder (r s : TenantResource) : Prop :=
  r.createdAt < s.createdAt ∨ r.createdAt = s.createdAt ∧ r.id ≤ s.id

instance : DecidableRel resourceOrder := fun r s => by
  unfold resourceOrder
  infer_instance

def resourcesOf (c : Catalog) (tenantId : UUID) (includeInactive : Bool) : List TenantResource :=
  (c.resources.filter fun r => r.tenantId = tenantId &&
    (includeInactive || r.status = .active)).insertionSort
    resourceOrder

def listResourceHeadersByTenant (tenantId : UUID) (includeInactive : Bool) (c : Catalog) :
    Except PgError (List ResourceHeaderRow) :=
  .ok ((resourcesOf c tenantId includeInactive).filterMap (headerRow c))

def getResourceHeader (id : UUID) (c : Catalog) : Except PgError ResourceHeaderRow :=
  one ((lookup TenantResource.id id c.resources).bind (headerRow c))

end resources

section values

def valueKey (v : TenantResourceValue) : UUID × UUID := (v.tenantResourceId, v.resourceFieldId)

def findValue (c : Catalog) (resourceId fieldId : UUID) : Option TenantResourceValue :=
  lookup valueKey (resourceId, fieldId) c.values

def deleteResourceValue (resourceId fieldId : UUID) (_ : Tick) (c : Catalog) :
    Except PgError (Nat × Catalog) :=
  .ok (c.values.countP fun v => valueKey v = (resourceId, fieldId),
    { c with values := delete (fun v => valueKey v = (resourceId, fieldId)) c.values })

structure UpsertResourceValueParams where
  tenantResourceId : UUID
  resourceFieldId : UUID
  valuePlain : Option String
  valueCipher : Option Bytes
  nonce : Option Bytes
  keyVersion : Option Int32

/-- The `touched` part of `UpsertResourceValue`. -/
def touchResource (id : UUID) (at_ : Timestamp) (c : Catalog) : Catalog :=
  { c with
    resources := update (fun r => r.id = id) (fun r => { r with updatedAt := at_ }) c.resources }

def putValue (arg : UpsertResourceValueParams) (v : TenantResourceValue) : TenantResourceValue :=
  { v with valuePlain := arg.valuePlain, valueCipher := arg.valueCipher, nonce := arg.nonce
           keyVersion := arg.keyVersion }

def upsertResourceValue (arg : UpsertResourceValueParams) (t : Tick) (c : Catalog) :
    Except PgError (TenantResourceValue × Catalog) :=
  let key := (arg.tenantResourceId, arg.resourceFieldId)
  if (¬∃ r ∈ c.resources, r.id = arg.tenantResourceId) ∨ ¬∃ f ∈ c.fields,
    f.id = arg.resourceFieldId then
    .error .foreignKeyViolation
  else match lookup valueKey key c.values with
    | some v => .ok (putValue arg v, touchResource arg.tenantResourceId t.clock { c with
        values := update (fun v => valueKey v = key) (putValue arg) c.values })
    | none =>
      let row :=
        putValue arg ⟨t.ids 0, arg.tenantResourceId, arg.resourceFieldId, none, none, none, none⟩
      if ∃ v ∈ c.values, v.id = row.id then .error .uniqueViolation
      else .ok (row, touchResource arg.tenantResourceId t.clock { c with
        values := c.values ++ [row] })

def valuesOf (c : Catalog) (resourceId : UUID) : List TenantResourceValue :=
  c.values.filter fun v => v.tenantResourceId = resourceId

def listResourceValues (resourceId : UUID) (c : Catalog) :
    Except PgError (List TenantResourceValue) :=
  .ok (valuesOf c resourceId)

/-- A row of `ListResourceFieldValuesByResourceIDs`. -/
structure FieldValueRow where
  tenantResourceId : UUID
  resourceFieldId : UUID
  fieldKey : String
  fieldLabel : String
  dataType : String
  required : Bool
  isSecret : Bool
  hasValue : Bool
  isOverride : Bool
  valuePlain : Option String
  valueCipher : Option Bytes
  nonce : Option Bytes
  keyVersion : Option Int32

/-- Each value column is coalesced on its own. -/
def fieldValueRow (c : Catalog) (r : TenantResource) (f : ResourceField) : FieldValueRow :=
  let localValue := findValue c r.id f.id
  let sourceValue := r.sourceResourceId.bind fun source => findValue c source f.id
  { tenantResourceId := r.id
    resourceFieldId := f.id
    fieldKey := f.key
    fieldLabel := f.label
    dataType := f.dataType
    required := f.required
    isSecret := f.isSecret
    hasValue := localValue.isSome || sourceValue.isSome
    isOverride := localValue.isSome
    valuePlain := (localValue.bind (·.valuePlain)).or (sourceValue.bind (·.valuePlain))
    valueCipher := (localValue.bind (·.valueCipher)).or (sourceValue.bind (·.valueCipher))
    nonce := (localValue.bind (·.nonce)).or (sourceValue.bind (·.nonce))
    keyVersion := (localValue.bind (·.keyVersion)).or (sourceValue.bind (·.keyVersion)) }

/-- `ORDER BY tr.id, rf.sort_order, rf.key` -/
def listResourceFieldValuesByResourceIDs (ids : List UUID) (c : Catalog) :
    Except PgError (List FieldValueRow) :=
  .ok (((c.resources.filter fun r => r.id ∈ ids).insertionSort fun r s =>
    r.id ≤ s.id).flatMap fun r =>
    (fieldsOf c r.resourceDefinitionId).map (fieldValueRow c r))

end values

end Tenancit.Store.Queries
