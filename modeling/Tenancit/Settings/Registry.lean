import Mathlib.Data.List.Sort
import Tenancit.Lib.Table
import Tenancit.Lib.Text

/-!
`settings/registry.go`: the settings there are, their defaults, and the validation of an
update against the values in force.
-/
namespace Tenancit.Settings

open Table Text

inductive ValueType where
  | integer
  | enum
  deriving DecidableEq

def sessionAbsoluteHours : String := "session_absolute_hours"
def sessionIdleMinutes : String := "session_idle_minutes"
def apiClientDefaultRPM : String := "api_client_default_rpm"
def apiClientDefaultTTLDays : String := "api_client_default_ttl_days"
def usageRetentionMonths : String := "usage_retention_months"
def auditRetentionDays : String := "audit_retention_days"
def defaultLocale : String := "default_locale"
def webhookDeliveryRetentionDays : String := "webhook_delivery_retention_days"
def outboxEventRetentionDays : String := "outbox_event_retention_days"

structure Definition where
  key : String
  type : ValueType
  defaultValue : String
  owner : String
  minimum : Option Int
  maximum : Option Int
  options : List String
  deriving DecidableEq

def integerDefinition (key defaultValue owner : String) (minimum maximum : Int) : Definition :=
  ⟨key, .integer, defaultValue, owner, some minimum, some maximum, []⟩

def registry : List Definition :=
  [integerDefinition sessionAbsoluteHours "8" "security" 1 24,
   integerDefinition sessionIdleMinutes "30" "security" 5 120,
   integerDefinition apiClientDefaultRPM "300" "platform" 1 10000,
   integerDefinition apiClientDefaultTTLDays "90" "platform" 1 365,
   integerDefinition usageRetentionMonths "6" "operations" 1 24,
   integerDefinition webhookDeliveryRetentionDays "30" "operations" 7 365,
   integerDefinition outboxEventRetentionDays "90" "operations" 30 730,
   integerDefinition auditRetentionDays "180" "security" 30 730,
   ⟨defaultLocale, .enum, "pt-BR", "product", none, none, ["pt-BR", "en-US", "es-ES"]⟩]

/-- `Definitions`: the registry in the order of its keys. -/
def definitions : List Definition := registry.insertionSort fun a b => a.key ≤ b.key

def define (key : String) : Option Definition := lookup Definition.key key registry

/-- A map of settings. -/
abbrev Values := String → Option String

/-- `Defaults` -/
def defaults : Values := fun key => (define key).map Definition.defaultValue

/-- A map of an update, its keys in the order they are gone through. -/
structure Updates where
  entries : List (String × String)
  distinct : Keyed Prod.fst entries

inductive SettingsError where
  | noSetting
  | unknownSetting (key : String)
  | outOfRange (key : String)
  | unsupportedValue (key : String)
  | idleExceedsAbsolute
  | eventsShorterThanDeliveries
  deriving DecidableEq

def SettingsError.text : SettingsError → String
  | noSetting => "at least one setting is required"
  | unknownSetting key => "unknown setting \"" ++ key ++ "\""
  | outOfRange key => "setting \"" ++ key ++ "\" is outside its allowed range"
  | unsupportedValue key => "setting \"" ++ key ++ "\" contains an unsupported value"
  | idleExceedsAbsolute => "session idle duration cannot exceed absolute duration"
  | eventsShorterThanDeliveries =>
    "outbox event retention cannot be shorter than delivery retention"

/-- One entry of an update, checked against its definition and normalized. -/
def validateEntry (entry : String × String) : Except SettingsError (String × String) :=
  match define entry.1 with
  | none => .error (.unknownSetting entry.1)
  | some definition =>
    let value := trimSpace entry.2
    match definition.type with
    | .integer => match atoi value with
      | none => .error (.outOfRange entry.1)
      | some number =>
        if number < definition.minimum.getD 0 ∨ definition.maximum.getD 0 < number
          then .error (.outOfRange entry.1)
        else .ok (entry.1, toString number)
    | .enum =>
      if value ∈ definition.options then .ok (entry.1, value)
        else .error (.unsupportedValue entry.1)

/-- The values in force: the defaults, overlaid with the stored values of settings there are. -/
def merged (current : Values) : Values := fun key =>
  (define key).map fun definition => (current key).getD definition.defaultValue

/-- Values with the entries of an update. -/
def withEntries (entries : List (String × String)) (values : Values) : Values := fun key =>
  ((lookup Prod.fst key entries).map Prod.snd).or (values key)

/-- The number of a setting, where it is one. -/
def number (values : Values) (key : String) : Int := atoiValue ((values key).getD "")

def validate (updates : Updates) (current : Values) :
    Except SettingsError (List (String × String)) := do
  if updates.entries = [] then throw .noSetting
  let normalized ← updates.entries.mapM validateEntry
  let values := withEntries normalized (merged current)
  if number values sessionAbsoluteHours * 60 < number values sessionIdleMinutes
    then throw .idleExceedsAbsolute
  if number values outboxEventRetentionDays < number values webhookDeliveryRetentionDays then
    throw .eventsShorterThanDeliveries
  pure normalized

/-- A value that the definition of its key allows. -/
def Definition.Allows (d : Definition) (value : String) : Prop :=
  match d.type with
  | .integer => ∃ n, atoi value = some n ∧ d.minimum.getD 0 ≤ n ∧ n ≤ d.maximum.getD 0
  | .enum => value ∈ d.options

/-- Every default is allowed. -/
theorem registry_defaults : ∀ d ∈ registry, d.Allows d.defaultValue := by
  intro d hd
  simp only [registry, List.mem_cons, List.not_mem_nil, or_false] at hd
  rcases hd with rfl | rfl | rfl | rfl | rfl | rfl | rfl | rfl | rfl
  · exact ⟨8, by decide, by decide, by decide⟩
  · exact ⟨30, by decide, by decide, by decide⟩
  · exact ⟨300, by decide, by decide, by decide⟩
  · exact ⟨90, by decide, by decide, by decide⟩
  · exact ⟨6, by decide, by decide, by decide⟩
  · exact ⟨30, by decide, by decide, by decide⟩
  · exact ⟨90, by decide, by decide, by decide⟩
  · exact ⟨180, by decide, by decide, by decide⟩
  · show "pt-BR" ∈ ["pt-BR", "en-US", "es-ES"]
    decide

/-- The bounds of a definition are numbers of an `int64`. -/
theorem registry_bounds :
    ∀ d ∈ registry, IsInt64 (d.minimum.getD 0) ∧ IsInt64 (d.maximum.getD 0) := by
  decide

theorem define_mem {key : String} {d : Definition} (h : define key = some d) :
    d ∈ registry ∧ d.key = key :=
  ⟨mem_of_lookup h, key_of_lookup h⟩

section validation

variable {entry entry' : String × String} {updates : Updates} {current : Values}
  {normalized : List (String × String)}

/-- A checked entry keeps its key and is allowed. -/
theorem validateEntry_ok (h : validateEntry entry = .ok entry') : entry'.1 = entry.1 ∧
    ∃ d, define entry.1 = some d ∧ d.Allows entry'.2 := by
  simp only [validateEntry] at h
  split at h
  · cases h
  next d hd =>
    split at h
    next htype =>
      split at h
      · cases h
      next n hn =>
        split at h
        · cases h
        next hrange =>
          cases h
          have hbounds := registry_bounds d (define_mem hd).1
          refine ⟨rfl, d, hd, ?_⟩
          rw [Definition.Allows, htype]
          refine ⟨n, atoi_toString ?_, by omega, by omega⟩
          unfold IsInt64 at hbounds ⊢
          omega
    next htype =>
      split at h
      next hmem =>
        cases h
        refine ⟨rfl, d, hd, ?_⟩
        rw [Definition.Allows, htype]
        exact hmem
      · cases h

/-- Policies of values: what relates two settings. -/
def Ordered (values : Values) : Prop :=
  number values sessionIdleMinutes ≤ number values sessionAbsoluteHours * 60 ∧
    number values webhookDeliveryRetentionDays ≤ number values outboxEventRetentionDays

instance (values : Values) : Decidable (Ordered values) := by
  unfold Ordered
  infer_instance

theorem mapM_validateEntry_ok {entries : List (String × String)}
    (h : entries.mapM validateEntry = .ok normalized) :
    normalized.map Prod.fst = entries.map Prod.fst ∧
      ∀ e ∈ normalized, ∃ d, define e.1 = some d ∧ d.Allows e.2 := by
  induction entries generalizing normalized with
  | nil =>
    cases h
    exact ⟨rfl, by simp⟩
  | cons e es ih =>
    rw [List.mapM_cons] at h
    cases he : validateEntry e with
    | error err =>
      rw [he] at h
      cases h
    | ok e' =>
      rw [he] at h
      cases hes : es.mapM validateEntry with
      | error err =>
        simp only [hes] at h
        cases h
      | ok es' =>
        simp only [hes] at h
        cases h
        obtain ⟨hkeys, hall⟩ := ih hes
        obtain ⟨hkey, d, hd, hallows⟩ := validateEntry_ok he
        refine ⟨by simp [hkeys, hkey], fun x hx => ?_⟩
        rcases List.mem_cons.mp hx with rfl | hx
        · exact ⟨d, hkey ▸ hd, hallows⟩
        · exact hall x hx

/-- The entries of an update that passes are checked one by one, and so are the policies. -/
theorem validate_entries (h : validate updates current = .ok normalized) :
    updates.entries.mapM validateEntry = .ok normalized ∧
    Ordered (withEntries normalized (merged current)) := by
  unfold validate at h
  split at h
  · cases h
  cases hentries : updates.entries.mapM validateEntry with
  | error err =>
    simp only [hentries] at h
    cases h
  | ok es =>
    simp only [hentries] at h
    change (if number (withEntries es (merged current)) sessionAbsoluteHours * 60 < _ then _ else
      if number (withEntries es (merged current)) outboxEventRetentionDays < _ then _
        else Except.ok es) = _ at h
    split at h
    · cases h
    next hsession =>
      split at h
      · cases h
      next hretention =>
        cases h
        exact ⟨rfl, Int.not_lt.mp hsession, Int.not_lt.mp hretention⟩

/-- What passes validation: distinct keys, allowed values, and the policies hold of the
values in force with it. -/
theorem validate_ok (h : validate updates current = .ok normalized) : Keyed Prod.fst normalized ∧
    (∀ e ∈ normalized, ∃ d, define e.1 = some d ∧ d.Allows e.2) ∧
    Ordered (withEntries normalized (merged current)) := by
  obtain ⟨hentries, hordered⟩ := validate_entries h
  obtain ⟨hkeys, hall⟩ := mapM_validateEntry_ok hentries
  exact ⟨(congrArg List.Nodup hkeys).mpr updates.distinct, hall, hordered⟩

end validation

end Tenancit.Settings
