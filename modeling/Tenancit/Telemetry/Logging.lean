import Mathlib.Data.List.Infix
import Tenancit.Lib.Slog
import Tenancit.Lib.Text

/-!
`internal/telemetry/logging.go`: the handler that every program's default logger has. It
hides attributes before they come to the JSON handler, which each of them makes without options.
-/
namespace Tenancit.Telemetry

open Slog

structure RedactingHandler where
  inner : JSONHandler

def newRedactingJSONHandler : RedactingHandler := ⟨{}⟩

def redacted : Value := .string "[REDACTED]"

def sensitiveFragments : List String :=
  ["authorization", "cookie", "token", "secret", "password", "body", "payload", "query",
   "sql", "dsn", "url", "hash",
    "nonce"]

/-- A key with a sensitive fragment, in whatever case. -/
def Sensitive (key : String) : Prop :=
  ∃ fragment ∈ sensitiveFragments, fragment.toList <:+: (Text.toLower key).toList

instance : DecidablePred Sensitive := fun key => by
  unfold Sensitive
  infer_instance

/-- The keys whose values show as their type. -/
def ErrKey (key : String) : Prop := Text.toLower key = "err" ∨ Text.toLower key = "error"

instance : DecidablePred ErrKey := fun key => by
  unfold ErrKey
  infer_instance

/-- The source writes the attributes of a group back into the caller's slice. -/
def sanitizeLogAttribute (attr : Attr Value) : Attr Value :=
  let value := attr.value.resolve
  if value.IsError then ⟨"error_type", .string value.typeName⟩
  else if ErrKey attr.key then ⟨"error_type", .string value.typeName⟩
  else if Sensitive attr.key then ⟨attr.key, redacted⟩
  else match _h : attr.value.resolve with
    | .group group => groupAttr attr.key (group.attach.map fun a => sanitizeLogAttribute a.1)
    | _ => ⟨attr.key, value⟩
termination_by sizeOf attr.value
decreasing_by exact Value.sizeOf_child ‹_› a.2

instance : Handler RedactingHandler where
  enabled h level := Handler.enabled h.inner level
  handle h record :=
    Handler.handle h.inner (Record.addAttrs { record with
      attrs := [] } (record.attrs.map sanitizeLogAttribute))
  withAttrs h attributes := ⟨Handler.withAttrs h.inner (attributes.map sanitizeLogAttribute)⟩
  withGroup h name := ⟨Handler.withGroup h.inner name⟩

section sanitize

variable {a : Attr Value} {as : List (Attr Value)}

/-- A key that is neither sensitive nor that of an error. -/
structure Plain (key : String) : Prop where
  notErr : ¬ErrKey key
  notSensitive : ¬Sensitive key

instance : DecidablePred Plain := fun key =>
  decidable_of_iff (¬ErrKey key ∧ ¬Sensitive key) ⟨fun h => ⟨h.1, h.2⟩, fun h => ⟨h.1, h.2⟩⟩

/-- The attribute is a group whose attributes are sanitized one by one. -/
def TakenApart (a : Attr Value) (as : List (Attr Value)) : Prop :=
  a.value.resolve = .group as ∧ Plain a.key

theorem sanitize_takenApart (h : TakenApart a as) :
    sanitizeLogAttribute a = groupAttr a.key (as.map sanitizeLogAttribute) := by
  obtain ⟨hgroup, hkey⟩ := h
  have herror : ¬a.value.resolve.IsError := by
    rw [hgroup]
    exact id
  rw [sanitizeLogAttribute, if_neg herror, if_neg hkey.notErr, if_neg hkey.notSensitive]
  split
  case _ as' h' =>
    cases hgroup.symm.trans h'
    exact congrArg _ ((List.map_subtype fun _ _ => rfl).trans (congrArg _ List.unattach_attach))
  case _ h' => exact absurd hgroup (h' as)

/-- What becomes of an attribute that is not taken apart. -/
inductive Sanitized (a : Attr Value) : Attr Value → Prop where
  | typed (h : a.value.resolve.IsError ∨ ErrKey a.key) :
      Sanitized a ⟨"error_type", .string a.value.resolve.typeName⟩
  | marked (herror : ¬a.value.resolve.IsError) (hkey : ¬ErrKey a.key) (h : Sensitive a.key) :
      Sanitized a ⟨a.key, redacted⟩
  | kept (herror : ¬a.value.resolve.IsError) (hkey : Plain a.key)
      (hleaf : ∀ as, a.value.resolve ≠ .group as) :
      Sanitized a ⟨a.key, a.value.resolve⟩

theorem sanitized (h : ∀ as, ¬TakenApart a as) : Sanitized a (sanitizeLogAttribute a) := by
  rw [sanitizeLogAttribute]
  by_cases herror : a.value.resolve.IsError
  · rw [if_pos herror]
    exact .typed (.inl herror)
  by_cases hkey : ErrKey a.key
  · rw [if_neg herror, if_pos hkey]
    exact .typed (.inr hkey)
  by_cases hsensitive : Sensitive a.key
  · rw [if_neg herror, if_neg hkey, if_pos hsensitive]
    exact .marked herror hkey hsensitive
  rw [if_neg herror, if_neg hkey, if_neg hsensitive]
  split
  case _ as hgroup => exact absurd ⟨hgroup, hkey, hsensitive⟩ (h as)
  case _ hleaf => exact .kept herror ⟨hkey, hsensitive⟩ hleaf

/-- What an attribute that is not taken apart becomes is one leaf, already resolved. -/
theorem Sanitized.leaf {b : Attr Value} (h : Sanitized a b) :
    b.value.resolve = b.value ∧ ∀ as, b.value ≠ .group as := by
  cases h with
  | typed | marked => exact ⟨rfl, nofun⟩
  | kept _ _ hleaf => exact ⟨Value.resolve_resolve _, hleaf⟩

theorem ErrKey.not_sensitive {key : String} (h : ErrKey key) : ¬Sensitive key := by
  rcases h with h | h <;> rw [Sensitive, h] <;> decide +kernel

end sanitize

end Tenancit.Telemetry
