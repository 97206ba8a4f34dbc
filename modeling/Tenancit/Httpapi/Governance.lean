import Tenancit.Auditops.Export
import Tenancit.Httpapi.AuditOctets
import Tenancit.Settings.Repository

/-!
What the administrative handlers of the tables beside the catalogue and the clients audit:
settings, sessions, webhooks, legal holds and exports (`httpapi/{admin_governance,
admin_webhooks,audit_operations}.go` and `auditops/export.go`).
-/
namespace Tenancit.Httpapi

open Encoding Encoding.Json Store Settings Auditops

/-- A request that such a handler has accepted, with what it has written and audits. The
bounds on counts are those of an `int64`, those on texts are checks of the handlers or of
their tables. -/
inductive Governed where
  | updateSettings (u : SettingsUpdate) (currentRevision : Int) (updatedAt : Timestamp)
      (rows rows' : List Setting)
      (snapshot : Snapshot)
      (written : writeSettings u.updates u.actor currentRevision updatedAt rows =
        .ok (snapshot, rows'))
  | revokeAdminSession (id : UUID)
  | revokeAdminPrincipalSessions (subject : String) (count : Nat) (counted : count < 2 ^ 63)
  | createWebhookTarget (id : UUID) (format status : String)
      (formatValid : format ∈ ["generic", "slack", "discord", "teams"])
      (statusValid : status ∈ ["active", "disabled"])
  | setWebhookTargetStatus (id : UUID) (status : String)
      (statusValid : status ∈ ["active", "disabled"])
  | replayWebhookDelivery (id : UUID)
  | createAuditLegalHold (id : UUID) (from_ to_ : ZonedTime) (fromRead : from_.Readable)
      (toRead : to_.Readable)
  | releaseAuditLegalHold (id : UUID)
  | createAuditExport (id : UUID) (f : ExportFilter) (format : String) (synchronous : Bool)
      (valid : ValidateExport f format) (stored : Text.octetLength f.json.text ≤ 4096)
  | downloadAuditExport (j : AuditExportJob) (formatValid : j.format ∈ ["csv", "jsonl"])
      (counted : ∀ n, j.rowCount = some n → n < 2 ^ 63)

def Governed.entry : Governed → AuditEntry
  | updateSettings u _ _ _ _ snapshot _ => u.auditEntry snapshot
  | revokeAdminSession id =>
    ⟨"admin_session.revoked", "admin_session", id.text, "/v1/admin/sessions/{id}", 204,
      .obj [("mode", .str "single"), ("count", .num 1)]⟩
  | revokeAdminPrincipalSessions subject count _ =>
    ⟨"admin_session.principal_revoked", "admin_principal", subject,
      "/v1/admin/sessions/revoke-principal", 200,
      .obj [("mode", .str "principal"), ("count", .num count)]⟩
  | createWebhookTarget id format status _ _ =>
    ⟨"webhook_target.created", "webhook_target", id.text,
      "/v1/admin/webhook-targets", 201, .obj [("format", .str format), ("status", .str status)]⟩
  | setWebhookTargetStatus id status _ =>
    ⟨"webhook_target.status_changed", "webhook_target", id.text,
      "/v1/admin/webhook-targets/{id}/status", 204,
      .obj [("format", .str ""), ("status", .str status)]⟩
  | replayWebhookDelivery id => ⟨"webhook_delivery.replayed", "webhook_delivery", id.text,
      "/v1/admin/webhook-deliveries/{id}/replay", 204, .obj [("mode", .str "manual")]⟩
  | createAuditLegalHold id from_ to_ _ _ =>
    ⟨"audit.legal_hold_created", "audit_legal_hold", id.text,
      "/v1/admin/audit-legal-holds", 201, .obj [("from", .str from_.text), ("to", .str to_.text)]⟩
  | releaseAuditLegalHold id => ⟨"audit.legal_hold_released", "audit_legal_hold", id.text,
      "/v1/admin/audit-legal-holds/{id}/release", 204, .obj []⟩
  | createAuditExport id f format synchronous _ _ =>
    ⟨"audit.export_requested", "audit_export", id.text,
      "/v1/admin/audit-exports", 202,
      .obj [("format", .str format), ("synchronous", .bool synchronous),
        ("from", .str f.from_.text), ("to", .str f.to_.text)]⟩
  | downloadAuditExport j _ _ => ⟨"audit.export_downloaded", "audit_export", j.id.text,
      "/v1/admin/audit-exports/{id}/download", 200, downloadMetadata j⟩

theorem Governed.fixed (g : Governed) : g.entry.Fixed := by
  cases g <;> simp only [Governed.entry, SettingsUpdate.auditEntry, AuditEntry.Fixed] <;> decide

/-- The target fits its index: the subject of whoever is signed out, which the request gives, or
what is short. -/
def Governed.Targeted (rules : TextRules) : Governed → Prop
  | revokeAdminPrincipalSessions subject _ _ => rules.fits ["admin_principal", subject] = true
  | _ => True

theorem Governed.targeted_iff {rules : TextRules} (hrules : rules.TakesShort) (g : Governed) :
    g.Targeted rules ↔ rules.fits [g.entry.targetType, g.entry.targetId] = true := by
  have hrow : ∀ (targetType : String) (id : UUID), Text.octetLength targetType ≤ 64 →
      rules.fits [targetType, id.text] = true := fun targetType id htype => fits_row hrules htype
  cases g with
  | revokeAdminPrincipalSessions subject count counted => exact Iff.rfl
  | updateSettings u currentRevision updatedAt rows rows' snapshot written =>
    exact iff_of_true trivial (hrules ["settings", "global"] (by decide))
  | revokeAdminSession id => exact iff_of_true trivial (hrow "admin_session" id (by decide))
  | createWebhookTarget id | setWebhookTargetStatus id =>
    exact iff_of_true trivial (hrow "webhook_target" id (by decide))
  | replayWebhookDelivery id => exact iff_of_true trivial (hrow "webhook_delivery" id (by decide))
  | createAuditLegalHold id | releaseAuditLegalHold id =>
    exact iff_of_true trivial (hrow "audit_legal_hold" id (by decide))
  | createAuditExport id => exact iff_of_true trivial (hrow "audit_export" id (by decide))
  | downloadAuditExport j => exact iff_of_true trivial (hrow "audit_export" j.id (by decide))

section settings

variable {u : SettingsUpdate} {currentRevision : Int} {updatedAt : Timestamp}
  {rows rows' : List Setting} {snapshot : Snapshot}

/-- An update that is written names settings there are, each once. -/
theorem writeSettings_keys (h : writeSettings u.updates u.actor currentRevision updatedAt rows =
      .ok (snapshot, rows')) :
    (u.updates.entries.map Prod.fst).Nodup ∧ u.updates.entries.map Prod.fst ⊆
      registry.map Definition.key ∧ 0 < snapshot.revision ∧ snapshot.revision < 2 ^ 63 := by
  unfold writeSettings at h
  dsimp only at h
  split at h
  · cases h
  next normalized hvalid =>
    split at h
    · cases h
    split at h
    · cases h
    next hpositive =>
      cases h
      obtain ⟨hkeys, hall⟩ := mapM_validateEntry_ok (validate_entries hvalid).1
      refine ⟨u.updates.distinct, fun key hkey => ?_, ?_⟩
      · rw [← hkeys] at hkey
        obtain ⟨e, he, rfl⟩ := List.mem_map.mp hkey
        obtain ⟨d, hd, -⟩ := hall e he
        obtain ⟨hmem, hd⟩ := define_mem hd
        exact hd ▸ List.mem_map_of_mem hmem
      · have hlt : (currentRevision + 1).bmod (2 ^ 64) < _ := Int.bmod_lt (by decide)
        exact ⟨not_le.mp hpositive, hlt.trans_le (by decide)⟩

/-- Nine keys of at most 34 octets, and a revision. -/
theorem settings_octets_le (h : writeSettings u.updates u.actor currentRevision updatedAt rows =
      .ok (snapshot, rows')) :
    (u.auditEntry snapshot).metadata.octets ≤ 8192 := by
  obtain ⟨hnodup, hsubset, hpositive, hsmall⟩ := writeSettings_keys h
  have hsorted := List.perm_insertionSort (fun a b => a ≤ b) (u.updates.entries.map Prod.fst)
  have hnames : quotedOctets "changed_keys" = 14 ∧ quotedOctets "revision" = 10 := by decide +kernel
  have hrevision := numOctets_le (n := snapshot.revision) (k := 19) (by decide) (by omega)
  simp only [SettingsUpdate.auditEntry, octets_obj, octets_arr, octets_num, List.map_cons,
    List.map_nil, List.map_map,
    Function.comp_def, octets_str, objOctets, List.sum_cons, List.sum_nil, reduceCtorEq,
    if_false, hnames.1, hnames.2]
  generalize (u.updates.entries.map Prod.fst).insertionSort (fun a b => a ≤ b) = keys at hsorted ⊢
  have hlength : keys.length ≤ 9 := by
    rw [hsorted.length_eq]
    exact (hnodup.subperm hsubset).length_le
  have hkey : ∀ n ∈ keys.map (fun key => quotedOctets key), n ≤ 34 := by
    intro n hn
    obtain ⟨key, hkey, rfl⟩ := List.mem_map.mp hn
    have hall : ∀ key ∈ registry.map Definition.key, quotedOctets key ≤ 34 := by decide +kernel
    exact hall key (hsubset (hsorted.mem_iff.mp hkey))
  have hkeys := arrOctets_le hkey
  rw [List.length_map] at hkeys
  omega

end settings

/-- The two times of a filter are part of its JSON. -/
theorem octets_times (f : ExportFilter) :
    quotedOctets f.from_.text + quotedOctets f.to_.text ≤ Text.octetLength f.json.text := by
  show _ ≤ f.json.octets
  simp only [ExportFilter.json, Json.texts, ExportFilter.members, octets_obj,
    objOctets, List.map_cons,
    List.cons_append, List.nil_append, octets_str, List.sum_cons, reduceCtorEq, if_false]
  omega

/-- None of them reaches the limit. -/
theorem Governed.octets_le (g : Governed) : g.entry.metadata.octets ≤ 8192 := by
  cases g with
  | updateSettings u _ _ _ _ _ written => exact settings_octets_le written
  | revokeAdminSession id =>
    show (Json.obj [("mode", .str "single"), ("count", .num 1)]).octets ≤ 8192
    decide +kernel
  | revokeAdminPrincipalSessions subject count counted =>
    have hcount := numOctets_le (n := count) (k := 19) (by decide) (by omega)
    have hmode : quotedOctets "mode" = 6 ∧ quotedOctets "principal" = 11 ∧
      quotedOctets "count" = 7 := by decide +kernel
    simp only [Governed.entry, octets_obj, List.map_cons, List.map_nil, octets_str, octets_num,
      objOctets, List.sum_cons,
      List.sum_nil, reduceCtorEq, if_false, hmode.1, hmode.2.1, hmode.2.2]
    omega
  | createWebhookTarget id format status formatValid statusValid =>
    have hall : ∀ format ∈ ["generic", "slack", "discord", "teams"],
      ∀ status ∈ ["active", "disabled"],
        (Json.obj [("format", .str format), ("status", .str status)]).octets ≤
          8192 := by decide +kernel
    exact hall format formatValid status statusValid
  | setWebhookTargetStatus id status statusValid =>
    have hall : ∀ status ∈ ["active", "disabled"],
        (Json.obj [("format", .str ""), ("status", .str status)]).octets ≤ 8192 := by decide +kernel
    exact hall status statusValid
  | replayWebhookDelivery id =>
    show (Json.obj [("mode", .str "manual")]).octets ≤ 8192
    decide +kernel
  | createAuditLegalHold id from_ to_ fromRead toRead =>
    have hfrom := quotedOctets_le from_.text
    have hto := quotedOctets_le to_.text
    have hfromLength := fromRead.length_text_le
    have htoLength := toRead.length_text_le
    have hnames : quotedOctets "from" = 6 ∧ quotedOctets "to" = 4 := by decide +kernel
    simp only [Governed.entry, octets_obj, List.map_cons, List.map_nil, octets_str,
      objOctets, List.sum_cons,
      List.sum_nil, reduceCtorEq, if_false, hnames.1, hnames.2]
    omega
  | releaseAuditLegalHold id =>
    show (Json.obj []).octets ≤ 8192
    decide +kernel
  | createAuditExport id f format synchronous valid stored =>
    have htimes := octets_times f
    have hformat : quotedOctets format ≤ 7 := by
      rcases valid.2.2.2.2.1 with rfl | rfl <;> decide +kernel
    have hsynchronous : boolOctets synchronous ≤ 5 := by
      cases synchronous <;> decide
    have hnames : quotedOctets "format" = 8 ∧ quotedOctets "synchronous" = 13 ∧
      quotedOctets "from" = 6 ∧
      quotedOctets "to" = 4 := by decide +kernel
    simp only [Governed.entry, octets_obj, List.map_cons, List.map_nil, octets_str, octets_bool,
      objOctets, List.sum_cons,
      List.sum_nil, reduceCtorEq, if_false, hnames.1, hnames.2.1, hnames.2.2.1, hnames.2.2.2]
    omega
  | downloadAuditExport j formatValid counted =>
    have hformat : quotedOctets j.format ≤ 7 := by
      have hall : ∀ format ∈ ["csv", "jsonl"], quotedOctets format ≤ 7 := by decide +kernel
      exact hall j.format formatValid
    have hnames : quotedOctets "format" = 8 ∧ quotedOctets "row_count" = 11 := by decide +kernel
    cases hrows : j.rowCount with
    | none =>
      have hmetadata : downloadMetadata j = .obj [("format", .str j.format)] := by
        simp [downloadMetadata, hrows]
      simp only [Governed.entry, hmetadata, octets_obj, List.map_cons, List.map_nil, octets_str,
        objOctets, List.sum_cons,
        List.sum_nil, reduceCtorEq, if_false, hnames.1]
      omega
    | some n =>
      have hn := counted n hrows
      have hcount := numOctets_le (n := n) (k := 19) (by decide) (by omega)
      have hmetadata : downloadMetadata j =
          .obj [("format", .str j.format), ("row_count", .num n)] := by
        simp [downloadMetadata, hrows]
      simp only [Governed.entry, hmetadata, octets_obj, List.map_cons, List.map_nil, octets_str,
        octets_num, objOctets,
        List.sum_cons, List.sum_nil, reduceCtorEq, if_false, hnames.1, hnames.2]
      omega

end Tenancit.Httpapi
