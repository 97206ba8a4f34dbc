import Tenancit.Auditops.OneShot
import Tenancit.Lib.Csv
import Tenancit.Lib.JsonReader

/-!
What the reader of an export gets. Both formats give back the records of the selected events,
whatever texts and metadata these hold, and so does every payload that a download returns.
-/
namespace Tenancit.Auditops

open Encoding Crypto Store Queries

/-- `exportRecord` -/
structure ExportRecord where
  occurredAt : String
  id : String
  requestId : String
  actorKind : String
  actorIssuer : String
  actorSubject : String
  actorLabel : String
  action : String
  targetType : String
  targetId : String
  result : String
  httpMethod : String
  routeTemplate : String
  httpStatus : Int
  errorCode : String
  metadata : Json

/-- `scanExportRecord` -/
def scanExportRecord (e : AdminAuditEvent) : ExportRecord where
  occurredAt := rfc3339 true e.occurredAt
  id := e.id.text
  requestId := e.requestId
  actorKind := e.actorKind
  actorIssuer := e.actorIssuer.getD ""
  actorSubject := e.actorSubject
  actorLabel := e.actorLabel.getD ""
  action := e.action
  targetType := e.targetType
  targetId := e.targetId
  result := e.result
  httpMethod := e.httpMethod
  routeTemplate := e.routeTemplate
  httpStatus := e.httpStatus
  errorCode := e.errorCode.getD ""
  metadata := e.metadata

section csv

/-- The record of a line of CSV. -/
def ExportRecord.ofCsv : List String → Option ExportRecord
  | [occurredAt, id, requestId, actorKind, actorIssuer, actorSubject, actorLabel, action,
    targetType, targetId, result,
      httpMethod, routeTemplate, status, errorCode, metadata] => do
    let httpStatus ← Text.parseDecimal status
    let metadata ← Json.read metadata.toList
    some ⟨occurredAt, id, requestId, actorKind, actorIssuer, actorSubject, actorLabel, action,
      targetType, targetId, result,
      httpMethod, routeTemplate, httpStatus, errorCode, metadata⟩
  | _ => none

/-- The records below the header. -/
def readCsv (cs : List Char) : Option (List ExportRecord) :=
  match Csv.read cs with
  | some (first :: rows) => if first = exportCSVHeader then rows.mapM ExportRecord.ofCsv else none
  | _ => none

theorem writes_csvField (field : String) : Csv.Writes field (csvField field) := by
  unfold csvField
  split
  · exact .inl rfl
  next h =>
    refine .inr ⟨rfl, fun c hc => ?_⟩
    have hany : ¬(field.toList.any fun c => c = '\n' || c = '\r' || c = '"' || c = ',') = true := by
      intro hany
      simp [fieldNeedsQuotes, hany] at h
    have hplain := fun hmark => hany (List.any_eq_true.mpr ⟨c, hc, hmark⟩)
    simp only [Bool.or_eq_true, decide_eq_true_eq] at hplain
    exact ⟨fun hq => hplain (.inl (.inr hq)), fun hq => hplain (.inr hq), fun hq =>
      hplain (.inl (.inl (.inl hq))),
      fun hq => hplain (.inl (.inl (.inr hq)))⟩

theorem csvLine_eq (fields : List String) :
    csvLine fields = utf8 (String.ofList (Csv.record (fields.map csvField))) := by
  simp [csvLine, Csv.record, utf8, String.utf8EncodeChar]

theorem read_csvLines {rows : List (List String)} (h : ∀ fs ∈ rows, fs ≠ []) :
    Csv.read ((rows.map (List.map csvField)).flatMap Csv.record) = some rows := by
  refine Csv.read_records (List.forall₂_map_right_iff.mpr (List.forall₂_same.mpr
    fun fs hfs => ⟨h fs hfs, ?_⟩))
  exact List.forall₂_map_right_iff.mpr (List.forall₂_same.mpr fun f _ => writes_csvField f)

theorem ofCsv_csvRow (e : AdminAuditEvent) :
    ExportRecord.ofCsv (csvRow e) = some (scanExportRecord e) := by
  have hstatus : Text.parseDecimal (toString e.httpStatus) = some (e.httpStatus : Int) :=
    Text.parseDecimal_toString (e.httpStatus : Int)
  have hmetadata : Json.read e.metadata.text.toList = some e.metadata := by
    rw [Json.text, String.toList_ofList, Json.read_render Json.readable_spaced]
  rw [csvRow, ExportRecord.ofCsv, hstatus, hmetadata]
  rfl

theorem readCsv_rows (events : List AdminAuditEvent) :
    readCsv (((exportCSVHeader :: events.map csvRow).map (List.map csvField)).flatMap Csv.record) =
      some (events.map scanExportRecord) := by
  have hread : Csv.read _ = some (exportCSVHeader :: events.map csvRow) :=
    read_csvLines fun fs hfs => by
    rcases List.mem_cons.mp hfs with rfl | hfs
    · exact List.cons_ne_nil _ _
    · obtain ⟨e, -, rfl⟩ := List.mem_map.mp hfs
      exact List.cons_ne_nil _ _
  have hrows : ExportRecord.ofCsv ∘ csvRow = fun e => pure (scanExportRecord e) :=
    funext ofCsv_csvRow
  rw [readCsv, hread]
  simp only [if_true]
  rw [List.mapM_map, hrows, List.mapM_pure]
  rfl

end csv

section jsonl

/-- The text of a member of an object: empty where the object leaves it out. -/
def textMember (key : String) (fields : List (String × Json)) : Option String :=
  match fields.lookup key with
  | none => some ""
  | some (.str s) => some s
  | some _ => none

def numMember (key : String) (fields : List (String × Json)) : Option Int :=
  match fields.lookup key with
  | none => some 0
  | some (.num n) => some n
  | some _ => none

/-- The record of a line of JSON, as the tags of `exportRecord` name its members. -/
def ExportRecord.ofJson : Json → Option ExportRecord
  | .obj fields => do
    let occurredAt ← textMember "occurred_at" fields
    let id ← textMember "id" fields
    let requestId ← textMember "request_id" fields
    let actorKind ← textMember "actor_kind" fields
    let actorIssuer ← textMember "actor_issuer" fields
    let actorSubject ← textMember "actor_subject" fields
    let actorLabel ← textMember "actor_label" fields
    let action ← textMember "action" fields
    let targetType ← textMember "target_type" fields
    let targetId ← textMember "target_id" fields
    let result ← textMember "result" fields
    let httpMethod ← textMember "http_method" fields
    let routeTemplate ← textMember "route_template" fields
    let httpStatus ← numMember "http_status" fields
    let errorCode ← textMember "error_code" fields
    let metadata ← fields.lookup "metadata"
    some ⟨occurredAt, id, requestId, actorKind, actorIssuer, actorSubject, actorLabel, action,
      targetType, targetId, result,
      httpMethod, routeTemplate, httpStatus, errorCode, metadata⟩
  | _ => none

def readJsonl (cs : List Char) : Option (List ExportRecord) :=
  (Json.readLines cs).bind fun js => js.mapM ExportRecord.ofJson

variable {key key' value : String} {j : Json} {fields : List (String × Json)}

theorem textMember_self : textMember key ((key, .str value) :: fields) = some value := by
  rw [textMember, List.lookup_cons_self]

theorem lookup_other (h : key ≠ key') :
    List.lookup key ((key', j) :: fields) = fields.lookup key := by
  rw [List.lookup_cons, beq_eq_false_iff_ne.mpr h]

theorem textMember_other (h : key ≠ key') :
    textMember key ((key', j) :: fields) = textMember key fields := by
  rw [textMember, lookup_other h, textMember]

/-- A member that may be left out is not looked up under another name. -/
theorem lookup_omitEmpty (h : key ≠ key') :
    (omitEmpty key' value ++ fields).lookup key = fields.lookup key := by
  unfold omitEmpty
  split
  · rfl
  · exact lookup_other h

theorem textMember_omitEmpty_other (h : key ≠ key') :
    textMember key (omitEmpty key' value ++ fields) = textMember key fields := by
  rw [textMember, lookup_omitEmpty h, textMember]

/-- A member that may be left out reads as its text in any case. -/
theorem textMember_omitEmpty (h : fields.lookup key = none) :
    textMember key (omitEmpty key value ++ fields) = some value := by
  unfold omitEmpty
  split
  next hempty => rw [List.nil_append, textMember, h, hempty]
  · exact textMember_self

theorem ofJson_jsonRow (e : AdminAuditEvent) :
    ExportRecord.ofJson (jsonRow e) = some (scanExportRecord e) := by
  simp (disch := simp) only [jsonRow, UUID.json, List.append_assoc, List.cons_append,
    List.nil_append, ExportRecord.ofJson,
    textMember_self, textMember_other, textMember_omitEmpty_other, textMember_omitEmpty,
    lookup_other, lookup_omitEmpty,
    numMember, List.lookup_cons_self]
  -- the issuer and the label, which other members that may be left out follow
  rw [textMember_omitEmpty, textMember_omitEmpty]
  · rfl
  · simp (disch := simp) only [lookup_other, lookup_omitEmpty, List.lookup_nil]
  · simp (disch := simp) only [lookup_other, lookup_omitEmpty, List.lookup_nil]

theorem readJsonl_rows (events : List AdminAuditEvent) :
    readJsonl (Json.lines (events.map jsonRow)) = some (events.map scanExportRecord) := by
  have hrows : ExportRecord.ofJson ∘ jsonRow = fun e => pure (scanExportRecord e) :=
    funext ofJson_jsonRow
  rw [readJsonl, Json.readLines_lines, Option.bind_some, List.mapM_map, hrows, List.mapM_pure]
  rfl

end jsonl

section payloads

/-- What the reader of a payload makes of it. -/
def readExport (format : String) (payload : Bytes) : Option (List ExportRecord) :=
  (ofUtf8? payload).bind fun s => if format = "csv" then readCsv s.toList else readJsonl s.toList

theorem encode_csv (events : List AdminAuditEvent) : encode "csv" events =
    utf8 (String.ofList
      (((exportCSVHeader :: events.map csvRow).map (List.map csvField)).flatMap Csv.record)) := by
  have hlines : ∀ rows : List (List String), rows.flatMap csvLine =
      utf8 (String.ofList ((rows.map (List.map csvField)).flatMap Csv.record)) := by
    intro rows
    induction rows with
    | nil => rfl
    | cons fs rows ih =>
      rw [List.flatMap_cons, ih, csvLine_eq, List.map_cons, List.flatMap_cons,
        String.ofList_append, utf8_append]
  rw [← hlines, List.flatMap_cons, List.flatMap_map]
  rfl

theorem encode_jsonl {format : String} (hformat : format ≠ "csv") (events : List AdminAuditEvent) :
    encode format events = utf8 (String.ofList (Json.lines (events.map jsonRow))) := by
  have hrow : ∀ e, encodeRow format e = (jsonRow e).marshal ++ [10] := fun e => if_neg hformat
  rw [encode, header, if_neg hformat, List.nil_append, utf8, String.toList_ofList,
    Json.lines, List.flatMap_assoc,
    List.flatMap_map]
  congr 1
  funext e
  rw [hrow, Json.marshal, List.flatMap_append]
  rfl

/-- Both formats are read back. -/
theorem readExport_encode (format : String) (events : List AdminAuditEvent) :
    readExport format (encode format events) = some (events.map scanExportRecord) := by
  by_cases hformat : format = "csv"
  · rw [hformat, encode_csv, readExport, ofUtf8?_utf8, Option.bind_some, if_pos rfl,
      String.toList_ofList, readCsv_rows]
  · rw [encode_jsonl hformat, readExport, ofUtf8?_utf8, Option.bind_some, if_neg hformat,
      String.toList_ofList, readJsonl_rows]

end payloads

variable {Key : Type} {aead : Aead Key} {sha256 : Bytes → Bytes} {int2 : Int → Option Int16}
  {servers : Nat → Cryptor aead}

/-- Whatever a download has returned reads back as the records of the events that the filter of
its job selects among those some generation of the job has read: none is lost, doubled or
spoilt by what it holds. -/
theorem exports_read_back {events : EventTables} {ls : List Label} {w : World}
    (hsha : Function.Injective sha256) (hint2 : ∀ v i, int2 v = some i → i.toInt = v)
    (hagree : ∀ i k, (servers i).Agree (servers k))
    (hrun : Runs.Run (Runs.Steps (step sha256 int2 servers)) (start events) ls w) :
    ∀ r ∈ w.returned, ∃ j ∈ w.tables.jobs, j.id = r.job ∧ ∃ read rows, (j.id, read) ∈ w.snapshots ∧
      Exports j.filters read rows ∧ readExport j.format r.payload =
        some (rows.map scanExportRecord) := by
  intro r hr
  obtain ⟨j, hj, hid, -, -, -, rows, read, hread, hgenerate⟩ :=
    (inv_run hsha hint2 hagree inv_start hrun).1.returned r hr
  refine ⟨j, hj, hid, read, _, hread, exports_selected _ _, ?_⟩
  rw [(generate_eq_some.mp hgenerate).2.1, readExport_encode]

def sampleShaJsonl : Bytes → Bytes := hashKnowing [sampleFilter.json.marshal ++ utf8 "\x00jsonl"]

/-- A job for lines of JSON is created, processed and downloaded; it selects its own creation. -/
def sampleLines : List Label :=
  let t (n : Nat) : Tick :=
    ⟨1752000000000000 + n, fun k => Fin.ofNat _ (100 * n + k + 1), fun _ => 0, .plain⟩
  let audit : DownloadAudit := ⟨"req", "POST", "/v1/admin/audit-exports"⟩
  [.create sampleActor 5 sampleFilter "jsonl" true audit 0 (t 1), .generate 0,
   .encrypt 0 0 fun _ => 0, .finish 0 1,
   .lock sampleActor 102 audit, .consume 0 0 2 2 (t 2)]

theorem exports_read_back_sample : ∃ w : World, w.returned.map Returned.job = [102] ∧
    ∀ r ∈ w.returned, ∃ j ∈ w.tables.jobs, j.id = r.job ∧ ∃ read rows, (j.id, read) ∈ w.snapshots ∧
      Exports j.filters read rows ∧ readExport j.format r.payload =
        some (rows.map scanExportRecord) := by
  have hexec : (Runs.exec (step sampleShaJsonl sampleInt2 sampleServers) (start {}) sampleLines).map
      (fun w => w.returned.map Returned.job) = some [102] := by decide +kernel
  obtain ⟨w, hw, hreturned⟩ := Option.map_eq_some_iff.mp hexec
  exact ⟨w, hreturned, exports_read_back (hashKnowing_injective (by decide)) sampleInt2_toInt
    (fun _ _ => (Cryptor.keeps_refl _).agree) (Runs.exec_eq_some_iff.mp hw)⟩

end Tenancit.Auditops
