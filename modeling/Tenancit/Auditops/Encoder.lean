import Tenancit.Lib.Calendar
import Tenancit.Store.Events

/-!
`auditops/encoder.go`: the audit events that a filter selects, in order, and their text as
CSV or as lines of JSON.
-/
namespace Tenancit.Auditops

open Encoding Store

structure ExportFilter where
  from_ : ZonedTime
  to_ : ZonedTime
  actorKind : String
  actorSubject : String
  action : String
  targetType : String
  targetId : String
  requestId : String
  result : String
  deriving DecidableEq

/-- `MaxExportRows` -/
def maxExportRows : Nat := 100000

/-- The condition of `exportSelect`: an empty text of the filter selects all. -/
def ExportFilter.Selects (f : ExportFilter) (e : AdminAuditEvent) : Prop :=
  f.from_.micros ≤ e.occurredAt ∧ e.occurredAt < f.to_.micros ∧
    (f.actorKind = "" ∨ e.actorKind = f.actorKind) ∧
    (f.actorSubject = "" ∨ e.actorSubject = f.actorSubject) ∧
    (f.action = "" ∨ e.action = f.action) ∧ (f.targetType = "" ∨ e.targetType = f.targetType) ∧
    (f.targetId = "" ∨ e.targetId = f.targetId) ∧ (f.requestId = "" ∨ e.requestId = f.requestId) ∧
    (f.result = "" ∨ e.result = f.result)

instance (f : ExportFilter) (e : AdminAuditEvent) : Decidable (f.Selects e) := by
  unfold ExportFilter.Selects
  infer_instance

/-- `ORDER BY occurred_at,id`, the primary key of the events. -/
def Before (a b : AdminAuditEvent) : Prop :=
  a.occurredAt < b.occurredAt ∨ a.occurredAt = b.occurredAt ∧ a.id ≤ b.id

instance (a b : AdminAuditEvent) : Decidable (Before a b) := by
  unfold Before
  infer_instance

/-- The events that a filter selects, in the order of the export. -/
def selected (f : ExportFilter) (events : List AdminAuditEvent) : List AdminAuditEvent :=
  (events.filter fun e => f.Selects e).insertionSort Before

/-- What an export of what was read is to hold, by the filter alone: the events that it selects,
none of them more often than it was read, in order. -/
structure Exports (f : ExportFilter) (read rows : List AdminAuditEvent) : Prop where
  mem : ∀ e, e ∈ rows ↔ e ∈ read ∧ f.Selects e
  subperm : rows.Subperm read
  ordered : rows.Pairwise Before

theorem Before.trans {a b c : AdminAuditEvent} (hab : Before a b) (hbc : Before b c) :
    Before a c := by
  rcases hab with hab | ⟨hab, hid⟩
  · rcases hbc with hbc | ⟨hbc, -⟩
    · exact .inl (Int.lt_trans hab hbc)
    · exact .inl (hbc ▸ hab)
  · rcases hbc with hbc | ⟨hbc, hid'⟩
    · exact .inl (hab ▸ hbc)
    · exact .inr ⟨hab.trans hbc, Std.le_trans hid hid'⟩

theorem Before.total (a b : AdminAuditEvent) : Before a b ∨ Before b a := by
  rcases Int.lt_trichotomy a.occurredAt b.occurredAt with hlt | heq | hlt
  · exact .inl (.inl hlt)
  · exact (Std.le_total : a.id ≤ b.id ∨ b.id ≤ a.id).imp (fun h => .inr ⟨heq, h⟩)
      fun h => .inr ⟨heq.symm, h⟩
  · exact .inr (.inl hlt)

instance : IsTrans AdminAuditEvent Before := ⟨fun _ _ _ => Before.trans⟩

instance : Std.Total Before := ⟨Before.total⟩

theorem exports_selected (f : ExportFilter) (events : List AdminAuditEvent) :
    Exports f events (selected f events) where
  mem e := by rw [selected, List.mem_insertionSort, List.mem_filter, decide_eq_true_eq]
  subperm := (List.perm_insertionSort _ _).subperm.trans List.filter_sublist.subperm
  ordered := List.pairwise_insertionSort _ _

def exportCSVHeader : List String :=
  ["occurred_at", "id", "request_id", "actor_kind", "actor_issuer", "actor_subject", "actor_label",
   "action", "target_type",
    "target_id", "result", "http_method", "route_template", "http_status", "error_code", "metadata"]

/-- `exportRecord.csv` of a scanned event. -/
def csvRow (e : AdminAuditEvent) : List String :=
  [rfc3339 true e.occurredAt, e.id.text, e.requestId, e.actorKind,
   e.actorIssuer.getD "", e.actorSubject,
    e.actorLabel.getD "", e.action, e.targetType, e.targetId, e.result,
    e.httpMethod, e.routeTemplate,
    toString e.httpStatus, e.errorCode.getD "", e.metadata.text]

/-- A member of an object that `omitempty` leaves out where it is empty. -/
def omitEmpty (key value : String) : List (String × Json) :=
  if value = "" then [] else [(key, .str value)]

/-- `exportRecord` of a scanned event, as `json.Marshal` writes it. -/
def jsonRow (e : AdminAuditEvent) : Json :=
  .obj ([("occurred_at", .str (rfc3339 true e.occurredAt)), ("id", e.id.json),
    ("request_id", .str e.requestId),
    ("actor_kind", .str e.actorKind)] ++ omitEmpty "actor_issuer" (e.actorIssuer.getD "") ++
    [("actor_subject", .str e.actorSubject)] ++ omitEmpty "actor_label" (e.actorLabel.getD "") ++
    [("action", .str e.action), ("target_type", .str e.targetType), ("target_id", .str e.targetId),
     ("result", .str e.result), ("http_method", .str e.httpMethod),
     ("route_template", .str e.routeTemplate),
     ("http_status", .num e.httpStatus)] ++ omitEmpty "error_code" (e.errorCode.getD "") ++
    [("metadata", e.metadata)])

/-- Whether `csv.Writer` puts a field in quotes. -/
def fieldNeedsQuotes (field : String) : Bool :=
  field = "\\." || field.toList.any (fun c => c = '\n' || c = '\r' || c = '"' || c = ',') ||
    field.toList.head?.any Text.isSpace

/-- A field as `csv.Writer` writes it: in quotes, with its own quotes doubled, or as it is. -/
def csvField (field : String) : List Char :=
  if fieldNeedsQuotes field then '"' ::
    (field.toList.flatMap (fun c => if c = '"' then ['"', '"'] else [c]) ++ ['"'])
  else field.toList

/-- `csv.Writer.Write` -/
def csvLine (fields : List String) : Bytes :=
  utf8 (String.ofList ((fields.map csvField).intersperse [','] |>.flatten)) ++ [10]

/-- The text of one event. -/
def encodeRow (format : String) (e : AdminAuditEvent) : Bytes :=
  if format = "csv" then csvLine (csvRow e) else (jsonRow e).marshal ++ [10]

/-- What stands before the events. -/
def header (format : String) : Bytes := if format = "csv" then csvLine exportCSVHeader else []

/-- The text of an export of the given events. -/
def encode (format : String) (events : List AdminAuditEvent) : Bytes :=
  header format ++ events.flatMap (encodeRow format)

/-- One row more, unless there are too many. -/
def writeRow (format : String) (state : Bytes × Nat) (e : AdminAuditEvent) : Option (Bytes × Nat) :=
  if maxExportRows < state.2 + 1 then none else some (state.1 ++ encodeRow format e, state.2 + 1)

/-- `generate`: the payload and the count of its rows; one row over the limit is read, and
rejected. -/
def generate (f : ExportFilter) (format : String) (events : List AdminAuditEvent) :
    Option (Bytes × Nat) :=
  ((selected f events).take (maxExportRows + 1)).foldlM (writeRow format) (header format, 0)

theorem writeRows_eq_some {format : String} {events : List AdminAuditEvent} {b b' : Bytes}
    {n n' : Nat} (hn : n ≤ maxExportRows) : events.foldlM (writeRow format) (b, n) = some (b', n') ↔
      n + events.length ≤ maxExportRows ∧ b' = b ++ events.flatMap (encodeRow format) ∧
      n' = n + events.length := by
  induction events generalizing b n with
  | nil => simp [eq_comm, hn]
  | cons e es ih =>
    rw [List.foldlM_cons, List.flatMap_cons, List.length_cons]
    by_cases hlt : maxExportRows < n + 1
    · rw [writeRow, if_pos hlt]
      refine iff_of_false (by simp) fun h => ?_
      omega
    · rw [writeRow, if_neg hlt]
      show es.foldlM (writeRow format) (b ++ encodeRow format e, n + 1) = _ ↔ _
      rw [ih (Nat.le_of_not_lt hlt), ← List.append_assoc]
      constructor
      · rintro ⟨hle, rfl, rfl⟩
        exact ⟨by omega, rfl, by omega⟩
      · rintro ⟨hle, rfl, rfl⟩
        exact ⟨by omega, rfl, by omega⟩

/-- What is generated is the text of all selected events, of which there are not too many. -/
theorem generate_eq_some {f : ExportFilter} {format : String} {events : List AdminAuditEvent}
    {b : Bytes} {n : Nat} : generate f format events = some (b, n) ↔
      (selected f events).length ≤ maxExportRows ∧ b = encode format (selected f events) ∧
        n = (selected f events).length := by
  rw [generate, writeRows_eq_some (Nat.zero_le _), List.length_take]
  constructor
  · rintro ⟨hle, rfl, rfl⟩
    have hlen : (selected f events).length ≤ maxExportRows := by omega
    rw [List.take_of_length_le (by omega)]
    exact ⟨hlen, rfl, by omega⟩
  · rintro ⟨hle, rfl, rfl⟩
    rw [List.take_of_length_le (by omega)]
    exact ⟨by omega, rfl, by omega⟩

end Tenancit.Auditops
