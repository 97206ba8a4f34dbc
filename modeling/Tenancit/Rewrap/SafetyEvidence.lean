import Tenancit.Httpapi.OperationalReports
import Tenancit.Rewrap.Runner

/-!
The gate of a campaign that writes (`hasSafetyEvidence` in `rewrap/batch.go`) beside the
health page. The gate asks for any healthy report that is still fresh, the page shows the
last report of each source: they differ where a source takes back what it reported.
-/
namespace Tenancit.Rewrap

open Adminauth Encoding Httpapi Runs Store Table

def hasEvidence (kind : ReportKind) (clock : Timestamp) (rows : List OperationalReport) : Bool :=
  rows.any fun x => x.kind = kind && x.status = .healthy && clock < x.freshUntil

def hasSafetyEvidence (clock : Timestamp) (rows : List OperationalReport) : Bool :=
  hasEvidence .backup clock rows && hasEvidence .restore clock rows

/-- A request of a reporter to a server with a credential, and the ticks of its statements. -/
structure ReportRequest where
  credential : ReportCredential
  bearer : String
  idempotencyKey : String
  body : Except Response OperationalReportBody
  now : Nanoseconds
  ticks : List Tick

/-- The table after a request. -/
def receive (sha256 : Bytes → Bytes) (r : ReportRequest) (rows : List OperationalReport) :
    List OperationalReport :=
  (createOperationalReport sha256 r.credential r.bearer r.idempotencyKey r.body r.now).after
    r.ticks rows

/-- The tables that requests lead to. -/
def History (sha256 : Bytes → Bytes) : List ReportRequest → List OperationalReport → Prop :=
  Run (fun rows r rows' => rows' = receive sha256 r rows) []

/-- The health page shows a healthy report of a kind. -/
def HealthyOnPage (kind : ReportKind) (page : OperationalHealthView) : Prop :=
  ∃ v ∈ page.reports, v.report.kind = kind ∧ v.effectiveStatus = .current .healthy

/-- A report is healthy and still fresh. -/
def Vouches (t : Nanoseconds) (x : OperationalReport) : Prop :=
  x.status = .healthy ∧ timestamp t < x.freshUntil

/-- A report of the same kind and source that comes later, by its time and then its
identifier. -/
def Follows (y x : OperationalReport) : Prop :=
  y.kind = x.kind ∧ y.source = x.source ∧
  (x.occurredAt < y.occurredAt ∨ x.occurredAt = y.occurredAt ∧ x.id < y.id)

instance (t : Nanoseconds) (x : OperationalReport) : Decidable (Vouches t x) :=
  inferInstanceAs (Decidable (_ ∧ _))

instance (y x : OperationalReport) : Decidable (Follows y x) := inferInstanceAs (Decidable (_ ∧ _))

/-- A report vouches, and its source takes it back with a later one that does not. -/
def TakenBack (t : Nanoseconds) (rows : List OperationalReport) (x : OperationalReport) : Prop :=
  Vouches t x ∧ ∃ y ∈ rows, Follows y x ∧ ¬Vouches t y

/-- A report vouches, and its source has stood by it since. -/
def Stands (t : Nanoseconds) (rows : List OperationalReport) (x : OperationalReport) : Prop :=
  Vouches t x ∧ ∀ y ∈ rows, Follows y x → Vouches t y

instance (t : Nanoseconds) (rows : List OperationalReport) (x : OperationalReport) :
    Decidable (TakenBack t rows x) :=
  inferInstanceAs (Decidable (_ ∧ _))

instance (t : Nanoseconds) (rows : List OperationalReport) (x : OperationalReport) :
    Decidable (Stands t rows x) :=
  inferInstanceAs (Decidable (_ ∧ _))

/-- Where a source takes a report of one kind back, some report of the kind stands, or of the other
kind none was taken back and none stands. -/
def MadeGood (t : Nanoseconds) (rows : List OperationalReport) (kind other : ReportKind) : Prop :=
  ∀ x ∈ rows, x.kind = kind → TakenBack t rows x →
    (∃ z ∈ rows, z.kind = kind ∧ Stands t rows z) ∨
      ∀ z ∈ rows, z.kind = other → ¬TakenBack t rows z ∧ ¬Stands t rows z

instance (t : Nanoseconds) (rows : List OperationalReport) (kind other : ReportKind) :
    Decidable (MadeGood t rows kind other) :=
  inferInstanceAs (Decidable (∀ x ∈ rows, _))

section page

variable {rows : List OperationalReport} {x y : OperationalReport} {kind : ReportKind}
  {t : Nanoseconds}

theorem vouches_iff : (reportView t x).effectiveStatus = .current .healthy ↔ Vouches t x := by
  have hfresh : timestamp t < x.freshUntil ↔ t < x.freshUntil * 1000 :=
    Int.ediv_lt_iff_lt_mul (by decide)
  rw [Vouches, hfresh, reportView, effectiveReportStatus]
  by_cases h : t < x.freshUntil * 1000
  · simp [h]
  · simp [h]

theorem hasEvidence_iff :
    hasEvidence kind (timestamp t) rows = true ↔ ∃ x ∈ rows, x.kind = kind ∧ Vouches t x := by
  simp [hasEvidence, Vouches, and_assoc]

/-- Among the reports of a source, the page's order puts later ones first. -/
theorem follows_iff (hkind : y.kind = x.kind) (hsource : y.source = x.source) :
    Follows y x ↔ reportOrder y < reportOrder x := by
  simp only [Follows, reportOrder, hkind, hsource, Prod.Lex.toLex_lt_toLex,
    lt_self_iff_false, false_or, true_and,
    OrderDual.toDual_lt_toDual, OrderDual.toDual_inj]
  exact or_congr_right (and_congr_left fun _ => eq_comm)

theorem reportOrder_id (h : reportOrder y = reportOrder x) : y.id = x.id := by
  simp only [reportOrder, EmbeddingLike.apply_eq_iff_eq, Prod.mk.injEq] at h
  exact h.2.2.2

/-- A report that vouches is taken back or stands. -/
theorem vouches_cases : Vouches t x ↔ TakenBack t rows x ∨ Stands t rows x := by
  constructor
  · intro h
    by_cases hback : ∃ y ∈ rows, Follows y x ∧ ¬Vouches t y
    · exact .inl ⟨h, hback⟩
    · refine .inr ⟨h, fun y hy hfollows => ?_⟩
      by_contra hno
      exact hback ⟨y, hy, hfollows, hno⟩
  · rintro (h | h)
    · exact h.1
    · exact h.1

/-- The page shows a healthy report of a kind exactly if one stands. -/
theorem healthyOnPage_iff (hids : Keyed OperationalReport.id rows) {probes : List ProbeResult}
    {clock : Timestamp} {s : EventTables} :
    HealthyOnPage kind (operationalHealth probes t clock rows s) ↔
      ∃ x ∈ rows, x.kind = kind ∧ Stands t rows x := by
  have hreports : (operationalHealth probes t clock rows s).reports =
    (latestReports rows).map (reportView t) := rfl
  rw [HealthyOnPage, hreports]
  constructor
  · rintro ⟨v, hv, hkind, hstatus⟩
    obtain ⟨x, hx, rfl⟩ := List.mem_map.mp hv
    refine ⟨x, mem_of_mem_latest hx, hkind, vouches_iff.mp hstatus, ?_⟩
    rintro y hy ⟨hk, hs, hlater⟩
    have hfollows : Follows y x := ⟨hk, hs, hlater⟩
    exact absurd ((follows_iff hk hs).mp hfollows) (latest_first hx hy (Prod.ext hk hs)).not_gt
  · rintro ⟨x, hx, hkind, hvouches, hlater⟩
    obtain ⟨y, hy, hkey⟩ :=
      exists_mem_latest (fun x : OperationalReport => (x.kind, x.source)) reportOrder hx
    have hk : y.kind = x.kind := congrArg Prod.fst hkey
    have hs : y.source = x.source := congrArg Prod.snd hkey
    refine ⟨_, List.mem_map_of_mem hy, hk.trans hkind, vouches_iff.mpr ?_⟩
    rcases (latest_first hy hx hkey.symm).lt_or_eq with hlt | heq
    · exact hlater y (mem_of_mem_latest hy) ((follows_iff hk hs).mpr hlt)
    · rwa [hids.eq_of_key (mem_of_mem_latest hy) hx (reportOrder_id heq)]

/-- Reports of both kinds that vouch mean reports of both that stand, exactly if what is taken back
of either kind is made good. -/
theorem standing_iff_madeGood {k₁ k₂ : ReportKind} :
    ((∀ kind ∈ [k₁, k₂], ∃ x ∈ rows, x.kind = kind ∧ Vouches t x) →
      ∀ kind ∈ [k₁, k₂], ∃ x ∈ rows, x.kind = kind ∧ Stands t rows x) ↔
    MadeGood t rows k₁ k₂ ∧ MadeGood t rows k₂ k₁ := by
  simp only [List.forall_mem_cons, List.not_mem_nil, false_implies, implies_true, and_true]
  constructor
  · intro h
    -- one kind has a report that was taken back: the other has none, or the reports of both vouch
    have hother : ∀ kind other, ((∃ x ∈ rows, x.kind = kind ∧ Vouches t x) →
      (∃ x ∈ rows, x.kind = other ∧ Vouches t x) →
        ∃ x ∈ rows, x.kind = kind ∧ Stands t rows x) → MadeGood t rows kind other := by
      intro kind other hstands x hx hkind hback
      by_cases hsome : ∃ z ∈ rows, z.kind = other ∧ Vouches t z
      · exact .inl (hstands ⟨x, hx, hkind, hback.1⟩ hsome)
      · refine .inr fun z hz hz_kind => ⟨fun hz_back => ?_, fun hz_stands => ?_⟩
        · exact hsome ⟨z, hz, hz_kind, hz_back.1⟩
        · exact hsome ⟨z, hz, hz_kind, hz_stands.1⟩
    exact ⟨hother k₁ k₂ fun h₁ h₂ => (h ⟨h₁, h₂⟩).1, hother k₂ k₁ fun h₂ h₁ => (h ⟨h₁, h₂⟩).2⟩
  · rintro ⟨hgood₁, hgood₂⟩ ⟨h₁, h₂⟩
    have hstands : ∀ kind other,
      MadeGood t rows kind other → (∃ x ∈ rows, x.kind = kind ∧ Vouches t x) →
        (∃ x ∈ rows, x.kind = other ∧ Vouches t x) → ∃ x ∈ rows,
        x.kind = kind ∧ Stands t rows x := by
      rintro kind other hgood ⟨x, hx, hkind, hvouches⟩ ⟨z, hz, hz_kind, hz_vouches⟩
      rcases vouches_cases.mp hvouches with hback | hstands
      · rcases hgood x hx hkind hback with hsome | hnone
        · exact hsome
        · obtain ⟨hz_back, hz_stands⟩ := hnone z hz hz_kind
          exact absurd (vouches_cases.mp hz_vouches) (not_or.mpr ⟨hz_back, hz_stands⟩)
      · exact ⟨x, hx, hkind, hstands⟩
    exact ⟨hstands k₁ k₂ hgood₁ h₁ h₂, hstands k₂ k₁ hgood₂ h₂ h₁⟩

end page

section history

variable {sha256 : Bytes → Bytes} {requests : List ReportRequest}
  {rows rows' : List OperationalReport}

/-- What a request does to the table: reports are added, never changed, each under an
identifier of its own. -/
def Appends (rows : List OperationalReport) (_ : List Tick) (rows' : List OperationalReport) :
    Prop :=
  Keyed OperationalReport.id rows → Keyed OperationalReport.id rows'

theorem appends_composes : Program.Composes Appends where
  nil _ h := h
  append hxs hys h := hys (hxs h)

theorem insertOperationalReport_keyed {arg : OperationalReportParams} {t : Tick}
    {x : Option OperationalReport} (h : insertOperationalReport arg t rows = .ok (x, rows'))
    (hids : Keyed OperationalReport.id rows) : Keyed OperationalReport.id rows' := by
  simp only [insertOperationalReport] at h
  split at h
  · cases h
  split at h
  · cases h
    exact hids
  split at h
  · cases h
  next hfree =>
    cases h
    exact hids.append fun y hy he => hfree ⟨y, hy, he⟩

theorem createOperationalReport_appends {credential : ReportCredential} {bearer key : String}
    {body : Except Response OperationalReportBody} {now : Nanoseconds} :
    Program.Along Appends (createOperationalReport sha256 credential bearer key body now) := by
  refine .bind appends_composes (.ofExcept appends_composes _) fun _ => ?_
  refine .bind appends_composes (.ofExcept appends_composes _) fun b => ?_
  dsimp only
  split
  · exact .fail _
  refine .bind appends_composes (.mapErr (.statement fun _ _ _ _ h =>
    insertOperationalReport_keyed h) _) fun x => ?_
  cases x with
  | some row => exact .pure appends_composes _
  | none =>
    refine .bind appends_composes (.mapErr (.query fun _ _ h => h) _) fun row => ?_
    split
    · exact .fail _
    · exact .pure appends_composes _

theorem receive_keyed {r : ReportRequest} (hids : Keyed OperationalReport.id rows) :
    Keyed OperationalReport.id (receive sha256 r rows) := by
  rw [receive, Program.Tx.after]
  split
  next h =>
    obtain ⟨used, -, happends⟩ := createOperationalReport_appends.ok h
    exact happends hids
  · exact hids

theorem History.keyed (h : History sha256 requests rows) : Keyed OperationalReport.id rows := by
  refine Run.invariant (fun rows r rows' hids hstep => ?_) h keyed_nil
  rw [hstep]
  exact receive_keyed hids

variable {Key : Type} {aead : Aead Key}

/-- The gate opens for a campaign that has passed its preflight. -/
def WriteStarts (w : World aead) (n : Nat) (t : Nanoseconds) (clock : Timestamp)
    (rows : List OperationalReport) : Prop :=
  ∃ w' run, w.campaignStep n (.evidence (hasSafetyEvidence (timestamp t) rows) clock) = some w' ∧
    w'.campaigns n = .looping run

theorem writeStarts_iff {w : World aead} {n : Nat} {run : Campaign aead}
    (hw : w.campaigns n = .preflighted run) (hdry : run.config.dryRun = false) {t : Nanoseconds}
    {clock : Timestamp} :
    WriteStarts w n t clock rows ↔ hasSafetyEvidence (timestamp t) rows = true := by
  simp only [WriteStarts, World.campaignStep, hw, hdry]
  cases hasSafetyEvidence (timestamp t) rows with
  | false => simp [World.leave, World.setPhase]
  | true => simp [World.setPhase]

end history

section sample

/-- A second of November 2023, `n` seconds into the sample. -/
def sampleTime (n : Int) : Nanoseconds := (1700000000 + n) * second

/-- A report of the only source, made and received at a time and fresh for a day. -/
def sampleReport (kind status : String) (n : Int) : ReportRequest where
  credential := setOperationsReportCredential id "token" "v1"
  bearer := "token"
  idempotencyKey := kind ++ "-" ++ status
  body := .ok ⟨kind, "postgres-primary", status, sampleTime n, 86400⟩
  now := sampleTime n
  ticks := ticksFrom n.toNat 2

/-- The table after requests. -/
def reportsAfter (requests : List ReportRequest) : List OperationalReport :=
  requests.foldl (fun rows r => receive id r rows) []

theorem history_reportsAfter (requests : List ReportRequest) :
    History id requests (reportsAfter requests) :=
  run_foldl (receive id) [] requests

/-- A campaign that has passed its preflight. -/
def waitingCampaign : Campaign Aead.tagged :=
  newCampaign (.single Aead.tagged 7) ⟨1, 10, false, true, 60, 30, 1, some 9⟩ 9 0

def waitingWorld : World Aead.tagged where
  catalog := {}
  plain := Overlay.empty
  campaigns := fun _ => .preflighted waitingCampaign

/-- The only source reports a backup, a restore and then a failed backup. -/
def failedBackup : List ReportRequest :=
  [sampleReport "backup" "healthy" 0, sampleReport "restore" "healthy" 5,
   sampleReport "backup" "failed" 10]

/-- The source has made a new backup since. -/
def renewedBackup : List ReportRequest :=
  failedBackup ++ [{ sampleReport "backup" "healthy" 15 with idempotencyKey := "backup-renewed" }]

end sample

end Tenancit.Rewrap
