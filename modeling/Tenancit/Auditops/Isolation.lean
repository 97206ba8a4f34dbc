import Tenancit.Auditops.OneShot

/-!
What the requests of one principal show of the export jobs of another: the answers with and
without the other's jobs are compared. Lookups and the unique key use kind and subject of a
principal, not the issuer.
-/
namespace Tenancit.Auditops

open Encoding Crypto Store Queries Table

/-- The requests to `ExportRepository` that a principal makes. -/
inductive ExportRequest where
  | create (key : UUID) (f : ExportFilter) (format : String) (synchronous : Bool)
      (audit : DownloadAudit)
  | get (id : UUID)
  | consume (id : UUID) (audit : DownloadAudit)

/-- What a request finds beside the tables: the hash, the keys, the clock and what is drawn. -/
structure Surroundings {Key : Type} (aead : Aead Key) where
  sha256 : Bytes → Bytes
  int2 : Int → Option Int16
  cryptor : Cryptor aead
  now : Timestamp
  later : Timestamp
  tick : Tick

inductive ExportAnswer where
  | job (j : ExportJob)
  | payload (b : Bytes) (format : String)
  | error (err : ExportError)
  deriving DecidableEq

variable {Key : Type} {aead : Aead Key}

/-- `process`, run to its end: its error, if it fails, and the tables after it. -/
def processJob (e : Surroundings aead) (id : UUID) (f : ExportFilter) (format : String)
    (s : ExportTables) : Option ExportError × ExportTables :=
  match generate f format s.events.audit with
  | none => (some .invalidExport, { s with jobs := failJob id "generation_failed" e.later s.jobs })
  | some (payload, rows) =>
    match finishJob e.int2 id rows (e.cryptor.encryptBytes e.tick.random payload) e.later s.jobs
      with
    | none => (some (.store .raised), s)
    | some jobs => (none, { s with jobs := jobs })

def ofResult : Except ExportError ExportJob → ExportAnswer
  | .error err => .error err
  | .ok j => .job j

/-- The answer to a request of a principal, and the tables after it. -/
def serveExport (e : Surroundings aead) (actor : ExportActor) (s : ExportTables) :
    ExportRequest → ExportAnswer × ExportTables
  | .create key f format synchronous audit =>
    match createJob e.sha256 actor key f format synchronous audit e.now e.tick s with
    | .error err => (.error err, s)
    | .ok (j, s₁) =>
      if synchronous = true ∧ j.status = .processing then
        match processJob e j.id f format s₁ with
        | (some err, s₂) => (.error err, s₂)
        | (none, s₂) => (ofResult (getJob actor j.id s₂), s₂)
      else (.job j.view, s₁)
  | .get id => (ofResult (getJob actor id s), s)
  | .consume id audit =>
    if ¬ConsumeOk actor audit then (.error .invalidExport, s)
    else match findJob actor id s with
      | none => (.error (.store .noRows), s)
      | some j => match consumeJob e.cryptor actor audit j e.now e.later e.tick s with
        | .error err => (.error err, s)
        | .ok (payload, s₁) => (.payload payload j.format, s₁)

/-- The principal that requested a job: its kind, issuer and subject. -/
def requester (j : AuditExportJob) : String × Option String × String :=
  (j.requestedByKind, j.requestedByIssuer, j.requestedBySubject)

def ExportActor.principal (q : ExportActor) : String × Option String × String :=
  (q.kind, optionalText q.issuer, q.subject)

/-- The tables without the jobs of a principal. -/
def ExportTables.without (q : ExportActor) (s : ExportTables) : ExportTables :=
  { s with jobs := s.jobs.filter fun j => requester j ≠ q.principal }

/-- The identifier that a creation generates is that of no job. -/
def ExportRequest.Fresh (e : Surroundings aead) (s : ExportTables) : ExportRequest → Prop
  | .create _ _ _ _ _ => ∀ j ∈ s.jobs, j.id ≠ e.tick.ids 1
  | _ => True

/-- No request of `p` is answered otherwise for the jobs of `q`, and none changes them. -/
def Isolated (e : Surroundings aead) (p q : ExportActor) (s : ExportTables) : Prop :=
  ∀ request : ExportRequest, request.Fresh e s → (serveExport e p s request).1 =
    (serveExport e p (s.without q) request).1 ∧
    rowsAt requester q.principal (serveExport e p s request).2.jobs =
      rowsAt requester q.principal s.jobs

section apart

variable {e : Surroundings aead} {p q : ExportActor} {s s' : ExportTables} {j : AuditExportJob}
  {id : UUID} {jobs : List AuditExportJob} {u : AuditExportJob → Bool}
  {f : AuditExportJob → AuditExportJob}

theorem filter_update {keep : AuditExportJob → Bool} (hf : ∀ r, keep (f r) = keep r) :
    (update u f jobs).filter keep = update u f (jobs.filter keep) := by
  induction jobs with
  | nil => rfl
  | cons x xs ih =>
    have hx : keep (if u x then f x else x) = keep x := by split <;> simp [hf]
    simp only [update, List.map_cons, List.filter_cons, hx] at ih ⊢
    split
    · rw [List.map_cons, ih]
    · exact ih

/-- A job that lookups of `p` find is not one of `q`. -/
def Apart (p q : ExportActor) : Prop := p.kind ≠ q.kind ∨ p.subject ≠ q.subject

theorem requester_ne (h : Apart p q) (hkind : j.requestedByKind = p.kind)
    (hsubject : j.requestedBySubject = p.subject) : requester j ≠ q.principal := by
  intro he
  rcases h with h | h
  · exact h (hkind.symm.trans (congrArg Prod.fst he))
  · exact h (hsubject.symm.trans (congrArg (fun x => x.2.2) he))

theorem lookup_without (h : Apart p q) {key : UUID} :
    lookup jobKey (p.kind, p.subject, key)
    (s.without q).jobs = lookup jobKey (p.kind, p.subject, key) s.jobs := by
  rw [lookup, lookup, ExportTables.without, List.find?_filter]
  refine congrArg (fun t => s.jobs.find? t) (funext fun j => ?_)
  by_cases hj : jobKey j = (p.kind, p.subject, key)
  · have hne := requester_ne h (j := j) (congrArg Prod.fst hj) (congrArg (fun x => x.2.1) hj)
    simp [hj, hne]
  · simp [hj]

theorem findJob_some (h : findJob p id s = some j) : j ∈ s.jobs ∧ j.Of p id := by
  unfold findJob at h
  exact ⟨List.mem_of_find?_eq_some h, by simpa using List.find?_some h⟩

theorem findJob_without (h : Apart p q) : findJob p id (s.without q) = findJob p id s := by
  rw [findJob, findJob, ExportTables.without, List.find?_filter]
  refine congrArg (fun t => s.jobs.find? t) (funext fun j => ?_)
  by_cases hj : j.Of p id
  · have hne := requester_ne h (j := j) hj.2.1 hj.2.2
    simp [hj, hne]
  · simp [hj]

theorem getJob_without (h : Apart p q) : getJob p id (s.without q) = getJob p id s := by
  rw [getJob, getJob, findJob_without h]

/-- A change of rows that are not those of `q`. -/
theorem update_apart (hf : ∀ r, requester (f r) = requester r)
    (hu : ∀ r ∈ jobs, requester r = q.principal → u r = false) :
    (update u f jobs).filter (fun j => requester j ≠ q.principal) =
        update u f (jobs.filter fun j => requester j ≠ q.principal) ∧
      rowsAt requester q.principal (update u f jobs) = rowsAt requester q.principal jobs :=
  ⟨filter_update fun r => by rw [hf r], rowsAt_update_of_not hu hf⟩

/-- The job of a creation is one of `p`, and the creation sees and changes none of `q`. -/
theorem createJob_without (h : Apart p q) (hids : Keyed AuditExportJob.id s.jobs)
    (hfresh : ∀ j ∈ s.jobs, j.id ≠ e.tick.ids 1) (key : UUID) (g : ExportFilter) (format : String)
    (synchronous : Bool) (audit : DownloadAudit) :
    createJob e.sha256 p key g format synchronous audit e.now e.tick (s.without q) =
        (createJob e.sha256 p key g format synchronous audit e.now e.tick s).map (fun r =>
          (r.1, r.2.without q)) ∧
      ∀ j s', createJob e.sha256 p key g format synchronous audit e.now e.tick s = .ok (j, s') →
        Keyed AuditExportJob.id s'.jobs ∧ j ∈ s'.jobs ∧ requester j ≠ q.principal ∧
          rowsAt requester q.principal s'.jobs = rowsAt requester q.principal s.jobs := by
  constructor
  · have hnone : ¬∃ j ∈ s.jobs, j.id = e.tick.ids 1 := fun ⟨j, hj, hid⟩ => hfresh j hj hid
    have hnone' : ¬∃ j ∈ (s.without q).jobs, j.id = e.tick.ids 1 :=
      fun ⟨j, hj, hid⟩ => hfresh j (List.mem_filter.mp hj).1 hid
    have hnew : requester (newJob p key g format synchronous (requestFingerprint e.sha256 g format)
      e.now (e.tick.ids 1)) ≠
        q.principal := requester_ne h rfl rfl
    simp only [createJob, lookup_without h]
    split
    · rfl
    split
    · rfl
    split
    · split <;> rfl
    · rw [if_neg (show ¬∃ j ∈ s.jobs,
        j.id = (newJob p key g format synchronous _ e.now (e.tick.ids 1)).id from hnone),
        if_neg (show ¬∃ j ∈ (s.without q).jobs,
          j.id = (newJob p key g format synchronous _ e.now (e.tick.ids 1)).id from hnone')]
      simp only [show (s.without q).events = s.events from rfl]
      generalize insertAdminAuditEvent _ e.tick s.events = inserted
      cases inserted with
      | error err => rfl
      | ok r => simp [Except.map, ExportTables.without, List.filter_append, hnew]
  · intro j s' hok
    obtain ⟨-, -, ⟨hlookup, -, rfl⟩ | ⟨-, hnew, hj, ev, rfl⟩⟩ := createJob_ok hok
    · have hkey := key_of_lookup hlookup
      exact ⟨hids, mem_of_lookup hlookup,
        requester_ne h (congrArg Prod.fst hkey) (congrArg (fun x => x.2.1) hkey), rfl⟩
    · have hne : requester j ≠ q.principal := requester_ne h (by rw [hj]; rfl) (by rw [hj]; rfl)
      refine ⟨hids.append hnew, by simp, hne, ?_⟩
      show rowsAt requester q.principal (s.jobs ++ [j]) = _
      exact rowsAt_append_of_not fun r hr => (List.mem_singleton.mp hr) ▸ hne

/-- Processing a job that is not one of `q` sees and changes none of `q`. -/
theorem processJob_without (hids : Keyed AuditExportJob.id s.jobs) (hj : j ∈ s.jobs)
    (hne : requester j ≠ q.principal) (g : ExportFilter) (format : String) :
    processJob e j.id g format (s.without q) =
        ((processJob e j.id g format s).1, (processJob e j.id g format s).2.without q) ∧
      rowsAt requester q.principal (processJob e j.id g format s).2.jobs =
        rowsAt requester q.principal s.jobs := by
  have hu : ∀ r ∈ s.jobs, requester r = q.principal → isProcessing j.id r = false := by
    intro r hr hrq
    by_contra hsel
    obtain rfl := hids.eq_of_key hr hj (of_isProcessing (by simpa using hsel)).1
    exact hne hrq
  simp only [processJob, show (s.without q).events = s.events from rfl]
  split
  · obtain ⟨hfilter, hrows⟩ :=
      update_apart (f := setFailed "generation_failed" e.later) (fun _ => rfl) hu
    refine ⟨?_, hrows⟩
    simp only [ExportTables.without, failJob, hfilter]
  next payload rows hgenerate =>
    simp only [finishJob]
    cases e.int2 (e.cryptor.encryptBytes e.tick.random payload).keyVersion with
    | none => exact ⟨rfl, rfl⟩
    | some version =>
      obtain ⟨hfilter, hrows⟩ := update_apart
        (f := setReady rows (e.cryptor.encryptBytes e.tick.random payload) version e.later)
          (fun _ => rfl) hu
      refine ⟨?_, hrows⟩
      simp only [ExportTables.without, Option.map_some, hfilter]

/-- A download of a job of `p` sees and changes none of `q`. -/
theorem consumeJob_without (hids : Keyed AuditExportJob.id s.jobs) (hj : j ∈ s.jobs)
    (hne : requester j ≠ q.principal) (audit : DownloadAudit) :
    consumeJob e.cryptor p audit j e.now e.later e.tick (s.without q) =
        (consumeJob e.cryptor p audit j e.now e.later e.tick s).map (fun r =>
          (r.1, r.2.without q)) ∧
      ∀ b s', consumeJob e.cryptor p audit j e.now e.later e.tick s = .ok (b, s') →
        rowsAt requester q.principal s'.jobs = rowsAt requester q.principal s.jobs := by
  have hu : ∀ r ∈ s.jobs, requester r = q.principal → consumable j r = false := by
    intro r hr hrq
    by_contra hsel
    have hsel : consumable j r = true := by simpa using hsel
    simp only [consumable, Bool.and_eq_true, decide_eq_true_eq] at hsel
    obtain rfl := hids.eq_of_key hr hj hsel.1.1
    exact hne hrq
  obtain ⟨hfilter, hrows⟩ := update_apart (f := AuditExportJob.downloaded e.later) (fun _ => rfl) hu
  have hcount : (s.without q).jobs.countP (consumable j) = s.jobs.countP (consumable j) := by
    rw [ExportTables.without, List.countP_filter]
    refine List.countP_congr fun r hr => ?_
    simp only [Bool.and_eq_true, decide_eq_true_eq]
    refine ⟨fun hc => hc.1, fun hc => ⟨hc, fun hrq => ?_⟩⟩
    rw [hu r hr hrq] at hc
    cases hc
  constructor
  · simp only [consumeJob, updateOne, hcount]
    cases openPayload e.cryptor j e.now with
    | error err => rfl
    | ok payload =>
      by_cases hone : s.jobs.countP (consumable j) = 1
      · simp only [if_pos hone, show (s.without q).events = s.events from rfl]
        cases insertAdminAuditEvent (auditParams p audit "audit.export_downloaded" j.id 200
          (downloadMetadata j)) e.tick
            s.events with
        | error err => rfl
        | ok r => simp only [Except.map, ExportTables.without, hfilter]
      · simp only [if_neg hone]
        rfl
  · intro b s' hok
    obtain ⟨-, -, rfl⟩ := consumeJob_ok hok
    exact hrows

theorem isolated_of_apart (h : Apart p q) (hids : Keyed AuditExportJob.id s.jobs) :
    Isolated e p q s := by
  intro request hfresh
  cases request with
  | create key g format synchronous audit =>
    obtain ⟨hwithout, hafter⟩ := createJob_without h hids hfresh key g format synchronous audit
    simp only [serveExport, hwithout]
    cases hcreate : createJob e.sha256 p key g format synchronous audit e.now e.tick s with
    | error err => exact ⟨rfl, rfl⟩
    | ok r =>
      obtain ⟨j, s₁⟩ := r
      obtain ⟨hids₁, hj, hne, hrows⟩ := hafter j s₁ hcreate
      simp only [Except.map]
      split
      · obtain ⟨hprocess, hrows₁⟩ := processJob_without (e := e) hids₁ hj hne g format
        simp only [hprocess]
        cases hresult : processJob e j.id g format s₁ with
        | mk err s₂ =>
          rw [hresult] at hrows₁
          cases err with
          | some err => exact ⟨rfl, hrows₁.trans hrows⟩
          | none => exact ⟨by simp only [getJob_without h], hrows₁.trans hrows⟩
      · exact ⟨rfl, hrows⟩
  | get id => exact ⟨by simp only [serveExport, getJob_without h], rfl⟩
  | consume id audit =>
    simp only [serveExport, findJob_without h]
    split
    · exact ⟨rfl, rfl⟩
    cases hfind : findJob p id s with
    | none => exact ⟨rfl, rfl⟩
    | some j =>
      obtain ⟨hj, hof⟩ := findJob_some hfind
      obtain ⟨hwithout, hafter⟩ :=
        consumeJob_without (e := e) hids hj (requester_ne h hof.2.1 hof.2.2) audit
      simp only
      rw [hwithout]
      cases hconsume : consumeJob e.cryptor p audit j e.now e.later e.tick s with
      | error err => exact ⟨rfl, rfl⟩
      | ok r => exact ⟨rfl, hafter r.1 r.2 hconsume⟩

end apart

section iff

variable {p q : ExportActor} {s : ExportTables} {w : World} {events : EventTables} {ls : List Label}
  {sha256 : Bytes → Bytes} {int2 : Int → Option Int16} {servers : Nat → Cryptor aead}

/-- The job of an actor of the same kind and subject is found, whatever the issuer. -/
theorem getJob_of_same {j : AuditExportJob} (hids : Keyed AuditExportJob.id s.jobs)
    (hj : j ∈ s.jobs) (hof : j.Of p j.id) : getJob p j.id s = .ok j.view := by
  have hfind : findJob p j.id s = some j := by
    cases hfound : findJob p j.id s with
    | none => exact absurd hof (by simpa using List.find?_eq_none.mp hfound j hj)
    | some k =>
      obtain ⟨hk, hkof⟩ := findJob_some hfound
      rw [hids.eq_of_key hk hj hkof.1]
  rw [getJob, hfind]

/-- A request of `p` leaves every job with its requester, and adds at most one of `p`. -/
theorem requester_serve {e : Surroundings aead} (request : ExportRequest) :
    ∀ r ∈ (serveExport e p s request).2.jobs, requester r = p.principal ∨ ∃ r₀ ∈ s.jobs,
    requester r = requester r₀ := by
  have hupdate : ∀ {jobs : List AuditExportJob} {u : AuditExportJob → Bool}
    {f : AuditExportJob → AuditExportJob},
      (∀ r, requester (f r) = requester r) → ∀ r ∈ update u f jobs, ∃ r₀ ∈ jobs,
      requester r = requester r₀ := by
    intro jobs u f hf r hr
    obtain ⟨r₀, hr₀, rfl⟩ := mem_update.mp hr
    refine ⟨r₀, hr₀, ?_⟩
    split
    · exact hf r₀
    · rfl
  cases request with
  | create key g format synchronous audit =>
    simp only [serveExport]
    cases hcreate : createJob e.sha256 p key g format synchronous audit e.now e.tick s with
    | error err => exact fun r hr => .inr ⟨r, hr, rfl⟩
    | ok x =>
      obtain ⟨j, s₁⟩ := x
      have hs₁ : ∀ r ∈ s₁.jobs, requester r = p.principal ∨ ∃ r₀ ∈ s.jobs,
          requester r = requester r₀ := by
        intro r hr
        obtain ⟨-, -, ⟨-, -, rfl⟩ | ⟨-, -, hj, ev, rfl⟩⟩ := createJob_ok hcreate
        · exact .inr ⟨r, hr, rfl⟩
        rcases List.mem_append.mp hr with hr | hr
        · exact .inr ⟨r, hr, rfl⟩
        · obtain rfl := List.mem_singleton.mp hr
          rw [hj]
          exact .inl rfl
      have hs₂ : ∀ r ∈ (processJob e j.id g format s₁).2.jobs, ∃ r₁ ∈ s₁.jobs,
          requester r = requester r₁ := by
        simp only [processJob]
        split
        · exact hupdate fun _ => rfl
        next payload rows hgenerate =>
          simp only [finishJob]
          cases e.int2 (e.cryptor.encryptBytes e.tick.random payload).keyVersion with
          | none => exact fun r hr => ⟨r, hr, rfl⟩
          | some version => exact hupdate fun _ => rfl
      have hboth : ∀ r ∈ (processJob e j.id g format s₁).2.jobs,
          requester r = p.principal ∨ ∃ r₀ ∈ s.jobs, requester r = requester r₀ := by
        intro r hr
        obtain ⟨r₁, hr₁, he⟩ := hs₂ r hr
        rw [he]
        exact hs₁ r₁ hr₁
      simp only
      split
      · generalize processJob e j.id g format s₁ = result at hboth
        obtain ⟨err, s₂⟩ := result
        cases err with
        | some err => exact hboth
        | none => exact hboth
      · exact hs₁
  | get id => exact fun r hr => .inr ⟨r, hr, rfl⟩
  | consume id audit =>
    simp only [serveExport]
    split
    · exact fun r hr => .inr ⟨r, hr, rfl⟩
    cases findJob p id s with
    | none => exact fun r hr => .inr ⟨r, hr, rfl⟩
    | some j =>
      simp only
      cases hconsume : consumeJob e.cryptor p audit j e.now e.later e.tick s with
      | error err => exact fun r hr => .inr ⟨r, hr, rfl⟩
      | ok x =>
        obtain ⟨-, -, hs₁⟩ := consumeJob_ok hconsume
        intro r hr
        have hr : r ∈ x.2.jobs := hr
        rw [hs₁] at hr
        exact .inr (hupdate (f := AuditExportJob.downloaded e.later) (fun _ => rfl) r hr)

/-- Without jobs of `q` there is nothing to show, and nobody else makes one. -/
theorem isolated_of_none {e : Surroundings aead} (hpq : p.principal ≠ q.principal)
    (hnone : rowsAt requester q.principal s.jobs = []) : Isolated e p q s := by
  have hne : ∀ j ∈ s.jobs, requester j ≠ q.principal := rowsAt_eq_nil.mp hnone
  have hsame : s.without q = s := by
    show ({ s with jobs := _ } : ExportTables) = s
    rw [List.filter_eq_self.mpr fun j hj => by simpa using hne j hj]
  intro request _
  refine ⟨by rw [hsame], ?_⟩
  rw [hnone]
  refine rowsAt_eq_nil.mpr fun r hr he => ?_
  rcases requester_serve request r hr with hp | ⟨r₀, hr₀, h₀⟩
  · exact hpq (hp.symm.trans he)
  · exact hne r₀ hr₀ (h₀.symm.trans he)

/-- In every state reached, the jobs of one principal do not show in the answers to another if
and only if the two differ in kind or in subject, or there are no such jobs. -/
theorem exports_isolated_iff (hsha : Function.Injective sha256)
    (hint2 : ∀ v i, int2 v = some i → i.toInt = v) (hagree : ∀ i k, (servers i).Agree (servers k))
    (hpq : p.principal ≠ q.principal)
    (hrun : Runs.Run (Runs.Steps (step sha256 int2 servers)) (start events) ls w) :
    (∀ e : Surroundings aead, Isolated e p q w.tables) ↔
      p.kind ≠ q.kind ∨ p.subject ≠ q.subject ∨
      rowsAt requester q.principal w.tables.jobs = [] := by
  have hids := (inv_run hsha hint2 hagree inv_start hrun).1.ids
  constructor
  · intro hisolated
    by_contra hsame
    obtain ⟨hkind, hsame⟩ := not_or.mp hsame
    obtain ⟨hsubject, hjobs⟩ := not_or.mp hsame
    have hkind := not_not.mp hkind
    have hsubject := not_not.mp hsubject
    obtain ⟨j, hj⟩ := List.exists_mem_of_ne_nil _ hjobs
    obtain ⟨hmem, hrequester⟩ := mem_rowsAt.mp hj
    have hof : j.Of p j.id :=
      ⟨rfl, (congrArg Prod.fst hrequester).trans hkind.symm,
       (congrArg (fun x => x.2.2) hrequester).trans hsubject.symm⟩
    have hanswer :=
      (hisolated ⟨sha256, int2, servers 0, 0, 0, ⟨0, fun _ => 0, fun _ => 0, .plain⟩⟩
        (.get j.id) trivial).1
    have hgone : getJob p j.id (w.tables.without q) = .error (.store .noRows) := by
      have hfind : findJob p j.id (w.tables.without q) = none := by
        refine List.find?_eq_none.mpr fun r hr hsel => ?_
        obtain ⟨hr, hne⟩ := List.mem_filter.mp hr
        obtain rfl := hids.eq_of_key hr hmem (of_decide_eq_true hsel).1
        simp [hrequester] at hne
      rw [getJob, hfind]
    simp only [serveExport, getJob_of_same hids hmem hof, hgone, ofResult] at hanswer
    cases hanswer
  · intro h e
    rcases h with h | h | h
    · exact isolated_of_apart (.inl h) hids
    · exact isolated_of_apart (.inr h) hids
    · exact isolated_of_none hpq h

end iff

section sample

/-- Two users of one subject from different issuers. -/
def sampleUser (issuer : String) : ExportActor := ⟨"oidc_user", issuer, "user", ""⟩

def sampleRequested : List Label :=
  [.create (sampleUser "https://a.example") 5 sampleFilter "csv" false ⟨"req", "POST",
    "/v1/admin/audit-exports"⟩ 0
    ⟨1752000000000000, fun k => Fin.ofNat _ (k + 1), fun _ => 0, .plain⟩]

theorem exports_isolated_sample :
    ∃ w, Runs.Run (Runs.Steps (step sampleSha sampleInt2 sampleServers))
    (start {}) sampleRequested w ∧
    ((∀ e : Surroundings Aead.tagged,
      Isolated e (sampleUser "https://b.example") (sampleUser "https://a.example") w.tables) ↔
      (sampleUser "https://b.example").kind ≠ (sampleUser "https://a.example").kind ∨
        (sampleUser "https://b.example").subject ≠ (sampleUser "https://a.example").subject ∨
        rowsAt requester (sampleUser "https://a.example").principal w.tables.jobs = []) := by
  have hexec : (Runs.exec (step sampleSha sampleInt2 sampleServers) (start {})
      sampleRequested).isSome = true := by
    decide +kernel
  obtain ⟨w, hw⟩ := Option.isSome_iff_exists.mp hexec
  have hrun := Runs.exec_eq_some_iff.mp hw
  exact ⟨w, hrun, exports_isolated_iff (hashKnowing_injective (by decide)) sampleInt2_toInt
    (fun _ _ => (Cryptor.keeps_refl _).agree) (by decide) hrun⟩

/-- The user of the other issuer is shown the job. -/
theorem other_issuer_shown : ∃ w, Runs.Run (Runs.Steps (step sampleSha sampleInt2 sampleServers))
    (start {}) sampleRequested w ∧
    ∃ e : Surroundings Aead.tagged, ¬Isolated e (sampleUser "https://b.example")
    (sampleUser "https://a.example") w.tables := by
  let e : Surroundings Aead.tagged :=
    ⟨sampleSha, sampleInt2, sampleServers 0, 1, 1, ⟨1, fun _ => 0, fun _ => 0, .plain⟩⟩
  have hexec : (Runs.exec (step sampleSha sampleInt2 sampleServers) (start {})
    sampleRequested).map (fun w =>
      decide ((serveExport e (sampleUser "https://b.example") w.tables (.get 2)).1 =
        (serveExport e (sampleUser "https://b.example")
          (w.tables.without (sampleUser "https://a.example")) (.get 2)).1)) =
      some false := by decide +kernel
  obtain ⟨w, hw, hdiffers⟩ := Option.map_eq_some_iff.mp hexec
  exact ⟨w, Runs.exec_eq_some_iff.mp hw, e, fun h =>
    of_decide_eq_false hdiffers (h (.get 2) trivial).1⟩

end sample

end Tenancit.Auditops
