import Tenancit.Auditops.ExportRuns
import Tenancit.Lib.Locks

/-!
An export is handed out once. In every state reached, what a generation or a ready job holds
is the text of the events that some generation of the job has read, and a payload has been
returned only by the transaction that erased it and recorded the download.
-/
namespace Tenancit.Auditops

open Encoding Crypto Store Queries Table

variable {Key : Type} {aead : Aead Key} {sha256 : Bytes → Bytes} {int2 : Int → Option Int16}
  {servers : Nat → Cryptor aead}

section fingerprint

/-- The value of a member that is there or was left out. -/
def member (key : String) (ms : List (String × String)) : String :=
  ((ms.find? fun m => m.1 = key).map Prod.snd).getD ""

theorem member_members (f : ExportFilter) :
    member "from" f.members = f.from_.text ∧ member "to" f.members = f.to_.text ∧
    member "actor_kind" f.members = f.actorKind ∧
    member "actor_subject" f.members = f.actorSubject ∧
    member "action" f.members = f.action ∧ member "target_type" f.members = f.targetType ∧
    member "target_id" f.members = f.targetId ∧ member "request_id" f.members = f.requestId ∧
    member "result" f.members = f.result := by
  have hleft : ∀ key value : String, (Option.map Prod.snd (match !decide (value = "") with
      | true => some (key, value)
      | false => none)).getD "" = value := by
    intro key value
    by_cases hv : value = "" <;> simp [hv]
  refine ⟨rfl, rfl, ?_, ?_, ?_, ?_, ?_, ?_, ?_⟩
  all_goals
    simp only [member, ExportFilter.members, List.find?_append, List.find?_filter]
    simp [List.find?_cons]
    exact hleft _ _

theorem members_injective : Function.Injective ExportFilter.members := by
  intro f g h
  obtain ⟨h₁, h₂, h₃, h₄, h₅, h₆, h₇, h₈, h₉⟩ := member_members f
  obtain ⟨k₁, k₂, k₃, k₄, k₅, k₆, k₇, k₈, k₉⟩ := member_members g
  rw [h] at h₁ h₂ h₃ h₄ h₅ h₆ h₇ h₈ h₉
  obtain ⟨a, b, c, d, e, i, j, k, l⟩ := f
  rw [ExportFilter.mk.injEq]
  exact ⟨ZonedTime.text_injective (h₁.symm.trans k₁),
    ZonedTime.text_injective (h₂.symm.trans k₂), h₃.symm.trans k₃,
    h₄.symm.trans k₄, h₅.symm.trans k₅, h₆.symm.trans k₆, h₇.symm.trans k₇,
    h₈.symm.trans k₈, h₉.symm.trans k₉⟩

/-- Where the hash tells all texts apart, the fingerprint determines filter and format. -/
theorem requestFingerprint_inj (hsha : Function.Injective sha256) {f g : ExportFilter}
    {a b : String} (h : requestFingerprint sha256 f a = requestFingerprint sha256 g b) :
    f = g ∧ a = b := by
  have hbytes := hsha h
  have htexts : ∀ (x : ExportFilter) (y : String), x.json.marshal ++ utf8 ("\x00" ++ y) =
      utf8 (String.ofList (x.json.render Json.compact ++ ("\x00" ++ y).toList)) := by
    intro x y
    simp [Json.marshal, utf8]
  rw [htexts, htexts] at hbytes
  obtain ⟨hmembers, hrest⟩ :=
    Json.render_texts_inj (String.ofList_injective (utf8_injective hbytes))
  refine ⟨members_injective hmembers, ?_⟩
  simpa using String.toList_injective hrest
end fingerprint

section rows

/-- Some generation of the job has read events whose text is the payload. -/
def Made (snapshots : List (UUID × List AdminAuditEvent)) (j : AuditExportJob) (payload : Bytes)
    (rows : Nat) : Prop :=
  ∃ events, (j.id, events) ∈ snapshots ∧ generate j.filters j.format events = some (payload, rows)

/-- What a job holds: when it is ready, the encrypted payload of a generation, and nothing else. -/
def RowOk (servers : Nat → Cryptor aead) (snapshots : List (UUID × List AdminAuditEvent))
    (j : AuditExportJob) : Prop :=
  (j.status ≠ .ready → j.payloadCipher = none) ∧
    (j.status = .ready → ∃ payload rows server random version, Made snapshots j payload rows ∧
      j.payloadCipher = some ((servers server).encryptBytes random payload).cipher ∧
      j.nonce = some ((servers server).encryptBytes random payload).nonce ∧
      j.keyVersion = some version ∧
      version.toInt = ((servers server).encryptBytes random payload).keyVersion)

/-- What a generation in progress holds. -/
def GenerationOk (servers : Nat → Cryptor aead) (jobs : List AuditExportJob)
    (snapshots : List (UUID × List AdminAuditEvent)) : Generation → Prop
  | .started id f format => ∃ j ∈ jobs, j.id = id ∧ j.filters = f ∧ j.format = format
  | .generated id payload rows => ∃ j ∈ jobs, j.id = id ∧ Made snapshots j payload rows
  | .encrypted id e rows =>
    ∃ j ∈ jobs, j.id = id ∧ ∃ payload server random, Made snapshots j payload rows ∧
      e = (servers server).encryptBytes random payload
  | _ => True

/-- A payload was returned for a job that has been downloaded since, before its expiry. -/
def ReturnedOk (jobs : List AuditExportJob) (snapshots : List (UUID × List AdminAuditEvent))
    (r : Returned) : Prop :=
  ∃ j ∈ jobs, j.id = r.job ∧ j.status = .expired ∧ j.downloadedAt.isSome =
    true ∧ r.reading < j.expiresAt ∧
    ∃ rows, Made snapshots j r.payload rows

/-- A job is over: consumed, expired or failed. -/
def AuditExportJob.Over (j : AuditExportJob) : Prop := j.status = .expired ∨ j.status = .failed

/-- Every job stays the job it is, and one that is over does not change at all. -/
def Stays (jobs jobs' : List AuditExportJob) : Prop :=
  ∀ j ∈ jobs, ∃ j' ∈ jobs', j'.origin = j.origin ∧ (j.Over → j' = j)

variable {jobs jobs' : List AuditExportJob}
  {snapshots snapshots' : List (UUID × List AdminAuditEvent)} {j j' : AuditExportJob}

theorem Stays.refl (jobs : List AuditExportJob) :
    Stays jobs jobs := fun j hj => ⟨j, hj, rfl, fun _ => rfl⟩

theorem Stays.trans {jobs'' : List AuditExportJob} (h : Stays jobs jobs')
    (h' : Stays jobs' jobs'') : Stays jobs jobs'' := by
  intro j hj
  obtain ⟨k, hk, horigin, hover⟩ := h j hj
  obtain ⟨l, hl, horigin', hover'⟩ := h' k hk
  refine ⟨l, hl, horigin'.trans horigin, fun ho => ?_⟩
  obtain rfl := hover ho
  exact hover' ho

theorem stays_append (more : List AuditExportJob) : Stays jobs (jobs ++ more) :=
  fun j hj => ⟨j, List.mem_append_left _ hj, rfl, fun _ => rfl⟩

/-- An update keeps the jobs where it changes none that is over. -/
theorem stays_update {p : AuditExportJob → Bool} {f : AuditExportJob → AuditExportJob}
    (hf : ∀ j ∈ jobs, p j = true → (f j).origin = j.origin ∧ ¬j.Over) :
    Stays jobs (update p f jobs) := by
  intro j hj
  refine ⟨_, mem_update.mpr ⟨j, hj, rfl⟩, ?_⟩
  split
  next hp => exact ⟨(hf j hj hp).1, fun ho => absurd ho (hf j hj hp).2⟩
  · exact ⟨rfl, fun _ => rfl⟩

theorem origin_id (h : j'.origin = j.origin) : j'.id = j.id :=
  show j'.origin.id = j.origin.id from congrArg _ h

theorem origin_filters (h : j'.origin = j.origin) : j'.filters = j.filters :=
  show j'.origin.filters = j.origin.filters from congrArg _ h

theorem origin_format (h : j'.origin = j.origin) : j'.format = j.format :=
  show j'.origin.format = j.origin.format from congrArg _ h

theorem origin_fingerprint (h : j'.origin = j.origin) :
    j'.requestFingerprint = j.requestFingerprint :=
  show j'.origin.requestFingerprint = j.origin.requestFingerprint from congrArg _ h

theorem Made.of_origin {payload : Bytes} {rows : Nat} (h : Made snapshots j payload rows)
    (horigin : j'.origin = j.origin) (hsub : snapshots ⊆ snapshots') :
    Made snapshots' j' payload rows := by
  obtain ⟨events, hmem, hgen⟩ := h
  refine ⟨events, hsub (by rwa [origin_id horigin]), ?_⟩
  rwa [origin_filters horigin, origin_format horigin]

theorem GenerationOk.stays {g : Generation} (h : GenerationOk servers jobs snapshots g)
    (hstays : Stays jobs jobs') (hsub : snapshots ⊆ snapshots') :
    GenerationOk servers jobs' snapshots' g := by
  cases g with
  | started id f format =>
    obtain ⟨j, hj, hid, hf, hformat⟩ := h
    obtain ⟨j', hj', horigin, -⟩ := hstays j hj
    exact ⟨j', hj', (origin_id horigin).trans hid, (origin_filters horigin).trans hf,
      (origin_format horigin).trans hformat⟩
  | generated id payload rows =>
    obtain ⟨j, hj, hid, hmade⟩ := h
    obtain ⟨j', hj', horigin, -⟩ := hstays j hj
    exact ⟨j', hj', (origin_id horigin).trans hid, hmade.of_origin horigin hsub⟩
  | encrypted id e rows =>
    obtain ⟨j, hj, hid, payload, server, random, hmade, he⟩ := h
    obtain ⟨j', hj', horigin, -⟩ := hstays j hj
    exact ⟨j', hj', (origin_id horigin).trans hid, payload, server, random,
      hmade.of_origin horigin hsub, he⟩
  | failing | ended => trivial

theorem ReturnedOk.stays {r : Returned} (h : ReturnedOk jobs snapshots r)
    (hstays : Stays jobs jobs') (hsub : snapshots ⊆ snapshots') :
    ReturnedOk jobs' snapshots' r := by
  obtain ⟨j, hj, hid, hstatus, hdownloaded, hreading, rows, hmade⟩ := h
  obtain ⟨j', hj', -, hover⟩ := hstays j hj
  obtain rfl := hover (.inl hstatus)
  exact ⟨j', hj', hid, hstatus, hdownloaded, hreading, rows, hmade.of_origin rfl hsub⟩

theorem RowOk.of_snapshots (h : RowOk servers snapshots j) (hsub : snapshots ⊆ snapshots') :
    RowOk servers snapshots' j := by
  refine ⟨h.1, fun hready => ?_⟩
  obtain ⟨payload, rows, server, random, version, hmade, hrest⟩ := h.2 hready
  exact ⟨payload, rows, server, random, version, hmade.of_origin rfl hsub, hrest⟩

/-- A row without a payload that is not ready is in order. -/
theorem rowOk_of_none (hstatus : j.status ≠ .ready) (hcipher : j.payloadCipher = none) :
    RowOk servers snapshots j :=
  ⟨fun _ => hcipher, fun h => absurd h hstatus⟩

end rows

/-- What holds in every state reached. -/
structure Inv (sha256 : Bytes → Bytes) (servers : Nat → Cryptor aead) (w : World) : Prop where
  ids : Keyed AuditExportJob.id w.tables.jobs
  fingerprints : ∀ j ∈ w.tables.jobs, j.requestFingerprint =
    requestFingerprint sha256 j.filters j.format
  rows : ∀ j ∈ w.tables.jobs, RowOk servers w.snapshots j
  generations : ∀ g ∈ w.generations, GenerationOk servers w.tables.jobs w.snapshots g
  downloads : ∀ (n : Nat) actor audit j, w.downloads[n]? =
    some (.opened actor audit j) → j ∈ w.tables.jobs
  exclusive : Locks.HeldOnce Download.held w.downloads
  returned : ∀ r ∈ w.returned, ReturnedOk w.tables.jobs w.snapshots r
  once : (w.returned.map Returned.job).Nodup

section steps

variable {w w' : World} {jobs : List AuditExportJob} {g : Generation} {n : Nat}

/-- The rows that downloads have locked are not among those a change selects. -/
def Spares (w : World) (p : AuditExportJob → Bool) : Prop :=
  ∀ j ∈ w.tables.jobs, p j = true → ¬w.Locked j.id

theorem Inv.withGenerations (h : Inv sha256 servers w) {gs : List Generation}
    (hgs : ∀ g ∈ gs, GenerationOk servers w.tables.jobs w.snapshots g) :
    Inv sha256 servers { w with generations := gs } :=
  ⟨h.ids, h.fingerprints, h.rows, hgs, h.downloads, h.exclusive, h.returned, h.once⟩

/-- A generation goes on with what it holds. -/
theorem Inv.advance (h : Inv sha256 servers w)
    (hg : GenerationOk servers w.tables.jobs w.snapshots g) :
    Inv sha256 servers { w with generations := w.generations.set n g } := by
  refine h.withGenerations fun g' hg' => ?_
  rcases List.mem_or_eq_of_mem_set hg' with hg' | rfl
  · exact h.generations g' hg'
  · exact hg

/-- A generation reads the events. -/
theorem Inv.withSnapshot (h : Inv sha256 servers w) (x : UUID × List AdminAuditEvent) :
    Inv sha256 servers { w with snapshots := w.snapshots ++ [x] } := by
  have hsub : w.snapshots ⊆ w.snapshots ++ [x] := List.subset_append_left _ _
  exact ⟨h.ids, h.fingerprints, fun j hj => (h.rows j hj).of_snapshots hsub,
    fun g hg => (h.generations g hg).stays (.refl _) hsub, h.downloads, h.exclusive,
    fun r hr => (h.returned r hr).stays (.refl _) hsub, h.once⟩

/-- Rows that nobody has locked are updated. -/
theorem Inv.update (h : Inv sha256 servers w) {p : AuditExportJob → Bool}
    {f : AuditExportJob → AuditExportJob} (hspares : Spares w p)
    (hf : ∀ j ∈ w.tables.jobs, p j = true → (f j).origin = j.origin ∧ ¬j.Over)
    (hrows : ∀ j ∈ w.tables.jobs, p j = true → RowOk servers w.snapshots (f j)) :
    Inv sha256 servers { w with
      tables := { w.tables with jobs := Table.update p f w.tables.jobs } } := by
  have hstays := stays_update hf
  have hmem : ∀ j' ∈ Table.update p f w.tables.jobs, ∃ j ∈ w.tables.jobs, j'.origin = j.origin ∧
      RowOk servers w.snapshots j' := by
    intro j' hj'
    obtain ⟨j, hj, rfl⟩ := mem_update.mp hj'
    refine ⟨j, hj, ?_⟩
    split
    next hp => exact ⟨(hf j hj hp).1, hrows j hj hp⟩
    · exact ⟨rfl, h.rows j hj⟩
  refine ⟨?_, ?_, fun j hj => (hmem j hj).choose_spec.2.2, ?_, ?_, h.exclusive, ?_, h.once⟩
  · have hids : (Table.update p f w.tables.jobs).map AuditExportJob.id =
        w.tables.jobs.map AuditExportJob.id := by
      rw [Table.update, List.map_map]
      refine List.map_congr_left fun j hj => ?_
      show (if p j then f j else j).id = j.id
      split
      next hp => exact origin_id (hf j hj hp).1
      · rfl
    exact (congrArg List.Nodup hids).mpr h.ids
  · intro j' hj'
    obtain ⟨j, hj, horigin, -⟩ := hmem j' hj'
    rw [origin_fingerprint horigin, origin_filters horigin, origin_format horigin]
    exact h.fingerprints j hj
  · exact fun g hg => (h.generations g hg).stays hstays (List.Subset.refl _)
  · intro n actor audit j hd
    have hj := h.downloads n actor audit j hd
    exact mem_update_of_not hj fun hp => hspares j hj hp ⟨_, List.mem_of_getElem? hd, rfl⟩
  · exact fun r hr => (h.returned r hr).stays hstays (List.Subset.refl _)

/-- The generations of a step that only goes on with one. -/
theorem generationOk_at (h : Inv sha256 servers w) (hg : w.generations[n]? = some g) :
    GenerationOk servers w.tables.jobs w.snapshots g :=
  h.generations g (List.mem_of_getElem? hg)

theorem Inv.endDownload (h : Inv sha256 servers w) :
    Inv sha256 servers { w with downloads := w.downloads.set n .ended } := by
  refine ⟨h.ids, h.fingerprints, h.rows, h.generations, fun m actor audit j hd =>
    ?_, ?_, h.returned, h.once⟩
  · rcases Locks.set_cases hd with ⟨-, he⟩ | ⟨-, hd⟩
    · cases he
    · exact h.downloads m actor audit j hd
  · exact h.exclusive.set fun id hid => by cases hid

/-- A request finds its job, or has made it. -/
theorem Inv.create (h : Inv sha256 servers w) (hsha : Function.Injective sha256)
    {actor : ExportActor} {key : UUID} {f : ExportFilter} {format : String} {synchronous : Bool}
    {audit : DownloadAudit} {now : Timestamp} {t : Tick} {j : AuditExportJob} {s : ExportTables}
    (hcreate : createJob sha256 actor key f format synchronous audit now t w.tables = .ok (j, s)) :
    Inv sha256 servers { w with tables := s } ∧ Stays w.tables.jobs s.jobs ∧ j ∈ s.jobs ∧
    j.filters = f ∧ j.format = format := by
  obtain ⟨-, -, ⟨hlookup, hsame, rfl⟩ | ⟨-, hfresh, hj, e, rfl⟩⟩ := createJob_ok hcreate
  · have hmem := mem_of_lookup hlookup
    obtain ⟨hf, hformat⟩ := requestFingerprint_inj hsha ((h.fingerprints j hmem).symm.trans hsame)
    exact ⟨h, .refl _, hmem, hf, hformat⟩
  · have hstays : Stays w.tables.jobs (w.tables.jobs ++ [j]) := stays_append [j]
    have hnew : RowOk servers w.snapshots j := by
      refine rowOk_of_none ?_ (by rw [hj]; rfl)
      rw [hj]
      show (if synchronous then ExportStatus.processing else .pending) ≠ .ready
      split <;> decide
    refine ⟨⟨h.ids.append hfresh, fun r hr => ?_, fun r hr => ?_, ?_, ?_, h.exclusive, ?_, h.once⟩,
      hstays, by simp, ?_, ?_⟩
    · rcases List.mem_append.mp hr with hr | hr
      · exact h.fingerprints r hr
      · obtain rfl := List.mem_singleton.mp hr
        rw [hj]
        rfl
    · rcases List.mem_append.mp hr with hr | hr
      · exact h.rows r hr
      · obtain rfl := List.mem_singleton.mp hr
        exact hnew
    · exact fun g hg => (h.generations g hg).stays hstays (List.Subset.refl _)
    · exact fun m actor audit r hd => List.mem_append_left _ (h.downloads m actor audit r hd)
    · exact fun r hr => (h.returned r hr).stays hstays (List.Subset.refl _)
    · rw [hj]
      rfl
    · rw [hj]
      rfl

/-- The row that a download has locked is the one its update selects. -/
theorem consumable_iff (h : Inv sha256 servers w) {j r : AuditExportJob} (hj : j ∈ w.tables.jobs)
    (hr : r ∈ w.tables.jobs) (hc : consumable j r = true) : r = j ∧ j.status = .ready := by
  simp only [consumable, Bool.and_eq_true, decide_eq_true_eq] at hc
  obtain rfl := h.ids.eq_of_key hr hj hc.1.1
  exact ⟨rfl, hc.1.2⟩

/-- A download returns the payload of its job, and erases it. -/
theorem Inv.consume (h : Inv sha256 servers w) (hagree : ∀ i k, (servers i).Agree (servers k))
    {actor : ExportActor}
    {audit : DownloadAudit} {j : AuditExportJob} {server : Nat} {now downloadedAt : Timestamp}
    {t : Tick} {payload : Bytes}
    {s : ExportTables} (hd : w.downloads[n]? = some (.opened actor audit j))
    (hconsume : consumeJob (servers server) actor audit j now downloadedAt t w.tables =
      .ok (payload, s)) :
    Inv sha256 servers { w with
      tables := s
      downloads := w.downloads.set n .ended
      returned := w.returned ++ [⟨j.id, payload, now⟩] } ∧ Stays w.tables.jobs s.jobs := by
  obtain ⟨hopen, hone, rfl⟩ := consumeJob_ok hconsume
  obtain ⟨-, hnow, hready, version, hversion, hdecrypt⟩ := openPayload_ok hopen
  have hj := h.downloads n actor audit j hd
  have hended := h.endDownload (n := n)
  -- no other download has locked the row
  have hspares : Spares { w with downloads := w.downloads.set n .ended } (consumable j) := by
    rintro r hr hc ⟨d, hmem, hheld⟩
    obtain ⟨rfl, -⟩ := consumable_iff h hj hr hc
    obtain ⟨m, hm⟩ := List.mem_iff_getElem?.mp hmem
    rcases Locks.set_cases hm with ⟨-, he⟩ | ⟨hmn, hm⟩
    · rw [he] at hheld
      cases hheld
    · exact hmn (h.exclusive m n d _ r.id hm hd hheld rfl)
  have hmoved : ∀ r ∈ w.tables.jobs, consumable j r = true → (r.downloaded downloadedAt).origin =
      r.origin ∧ ¬r.Over := by
    intro r hr hc
    obtain ⟨rfl, hstatus⟩ := consumable_iff h hj hr hc
    refine ⟨rfl, ?_⟩
    rintro (ho | ho) <;> rw [hstatus] at ho <;> cases ho
  have hafter :=
    hended.update hspares hmoved fun r _ _ =>
      rowOk_of_none (show ExportStatus.expired ≠ .ready by decide) rfl
  have hstays : Stays w.tables.jobs _ := stays_update hmoved
  -- what was encrypted is what the download opens
  obtain ⟨p, rows, i, random, v, hmade, hcipher, hnonce, hkey, hv⟩ := (h.rows j hj).2 hready
  obtain rfl : v = version := Option.some.inj (hkey.symm.trans hversion)
  rw [hcipher, hnonce, hv] at hdecrypt
  obtain rfl : payload = p := (hagree i server).decryptBytes hdecrypt
  refine ⟨⟨hafter.ids, hafter.fingerprints, hafter.rows, hafter.generations,
    hafter.downloads, hafter.exclusive,
    fun r hr => ?_, ?_⟩, hstays⟩
  · rcases List.mem_append.mp hr with hr | hr
    · exact hafter.returned r hr
    · obtain rfl := List.mem_singleton.mp hr
      have hselected : consumable j j = true := by
        obtain ⟨r, hr, hc⟩ :=
          List.countP_pos_iff.mp (by omega : 0 < w.tables.jobs.countP (consumable j))
        obtain ⟨rfl, -⟩ := consumable_iff h hj hr hc
        exact hc
      refine ⟨j.downloaded downloadedAt, mem_update.mpr ⟨j, hj, if_pos hselected⟩, rfl,
        rfl, rfl, hnow, rows, ?_⟩
      exact hmade.of_origin rfl (List.Subset.refl _)
  · rw [List.map_append, List.nodup_append]
    refine ⟨h.once, by simp, ?_⟩
    rintro id hid id' hid' rfl
    obtain rfl := List.mem_singleton.mp hid'
    obtain ⟨r, hr, hrj⟩ := List.mem_map.mp hid
    obtain ⟨k, hk, hkid, hstatus, -⟩ := h.returned r hr
    obtain rfl := h.ids.eq_of_key hk hj (hkid.trans hrj)
    rw [hready] at hstatus
    cases hstatus

theorem not_over_of_processing {j : AuditExportJob} (h : j.status = .processing) : ¬j.Over := by
  rintro (ho | ho) <;> rw [h] at ho <;> cases ho

theorem of_isProcessing {id : UUID} {j : AuditExportJob} (h : isProcessing id j = true) :
    j.id = id ∧ j.status = .processing := by
  simpa [isProcessing] using h

/-- A step keeps the invariant, and every job the job it is. -/
theorem Inv.step (h : Inv sha256 servers w) (hsha : Function.Injective sha256)
    (hint2 : ∀ v i, int2 v = some i → i.toInt = v) (hagree : ∀ i k, (servers i).Agree (servers k))
    {l : Label} (hstep : step sha256 int2 servers w l = some w') :
    Inv sha256 servers w' ∧ Stays w.tables.jobs w'.tables.jobs := by
  cases l with
  | create actor key f format synchronous audit now t =>
    simp only [Auditops.step] at hstep
    split at hstep
    · cases hstep
      exact ⟨h, .refl _⟩
    next j s hcreate =>
      obtain ⟨hinv, hstays, hmem, hf, hformat⟩ := h.create hsha hcreate
      split at hstep
      · cases hstep
      split at hstep
      · cases hstep
        refine ⟨hinv.withGenerations fun g hg => ?_, hstays⟩
        rcases List.mem_append.mp hg with hg | hg
        · exact hinv.generations g hg
        · obtain rfl := List.mem_singleton.mp hg
          exact ⟨j, hmem, rfl, hf, hformat⟩
      · cases hstep
        exact ⟨hinv, hstays⟩
  | claim id now =>
    simp only [Auditops.step] at hstep
    split at hstep
    · cases hstep
    next j hj =>
      split at hstep
      next hclaim =>
        cases hstep
        have hmem := mem_of_lookup hj
        have hid : j.id = id := key_of_lookup hj
        have hmoved : ∀ r ∈ w.tables.jobs, decide (r.id = id) = true → (setStarted now r).origin =
            r.origin ∧ ¬r.Over := by
          intro r hr hrid
          obtain rfl := h.ids.eq_of_key hr hmem ((of_decide_eq_true hrid).trans hid.symm)
          refine ⟨rfl, ?_⟩
          rintro (ho | ho) <;> rw [hclaim.1.1] at ho <;> cases ho
        have hstays := stays_update hmoved
        have hrows : ∀ r ∈ w.tables.jobs, decide (r.id = id) =
            true → RowOk servers w.snapshots (setStarted now r) := by
          intro r hr hrid
          obtain rfl := h.ids.eq_of_key hr hmem ((of_decide_eq_true hrid).trans hid.symm)
          refine rowOk_of_none (show ExportStatus.processing ≠ .ready by decide)
            ((h.rows r hr).1 ?_)
          rw [hclaim.1.1]
          decide
        have hspares : Spares w fun r => r.id = id :=
          fun r _ hrid => of_decide_eq_true hrid ▸ hclaim.2
        have hafter := h.update hspares hmoved hrows
        refine ⟨hafter.withGenerations fun g hg => ?_, hstays⟩
        rcases List.mem_append.mp hg with hg | hg
        · exact hafter.generations g hg
        · obtain rfl := List.mem_singleton.mp hg
          obtain ⟨j', hj', horigin, -⟩ := hstays j hmem
          exact ⟨j', hj', (origin_id horigin).trans hid, origin_filters horigin,
            origin_format horigin⟩
      · cases hstep
  | generate n =>
    simp only [Auditops.step] at hstep
    split at hstep
    next id f format hg =>
      have hread := h.withSnapshot (id, w.tables.events.audit)
      split at hstep
      · cases hstep
        exact ⟨hread.advance trivial, .refl _⟩
      next payload rows hgenerate =>
        cases hstep
        obtain ⟨j, hj, rfl, rfl, rfl⟩ := generationOk_at h hg
        exact ⟨hread.advance ⟨j, hj, rfl, _, List.mem_append_right _ (List.mem_singleton_self _),
          hgenerate⟩, .refl _⟩
    · cases hstep
  | generationFails n | archiveFails n | encryptionFails n =>
    simp only [Auditops.step] at hstep
    split at hstep
    · cases hstep
      exact ⟨h.advance trivial, .refl _⟩
    · cases hstep
  | encrypt n server random =>
    simp only [Auditops.step] at hstep
    split at hstep
    next id payload rows hg =>
      cases hstep
      obtain ⟨j, hj, hid, hmade⟩ := generationOk_at h hg
      exact ⟨h.advance ⟨j, hj, hid, payload, server, random, hmade, rfl⟩, .refl _⟩
    · cases hstep
  | finish n now =>
    simp only [Auditops.step] at hstep
    split at hstep
    next id e rows hg =>
      split at hstep
      · cases hstep
      next hfree =>
        split at hstep
        · cases hstep
          exact ⟨h.advance trivial, .refl _⟩
        next jobs hfinish =>
          cases hstep
          obtain ⟨version, hversion, rfl⟩ := Option.map_eq_some_iff.mp hfinish
          obtain ⟨j, hj, hid, payload, server, random, hmade, he⟩ := generationOk_at h hg
          have hmoved : ∀ r ∈ w.tables.jobs, isProcessing id r =
              true → (setReady rows e version now r).origin = r.origin ∧ ¬r.Over :=
            fun r _ hr => ⟨rfl, not_over_of_processing (of_isProcessing hr).2⟩
          have hspares : Spares w (isProcessing id) := fun r _ hr => (of_isProcessing hr).1 ▸ hfree
          have hafter := h.update hspares hmoved fun r hr hsel => ?_
          · exact ⟨hafter.advance (g := .ended) trivial, stays_update hmoved⟩
          obtain rfl := h.ids.eq_of_key hr hj ((of_isProcessing hsel).1.trans hid.symm)
          refine ⟨fun hne => absurd rfl hne, fun _ =>
            ⟨payload, rows, server, random, version, ?_, ?_⟩⟩
          · exact hmade.of_origin rfl (List.Subset.refl _)
          · rw [← he]
            exact ⟨rfl, rfl, rfl, hint2 _ _ hversion⟩
    · cases hstep
  | fail n now =>
    simp only [Auditops.step] at hstep
    split at hstep
    next id code hg =>
      split at hstep
      · cases hstep
      next hfree =>
        cases hstep
        have hmoved : ∀ r ∈ w.tables.jobs, isProcessing id r =
            true → (setFailed code now r).origin = r.origin ∧ ¬r.Over :=
          fun r _ hr => ⟨rfl, not_over_of_processing (of_isProcessing hr).2⟩
        have hspares : Spares w (isProcessing id) := fun r _ hr => (of_isProcessing hr).1 ▸ hfree
        have hafter := h.update hspares hmoved fun r hr hsel => ?_
        · exact ⟨hafter.advance (g := .ended) trivial, stays_update hmoved⟩
        refine rowOk_of_none (show ExportStatus.failed ≠ .ready by decide) ((h.rows r hr).1 ?_)
        rw [(of_isProcessing hsel).2]
        decide
    · cases hstep
  | crash n =>
    cases hstep
    exact ⟨h.advance trivial, .refl _⟩
  | expire now unseen =>
    simp only [Auditops.step] at hstep
    split at hstep
    · cases hstep
    next hfree =>
      cases hstep
      have hmoved : ∀ r ∈ w.tables.jobs, decide (Expirable now r ∧ r.id ∉ unseen) =
          true → r.erased.origin = r.origin ∧ ¬r.Over := by
        intro r _ hr
        obtain ⟨-, hstatus⟩ := (of_decide_eq_true hr).1
        refine ⟨rfl, ?_⟩
        rintro (ho | ho) <;> rw [ho] at hstatus <;> simp at hstatus
      have hspares : Spares w fun r => decide (Expirable now r ∧ r.id ∉ unseen) :=
        fun r hr hsel hlocked =>
        hfree ⟨r, hr, (of_decide_eq_true hsel).1, (of_decide_eq_true hsel).2, hlocked⟩
      exact ⟨h.update hspares hmoved fun r _ _ =>
        rowOk_of_none (show ExportStatus.expired ≠ .ready by decide) rfl,
        stays_update hmoved⟩
  | lock actor id audit =>
    simp only [Auditops.step] at hstep
    split at hstep
    · cases hstep
      exact ⟨h, .refl _⟩
    split at hstep
    · cases hstep
      exact ⟨h, .refl _⟩
    next j hj =>
      split at hstep
      · cases hstep
      next hfree =>
        cases hstep
        refine ⟨⟨h.ids, h.fingerprints, h.rows, h.generations, fun m actor' audit' r hd =>
          ?_, ?_, h.returned, h.once⟩, .refl _⟩
        · rcases Locks.concat_cases hd with ⟨-, he⟩ | ⟨-, hd⟩
          · cases he
            exact List.mem_of_find?_eq_some hj
          · exact h.downloads m actor' audit' r hd
        · exact h.exclusive.concat fun id hid d hd hheld => hfree ⟨d, hd, hheld.trans hid.symm⟩
  | consume n server now downloadedAt t =>
    simp only [Auditops.step] at hstep
    split at hstep
    next actor audit j hd =>
      split at hstep
      · cases hstep
        exact ⟨h.endDownload, .refl _⟩
      next payload s hconsume =>
        cases hstep
        exact h.consume hagree hd hconsume
    · cases hstep
  | rollback n =>
    cases hstep
    exact ⟨h.endDownload, .refl _⟩
  | others events =>
    cases hstep
    exact ⟨⟨h.ids, h.fingerprints, h.rows, h.generations, h.downloads, h.exclusive,
      h.returned, h.once⟩, .refl _⟩

/-- A payload is returned by the step that takes it from its job and records the download. -/
def HandsOut (w : World) (r : Returned) (w' : World) : Prop :=
  ∃ j ∈ w.tables.jobs, j.id = r.job ∧ j.status = .ready ∧ r.reading < j.expiresAt ∧
    (∃ j' ∈ w'.tables.jobs, j'.id = j.id ∧ j'.downloadedAt.isSome = true ∧
      j'.payloadCipher = none ∧ j'.nonce = none) ∧
    ∃ e, e.action = "audit.export_downloaded" ∧ e.targetId = j.id.text ∧
      w'.tables.events.audit = w.tables.events.audit ++ [e]

theorem returned_step (h : Inv sha256 servers w) {l : Label}
    (hstep : Auditops.step sha256 int2 servers w l = some w') :
    w'.returned = w.returned ∨ ∃ r, w'.returned = w.returned ++ [r] ∧ HandsOut w r w' := by
  cases l with
  | consume n server now downloadedAt t =>
    simp only [Auditops.step] at hstep
    split at hstep
    next actor audit j hd =>
      split at hstep
      · cases hstep
        exact .inl rfl
      next payload s hconsume =>
        cases hstep
        obtain ⟨hopen, hone, rfl⟩ := consumeJob_ok hconsume
        obtain ⟨-, hnow, hready, -⟩ := openPayload_ok hopen
        have hj := h.downloads n actor audit j hd
        obtain ⟨r, hr, hc⟩ :=
          List.countP_pos_iff.mp (by omega : 0 < w.tables.jobs.countP (consumable j))
        obtain ⟨rfl, -⟩ := consumable_iff h hj hr hc
        have hrow : r.downloaded downloadedAt ∈ update (consumable r)
            (AuditExportJob.downloaded downloadedAt) w.tables.jobs :=
          mem_update.mpr ⟨r, hr, if_pos hc⟩
        refine .inr ⟨⟨r.id, payload, now⟩, rfl, r, hr, rfl, hready, hnow,
          ⟨_, hrow, rfl, rfl, rfl, rfl⟩,
          auditRow (auditParams actor audit "audit.export_downloaded" r.id 200 (downloadMetadata r))
            t, ?_, ?_, rfl⟩
        · rfl
        · rfl
    · cases hstep
  | _ =>
    left
    simp only [Auditops.step] at hstep
    repeat' split at hstep
    all_goals cases hstep
    all_goals rfl

end steps

section runs

variable {w w' : World} {events : EventTables} {ls : List Label}

/-- No job has been requested. -/
def start (events : EventTables) : World := { tables := { events := events } }

theorem inv_run (hsha : Function.Injective sha256) (hint2 : ∀ v i, int2 v = some i → i.toInt = v)
    (hagree : ∀ i k, (servers i).Agree (servers k)) (hw : Inv sha256 servers w)
    (hrun : Runs.Run (Runs.Steps (step sha256 int2 servers)) w ls w') :
    Inv sha256 servers w' ∧ Stays w.tables.jobs w'.tables.jobs := by
  induction hrun with
  | nil w => exact ⟨hw, .refl _⟩
  | cons hstep _ ih =>
    obtain ⟨hu, hstays⟩ := hw.step hsha hint2 hagree hstep
    obtain ⟨hw', hstays'⟩ := ih hu
    exact ⟨hw', hstays.trans hstays'⟩

theorem inv_start : Inv sha256 servers (start events) where
  ids := keyed_nil
  fingerprints j hj := by cases hj
  rows j hj := by cases hj
  generations g hg := by cases hg
  downloads n actor audit j hd := by cases hd
  exclusive := Locks.heldOnce_nil
  returned r hr := by cases hr
  once := List.nodup_nil

/-- What is promised of exports in a state and from it on. -/
structure OneShot (sha256 : Bytes → Bytes) (int2 : Int → Option Int16)
    (servers : Nat → Cryptor aead) (w : World) : Prop where
  /-- No two downloads have returned the payload of one job. -/
  once : (w.returned.map Returned.job).Nodup
  /-- A payload was returned before its job expired, and is the text of all events that the
  filter of the job selects among those some generation of the job has read. -/
  faithful : ∀ r ∈ w.returned, ∃ j ∈ w.tables.jobs, j.id = r.job ∧ r.reading < j.expiresAt ∧
    ∃ read rows, (j.id, read) ∈ w.snapshots ∧ Exports j.filters read rows ∧
      rows.length ≤ maxExportRows ∧
      r.payload = encode j.format rows
  /-- The step that returns a payload erases it and records the download. -/
  atomic : ∀ l w', step sha256 int2 servers w l = some w' →
    w'.returned = w.returned ∨ ∃ r, w'.returned = w.returned ++ [r] ∧ HandsOut w r w'
  /-- A job that is consumed, expired or failed is never ready again. -/
  final : ∀ ls w', Runs.Run (Runs.Steps (step sha256 int2 servers)) w ls w' → ∀ j ∈
    w.tables.jobs, j.Over →
    j ∈ w'.tables.jobs ∧ ∀ j' ∈ w'.tables.jobs, j'.id = j.id → j'.status ≠ .ready

end runs

section sample

def sampleFilter : ExportFilter where
  from_ := ⟨2025, 7, 1, 0, 0, 0, 0, 0⟩
  to_ := ⟨2025, 7, 31, 0, 0, 0, 0, -180⟩
  actorKind := ""
  actorSubject := ""
  action := ""
  targetType := ""
  targetId := ""
  requestId := ""
  result := ""

def sampleActor : ExportActor := ⟨"shared_admin_token", "", "admin", ""⟩

def sampleSha : Bytes → Bytes := hashKnowing [sampleFilter.json.marshal ++ utf8 "\x00csv"]

/-- The numbers of a `smallint`. -/
def sampleInt2 (v : Int) : Option Int16 :=
  if -32768 ≤ v ∧ v < 32768 then some (Int16.ofInt v) else none

theorem sampleInt2_toInt : ∀ v i, sampleInt2 v = some i → i.toInt = v := by
  intro v i h
  simp only [sampleInt2, Option.ite_none_right_eq_some, Option.some.injEq] at h
  obtain ⟨⟨hlow, hhigh⟩, rfl⟩ := h
  have hsize : Int16.size = 65536 := rfl
  rw [Int16.toInt_ofInt, Int.bmod_def, hsize]
  omega

def sampleServers (_ : Nat) : Cryptor Aead.tagged := .single Aead.tagged 7

/-- A job is created, processed and downloaded, and a second download is refused. -/
def sampleExport : List Label :=
  let t (n : Nat) : Tick :=
    ⟨1752000000000000 + n, fun k => Fin.ofNat _ (100 * n + k + 1), fun _ => 0, .plain⟩
  let audit : DownloadAudit := ⟨"req", "POST", "/v1/admin/audit-exports"⟩
  [.create sampleActor 5 sampleFilter "csv" true audit 0 (t 1), .generate 0,
   .encrypt 0 0 fun _ => 0, .finish 0 1,
   .lock sampleActor 102 audit, .consume 0 0 2 2 (t 2), .lock sampleActor 102 audit,
   .consume 1 0 3 3 (t 3)]

end sample

end Tenancit.Auditops
