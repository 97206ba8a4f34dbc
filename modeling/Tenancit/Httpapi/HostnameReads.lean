import Tenancit.Httpapi.AuditOctets
import Tenancit.Httpapi.Names
import Tenancit.Httpapi.ResolveTag
import Tenancit.Service.HostnameMigration
import Tenancit.Service.HostnameSpelling
import Tenancit.Service.Resolve

/-!
The host names that requests write and consumers read: whatever spelling a domain is written
with, it is found under all spellings with the same canonical form, and no others.
-/
namespace Tenancit.Httpapi

open Encoding Crypto Store Service Queries Table Text
open Program

/-- The request writes the host name of a domain of a tenant, given in this spelling. -/
inductive Request.WritesHostname (raw : String) (id : UUID) : Request → Prop
  | add (r : AdminRequest) : WritesHostname raw id (.addDomain r (some id) (.ok raw))
  | update (r : AdminRequest) (domainId : Option UUID) :
      WritesHostname raw id (.updateDomain r (some id) domainId (.ok raw))

/-- `TenantByHostname` finds the tenant of a row through the row. -/
def FindsRow (c : Catalog) (hostname : String) (d : TenantDomain) : Prop :=
  ∃ t, tenantByHostname hostname c = .ok t ∧ t.id = d.tenantId ∧
    lookup TenantDomain.hostname (canonicalHostname hostname) c.domains = some d

section reads

variable {c : Catalog} {d : TenantDomain} {t : Tenant}

/-- A row of an active tenant is found under the spellings of its host name. -/
theorem findsRow_iff (hc : c.Named) (hd : d ∈ c.domains) (ht : t ∈ c.tenants)
    (hid : t.id = d.tenantId) (hactive : t.status = .active) (hne : d.hostname ≠ "")
    (hostname : String) :
    FindsRow c hostname d ↔ canonicalHostname hostname = d.hostname := by
  constructor
  · rintro ⟨t', -, -, hlookup⟩
    exact (key_of_lookup hlookup).symm
  · intro heq
    have hlookup : lookup TenantDomain.hostname d.hostname c.domains = some d :=
      (lookup_eq_some hc.hostnames).mpr ⟨hd, rfl⟩
    have htenant : lookup Tenant.id d.tenantId c.tenants = some t :=
      (lookup_eq_some hc.tenantIds).mpr ⟨ht, hid⟩
    refine ⟨t, ?_, hid, heq ▸ hlookup⟩
    simp [tenantByHostname, heq, hne, getTenantByHostname, hlookup, htenant, one,
      availableTenant, hactive]

/-- The function's results meet the constraint of the table. -/
theorem hostnameCanonical_canonicalHostname {s : String} (h : canonicalHostname s ≠ "") :
    hostnameCanonical (canonicalHostname s) = true := by
  rcases canonicalHostname_eq s with ⟨hname, heq⟩ | ⟨-, heq⟩
  · have hascii : ∀ c ∈ (bareName s).map lowerChar, c.toNat < 128 :=
      fun c hc => (hname.ascii c hc).2
    have hlower : ((bareName s).map lowerChar).map lowerChar = (bareName s).map lowerChar := by
      refine (List.map_congr_left fun c hc => ?_).trans (List.map_id _)
      obtain ⟨c', hc', rfl⟩ := List.mem_map.mp hc
      rw [lowerChar_eq_self (hascii _ hc)]
      · rfl
      · rw [← lowerChar_foldChar]
        exact lowerChar_not_upper (foldChar_ascii (hascii _ hc))
    refine hostnameCanonical_iff.mpr ⟨h, ?_, ?_⟩
    · have hpadded :=
        @canonicalForm_padded (canonicalHostname s) [] _ [] [] (by simp) hname (by simp)
          (by simp) (by simp [heq])
      rw [← String.toList_inj, hpadded, hlower, heq, String.toList_ofList]
    · rw [heq, octetLength_eq_length_iff.mpr hascii]
      simp
  · exact absurd heq h

end reads

section writes

variable {Key : Type} {aead : Aead Key} {x : Served aead} {raw : String} {id : UUID}
  {d d' : Database} {ticks ts' : List Tick} {res : Response} {c c' : Catalog}

theorem checkHostname_ok {emptyMessage : Option String} {hostname : String}
    (h : checkHostname emptyMessage raw = .ok hostname) :
    canonicalHostname raw ≠ "" ∧ hostname = canonicalHostname raw := by
  simp only [checkHostname, ite_error_eq_ok] at h
  exact ⟨h.2.1, (Except.ok.inj h.2.2).symm⟩

/-- A domain row of the tenant with the host name. -/
def HasDomain (c : Catalog) (hostname : String) (id : UUID) : Prop :=
  ∃ row ∈ c.domains, row.hostname = hostname ∧ row.tenantId = id

theorem Change.addDomain_stored {hostname : String} {now : Timestamp} {row : TenantDomain}
    (h : Change.addDomain id hostname now ticks c = .ok (row, ts', c')) :
    HasDomain c' hostname id := by
  obtain ⟨tick, hadd⟩ := statement_ok h
  obtain ⟨hhostname, htenant⟩ := addTenantDomain_row hadd
  obtain ⟨-, rfl⟩ := addTenantDomain_ok hadd
  exact ⟨row, List.mem_append_right _ (.head _), hhostname, htenant⟩

theorem Change.updateDomain_stored {hostname : String} {domainId : UUID}
    {rows : TenantDomain × TenantDomain}
    (h : Change.updateDomain id domainId hostname ticks c = .ok (rows, ts', c')) :
    HasDomain c' hostname id := by
  obtain ⟨-, tick, hupdate⟩ := change_ok h
  obtain ⟨⟨row, hrow, hid, htenant⟩, -, rfl⟩ := updateTenantDomain_ok hupdate
  exact ⟨setHostname hostname row, mem_update.mpr ⟨row, hrow, by simp [hid, htenant]⟩, rfl, htenant⟩

theorem addDomain_stored {r : AdminRequest}
    (h : addDomain insertAdminAuditSuccess r (some id) (.ok raw) ticks d = .ok (res, ts', d')) :
    canonicalHostname raw ≠ "" ∧ HasDomain d'.domain.catalog (canonicalHostname raw) id := by
  obtain ⟨id', hid, h₁⟩ := Tx.ofExcept_bind_eq_ok.mp h
  obtain ⟨hostname, hb, h₂⟩ := Tx.ofExcept_bind_eq_ok.mp h₁
  obtain ⟨begun, pre, row, ts, ts₁, ts₂, -, -, hchange, -⟩ :=
    auditedMutation_ok (fun _ => Reads.pure _) h₂
  obtain ⟨c, hc, hdomain⟩ := Tx.onPart_eq_ok.mp hchange
  obtain ⟨raw', hraw, hb⟩ := bind_eq_ok.mp hb
  obtain ⟨hne, heq⟩ := checkHostname_ok hb
  obtain rfl := Except.ok.inj hraw
  rw [Option.some.inj (parse_eq_ok.mp hid), ← heq, hdomain]
  exact ⟨heq ▸ hne, Change.addDomain_stored hc⟩

theorem updateDomain_stored {r : AdminRequest} {domainId : Option UUID}
    (h : updateDomain insertAdminAuditSuccess r (some id) domainId (.ok raw) ticks
      d = .ok (res, ts', d')) :
    canonicalHostname raw ≠ "" ∧ HasDomain d'.domain.catalog (canonicalHostname raw) id := by
  obtain ⟨id', hid, h₁⟩ := Tx.ofExcept_bind_eq_ok.mp h
  obtain ⟨domainId', -, h₂⟩ := Tx.ofExcept_bind_eq_ok.mp h₁
  obtain ⟨hostname, hb, h₃⟩ := Tx.ofExcept_bind_eq_ok.mp h₂
  obtain ⟨begun, pre, row, ts, ts₁, ts₂, -, -, hchange, -⟩ :=
    auditedMutation_ok (fun _ => Reads.pure _) h₃
  obtain ⟨c, hc, hdomain⟩ := Tx.onPart_eq_ok.mp hchange
  obtain ⟨raw', hraw, hb⟩ := bind_eq_ok.mp hb
  obtain ⟨hne, heq⟩ := checkHostname_ok hb
  obtain rfl := Except.ok.inj hraw
  rw [Option.some.inj (parse_eq_ok.mp hid), ← heq, hdomain]
  exact ⟨heq ▸ hne, Change.updateDomain_stored hc⟩

/-- A write that commits leaves a row of the tenant with the canonical host name. -/
theorem Request.WritesHostname.stored (hx : x.request.WritesHostname raw id)
    (h : (serve x.server x.request x.ticks d).committed = true) :
    canonicalHostname raw ≠ "" ∧
    HasDomain (x.after d).domain.catalog (canonicalHostname raw) id := by
  obtain ⟨res, ts', hok⟩ := Served.committed h
  generalize hreq : x.request = request at hx hok
  cases hx with
  | add r => exact addDomain_stored hok
  | update r domainId => exact updateDomain_stored hok

/-- However a host name is spelled, the function's result is stable and meets the constraint
of the table; and from the commit of a request that stores it for a tenant on, as long as its
row is there and the tenant is active, exactly the spellings with the same canonical form find
that row. -/
theorem hostname_written_is_read (raw : String) (hraw : canonicalHostname raw ≠ "") :
    canonicalHostname (canonicalHostname raw) = canonicalHostname raw ∧
    hostnameCanonical (canonicalHostname raw) = true ∧
    ∀ {Key : Type} {aead : Aead Key} (xs : List (Served aead)) (d : Database)
    (x : Served aead) (id : UUID),
      Runs.Run Served.Step {} xs d → x.request.WritesHostname raw id →
      (serve x.server x.request x.ticks d).committed = true →
      ∃ row ∈ (x.after d).domain.catalog.domains, row.hostname =
        canonicalHostname raw ∧ row.tenantId = id ∧
        ∀ (ys : List (Served aead)) (e : Database), Runs.Run Served.Step (x.after d) ys e → row ∈
          e.domain.catalog.domains →
          (∃ t ∈ e.domain.catalog.tenants, t.id = id ∧ t.status = .active) →
          ∀ hostname, FindsRow e.domain.catalog hostname row ↔ canonicalHostname hostname =
            canonicalHostname raw := by
  refine ⟨canonicalHostname_idempotent hraw, hostnameCanonical_canonicalHostname hraw, ?_⟩
  intro Key aead xs d x id hrun hwrites hcommitted
  obtain ⟨hne, row, hrow, hhostname, htenant⟩ := hwrites.stored hcommitted
  refine ⟨row, hrow, hhostname, htenant, fun ys e hlater hstays hactive hostname => ?_⟩
  obtain ⟨t, ht, hid, hstatus⟩ := hactive
  have hnamed : e.domain.catalog.Named := named_run ((hrun.snoc rfl).append hlater)
  rw [← hhostname]
  exact findsRow_iff hnamed hstays ht (hid.trans htenant.symm) hstatus (hhostname ▸ hne) hostname

/-- A host name of the sample's tenant, written with blanks, capitals and a dot at the end. -/
def sampleDomain : Served Aead.tagged :=
  sampleServed 6 (.addDomain (sampleAdmin 0) (some sampleTenantId) (.ok " App.Example. "))

theorem sampleDomain_committed :
    (serve sampleDomain.server sampleDomain.request sampleDomain.ticks sampleTenantOnly).committed =
      true ∧
    ∃ t ∈ (sampleDomain.after sampleTenantOnly).domain.catalog.tenants,
    t.id = sampleTenantId ∧ t.status = .active := by
  decide +kernel

theorem hostname_found_under_spellings :
    ∃ row ∈ (sampleDomain.after sampleTenantOnly).domain.catalog.domains,
      FindsRow (sampleDomain.after sampleTenantOnly).domain.catalog "APP.example" row ∧
      ¬FindsRow (sampleDomain.after sampleTenantOnly).domain.catalog "app.example.org" row := by
  obtain ⟨hcommitted, hactive⟩ := sampleDomain_committed
  have hreads :=
    (hostname_written_is_read " App.Example. " (by decide +kernel)).2.2
      (sampleSetup.take 1) sampleTenantOnly
    sampleDomain sampleTenantId (run_afterAll _ _) (.add _) hcommitted
  generalize sampleDomain.after sampleTenantOnly = e at hreads hactive
  obtain ⟨row, hrow, -, -, hfinds⟩ := hreads
  have hfinds := hfinds [] e (.nil _) hrow hactive
  exact ⟨row, hrow, (hfinds _).mpr (by decide +kernel), fun h =>
    absurd ((hfinds _).mp h) (by decide +kernel)⟩

end writes

end Tenancit.Httpapi
