import Tenancit.Service.Hostname
import Tenancit.Service.Resolve

/-!
The canonical hostnames of migration 00002, over the tables of migration 00001. The
migration and the resolver each have a canonical form of their own; a row is found under
its hostname exactly if they agree on it.
-/
namespace Tenancit.Service

open Store Table Text Queries

/-- A row of `tenants` whose status is still any text. -/
structure InitialTenant where
  id : UUID
  slug : String
  name : String
  status : String
  createdAt : Timestamp
  updatedAt : Timestamp

structure InitialTables where
  tenants : List InitialTenant
  domains : List TenantDomain

/-- The constraints of migration 00001. -/
structure InitialTables.Legal (old : InitialTables) : Prop where
  tenantIds : Keyed InitialTenant.id old.tenants
  slugs : Keyed InitialTenant.slug old.tenants
  domainIds : Keyed TenantDomain.id old.domains
  hostnames : Keyed TenantDomain.hostname old.domains
  owners : ∀ d ∈ old.domains, ∃ t ∈ old.tenants, t.id = d.tenantId

inductive MigrationError where
  | nonAscii
  | collision
  | status
  | store (err : PgError)

/-- `lower(rtrim(btrim(hostname), '.'))` -/
def canonicalForm (hostname : String) : String :=
  toLower (String.ofList ((btrim hostname).toList.rdropWhile (· = '.')))

/-- A row after the migration's `UPDATE`. -/
def canonicalRow (d : TenantDomain) : TenantDomain :=
  { d with hostname := canonicalForm d.hostname }

@[simp] theorem canonicalRow_hostname (d : TenantDomain) :
    (canonicalRow d).hostname = canonicalForm d.hostname := rfl

-- By unfolding, not by reflexivity, which would compare the two rows.
@[simp] theorem canonicalRow_tenantId (d : TenantDomain) :
    (canonicalRow d).tenantId = d.tenantId := by
  simp only [canonicalRow]

/-- The `UPDATE`, one row after the other. The unique index is looked at for each, when the
rows behind it still have their old hostnames. -/
def updateHostnames : List TenantDomain → List TenantDomain → Except PgError (List TenantDomain)
  | done, [] => .ok done
  | done, d :: todo =>
    if ∃ x ∈ done ++ todo, x.hostname = canonicalForm d.hostname then .error .uniqueViolation
    else updateHostnames (done ++ [canonicalRow d]) todo

/-- A tenant whose status the check constraint admits. -/
def InitialTenant.constrained (t : InitialTenant) : Option Tenant :=
  (Status.parse t.status).map fun status => ⟨t.id, t.slug, t.name, status, t.createdAt, t.updatedAt⟩

/-- The migration: its three checks, the `UPDATE` and the constraint on the hostnames it
left. The tables of `rest` are not touched. -/
def migrateHostnames (old : InitialTables) (rest : Catalog) : Except MigrationError Catalog :=
  if ∃ d ∈ old.domains, octetLength d.hostname ≠ d.hostname.length then .error .nonAscii
  else if ¬(old.domains.map fun d => canonicalForm d.hostname).Nodup then .error .collision
  else if ∃ t ∈ old.tenants, Status.parse t.status = none then .error .status
  else match updateHostnames [] old.domains with
    | .error err => .error (.store err)
    | .ok domains =>
      if ∃ d ∈ domains, hostnameCanonical d.hostname = false then .error (.store .checkViolation)
      -- No tenant is left out here: the third check has passed.
      else .ok { rest with
        tenants := old.tenants.filterMap InitialTenant.constrained, domains := domains }

/-- A host name in either case, with any number of dots behind it and blanks around it. -/
def PaddedHostname (h : String) : Prop := ∃ as name dots bs :
    List Char, (∀ a ∈ as, a = ' ') ∧ Hostname name ∧
  (∀ d ∈ dots, d = '.') ∧ (∀ b ∈ bs, b = ' ') ∧ h.toList = as ++ ((name ++ dots) ++ bs)

/-- The row is found under its own hostname, and its tenant with it. -/
def Found (c : Catalog) (d : TenantDomain) : Prop :=
  lookup TenantDomain.hostname (canonicalHostname d.hostname) c.domains = some d ∧
    ∃ t ∈ c.tenants, t.id = d.tenantId ∧ tenantByHostname d.hostname c = .ok t

section form

variable {h : String}

theorem canonicalForm_toList (h : String) :
    (canonicalForm h).toList = ((trim (· = ' ') h.toList).rdropWhile (· = '.')).map lowerChar := by
  rw [canonicalForm, toLower, String.toList_ofList, String.toList_ofList,
    btrim, String.toList_ofList]

/-- What the constraint asks for: a fixed point of the canonical form, of ASCII characters. -/
theorem hostnameCanonical_iff :
    hostnameCanonical h = true ↔ h ≠ "" ∧ canonicalForm h = h ∧ octetLength h = h.length := by
  have hform : h.toList = ((btrim h).toList.reverse.dropWhile (· = '.')).reverse.map lowerChar ↔
      canonicalForm h = h := by
    rw [← String.toList_inj, canonicalForm_toList, btrim, String.toList_ofList]
    exact eq_comm
  simp only [hostnameCanonical, Bool.and_eq_true, bne_iff_ne, decide_eq_true_eq, hform, and_assoc]

theorem ascii_of_octets (hoctets : octetLength h = h.length) : ∀ c ∈ h.toList, c.toNat < 128 := by
  refine octetLength_eq_length_iff.mp ?_
  rw [String.ofList_toList, hoctets, String.length_toList]

theorem mem_of_mem_stripped {c : Char} (hc : c ∈ (trim (· = ' ') h.toList).rdropWhile (· = '.')) :
    c ∈ h.toList := by
  obtain ⟨as, bs, -, -, htrim⟩ := exists_trim (· = ' ') h.toList
  rw [htrim]
  exact List.mem_append_right _ (List.mem_append_left _ ((List.rdropWhile_prefix _ _).subset hc))

/-- The canonical form of a padded host name is the name, in lower case. -/
theorem canonicalForm_padded {as name dots bs : List Char} (ha : ∀ a ∈ as, a = ' ')
    (hname : Hostname name) (hd : ∀ d ∈ dots, d = '.') (hb : ∀ b ∈ bs, b = ' ')
    (hh : h.toList = as ++ ((name ++ dots) ++ bs)) :
    (canonicalForm h).toList = name.map lowerChar := by
  have hblank : ∀ c ∈ name ++ dots, decide (c = ' ') = false := by
    intro c hc
    refine decide_eq_false ?_
    rintro rfl
    rcases List.mem_append.mp hc with hc | hc
    · exact absurd (hname.ascii _ hc).1 (by decide)
    · exact absurd (hd _ hc) (by decide)
  have htrim : trim (· = ' ') h.toList = name ++ dots := by
    rw [hh]
    exact trim_append (fun a h => decide_eq_true (ha a h)) (fun b h => decide_eq_true (hb b h))
      (fun c hc => hblank c (List.mem_of_mem_head? hc)) fun c hc =>
        hblank c (List.mem_of_getLast? hc)
  have hlast : ∀ c ∈ name.getLast?, decide (c = '.') = false := by
    intro c hc
    refine decide_eq_false ?_
    rintro rfl
    exact hname.getLast?_ne hc
  rw [canonicalForm_toList, htrim, rdropWhile_append_of_pos fun d h => decide_eq_true (hd d h),
    rdropWhile_eq_self hlast]

/-- An ASCII text is a padded host name exactly if its canonical form is a host name. -/
theorem hostname_canonicalForm_iff (hascii : ∀ c ∈ h.toList, c.toNat < 128) :
    Hostname (canonicalForm h).toList ↔ PaddedHostname h := by
  constructor
  · intro hform
    obtain ⟨as, bs, ha, hb, hh⟩ := exists_trim (· = ' ') h.toList
    obtain ⟨dots, hd, htrim⟩ := exists_rdropWhile (· = '.') (trim (· = ' ') h.toList)
    rw [htrim] at hh
    refine ⟨as, _, dots, bs, fun a h => of_decide_eq_true (ha a h), ?_, fun d h =>
      of_decide_eq_true (hd d h),
      fun b h => of_decide_eq_true (hb b h), hh⟩
    rw [canonicalForm_toList] at hform
    exact (hostname_lower fun c hc => hascii c (mem_of_mem_stripped hc)).mp hform
  · rintro ⟨as, name, dots, bs, ha, hname, hd, hb, hh⟩
    rw [canonicalForm_padded ha hname hd hb hh]
    exact (hostname_lower fun c hc => (hname.ascii c hc).2).mpr hname

/-- The two canonical forms agree on the hostname that the migration stores exactly if what
it replaces is a padded host name. -/
theorem canonicalHostname_canonicalForm (hascii : ∀ c ∈ h.toList, c.toNat < 128)
    (hne : canonicalForm h ≠ "") :
    canonicalHostname (canonicalForm h) = canonicalForm h ↔ PaddedHostname h := by
  have hupper : ∀ c ∈ (canonicalForm h).toList, ¬('A' ≤ c ∧ c ≤ 'Z') := by
    rw [canonicalForm_toList, List.forall_mem_map]
    exact fun c hc => lowerChar_not_upper (hascii c (mem_of_mem_stripped hc))
  have hself := canonicalHostname_eq_self (h := canonicalForm h)
  rw [and_iff_left hne, and_iff_left hupper] at hself
  exact hself.trans (hostname_canonicalForm_iff hascii)

end form

section migration

variable {old : InitialTables} {rest c : Catalog} {done todo domains : List TenantDomain}

theorem updateHostnames_ok (h : updateHostnames done todo = .ok domains) :
    domains = done ++ todo.map canonicalRow := by
  induction todo generalizing done with
  | nil =>
    obtain rfl := Except.ok.inj h
    exact (List.append_nil _).symm
  | cons d todo ih =>
    rw [updateHostnames] at h
    split at h
    · cases h
    · rw [ih h, List.append_assoc]
      rfl

/-- What the migration leaves: every row, under its canonical form. -/
structure Migrated (old : InitialTables) (c : Catalog) : Prop where
  ascii : ∀ d ∈ old.domains, ∀ x ∈ d.hostname.toList, x.toNat < 128
  tenants : c.tenants = old.tenants.filterMap InitialTenant.constrained
  domains : c.domains = old.domains.map canonicalRow
  hostnames : Keyed TenantDomain.hostname c.domains
  nonempty : ∀ d ∈ c.domains, d.hostname ≠ ""

theorem migrateHostnames_ok (h : migrateHostnames old rest = .ok c) : Migrated old c := by
  rw [migrateHostnames] at h
  split at h
  · cases h
  next hascii =>
  split at h
  · cases h
  next hnodup =>
  split at h
  · cases h
  split at h
  · cases h
  next domains hupdate =>
  split at h
  · cases h
  next hcheck =>
  obtain rfl := Except.ok.inj h
  have hdomains : domains = old.domains.map canonicalRow := updateHostnames_ok hupdate
  push Not at hascii hcheck hnodup
  refine ⟨fun d hd => ascii_of_octets (hascii d hd), rfl, hdomains, ?_, fun d hd => ?_⟩
  · rw [Keyed, hdomains, List.map_map]
    exact hnodup
  · exact (hostnameCanonical_iff.mp (by simpa using hcheck d hd)).1

variable {d : TenantDomain}

/-- A row is found as itself exactly if the resolver does not change its hostname. -/
theorem Migrated.lookup_iff (h : Migrated old c) (hd : d ∈ c.domains) :
    lookup TenantDomain.hostname (canonicalHostname d.hostname) c.domains = some d ↔
      canonicalHostname d.hostname = d.hostname := by
  rw [lookup_eq_some h.hostnames, and_iff_right hd]
  exact eq_comm

theorem parse_eq_some {s : String} {status : Status} :
    Status.parse s = some status ↔ s = status.text := by
  constructor
  · intro h
    rw [Status.parse] at h
    split at h
    next hs =>
      obtain rfl := Option.some.inj h
      exact hs
    next =>
      split at h
      next hs =>
        obtain rfl := Option.some.inj h
        exact hs
      next => cases h
  · rintro rfl
    cases status <;> decide +kernel

theorem constrained_eq_some {x : InitialTenant} {t : Tenant} : x.constrained = some t ↔
    x.status = t.status.text ∧ t = ⟨x.id, x.slug, x.name, t.status, x.createdAt, x.updatedAt⟩ := by
  simp only [InitialTenant.constrained, Option.map_eq_some_iff, parse_eq_some]
  constructor
  · rintro ⟨status, hstatus, rfl⟩
    exact ⟨hstatus, rfl⟩
  · rintro ⟨hstatus, ht⟩
    exact ⟨t.status, hstatus, ht.symm⟩

theorem Migrated.tenantIds (hold : old.Legal) (h : Migrated old c) : Keyed Tenant.id c.tenants := by
  have hids := List.pairwise_map.mp hold.tenantIds
  rw [Keyed, h.tenants]
  refine List.pairwise_map.mpr (hids.filterMap _ fun x y hne t ht u hu => ?_)
  rw [(constrained_eq_some.mp ht).2, (constrained_eq_some.mp hu).2]
  exact hne

/-- The tenants that are active after the migration were so before. -/
theorem Migrated.active_iff (h : Migrated old c) {id : UUID} :
    (∃ t ∈ c.tenants, t.id = id ∧ t.status = .active) ↔ ∃ t ∈ old.tenants,
    t.id = id ∧ t.status = "active" := by
  rw [h.tenants]
  constructor
  · rintro ⟨t, ht, rfl, hactive⟩
    obtain ⟨x, hx, ht⟩ := List.mem_filterMap.mp ht
    obtain ⟨hstatus, ht⟩ := constrained_eq_some.mp ht
    rw [hactive] at hstatus
    rw [ht]
    exact ⟨x, hx, rfl, hstatus⟩
  · rintro ⟨x, hx, rfl, hactive⟩
    exact ⟨⟨x.id, x.slug, x.name, .active, x.createdAt, x.updatedAt⟩,
      List.mem_filterMap.mpr ⟨x, hx, constrained_eq_some.mpr ⟨hactive, rfl⟩⟩, rfl, rfl⟩

/-- A row of an active tenant is found exactly if the resolver does not change its
hostname. -/
theorem Migrated.found_iff (hold : old.Legal) (h : Migrated old c) (hd : d ∈ c.domains)
    (hactive : ∃ t ∈ c.tenants, t.id = d.tenantId ∧ t.status = .active) :
    Found c d ↔ canonicalHostname d.hostname = d.hostname := by
  rw [← h.lookup_iff hd, Found]
  refine and_iff_left_of_imp fun hlookup => ?_
  obtain ⟨t, ht, hid, hstatus⟩ := hactive
  have hne : canonicalHostname d.hostname ≠ "" := by
    rw [(h.lookup_iff hd).mp hlookup]
    exact h.nonempty d hd
  have htenant : getTenantByHostname (canonicalHostname d.hostname) c = .ok t := by
    rw [getTenantByHostname, hlookup, Option.bind_some,
      (lookup_eq_some (h.tenantIds hold)).mpr ⟨ht, hid⟩]
    rfl
  refine ⟨t, ht, hid, ?_⟩
  rw [tenantByHostname, if_neg hne, htenant, availableTenant, if_pos hstatus]

theorem Migrated.found_canonicalRow_iff (hold : old.Legal) (h : Migrated old c)
    (hd : d ∈ old.domains) (hactive : ∃ t ∈ old.tenants, t.id = d.tenantId ∧ t.status = "active") :
    Found c (canonicalRow d) ↔ PaddedHostname d.hostname := by
  have hrow : canonicalRow d ∈ c.domains := by
    rw [h.domains]
    exact List.mem_map_of_mem hd
  have hne := h.nonempty _ hrow
  rw [canonicalRow_hostname] at hne
  rw [← canonicalRow_tenantId, ← h.active_iff] at hactive
  rw [h.found_iff hold hrow hactive, canonicalRow_hostname]
  exact canonicalHostname_canonicalForm (h.ascii d hd) hne

/-- Every domain of an active tenant is found after the migration exactly if each was a host
name before, up to case, dots at its end and blanks around it. -/
theorem hostnames_found_iff (hold : old.Legal) (h : migrateHostnames old rest = .ok c) :
    (∀ d ∈ c.domains, (∃ t ∈ c.tenants, t.id = d.tenantId ∧ t.status = .active) → Found c d) ↔
      ∀ d ∈ old.domains, (∃ t ∈ old.tenants, t.id = d.tenantId ∧ t.status = "active") →
        PaddedHostname d.hostname := by
  have hm := migrateHostnames_ok h
  rw [hm.domains, List.forall_mem_map]
  refine forall₂_congr fun d hd => ?_
  rw [canonicalRow_tenantId, hm.active_iff]
  exact imp_congr_right fun hactive => hm.found_canonicalRow_iff hold hd hactive

end migration

/-- A tenant with one domain. -/
def sampleTables (hostname : String) : InitialTables :=
  ⟨[⟨1, "acme", "Acme", "active", 0, 0⟩], [⟨2, 1, hostname, 0⟩]⟩

theorem sampleTables_legal (hostname : String) : (sampleTables hostname).Legal where
  tenantIds := List.nodup_singleton _
  slugs := List.nodup_singleton _
  domainIds := List.nodup_singleton _
  hostnames := List.nodup_singleton _
  owners := by simp [sampleTables]

/-- The tables that the migration leaves. -/
def sampleCatalog (hostname : String) : Catalog :=
  { tenants := [⟨1, "acme", "Acme", .active, 0, 0⟩], domains := [⟨2, 1, hostname, 0⟩] }

theorem hostnames_found_sample :
    migrateHostnames (sampleTables " Acme.Example. ") {} = .ok (sampleCatalog "acme.example") ∧
    ((∀ d ∈ (sampleCatalog "acme.example").domains,
      (∃ t ∈ (sampleCatalog "acme.example").tenants, t.id = d.tenantId ∧ t.status = .active) →
        Found (sampleCatalog "acme.example") d) ↔
      ∀ d ∈ (sampleTables " Acme.Example. ").domains,
        (∃ t ∈ (sampleTables " Acme.Example. ").tenants, t.id = d.tenantId ∧ t.status = "active") →
          PaddedHostname d.hostname) := by
  have hmigrate : migrateHostnames (sampleTables " Acme.Example. ") {} =
      .ok (sampleCatalog "acme.example") := by
    rfl
  exact ⟨hmigrate, hostnames_found_iff (sampleTables_legal _) hmigrate⟩

/-- The migration keeps a hostname with an underscore, which the resolver refuses. -/
theorem underscored_hostname_lost : ¬∀ (old : InitialTables) (rest c : Catalog), old.Legal →
    migrateHostnames old rest = .ok c →
      ∀ d ∈ c.domains, (∃ t ∈ c.tenants, t.id = d.tenantId ∧ t.status = .active) → Found c d := by
  intro h
  have hmigrate : migrateHostnames (sampleTables "foo_bar.example") {} =
      .ok (sampleCatalog "foo_bar.example") := by
    rfl
  obtain ⟨hlookup, -⟩ := h _ _ _ (sampleTables_legal _) hmigrate _ (.head _) ⟨_, .head _, rfl, rfl⟩
  have hrefused : canonicalHostname "foo_bar.example" = "" := by decide +kernel
  have hnone : lookup TenantDomain.hostname "" (sampleCatalog "foo_bar.example").domains =
    none := by decide +kernel
  rw [hrefused, hnone] at hlookup
  cases hlookup

end Tenancit.Service
