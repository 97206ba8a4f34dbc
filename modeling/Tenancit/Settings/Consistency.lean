import Tenancit.Settings.Repository

/-!
What holds of the settings in every reachable state: the values in force are allowed and
ordered, a read that returned the revision in force returned the values in force, and only
the transaction that has the revision locked can move both on.
-/
namespace Tenancit.Settings

open Encoding Store Table Text Httpapi Locks

/-- Values that the definitions allow and that keep the policies between two settings. -/
structure Sound (values : Values) : Prop where
  allowed : ∀ key d, define key = some d → ∃ value, values key = some value ∧ d.Allows value
  defined : ∀ key value, values key = some value → ∃ d, define key = some d
  ordered : Ordered values

/-- Stored rows: one for each key, each of a setting there is and allowed. -/
structure Stored (rows : List Setting) : Prop where
  keyed : Keyed Setting.key rows
  allowed : ∀ r ∈ rows, ∃ d, define r.key = some d ∧ d.Allows r.value

section rows

variable {rows rows' : List Setting} {at_ : Timestamp} {actor : Actor} {entry : String × String}
  {entries : List (String × String)} {updates : Updates} {snapshot : Snapshot} {revision : Int}

theorem stored_nil : Stored [] where
  keyed := keyed_nil
  allowed := by simp

theorem upsertSetting_ok (h : upsertSetting at_ actor rows entry = some rows') (hrows : Stored rows)
    (hentry : ∃ d, define entry.1 = some d ∧ d.Allows entry.2) :
    Stored rows' ∧ readValues rows' = withEntries [entry] (readValues rows) := by
  have hkey : ∀ r, (Setting.overwritten at_ actor entry.2 r).key = r.key := fun r => rfl
  unfold upsertSetting at h
  split at h
  · cases h
  split at h
  next hstands =>
    cases h
    refine ⟨⟨hrows.keyed.update hkey, ?_⟩, ?_⟩
    · apply forall_mem_update hrows.allowed
      intro r hr hp
      have hp : r.key = entry.1 := by simpa using hp
      show ∃ d, define r.key = some d ∧ d.Allows entry.2
      rw [hp]
      exact hentry
    · funext key
      simp only [readValues, withEntries, lookup_update hkey, lookup_cons, lookup_nil]
      by_cases hk : entry.1 = key
      · obtain ⟨r, hr, hrk⟩ := hstands
        have hl : lookup Setting.key key rows = some r :=
          (lookup_eq_some hrows.keyed).mpr ⟨hr, hrk.trans hk⟩
        simp [hk, hl, hrk, Setting.overwritten]
      · rw [if_neg hk]
        cases hl : lookup Setting.key key rows with
        | none => rfl
        | some r =>
          have hne : ¬r.key = entry.1 := fun he => hk (he.symm.trans (key_of_lookup hl))
          simp [hne]
  next hnew =>
    cases h
    refine ⟨⟨hrows.keyed.append fun r hr he => hnew ⟨r, hr, he⟩, ?_⟩, ?_⟩
    · intro r hr
      rcases List.mem_append.mp hr with hr | hr
      · exact hrows.allowed r hr
      · obtain rfl := List.mem_singleton.mp hr
        exact hentry
    · funext key
      simp only [readValues, withEntries, lookup_append, lookup_cons, lookup_nil]
      by_cases hk : entry.1 = key
      · have hl : lookup Setting.key key rows = none :=
          lookup_eq_none.mpr fun r hr he => hnew ⟨r, hr, he.trans hk.symm⟩
        simp [hk, hl]
      · simp [hk]

theorem withEntries_cons (hkeyed : Keyed Prod.fst (entry :: entries)) (values : Values) :
    withEntries (entry :: entries) values = withEntries entries (withEntries [entry] values) := by
  obtain ⟨hfresh, -⟩ := List.nodup_cons.mp hkeyed
  funext key
  simp only [withEntries, lookup_cons, lookup_nil]
  by_cases hk : entry.1 = key
  · have hl : lookup Prod.fst key entries = none :=
      lookup_eq_none.mpr fun e he heq => hfresh (hk.trans heq.symm ▸ List.mem_map_of_mem he)
    simp [hk, hl]
  · simp [hk]

theorem upsertAll_ok (h : entries.foldlM (upsertSetting at_ actor) rows = some rows')
    (hrows : Stored rows) (hkeyed : Keyed Prod.fst entries)
    (hentries : ∀ e ∈ entries, ∃ d, define e.1 = some d ∧ d.Allows e.2) :
    Stored rows' ∧ readValues rows' = withEntries entries (readValues rows) := by
  induction entries generalizing rows with
  | nil =>
    cases h
    exact ⟨hrows, rfl⟩
  | cons e es ih =>
    obtain ⟨mid, hmid, h⟩ := Option.bind_eq_some_iff.mp h
    obtain ⟨hmidStored, hmidValues⟩ := upsertSetting_ok hmid hrows (hentries e (.head _))
    obtain ⟨hstored, hvalues⟩ :=
      ih h hmidStored (List.nodup_cons.mp hkeyed).2 fun x hx => hentries x (.tail _ hx)
    refine ⟨hstored, ?_⟩
    rw [hvalues, hmidValues, withEntries_cons hkeyed]

theorem Stored.define (h : Stored rows) {key value : String}
    (hv : readValues rows key = some value) :
    ∃ d, Settings.define key = some d ∧ d.Allows value := by
  obtain ⟨r, hr, rfl⟩ := Option.map_eq_some_iff.mp hv
  have hallowed := h.allowed r (mem_of_lookup hr)
  rwa [key_of_lookup hr] at hallowed

/-- Over stored settings there are, validation and the snapshot reader see the same values. -/
theorem Stored.merged (h : Stored rows) (entries : List (String × String)) :
    withEntries entries (Settings.merged (readValues rows)) =
      inForce (withEntries entries (readValues rows)) := by
  funext key
  simp only [withEntries, inForce, Settings.merged, defaults, Option.or_assoc]
  congr 1
  cases hv : readValues rows key with
  | none => simp
  | some value =>
    obtain ⟨d, hd, -⟩ := h.define hv
    simp [hd]

theorem Stored.sound (h : Stored rows) (hordered : Ordered (inForce (readValues rows))) :
    Sound (inForce (readValues rows)) where
  allowed key d hd := by
    cases hv : readValues rows key with
    | none =>
      refine ⟨d.defaultValue, ?_, registry_defaults d (define_mem hd).1⟩
      simp [inForce, hv, defaults, hd]
    | some value =>
      obtain ⟨d', hd', hallows⟩ := h.define hv
      obtain rfl : d' = d := Option.some.inj (hd'.symm.trans hd)
      exact ⟨value, by simp [inForce, hv], hallows⟩
  defined key value hvalue := by
    cases hv : readValues rows key with
    | none =>
      simp only [inForce, hv, defaults, Option.none_or] at hvalue
      obtain ⟨d, hd, -⟩ := Option.map_eq_some_iff.mp hvalue
      exact ⟨d, hd⟩
    | some value' =>
      obtain ⟨d, hd, -⟩ := h.define hv
      exact ⟨d, hd⟩
  ordered := hordered

/-- What `writeSettings` leaves for the commit. -/
theorem writeSettings_ok (h : writeSettings updates actor revision at_ rows = .ok (snapshot, rows'))
    (hrows : Stored rows) (hrevision : 0 < revision ∧ revision < 2 ^ 63) :
    Stored rows' ∧ Ordered (inForce (readValues rows')) ∧
    snapshot.values = inForce (readValues rows') ∧
      snapshot.revision = revision + 1 ∧ snapshot.revision < 2 ^ 63 := by
  unfold writeSettings at h
  dsimp only at h
  split at h
  · cases h
  next normalized hnormalized =>
    split at h
    · cases h
    next written hwritten =>
      split at h
      · cases h
      next hpositive =>
        cases h
        obtain ⟨hkeyed, hallowed, hordered⟩ := validate_ok hnormalized
        obtain ⟨hstored, hvalues⟩ := upsertAll_ok hwritten hrows hkeyed hallowed
        rw [hrows.merged normalized, ← hvalues] at hordered
        refine ⟨hstored, hordered, by rw [hvalues], ?_⟩
        have hbmod := @Int.bmod_def (revision + 1) (2 ^ 64)
        show (revision + 1).bmod (2 ^ 64) = revision + 1 ∧ (revision + 1).bmod (2 ^ 64) < 2 ^ 63
        omega

end rows

/-- How a call stands to the tables: who has the revision locked has seen the one in force,
and the rows written are those of the next. -/
def Call.Fits (s : SettingsTables) : Call → Prop
  | .locked u revision => revision = s.revision ∧ u.expectedRevision = s.revision
  | .written u snapshot rows =>
    u.expectedRevision = s.revision ∧ snapshot.revision = s.revision + 1 ∧
      snapshot.revision < 2 ^ 63 ∧
      Stored rows ∧ Ordered (inForce (readValues rows)) ∧
      snapshot.values = inForce (readValues rows)
  | .succeeded _ snapshot => Sound snapshot.values
  | _ => True

/-- How a read stands to the tables: with the revision in force it returned the values in
force. -/
def Get.Fits (s : SettingsTables) : Get → Prop
  | .revisionRead revision => revision ≤ s.revision
  | .returned snapshot => Sound snapshot.values ∧ snapshot.revision ≤ s.revision ∧
      (snapshot.revision = s.revision → snapshot.values = inForce (readValues s.settings))
  | .failed => True

/-- What holds in every reachable state. -/
structure Inv (w : World) : Prop where
  revision : 0 < w.tables.revision ∧ w.tables.revision < 2 ^ 63
  stored : Stored w.tables.settings
  ordered : Ordered (inForce (readValues w.tables.settings))
  exclusive : HeldOnce Call.held w.calls
  calls : ∀ (n : Nat) c, w.calls[n]? = some c → c.Fits w.tables
  gets : ∀ g ∈ w.gets, g.Fits w.tables

theorem openUpdate_fits (s : SettingsTables) (r : AdminRequest) (ifMatch : String)
    (updates : Updates) :
    (openUpdate r ifMatch updates).held ≠ some () ∧ (openUpdate r ifMatch updates).Fits s := by
  unfold openUpdate
  repeat' split
  all_goals exact ⟨by rintro ⟨⟩, trivial⟩

theorem inv_migrated (events : EventTables) : Inv (migrated events) where
  revision := ⟨Int.one_pos, by show (1 : Int) < 2 ^ 63; decide⟩
  stored := stored_nil
  ordered := by
    show Ordered (inForce (readValues []))
    decide +kernel
  exclusive := heldOnce_nil
  calls n c h := by cases h
  gets := by simp [migrated]

section step

variable {w w' : World} {n : Nat} {c : Call} {g : Get} {u : SettingsUpdate} {snapshot : Snapshot}
  {rows : List Setting}

/-- A call goes on, while the tables stay. -/
theorem Inv.setCall (h : Inv w) (hfits : c.Fits w.tables)
    (hheld : c.held = some () → ∀ m x, m ≠ n → w.calls[m]? = some x → x.held ≠ some ()) :
    Inv { w with calls := w.calls.set n c } where
  revision := h.revision
  stored := h.stored
  ordered := h.ordered
  exclusive := h.exclusive.set fun _ hk => hheld hk
  calls m x hx := by
    rcases set_cases hx with ⟨-, rfl⟩ | ⟨-, hx⟩
    · exact hfits
    · exact h.calls m x hx
  gets := h.gets

/-- A call without the lock begins. -/
theorem Inv.addCall (h : Inv w) (hfits : c.Fits w.tables) (hheld : c.held ≠ some ()) :
    Inv { w with calls := w.calls ++ [c] } where
  revision := h.revision
  stored := h.stored
  ordered := h.ordered
  exclusive := h.exclusive.concat fun _ hk => absurd hk hheld
  calls m x hx := by
    rcases concat_cases hx with ⟨-, rfl⟩ | ⟨-, hx⟩
    · exact hfits
    · exact h.calls m x hx
  gets := h.gets

/-- Nobody else has the lock that a call has. -/
theorem Inv.unheld (h : Inv w) (hn : w.calls[n]? = some c) (hc : c.held = some ()) :
    ∀ m x, m ≠ n → w.calls[m]? = some x → x.held ≠ some () :=
  fun m x hne hx hheld => hne (h.exclusive m n x c () hx hn hheld hc)

theorem Inv.setGet (h : Inv w) (hfits : g.Fits w.tables) : Inv { w with gets := w.gets.set n g } :=
  { h with
    gets := by
      intro x hx
      rcases List.mem_or_eq_of_mem_set hx with hx | rfl
      · exact h.gets x hx
      · exact hfits }

/-- The commit of an update: revision and values move on together. -/
theorem Inv.commit (h : Inv w) (hn : w.calls[n]? = some (.written u snapshot rows))
    (events : EventTables) :
    Inv { w with
      tables := ⟨snapshot.revision, rows, events⟩, calls :=
        w.calls.set n (.succeeded u snapshot) } := by
  obtain ⟨-, hrevision, hbound, hstored, hordered, hvalues⟩ := h.calls n _ hn
  have hpos := h.revision.1
  refine ⟨⟨?_, hbound⟩, hstored, hordered, h.exclusive.set (by rintro k ⟨⟩), ?_, ?_⟩
  · show 0 < snapshot.revision
    omega
  · intro m x hx
    rcases set_cases hx with ⟨-, rfl⟩ | ⟨hne, hx⟩
    · show Sound snapshot.values
      rw [hvalues]
      exact hstored.sound hordered
    · have hfits := h.calls m x hx
      have hunheld := h.unheld hn rfl m x hne hx
      cases x with
      | locked u' revision => exact absurd rfl hunheld
      | written u' snapshot' rows' => exact absurd rfl hunheld
      | begun u' => trivial
      | succeeded u' snapshot' => exact hfits
      | failed answer => trivial
  · intro g hg
    have hfits := h.gets g hg
    cases g with
    | revisionRead revision =>
      have hle : revision ≤ w.tables.revision := hfits
      show revision ≤ snapshot.revision
      omega
    | returned read =>
      obtain ⟨hsound, hle, -⟩ := hfits
      refine ⟨hsound, ?_, fun he => ?_⟩
      · show read.revision ≤ snapshot.revision
        omega
      · have he : read.revision = snapshot.revision := he
        omega
    | failed => trivial

/-- A step keeps the invariant. -/
theorem Inv.step (h : Inv w) (l : Label) (hstep : step w l = some w') : Inv w' := by
  cases l with
  | get =>
    cases hstep
    refine { h with gets := fun x hx => ?_ }
    rcases List.mem_append.mp hx with hx | hx
    · exact h.gets x hx
    · obtain rfl := List.mem_singleton.mp hx
      exact le_refl w.tables.revision
  | getValues n =>
    simp only [Settings.step] at hstep
    split at hstep
    next revision hn =>
      cases hstep
      have hfits : (Get.returned (readSnapshot revision w.tables.settings)).Fits w.tables :=
        ⟨h.stored.sound h.ordered, h.gets _ (List.mem_of_getElem? hn), fun _ => rfl⟩
      exact h.setGet hfits
    · cases hstep
  | getFails n =>
    simp only [Settings.step] at hstep
    split at hstep
    · cases hstep
      exact h.setGet trivial
    · cases hstep
  | update r ifMatch updates =>
    obtain rfl := Option.some.inj hstep
    obtain ⟨hheld, hfits⟩ := openUpdate_fits w.tables r ifMatch updates
    exact h.addCall hfits hheld
  | lock n =>
    simp only [Settings.step] at hstep
    split at hstep
    next u hn =>
      split at hstep
      · cases hstep
      next hfree =>
        split at hstep
        · cases hstep
          exact h.setCall trivial (by rintro ⟨⟩)
        next hsame =>
          cases hstep
          have hfits : (Call.locked u w.tables.revision).Fits w.tables :=
            ⟨rfl, (not_not.mp hsame).symm⟩
          exact h.setCall hfits fun _ m x _ hx hheld => hfree ⟨x, List.mem_of_getElem? hx, hheld⟩
    · cases hstep
  | write n updatedAt =>
    simp only [Settings.step] at hstep
    split at hstep
    next u revision hn =>
      obtain ⟨rfl, hexpected⟩ := h.calls n _ hn
      split at hstep
      · cases hstep
        exact h.setCall trivial (by rintro ⟨⟩)
      next snapshot rows hwritten =>
        cases hstep
        obtain ⟨hstored, hordered, hvalues, hnext, hbound⟩ :=
          writeSettings_ok hwritten h.stored h.revision
        have hfits : (Call.written u snapshot rows).Fits w.tables :=
          ⟨hexpected, hnext, hbound, hstored, hordered, hvalues⟩
        exact h.setCall hfits fun _ => h.unheld hn rfl
    · cases hstep
  | commit n ts =>
    simp only [Settings.step] at hstep
    split at hstep
    next u snapshot rows hn =>
      split at hstep
      · cases hstep
        exact h.setCall trivial (by rintro ⟨⟩)
      · cases hstep
        exact h.commit hn _
    · cases hstep
  | rollback n =>
    simp only [Settings.step] at hstep
    split at hstep
    · cases hstep
      exact h.setCall trivial (by rintro ⟨⟩)
    · cases hstep
      exact h.setCall trivial (by rintro ⟨⟩)
    · cases hstep
      exact h.setCall trivial (by rintro ⟨⟩)
    · cases hstep
  | others events =>
    cases hstep
    refine { h with calls := fun m x hx => ?_, gets := fun g hg => ?_ }
    · have hfits := h.calls m x hx
      cases x <;> exact hfits
    · have hfits := h.gets g hg
      cases g <;> exact hfits

end step

open Runs in
/-- Every state reached from the migrated database satisfies the invariant. -/
theorem run_inv {w : World} {events : EventTables} {ls : List Label}
    (h : Run (Steps step) (migrated events) ls w) : Inv w :=
  h.invariant (P := Inv) (fun _ l _ hi hs => hi.step l hs) (inv_migrated events)

end Tenancit.Settings
