import Mathlib.Algebra.BigOperators.Group.List.Lemmas
import Tenancit.Lib.Keyset
import Tenancit.Lib.Table
import Tenancit.Rewrap.Preflight

/-!
The paging loop of `authenticateAll` on the snapshot that the preflight reads. A page begins
after the last row authenticated, and a short one is the last: so the pages are the encrypted
rows in the order of their identifiers, and the loop does what one pass over these rows does.
-/
namespace Tenancit.Rewrap

open Crypto Encoding Store

variable {Key : Type} {aead : Aead Key} {cryptor : Cryptor aead} {c : Catalog} {pageSize : Nat}

/-- What the loop keeps: the last row authenticated, if there was one, and their number. -/
structure Progress where
  cursor : UUID := 0
  hasCursor : Bool := false
  scanned : Nat := 0
  deriving DecidableEq

/-- `WHERE value_cipher IS NOT NULL AND (NOT $1::boolean OR id > $2::uuid) ORDER BY id LIMIT $3` -/
def readPage (c : Catalog) (pageSize : Nat) (p : Progress) : List TenantResourceValue :=
  ((c.values.filter fun v => v.valueCipher.isSome &&
    (!p.hasCursor || p.cursor < v.id)).insertionSort fun v w =>
    v.id ≤ w.id).take pageSize

/-- The rows of a page, up to the first that fails. -/
def authenticatePage (cryptor : Cryptor aead) :
    List TenantResourceValue → Progress → Progress × Option RewrapError
  | [], p => (p, none)
  | row :: rows, p => match authenticateRow cryptor row with
    | .error e => (p, some e)
    | .ok _ => authenticatePage cryptor rows ⟨row.id, true, p.scanned + 1⟩

/-- A turn of the loop leads to the next one, or the loop returns. -/
inductive Turn where
  | again (p : Progress)
  | returned (p : Progress) (err : Option RewrapError)

def turn (cryptor : Cryptor aead) (pageSize : Nat) (c : Catalog) (p : Progress) : Turn :=
  let page := readPage c pageSize p
  match authenticatePage cryptor page p with
  | (p, some e) => .returned p (some e)
  | (p, none) => if page.length < pageSize then .returned p none else .again p

/-- The loop, for so many turns; nothing where it has not returned by then. -/
def authenticateLoop (cryptor : Cryptor aead) (pageSize : Nat) (c : Catalog) :
    Nat → Progress → Option (Progress × Option RewrapError)
  | 0, _ => none
  | n + 1, p => match turn cryptor pageSize c p with
    | .again p => authenticateLoop cryptor pageSize c n p
    | .returned p err => some (p, err)

/-- The rows that the pages of the loop hold, one after the other. -/
def pagesRead (cryptor : Cryptor aead) (pageSize : Nat) (c : Catalog) :
    Nat → Progress → List TenantResourceValue
  | 0, _ => []
  | n + 1, p => readPage c pageSize p ++ match turn cryptor pageSize c p with
    | .again p => pagesRead cryptor pageSize c n p
    | .returned _ _ => []

/-- The key after which the next page begins. -/
def Progress.after (p : Progress) : Option UUID := if p.hasCursor then some p.cursor else none

/-- The encrypted rows that are still to come. -/
def rowsLeft (c : Catalog) (p : Progress) : List TenantResourceValue :=
  Keyset.ordered TenantResourceValue.id (Keyset.after TenantResourceValue.id p.after
    (c.values.filter fun v => v.valueCipher.isSome))

variable {p p' : Progress} {rows : List TenantResourceValue} {row : TenantResourceValue}

theorem rowsLeft_start (c : Catalog) : rowsLeft c {} = encryptedRows c := by
  have hall : Keyset.after TenantResourceValue.id (none : Option UUID) (c.values.filter fun v =>
    v.valueCipher.isSome) =
      c.values.filter fun v => v.valueCipher.isSome := Keyset.after_none
  show Keyset.ordered _ (Keyset.after _ none _) = _
  rw [hall]
  rfl

/-- A page is the first part of the rows still to come. -/
theorem readPage_eq (c : Catalog) (pageSize : Nat) (p : Progress) :
    readPage c pageSize p = (rowsLeft c p).take pageSize := by
  have hfilter : (c.values.filter fun v => v.valueCipher.isSome &&
    (!p.hasCursor || p.cursor < v.id)) =
      Keyset.after TenantResourceValue.id p.after (c.values.filter fun v =>
        v.valueCipher.isSome) := by
    rw [Keyset.after, List.filter_filter]
    refine List.filter_congr fun v _ => ?_
    cases hcursor : p.hasCursor <;> simp [Progress.after, hcursor, Bool.and_comm]
  rw [readPage, hfilter]
  rfl

theorem authenticatePage_append (cryptor : Cryptor aead) (rows more : List TenantResourceValue)
    (p : Progress) :
    authenticatePage cryptor (rows ++ more) p =
      match authenticatePage cryptor rows p with
      | (p', some e) => (p', some e)
      | (p', none) => authenticatePage cryptor more p' := by
  induction rows generalizing p with
  | nil => rfl
  | cons row rows ih =>
    simp only [List.cons_append, authenticatePage]
    cases authenticateRow cryptor row with
    | error e => rfl
    | ok _ => exact ih _

/-- After a page without a failure, the cursor is its last row. -/
theorem authenticatePage_after (h : authenticatePage cryptor rows p = (p', none))
    {last : TenantResourceValue} (hlast : rows.getLast? = some last) : p'.after = some last.id := by
  induction rows generalizing p with
  | nil => cases hlast
  | cons row rows ih =>
    simp only [authenticatePage] at h
    cases hrow : authenticateRow cryptor row with
    | error e =>
      rw [hrow] at h
      cases h
    | ok _ =>
      rw [hrow] at h
      cases rows with
      | nil =>
        cases h
        cases hlast
        rfl
      | cons next rows => exact ih h (by rwa [List.getLast?_cons_cons] at hlast)

/-- The rows are counted, and authenticated in one pass. -/
theorem authenticatePage_eq (cryptor : Cryptor aead) (rows : List TenantResourceValue)
    (p : Progress) :
    (authenticatePage cryptor rows p).1.scanned = p.scanned + (authenticateAll cryptor rows).1 ∧
      (authenticatePage cryptor rows p).2 = (authenticateAll cryptor rows).2 := by
  induction rows generalizing p with
  | nil => exact ⟨rfl, rfl⟩
  | cons row rows ih =>
    simp only [authenticatePage, authenticateAll]
    cases authenticateRow cryptor row with
    | error e => exact ⟨rfl, rfl⟩
    | ok _ =>
      obtain ⟨hscanned, herr⟩ := ih ⟨row.id, true, p.scanned + 1⟩
      refine ⟨hscanned.trans ?_, herr⟩
      dsimp only
      omega

/-- After a full page, the rows still to come are those behind it. -/
theorem rowsLeft_next (hids : Table.Keyed TenantResourceValue.id c.values) (hpage : 0 < pageSize)
    (hfull : pageSize ≤ (rowsLeft c p).length)
    (h : authenticatePage cryptor ((rowsLeft c p).take pageSize) p = (p', none)) :
    rowsLeft c p' = (rowsLeft c p).drop pageSize := by
  have hdistinct : ((c.values.filter fun v =>
      v.valueCipher.isSome).map TenantResourceValue.id).Nodup :=
    hids.sublist ((List.filter_sublist).map _)
  obtain ⟨last, hlast⟩ : ∃ last, ((rowsLeft c p).take pageSize).getLast? = some last := by
    refine Option.isSome_iff_exists.mp (List.getLast?_isSome.mpr (List.ne_nil_of_length_pos ?_))
    rw [List.length_take]
    omega
  rw [rowsLeft, authenticatePage_after h hlast]
  exact Keyset.ordered_after_last hdistinct hlast

/-- The loop returns with what one pass over the rows still to come gives, and where that does
not fail its pages are these rows. -/
theorem authenticateLoop_eq (cryptor : Cryptor aead)
    (hids : Table.Keyed TenantResourceValue.id c.values) (hpage : 0 < pageSize) {n : Nat}
    (hn : (rowsLeft c p).length / pageSize < n) :
    authenticateLoop cryptor pageSize c n p = some (authenticatePage cryptor (rowsLeft c p) p) ∧
      ((authenticatePage cryptor (rowsLeft c p) p).2 = none →
        pagesRead cryptor pageSize c n p = rowsLeft c p) := by
  induction n generalizing p with
  | zero => exact absurd hn (Nat.not_lt_zero _)
  | succ n ih =>
    have happend :=
      authenticatePage_append cryptor ((rowsLeft c p).take pageSize)
        ((rowsLeft c p).drop pageSize) p
    rw [List.take_append_drop] at happend
    simp only [authenticateLoop, pagesRead, turn, readPage_eq]
    cases hrows : authenticatePage cryptor ((rowsLeft c p).take pageSize) p with
    | mk p' err =>
      rw [hrows] at happend
      rw [happend]
      cases err with
      | some e => exact ⟨rfl, nofun⟩
      | none =>
        dsimp only
        by_cases hshort : ((rowsLeft c p).take pageSize).length < pageSize
        · have hless : (rowsLeft c p).length < pageSize := by
            rw [List.length_take] at hshort
            omega
          rw [if_pos hshort, List.drop_eq_nil_of_le hless.le, List.take_of_length_le hless.le]
          exact ⟨rfl, fun _ => List.append_nil _⟩
        · have hfull : pageSize ≤ (rowsLeft c p).length := by
            rw [List.length_take] at hshort
            omega
          have hnext := rowsLeft_next hids hpage hfull hrows
          have hturns : (rowsLeft c p').length / pageSize < n := by
            rw [hnext, List.length_drop]
            have hdiv := Nat.div_eq_sub_div hpage hfull
            omega
          obtain ⟨hloop, hpages⟩ := ih hturns
          rw [if_neg hshort, ← hnext]
          refine ⟨hloop, fun hok => ?_⟩
          show _ ++ pagesRead cryptor pageSize c n p' = _
          rw [hpages hok, hnext, List.take_append_drop]

/-- A well-formed row has no plaintext beside the ciphertext, a positive version, and the
lengths of the cipher. -/
structure RowWellFormed (aead : Aead Key) (row : TenantResourceValue) : Prop where
  plain : row.valuePlain = none
  version : ∃ v, row.keyVersion = some v ∧ 0 < v
  nonce : (row.nonce.getD []).length = aead.nonceSize
  cipher : aead.overhead ≤ (row.valueCipher.getD []).length

/-- The row opens under the key of its version. -/
def Authenticates (cryptor : Cryptor aead) (row : TenantResourceValue) : Prop :=
  ∃ v key plaintext, row.keyVersion = some v ∧ cryptor.aeads v.toInt = some key ∧
    aead.openText key (row.nonce.getD []) (row.valueCipher.getD []) = some plaintext

theorem authenticateRow_eq_ok :
    authenticateRow cryptor row = .ok () ↔ RowWellFormed aead row ∧ Authenticates cryptor row := by
  cases hversion : row.keyVersion with
  | none =>
    constructor
    · intro h
      simp [authenticateRow, hversion] at h
    · rintro ⟨hwell, _⟩
      obtain ⟨v, hv, _⟩ := hwell.version
      cases hversion.symm.trans hv
  | some v =>
    have hpos : v.toInt ≤ 0 ↔ ¬0 < v := by rw [Int32.lt_iff_toInt_lt, not_lt, Int32.toInt_zero]
    have hwell : RowWellFormed aead row ↔ row.valuePlain = none ∧ 0 < v ∧
        (row.nonce.getD []).length = aead.nonceSize ∧ aead.overhead ≤
          (row.valueCipher.getD []).length := by
      constructor
      · rintro ⟨hplain, ⟨w, hw, hpos⟩, hnonce, hcipher⟩
        cases hversion.symm.trans hw
        exact ⟨hplain, hpos, hnonce, hcipher⟩
      · rintro ⟨hplain, hpos, hnonce, hcipher⟩
        exact ⟨hplain, ⟨v, hversion, hpos⟩, hnonce, hcipher⟩
    simp only [hwell, Authenticates, authenticateRow, encryptedOf, hversion, Option.map_some,
      Option.getD_some, hpos,
      Cryptor.nonceSize, Cryptor.overhead, Cryptor.decryptBytes]
    by_cases hfirst : row.valuePlain.isSome ∨ (some v = none) ∨ ¬0 < v
    · rw [if_pos hfirst]
      rcases hfirst with hplain | hnone | hv
      · simp [Option.ne_none_iff_isSome.mpr hplain]
      · cases hnone
      · simp [hv]
    · rw [if_neg hfirst]
      simp only [not_or, not_not, Option.not_isSome_iff_eq_none] at hfirst
      cases hkey : cryptor.aeads v.toInt with
      | none => simp [hkey]
      | some key =>
        have hlengths : ((row.nonce.getD []).length ≠ aead.nonceSize ∨
              (row.valueCipher.getD []).length < aead.overhead) ↔
            ¬((row.nonce.getD []).length = aead.nonceSize ∧ aead.overhead ≤
              (row.valueCipher.getD []).length) := by
          rw [not_and_or, not_le]
        simp only [Option.map_some, Option.getD_some, hlengths, ite_not, hfirst.1, hfirst.2.2]
        by_cases hfits : (row.nonce.getD []).length = aead.nonceSize ∧
            aead.overhead ≤ (row.valueCipher.getD []).length
        · rw [if_pos hfits]
          cases hopen : aead.openText key (row.nonce.getD []) (row.valueCipher.getD []) <;>
            simp [hfits, hkey, hopen]
        · simp [hfits]

/-- One pass succeeds where every row does, and then it counts them all. -/
theorem authenticateAll_eq_none :
    (authenticateAll cryptor rows).2 = none ↔ ∀ row ∈ rows,
    authenticateRow cryptor row = .ok () := by
  induction rows with
  | nil => simp [authenticateAll]
  | cons row rows ih =>
    rw [List.forall_mem_cons, ← ih]
    cases hrow : authenticateRow cryptor row <;> simp [authenticateAll, hrow]

theorem authenticateAll_scanned (h : (authenticateAll cryptor rows).2 = none) :
    (authenticateAll cryptor rows).1 = rows.length := by
  induction rows with
  | nil => rfl
  | cons row rows ih =>
    cases hrow : authenticateRow cryptor row <;> simp_all [authenticateAll]

/-- The counts of the inventory are those of all encrypted rows. -/
theorem sum_inventory (c : Catalog) :
    ((inventory c).map InventoryItem.rows).sum = (encryptedRows c).length := by
  rw [inventory, List.map_map]
  have hperm := (((encryptedRows c).map (·.keyVersion)).dedup.perm_insertionSort nullsFirst).map
    fun v => ((encryptedRows c).map (·.keyVersion)).count v
  have hsum := List.sum_map_count_dedup_eq_length ((encryptedRows c).map (·.keyVersion))
  rw [List.length_map, lawful_beq_subsingleton instBEqOfDecidableEq Option.instBEq] at hsum
  exact hperm.sum_nat.trans hsum

theorem encryptedRows_perm (c : Catalog) :
    (encryptedRows c).Perm (c.values.filter fun v => v.valueCipher.isSome) :=
  List.perm_insertionSort _ _

/-- From its start the loop is the one pass that the preflight is made of. -/
theorem authenticateLoop_start (hids : Table.Keyed TenantResourceValue.id c.values)
    (hpage : 0 < pageSize) {n : Nat} (hn : (encryptedRows c).length / pageSize < n) :
    (authenticateLoop cryptor pageSize c n {}).map (fun r => (r.1.scanned, r.2)) =
      some (authenticateAll cryptor (encryptedRows c)) := by
  have hstart := rowsLeft_start c
  obtain ⟨hloop, _⟩ := authenticateLoop_eq cryptor hids hpage (hstart.symm ▸ hn)
  obtain ⟨hscanned, herr⟩ := authenticatePage_eq cryptor (encryptedRows c) {}
  rw [hloop, hstart, Option.map_some, hscanned, herr]
  simp

/-- Each page size and keyring: the loop ends after at most one turn more than there are full
pages. It succeeds exactly where every encrypted row is well formed and authenticates; then
its pages held each of these rows once, and their number is the sum of the inventory. -/
theorem preflight_visits_once (cryptor : Cryptor aead)
    (hids : Table.Keyed TenantResourceValue.id c.values) (hpage : 0 < pageSize) : ∃ p err,
    (∀ n, (encryptedRows c).length / pageSize < n →
      authenticateLoop cryptor pageSize c n {} = some (p, err)) ∧
    (err = none ↔ ∀ row ∈ c.values, row.valueCipher.isSome → RowWellFormed aead row ∧
      Authenticates cryptor row) ∧
    (err = none → p.scanned = c.values.countP (fun v => v.valueCipher.isSome) ∧
      p.scanned = ((inventory c).map InventoryItem.rows).sum ∧
      ∀ n, (encryptedRows c).length / pageSize < n →
        (pagesRead cryptor pageSize c n {}).Perm (c.values.filter fun v =>
          v.valueCipher.isSome)) := by
  have hstart := rowsLeft_start c
  obtain ⟨hscanned, herr⟩ := authenticatePage_eq cryptor (encryptedRows c) {}
  have hrun : ∀ n, (encryptedRows c).length / pageSize < n → _ := fun n hn =>
    authenticateLoop_eq cryptor (p := {}) hids hpage (hstart.symm ▸ hn)
  rw [hstart] at hrun
  refine ⟨_, _, fun n hn => (hrun n hn).1, ?_, fun hok => ?_⟩
  · rw [herr, authenticateAll_eq_none]
    simp only [authenticateRow_eq_ok, (encryptedRows_perm c).mem_iff, List.mem_filter, and_imp]
  · have hcount : (authenticatePage cryptor (encryptedRows c) {}).1.scanned =
        (encryptedRows c).length := by
      rw [hscanned, authenticateAll_scanned (herr ▸ hok)]
      exact Nat.zero_add _
    refine ⟨?_, hcount.trans (sum_inventory c).symm, fun n hn => ?_⟩
    · rw [hcount, (encryptedRows_perm c).length_eq, List.countP_eq_length_filter]
    · rw [(hrun n hn).2 hok]
      exact encryptedRows_perm c

/-- Two encrypted rows beside a plain one. -/
def sampleSnapshot : Catalog where
  values :=
    [⟨7, 1, 1, none, some (List.replicate 16 5), some (List.replicate 12 0), some 1⟩,
     ⟨8, 1, 2, some "plain", none, none, none⟩,
     ⟨3, 2, 1, none, some (List.replicate 17 5), some (List.replicate 12 0), some 1⟩]

/-- A last page that is full is followed by an empty one. -/
theorem preflight_visits_once_full :
    authenticateLoop (Cryptor.single Aead.tagged 5) 2 sampleSnapshot 2 {} =
      some (⟨7, true, 2⟩, none) ∧
    ∃ p err, (∀ n, (encryptedRows sampleSnapshot).length / 2 < n →
        authenticateLoop (Cryptor.single Aead.tagged 5) 2 sampleSnapshot n {} = some (p, err)) ∧
      (err = none ↔ ∀ row ∈ sampleSnapshot.values, row.valueCipher.isSome →
        RowWellFormed Aead.tagged row ∧ Authenticates (Cryptor.single Aead.tagged 5) row) ∧
      (err = none → p.scanned = sampleSnapshot.values.countP (fun v => v.valueCipher.isSome) ∧
        p.scanned = ((inventory sampleSnapshot).map InventoryItem.rows).sum ∧
        ∀ n, (encryptedRows sampleSnapshot).length / 2 < n →
          (pagesRead (Cryptor.single Aead.tagged 5) 2 sampleSnapshot n {}).Perm
            (sampleSnapshot.values.filter fun v => v.valueCipher.isSome)) :=
  ⟨by decide +kernel, preflight_visits_once _ (by unfold Table.Keyed; decide) (by decide)⟩

end Tenancit.Rewrap
