import Tenancit.Lib.Keyset

/-!
Polling by key: a reader asks again and again for the rows after its cursor, which moves on a full
page only, while rows appear at any key. A row that is not behind the cursor is in the next page,
or the cursor comes closer to it; a row that is behind stays behind.
-/
namespace Keyset

variable {α κ : Type*} [LinearOrder κ] {key : α → κ} {rows : List α} {limit : ℕ} {k : Option κ}
  {a b : α}

/-- The row is behind the cursor. -/
def Behind (key : α → κ) (k : Option κ) (a : α) : Prop := ∃ x ∈ k, key a ≤ x

/-- The cursor after a page. -/
def advance (key : α → κ) (rows : List α) (limit : ℕ) (k : Option κ) : Option κ :=
  (nextCursor key limit (pageAfter key rows limit k)).or k

theorem not_behind_iff : ¬Behind key k a ↔ ∀ x ∈ k, x < key a := by simp [Behind]

theorem mem_after : a ∈ after key k rows ↔ a ∈ rows ∧ ¬Behind key k a := by
  rw [not_behind_iff, after, List.mem_filter, decide_eq_true_eq]

/-- A page has nothing that is behind its cursor. -/
theorem not_behind_of_mem_page (h : a ∈ pageAfter key rows limit k) : ¬Behind key k a :=
  (mem_after.mp (mem_ordered.mp (List.mem_of_mem_take h))).2

theorem page_pairwise (hdistinct : (rows.map key).Nodup) :
    (pageAfter key rows limit k).Pairwise fun a b => key a < key b := by
  have hafter : ((after key k rows).map key).Nodup :=
    hdistinct.sublist (List.filter_sublist.map key)
  exact (ordered_pairwise hafter).sublist (List.take_sublist _ _)

/-- A row after the cursor that the page leaves out comes after a full page. -/
theorem page_full (hdistinct : (rows.map key).Nodup) (ha : a ∈ rows) (hk : ¬Behind key k a)
    (hout : a ∉ pageAfter key rows limit k) : (pageAfter key rows limit k).length = limit ∧
      ∀ b ∈ pageAfter key rows limit k, key b < key a := by
  have hafter : ((after key k rows).map key).Nodup :=
    hdistinct.sublist (List.filter_sublist.map key)
  have hmem : a ∈ ordered key (after key k rows) := mem_ordered.mpr (mem_after.mpr ⟨ha, hk⟩)
  rw [← List.take_append_drop limit (ordered key (after key k rows)), List.mem_append] at hmem
  have hrest := hmem.resolve_left hout
  constructor
  · have hlong := List.length_pos_of_mem hrest
    rw [List.length_drop] at hlong
    rw [pageAfter, List.length_take]
    omega
  · intro b hb
    have hsorted := ordered_pairwise hafter
    rw [← List.take_append_drop limit (ordered key (after key k rows)),
      List.pairwise_append] at hsorted
    exact hsorted.2.2 b hb a hrest

/-- After a full page the cursor is at the last row of the page, which was after the old one. -/
theorem advance_full (hlimit : 0 < limit) (hfull : (pageAfter key rows limit k).length = limit) :
    ∃ b ∈ pageAfter key rows limit k, advance key rows limit k = some (key b) := by
  cases hlast : (pageAfter key rows limit k).getLast? with
  | none =>
    rw [List.getLast?_eq_none_iff.mp hlast] at hfull
    exact absurd hfull hlimit.ne
  | some b =>
    exact ⟨b, List.mem_of_getLast? hlast, by rw [advance, nextCursor, if_pos hfull, hlast]; rfl⟩

variable (key rows limit k) in
theorem advance_cases : advance key rows limit k = k ∨ (pageAfter key rows limit k).length = limit ∧
    ∃ b ∈ pageAfter key rows limit k, advance key rows limit k = some (key b) := by
  unfold advance nextCursor
  split
  next hfull =>
    cases hlast : (pageAfter key rows limit k).getLast? with
    | none => exact .inl rfl
    | some b => exact .inr ⟨hfull, b, List.mem_of_getLast? hlast, rfl⟩
  · exact .inl rfl

/-- The cursor never goes back. -/
theorem Behind.advance (h : Behind key k a) : Behind key (advance key rows limit k) a := by
  obtain hsame | ⟨-, b, hb, hnext⟩ := advance_cases key rows limit k
  · rwa [hsame]
  · obtain ⟨x, hx, hax⟩ := h
    have hxb := not_behind_iff.mp (not_behind_of_mem_page hb) x hx
    exact ⟨key b, hnext, hax.trans hxb.le⟩

/-- A row of a full page is behind the cursor from then on. -/
theorem behind_of_full_page (hdistinct : (rows.map key).Nodup)
    (hfull : (pageAfter key rows limit k).length = limit) (ha : a ∈ pageAfter key rows limit k) :
    Behind key (Keyset.advance key rows limit k) a := by
  have hsorted : (pageAfter key rows limit k).Pairwise fun a b => key a < key b :=
    page_pairwise hdistinct
  unfold Keyset.advance nextCursor
  rw [if_pos hfull]
  cases hlast : (pageAfter key rows limit k).getLast? with
  | none =>
    rw [List.getLast?_eq_none_iff.mp hlast] at ha
    cases ha
  | some b =>
    refine ⟨key b, rfl, ?_⟩
    obtain ⟨init, hinit⟩ := List.getLast?_eq_some_iff.mp hlast
    rw [hinit] at ha hsorted
    rcases List.mem_append.mp ha with ha | ha
    · exact ((List.pairwise_append.mp hsorted).2.2 a ha b (.head _)).le
    · rw [List.mem_singleton.mp ha]

/-- A page without a row that waits leaves it after the cursor. -/
theorem not_behind_advance (hdistinct : (rows.map key).Nodup) (ha : a ∈ rows) (hk : ¬Behind key k a)
    (hout : a ∉ pageAfter key rows limit k) : ¬Behind key (advance key rows limit k) a := by
  obtain hsame | ⟨-, b, hb, hnext⟩ := advance_cases key rows limit k
  · rwa [hsame]
  · rw [not_behind_iff, hnext]
    rintro x ⟨⟩
    exact (page_full hdistinct ha hk hout).2 b hb

/-- The rows of a history that stand between the cursor and a row. -/
def between (key : α → κ) (k : Option κ) (a : α) (history : List α) : ℕ :=
  history.countP fun b => key b < key a ∧ ∀ x ∈ k, x < key b

theorem countP_lt {p q : α → Bool} {l : List α} (hpq : ∀ b, p b = true → q b = true) (hb : b ∈ l)
    (hq : q b = true) (hp : p b = false) : l.countP p < l.countP q := by
  induction l with
  | nil => cases hb
  | cons c l ih =>
    rcases List.mem_cons.mp hb with rfl | hb
    · rw [List.countP_cons_of_neg (by simp [hp]), List.countP_cons_of_pos hq]
      exact Nat.lt_succ_of_le (List.countP_mono_left fun c _ => hpq c)
    · have hlt := ih hb
      rw [List.countP_cons, List.countP_cons]
      have hle : (if p c then 1 else 0) ≤ if q c then 1 else 0 := by
        by_cases hpc : p c = true
        · rw [if_pos hpc, if_pos (hpq c hpc)]
        · rw [if_neg hpc]
          exact Nat.zero_le _
      omega

/-- A page without a row that waits brings the cursor closer to it. -/
theorem between_advance (hlimit : 0 < limit) (hdistinct : (rows.map key).Nodup) {history : List α}
    (hrows : ∀ b ∈ rows, b ∈ history) (ha : a ∈ rows) (hk : ¬Behind key k a)
    (hout : a ∉ pageAfter key rows limit k) :
    between key (advance key rows limit k) a history < between key k a history := by
  obtain ⟨hfull, hbefore⟩ := page_full hdistinct ha hk hout
  obtain ⟨b, hb, hnext⟩ := advance_full hlimit hfull
  have hkb := not_behind_iff.mp (not_behind_of_mem_page hb)
  refine countP_lt (b := b) (fun c hc => ?_) (hrows b (mem_pageAfter hb)) ?_ ?_
  · obtain ⟨hca, hck⟩ := of_decide_eq_true hc
    refine decide_eq_true ⟨hca, fun x hx => (hkb x hx).trans (hck (key b) hnext)⟩
  · exact decide_eq_true ⟨hbefore b hb, hkb⟩
  · refine decide_eq_false fun h => ?_
    exact lt_irrefl _ (h.2 (key b) hnext)

end Keyset
