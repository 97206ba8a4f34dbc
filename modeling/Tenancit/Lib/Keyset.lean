import Mathlib.Data.List.Sort

/-!
Pages by key. A reader answers a cursor with a page of rows and, unless it was the last, the
cursor of the next; whoever follows the cursors gets the rows of all pages. Where each page
is the first part of the rows still to come, and its cursor stands for the others, all rows
come once and in order.
-/
namespace Keyset

section follow

variable {σ γ α : Type*} {read : γ → σ → Option ((List α × Option γ) × σ)}

/-- Following the cursors from `c` to the last page ends, with these rows and in this state. -/
inductive Follow (read : γ → σ → Option ((List α × Option γ) × σ)) : γ → σ → List α → σ → Prop
  | last {c s rows s'} (h : read c s = some ((rows, none), s')) : Follow read c s rows s'
  | next {c s rows c' s' more s''} (h : read c s = some ((rows, some c'), s'))
      (rest : Follow read c' s' more s'') :
      Follow read c s (rows ++ more) s''

/-- A cursor that leads back to its own page is followed for ever. -/
theorem Follow.not_loop {c : γ} {s s' : σ} {rows page : List α} (h : Follow read c s rows s')
    (hloop : read c s = some ((page, some c), s)) : False := by
  induction h with
  | last h =>
    rw [h] at hloop
    cases hloop
  | next h _ ih =>
    rw [h] at hloop
    cases hloop
    exact ih h

/-- What a page is to be: the first rows of those still to come, and a cursor exactly if it
is full; the cursor then stands for the other rows. -/
structure Pages (read : γ → σ → Option ((List α × Option γ) × σ)) (limit : ℕ) (Good : γ → σ → Prop)
    (remaining : γ → σ → List α) : Prop where
  page : ∀ c s, Good c s → ∃ next s', read c s = some (((remaining c s).take limit, next), s') ∧
    match next with
    | none => (remaining c s).length < limit
    | some c' =>
      limit ≤ (remaining c s).length ∧ Good c' s' ∧ remaining c' s' = (remaining c s).drop limit

/-- Following the cursors ends and gives all rows still to come. -/
theorem Pages.follow {limit : ℕ} {Good : γ → σ → Prop} {remaining : γ → σ → List α}
    (h : Pages read limit Good remaining) (hlimit : 0 < limit) {c : γ} {s : σ} (hgood : Good c s) :
    ∃ s', Follow read c s (remaining c s) s' := by
  -- the rows still to come grow fewer
  induction hn : (remaining c s).length using Nat.strong_induction_on generalizing c s with
  | _ n ih =>
    obtain ⟨next, s', hread, hnext⟩ := h.page c s hgood
    cases next with
    | none =>
      rw [List.take_of_length_le hnext.le] at hread
      exact ⟨s', .last hread⟩
    | some c' =>
      obtain ⟨hfull, hgood', hrest⟩ := hnext
      have hlength : (remaining c' s').length < n := by
        rw [hrest, List.length_drop]
        omega
      obtain ⟨s'', hfollow⟩ := ih _ hlength hgood' rfl
      have hall := Follow.next hread hfollow
      rw [hrest, List.take_append_drop] at hall
      exact ⟨s'', hall⟩

end follow

section order

variable {α κ : Type*} [LinearOrder κ] (key : α → κ)

/-- The rows in the order of their keys. -/
def ordered (rows : List α) : List α := rows.insertionSort fun a b => key a ≤ key b

/-- The rows after a key, or all. -/
def after (k : Option κ) (rows : List α) : List α := rows.filter fun a => ∀ x ∈ k, x < key a

variable {key} {rows : List α}

theorem ordered_perm : (ordered key rows).Perm rows := List.perm_insertionSort _ _

theorem mem_ordered {a : α} : a ∈ ordered key rows ↔ a ∈ rows := ordered_perm.mem_iff

theorem ordered_pairwise (hdistinct : (rows.map key).Nodup) :
    (ordered key rows).Pairwise fun a b => key a < key b := by
  have hsorted : (ordered key rows).Pairwise fun a b => key a ≤ key b :=
    List.pairwise_insertionSort _ _
  have hnodup : ((ordered key rows).map key).Nodup := (ordered_perm.map key).nodup_iff.mpr hdistinct
  exact (hsorted.and (List.pairwise_map.mp hnodup)).imp fun h => lt_of_le_of_ne h.1 h.2

/-- An order of the rows by their distinct keys is the only one. -/
theorem ordered_unique {l : List α} (hperm : l.Perm rows)
    (hl : l.Pairwise fun a b => key a < key b) : ordered key rows = l := by
  have hdistinct : (rows.map key).Nodup :=
    (hperm.map key).nodup_iff.mp (List.pairwise_map.mpr (hl.imp ne_of_lt))
  refine List.Perm.eq_of_pairwise ?_ (ordered_pairwise hdistinct) hl (ordered_perm.trans hperm.symm)
  intro a b _ _ hab hba
  exact absurd hba hab.asymm

theorem ordered_filter (hdistinct : (rows.map key).Nodup) (p : α → Bool) :
    ordered key (rows.filter p) = (ordered key rows).filter p :=
  ordered_unique (ordered_perm.filter p) ((ordered_pairwise hdistinct).filter p)

/-- The rows after the last one of a page are those the page left. -/
theorem filter_after_last {l : List α} (hl : l.Pairwise fun a b => key a < key b) {n : ℕ} {a : α}
    (ha : (l.take n).getLast? = some a) : (l.filter fun b => key a < key b) = l.drop n := by
  obtain ⟨init, hinit⟩ := List.getLast?_eq_some_iff.mp ha
  have hparts : l = init ++ a :: l.drop n := by
    rw [← List.singleton_append, ← List.append_assoc, ← hinit, List.take_append_drop]
  rw [hparts] at hl
  obtain ⟨-, hrest, hinits⟩ := List.pairwise_append.mp hl
  have hbefore : (init.filter fun b => key a < key b) = [] := by
    refine List.filter_eq_nil_iff.mpr fun b hb => ?_
    simpa using (hinits b hb a (.head _)).le
  have hbehind : ((l.drop n).filter fun b => key a < key b) = l.drop n :=
    List.filter_eq_self.mpr fun b hb => by simpa using (List.pairwise_cons.mp hrest).1 b hb
  conv_lhs => rw [hparts]
  rw [List.filter_append, hbefore, List.filter_cons_of_neg (by simp), hbehind, List.nil_append]

/-- The page after the last row of a page goes on where that page stops. -/
theorem ordered_after_last (hdistinct : (rows.map key).Nodup) {k : Option κ} {n : ℕ} {a : α}
    (ha : ((ordered key (after key k rows)).take n).getLast? = some a) :
    ordered key (after key (some (key a)) rows) = (ordered key (after key k rows)).drop n := by
  have hmem : a ∈ after key k rows :=
    mem_ordered.mp (List.mem_of_mem_take (List.mem_of_getLast? ha))
  have hk : ∀ x ∈ k, x < key a := by simpa using (List.mem_filter.mp hmem).2
  have hsorted := (ordered_pairwise hdistinct).filter fun b => decide (∀ x ∈ k, x < key b)
  have hdrop := filter_after_last hsorted (n := n) (a := a) (by rwa [← ordered_filter hdistinct])
  rw [after, after, ordered_filter hdistinct, ordered_filter hdistinct, ← hdrop, List.filter_filter]
  refine List.filter_congr fun b _ => ?_
  simp only [Option.mem_some_iff, forall_eq', ← Bool.decide_and, decide_eq_decide]
  exact ⟨fun hb => ⟨hb, fun x hx => (hk x hx).trans hb⟩, fun hb => hb.1⟩

theorem after_none : after key none rows = rows := by simp [after]

end order

section reader

variable {σ γ α β κ : Type*} [LinearOrder κ] {key : α → κ} {rows : List α} {view : α → β}
  {start : γ} {encode : α → γ} {decode : γ → Option κ} {limit : ℕ} {Inv : γ → σ → Prop}
  {read : γ → σ → Option ((List β × Option γ) × σ)}

/-- The page after a key, or the first one. -/
def pageAfter (key : α → κ) (rows : List α) (limit : ℕ) (k : Option κ) : List α :=
  (ordered key (after key k rows)).take limit

/-- The cursor after a page: that of its last row, if the page is full. -/
def nextCursor (encode : α → γ) (limit : ℕ) (page : List α) : Option γ :=
  if page.length = limit then page.getLast?.map encode else none

/-- A reader by key: the first page begins with the first row, and the cursor of a row stands
for what comes after its key. The invariant says in which states a cursor may be read. -/
structure Reader (read : γ → σ → Option ((List β × Option γ) × σ)) (key : α → κ) (rows : List α)
    (view : α → β) (start : γ) (encode : α → γ) (decode : γ → Option κ) (limit : ℕ)
    (Inv : γ → σ → Prop) : Prop where
  first : decode start = none
  distinct : (rows.map key).Nodup
  cursor : ∀ a ∈ rows, decode (encode a) = some (key a)
  page : ∀ c s, Inv c s → ∃ s', read c s = some (((pageAfter key rows limit (decode c)).map view,
    nextCursor encode limit (pageAfter key rows limit (decode c))), s') ∧
    ∀ a ∈ rows, Inv (encode a) s'

theorem mem_pageAfter {k : Option κ} {a : α} (h : a ∈ pageAfter key rows limit k) : a ∈ rows :=
  List.mem_of_mem_filter (mem_ordered.mp (List.mem_of_mem_take h))

theorem Reader.pages (h : Reader read key rows view start encode decode limit Inv)
    (hlimit : 0 < limit) :
    Pages read limit Inv fun c _ => (ordered key (after key (decode c) rows)).map view := by
  constructor
  intro c s hinv
  obtain ⟨s', hread, hinv'⟩ := h.page c s hinv
  refine ⟨nextCursor encode limit (pageAfter key rows limit (decode c)), s', ?_, ?_⟩
  · rw [hread, ← List.map_take]
    rfl
  have hlength : (pageAfter key rows limit (decode c)).length =
      min limit (ordered key (after key (decode c) rows)).length := List.length_take
  unfold nextCursor
  by_cases hfull : (pageAfter key rows limit (decode c)).length = limit
  · rw [if_pos hfull]
    cases hlast : (pageAfter key rows limit (decode c)).getLast? with
    | none =>
      rw [List.getLast?_eq_none_iff.mp hlast] at hfull
      exact absurd hfull hlimit.ne
    | some a =>
      have hmem : a ∈ rows := mem_pageAfter (List.mem_of_getLast? hlast)
      refine ⟨?_, hinv' a hmem, ?_⟩
      · rw [List.length_map]
        omega
      · rw [h.cursor a hmem, ordered_after_last h.distinct hlast, List.map_drop]
  · rw [if_neg hfull]
    change ((ordered key (after key (decode c) rows)).map view).length < limit
    rw [List.length_map]
    omega

/-- Following the cursors from the first page gives every row once, in order. -/
theorem Reader.follow (h : Reader read key rows view start encode decode limit Inv)
    (hlimit : 0 < limit) {s : σ} (hinv : Inv start s) :
    ∃ s', Follow read start s ((ordered key rows).map view) s' := by
  have hall := (h.pages hlimit).follow hlimit hinv
  rwa [h.first, after_none] at hall

end reader

end Keyset
