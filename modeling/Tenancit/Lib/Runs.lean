import Mathlib.Data.List.Induction
import Mathlib.Tactic.Common

/-!
Runs of a labelled transition relation, and the induction rules for them: an
invariant kept by every step, a relation that composes along a run, and runs all
of whose steps meet a condition on the label and on the state before the step; and
what the labels between two marked ones say.
-/
namespace Runs

variable {σ ι : Type*}

/-- A finite run of `R` from the first state to the last, with its labels in order. -/
inductive Run (R : σ → ι → σ → Prop) : σ → List ι → σ → Prop
  | nil (s : σ) : Run R s [] s
  | cons {s u t : σ} {l : ι} {ls : List ι} : R s l u → Run R u ls t → Run R s (l :: ls) t

variable {R : σ → ι → σ → Prop}

theorem run_nil_iff {s t : σ} : Run R s [] t ↔ t = s := by
  constructor
  · intro h
    cases h
    rfl
  · rintro rfl
    exact .nil _

theorem run_cons_iff {s t : σ} {l : ι} {ls : List ι} :
    Run R s (l :: ls) t ↔ ∃ u, R s l u ∧ Run R u ls t := by
  constructor
  · intro h
    cases h with
    | cons hstep hrun => exact ⟨_, hstep, hrun⟩
  · rintro ⟨u, hstep, hrun⟩
    exact .cons hstep hrun

theorem run_append_iff {s t : σ} {xs ys : List ι} :
    Run R s (xs ++ ys) t ↔ ∃ u, Run R s xs u ∧ Run R u ys t := by
  induction xs generalizing s with
  | nil =>
    simp only [List.nil_append, run_nil_iff]
    exact ⟨fun h => ⟨s, rfl, h⟩, by rintro ⟨u, rfl, h⟩; exact h⟩
  | cons x xs ih =>
    simp only [List.cons_append, run_cons_iff, ih]
    constructor
    · rintro ⟨v, hv, u, hu, ht⟩
      exact ⟨u, ⟨v, hv, hu⟩, ht⟩
    · rintro ⟨u, ⟨v, hv, hu⟩, ht⟩
      exact ⟨v, hv, u, hu, ht⟩

theorem Run.append {s u t : σ} {xs ys : List ι} (h : Run R s xs u) (h' : Run R u ys t) :
    Run R s (xs ++ ys) t :=
  run_append_iff.mpr ⟨u, h, h'⟩

theorem Run.snoc {s u t : σ} {xs : List ι} {l : ι} (h : Run R s xs u) (h' : R u l t) :
    Run R s (xs ++ [l]) t :=
  h.append (.cons h' (.nil t))

/-- An invariant kept by every step holds at the end of every run. -/
theorem Run.invariant {P : σ → Prop} (hstep : ∀ s l t, P s → R s l t → P t)
    {s t : σ} {ls : List ι} (h : Run R s ls t) (h0 : P s) : P t := by
  induction h with
  | nil s => exact h0
  | cons hr _ ih => exact ih (hstep _ _ _ h0 hr)

/-- What holds of the empty run and of a run with one more step holds of every run. -/
theorem Run.history {P : List ι → σ → Prop} {s t : σ} {ls : List ι} (h : Run R s ls t) (h0 : P [] s)
    (hstep : ∀ ls u l t, Run R s ls u → P ls u → R u l t → P (ls ++ [l]) t) : P ls t := by
  induction ls using List.reverseRecOn generalizing t with
  | nil =>
    obtain rfl := run_nil_iff.mp h
    exact h0
  | append_singleton ls l ih =>
    obtain ⟨u, hls, hl⟩ := run_append_iff.mp h
    obtain ⟨v, hlt, hv⟩ := run_cons_iff.mp hl
    obtain rfl := run_nil_iff.mp hv
    exact hstep ls u l _ hls (ih hls) hlt

/-- A relation that holds of every single step and composes holds across runs. -/
theorem Run.compose {Q : σ → List ι → σ → Prop} (hnil : ∀ s, Q s [] s)
    (hcons : ∀ s l u ls t, R s l u → Q u ls t → Q s (l :: ls) t)
    {s t : σ} {ls : List ι} (h : Run R s ls t) : Q s ls t := by
  induction h with
  | nil s => exact hnil s
  | cons hr _ ih => exact hcons _ _ _ _ _ hr ih

/-- `Run.compose` where the state is known to satisfy an invariant all along. -/
theorem Run.compose_of_invariant {P : σ → Prop} {Q : σ → List ι → σ → Prop}
    (hstep : ∀ s l t, P s → R s l t → P t) (hnil : ∀ s, P s → Q s [] s)
    (hcons : ∀ s l u ls t, P s → R s l u → Q u ls t → Q s (l :: ls) t)
    {s t : σ} {ls : List ι} (h : Run R s ls t) (h0 : P s) : Q s ls t := by
  induction h with
  | nil s => exact hnil s h0
  | cons hr _ ih => exact hcons _ _ _ _ _ h0 hr (ih (hstep _ _ _ h0 hr))

theorem Run.mono {R' : σ → ι → σ → Prop} (himp : ∀ s l t, R s l t → R' s l t)
    {s t : σ} {ls : List ι} (h : Run R s ls t) : Run R' s ls t := by
  induction h with
  | nil s => exact .nil s
  | cons hr _ ih => exact .cons (himp _ _ _ hr) ih

/-- A map that takes steps to steps takes runs to runs. -/
theorem Run.map {τ : Type*} {R' : τ → ι → τ → Prop} (f : σ → τ)
    (hf : ∀ s l t, R s l t → R' (f s) l (f t)) {s t : σ} {ls : List ι} (h : Run R s ls t) :
    Run R' (f s) ls (f t) := by
  induction h with
  | nil s => exact .nil _
  | cons hr _ ih => exact .cons (hf _ _ _ hr) ih

/-- The steps of `R` taken where the condition `C` on state and label holds. -/
def Guarded (C : σ → ι → Prop) (R : σ → ι → σ → Prop) (s : σ) (l : ι) (t : σ) : Prop :=
  C s l ∧ R s l t

theorem Run.of_guarded {C : σ → ι → Prop} {s t : σ} {ls : List ι}
    (h : Run (Guarded C R) s ls t) : Run R s ls t :=
  h.mono fun _ _ _ hg => hg.2

/-- Where each label leads to one state at most, so does a list of labels. -/
theorem Run.functional (hR : ∀ s l t u, R s l t → R s l u → t = u) {s t u : σ} {ls : List ι}
    (h : Run R s ls t) (h' : Run R s ls u) : t = u := by
  induction h with
  | nil s => exact (run_nil_iff.mp h').symm
  | cons hr _ ih =>
    obtain ⟨v, hv, h'⟩ := run_cons_iff.mp h'
    obtain rfl := hR _ _ _ _ hr hv
    exact ih h'

/-- Where a guarded run is known to be at a label, the condition was met. -/
theorem Run.guard {C : σ → ι → Prop} (hR : ∀ s l t u, R s l t → R s l u → t = u) {s t u : σ}
    {xs ys : List ι} {l : ι} (h : Run (Guarded C R) s (xs ++ l :: ys) t) (hxs : Run R s xs u) :
    C u l := by
  obtain ⟨v, hv, hrest⟩ := run_append_iff.mp h
  obtain ⟨w, ⟨hC, -⟩, -⟩ := run_cons_iff.mp hrest
  obtain rfl := hv.of_guarded.functional hR hxs
  exact hC

/-- Where each step from a state that satisfies `P` is good and keeps `P` exactly under a
condition, all steps along the labels are good and keep `P` exactly if all meet the condition. -/
theorem along_iff {P : σ → Prop} {Q : σ → ι → σ → Prop} {C : σ → ι → Prop} {s : σ}
    {ls : List ι} (h0 : P s)
    (hstep : ∀ xs l ys u v, ls = xs ++ l :: ys → Run R s xs u → R u l v → P u →
      (P v ∧ Q u l v ↔ C u l)) :
    (∀ xs l ys u v, ls = xs ++ l :: ys → Run R s xs u → R u l v → P v ∧ Q u l v) ↔
      ∀ xs l ys u v, ls = xs ++ l :: ys → Run R s xs u → R u l v → C u l := by
  constructor
  · intro h xs l ys u v hls hrun hl
    have hu : P u := by
      rcases List.eq_nil_or_concat xs with rfl | ⟨xs', l', rfl⟩
      · rw [run_nil_iff.mp hrun]
        exact h0
      · obtain ⟨t, ht, hl'⟩ := run_append_iff.mp (List.concat_eq_append ▸ hrun)
        obtain ⟨w, hw, hnil⟩ := run_cons_iff.mp hl'
        obtain rfl := run_nil_iff.mp hnil
        exact (h xs' l' (l :: ys) t u (by simp [hls]) ht hw).1
    exact (hstep xs l ys u v hls hrun hl hu).mp (h xs l ys u v hls hrun hl)
  · intro h xs l ys u v hls hrun hl
    have hu : ∀ ys, ls = xs ++ ys → P u := by
      refine hrun.history (P := fun xs u => ∀ ys, ls = xs ++ ys → P u) (fun _ _ => h0) ?_
      intro xs u l v hxs ih hl ys hls
      have hls' : ls = xs ++ l :: ys := by simp [hls]
      exact ((hstep xs l ys u v hls' hxs hl (ih _ hls')).mpr (h xs l ys u v hls' hxs hl)).1
    exact (hstep xs l ys u v hls hrun hl (hu _ hls)).mpr (h xs l ys u v hls hrun hl)

section windows

variable {α : Type*} {mark : ι → Bool} {i j : Nat} {ls : List ι} {l : ι} {f : ι → Option α}

/-- The labels that stand after `i` marked ones and before the next that makes them more than
`j`. -/
def between (mark : ι → Bool) : Nat → Nat → List ι → List ι
  | _, _, [] => []
  | i, j, l :: ls =>
    let rest := if mark l then between mark (i - 1) (j - 1) ls else between mark i j ls
    if i = 0 ∧ 0 < j then l :: rest else rest

theorem between_concat : between mark i j (ls ++ [l]) = between mark i j ls ++
    if i ≤ ls.countP mark ∧ ls.countP mark < j then [l] else [] := by
  induction ls generalizing i j with
  | nil => by_cases hj : 0 < j <;> by_cases hi : i = 0 <;> simp [between, hi, hj]
  | cons x ls ih =>
    by_cases hx : mark x = true
    · have hwindow : (i - 1 ≤ ls.countP mark ∧ ls.countP mark < j - 1) ↔
          (i ≤ ls.countP mark + 1 ∧ ls.countP mark + 1 < j) := by omega
      simp only [List.cons_append, between, hx, if_true, ih, List.countP_cons, hwindow]
      split <;> rfl
    · simp only [List.cons_append, between, hx, Bool.false_eq_true, if_false, ih,
        List.countP_cons, Nat.add_zero]
      split <;> rfl

theorem between_eq_nil (h : ls.countP mark < i) : between mark i j ls = [] := by
  induction ls using List.reverseRecOn with
  | nil => rfl
  | append_singleton ls l ih =>
    have hle : ls.countP mark ≤ (ls ++ [l]).countP mark := by simp
    rw [between_concat, ih (by omega), if_neg (by omega)]
    rfl

/-- What the last label that says something says. -/
def lastSaid (f : ι → Option α) (ls : List ι) : Option α := (ls.filterMap f).getLast?

theorem lastSaid_concat : lastSaid f (ls ++ [l]) = (f l).or (lastSaid f ls) := by
  unfold lastSaid
  cases hl : f l <;> simp [hl]

end windows

/-- Where each label leads to one state, a run follows the labels. -/
theorem run_foldl (f : ι → σ → σ) (s : σ) (ls : List ι) :
    Run (fun s l t => t = f l s) s ls (ls.foldl (fun s l => f l s) s) := by
  induction ls generalizing s with
  | nil => exact .nil s
  | cons l ls ih => exact .cons rfl (ih _)

/-- The relation of a partial step function. -/
def Steps (step : σ → ι → Option σ) (s : σ) (l : ι) (t : σ) : Prop := step s l = some t

theorem steps_functional {step : σ → ι → Option σ} (s : σ) (l : ι) (t u : σ) (h : Steps step s l t)
    (h' : Steps step s l u) : t = u :=
  Option.some.inj (h.symm.trans h')

/-- Execute labels from the left; a label that is not enabled stops the execution. -/
def exec (step : σ → ι → Option σ) : σ → List ι → Option σ
  | s, [] => some s
  | s, l :: ls => (step s l).bind fun u => exec step u ls

theorem exec_eq_some_iff {step : σ → ι → Option σ} {s t : σ} {ls : List ι} :
    exec step s ls = some t ↔ Run (Steps step) s ls t := by
  induction ls generalizing s with
  | nil => simp [exec, run_nil_iff, eq_comm]
  | cons l ls ih => simp [exec, run_cons_iff, Steps, Option.bind_eq_some_iff, ih]

/-- An execution that stops at a label where the condition fails. -/
theorem run_guarded_of_exec {step : σ → ι → Option σ} {C : σ → ι → Prop} [∀ s l, Decidable (C s l)]
    {s t : σ} {ls : List ι} (h : exec (fun s l => if C s l then step s l else none) s ls = some t) :
    Run (Guarded C (Steps step)) s ls t := by
  refine (exec_eq_some_iff.mp h).mono fun s l t hst => ?_
  exact Option.ite_none_right_eq_some.mp hst

end Runs
