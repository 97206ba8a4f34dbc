import Mathlib.Logic.Function.Basic
import Tenancit.Lib.Runs

/-!
A table of what has been done, one entry for each key: a key is executed when there is no
entry for it, an entry answers for its key until it is removed, and it may be removed by some
rule. Whoever goes through such a table does each thing once between removals.
-/
namespace OnceTable

open Runs

variable {κ α ρ δ : Type*}

/-- What happens to the table. -/
inductive Event (κ α ρ δ : Type*) where
  | executed (k : κ) (a : α)
  | answered (k : κ) (r : ρ)
  | removed (d : δ) (ks : List κ)

/-- Which answers an entry or its absence allows, and which entries may be removed. -/
structure Rules (α ρ δ : Type*) where
  Answers : Option α → ρ → Prop
  Removable : δ → α → Prop

variable [DecidableEq κ] {rules : Rules α ρ δ}

inductive Step (rules : Rules α ρ δ) : (κ → Option α) → Event κ α ρ δ → (κ → Option α) → Prop
  | executed {t : κ → Option α} {k : κ} {a : α} :
      t k = none → Step rules t (.executed k a) (Function.update t k (some a))
  | answered {t : κ → Option α} {k : κ} {r : ρ} :
      rules.Answers (t k) r → Step rules t (.answered k r) t
  | removed {t : κ → Option α} {d : δ} {ks : List κ} :
      (∀ k ∈ ks, ∃ a, t k = some a ∧ rules.Removable d a) →
      Step rules t (.removed d ks) fun k => if k ∈ ks then none else t k

/-- The table that begins with no entry. -/
def Serial (rules : Rules α ρ δ) (es : List (Event κ α ρ δ)) (t : κ → Option α) : Prop :=
  Run (Step rules) (fun _ => none) es t

/-- The entry of the key is removed. -/
def Event.Removes (k : κ) : Event κ α ρ δ → Prop
  | .removed _ ks => k ∈ ks
  | _ => False

variable {es xs ys zs : List (Event κ α ρ δ)} {t : κ → Option α} {k : κ} {a b : α} {r : ρ}

/-- An entry has been executed, and since then neither removed nor executed again. -/
theorem Serial.entry (h : Serial rules es t) (hk : t k = some a) :
    ∃ xs ys, es = xs ++ .executed k a :: ys ∧ ∀ e ∈ ys, ¬e.Removes k ∧ ∀ b, e ≠ .executed k b := by
  refine (h.history (P := fun es t => ∀ k a, t k = some a →
    ∃ xs ys, es = xs ++ .executed k a :: ys ∧ ∀ e ∈ ys, ¬e.Removes k ∧ ∀ b,
    e ≠ .executed k b) (by simp) ?_) k a hk
  intro es t e t' _ ih hstep k a hk
  have hlater : ∀ {e}, t k = some a → ¬Event.Removes k e → (∀ b, e ≠ .executed k b) →
      ∃ xs ys, es ++ [e] = xs ++ .executed k a :: ys ∧ ∀ e ∈ ys, ¬e.Removes k ∧ ∀ b,
      e ≠ .executed k b := by
    intro e hk hremoves hne
    obtain ⟨xs, ys, rfl, hys⟩ := ih k a hk
    refine ⟨xs, ys ++ [e], by simp, fun e' he' => ?_⟩
    rcases List.mem_append.mp he' with he' | he'
    · exact hys e' he'
    · exact List.mem_singleton.mp he' ▸ ⟨hremoves, hne⟩
  cases hstep with
  | @executed k' a' hnone =>
    rcases eq_or_ne k k' with rfl | hne
    · rw [Function.update_self] at hk
      obtain rfl := Option.some.inj hk
      exact ⟨es, [], by simp, by simp⟩
    · rw [Function.update_of_ne hne] at hk
      exact hlater hk (fun h => h) fun b heq => hne (Event.executed.inj heq).1.symm
  | answered hanswers => exact hlater hk (fun h => h) fun b => by simp
  | @removed d ks hremovable =>
    dsimp only at hk
    split at hk
    · cases hk
    next hnot => exact hlater hk hnot fun b => by simp

/-- An entry stands until it is removed, and it may be. -/
theorem first_removal {v w : κ → Option α} (h : Run (Step rules) v ys w) (hk : v k = some a) :
    w k = some a ∨ ∃ us d ks vs, ys = us ++ .removed d ks :: vs ∧ k ∈ ks ∧ rules.Removable d a := by
  induction h with
  | nil => exact .inl hk
  | @cons v u w e ys hstep _ ih =>
    have hrest : u k = some a → w k = some a ∨ ∃ us d ks vs, e :: ys = us ++
        .removed d ks :: vs ∧ k ∈ ks ∧ rules.Removable d a := by
      intro hu
      refine (ih hu).imp_right ?_
      rintro ⟨us, d, ks, vs, rfl, hremoved⟩
      exact ⟨e :: us, d, ks, vs, rfl, hremoved⟩
    cases hstep with
    | @executed k' a' hnone =>
      refine hrest ?_
      rwa [Function.update_of_ne]
      rintro rfl
      rw [hnone] at hk
      cases hk
    | answered => exact hrest hk
    | @removed d ks hremovable =>
      by_cases hmem : k ∈ ks
      · obtain ⟨b, hb, hremovable⟩ := hremovable k hmem
        rw [hk] at hb
        exact .inr ⟨[], d, ks, ys, rfl, hmem, Option.some.inj hb ▸ hremovable⟩
      · exact hrest (by simpa [hmem] using hk)

/-- What is executed twice under a key has been removed in between. -/
theorem Serial.executed_apart (h : Serial rules (xs ++ .executed k a :: ys ++
      .executed k b :: zs) t) :
    ∃ us d ks vs, ys = us ++ .removed d ks :: vs ∧ k ∈ ks ∧ rules.Removable d a := by
  obtain ⟨u, hu, hrest⟩ := run_append_iff.mp h
  obtain ⟨v, hstep, -⟩ := run_cons_iff.mp hrest
  obtain ⟨v₀, -, hrest⟩ := run_append_iff.mp hu
  obtain ⟨v₁, hfirst, hys⟩ := run_cons_iff.mp hrest
  cases hfirst with
  | executed =>
    rcases first_removal hys (Function.update_self ..) with hstands | hremoved
    · cases hstep with
      | executed hnone =>
        rw [hnone] at hstands
        cases hstands
    · exact hremoved

/-- An answer that only an entry gives is that of what was executed last and has not been removed
since. -/
theorem Serial.answered (h : Serial rules (xs ++ .answered k r :: ys) t)
    (hnone : ¬rules.Answers none r) :
    ∃ a us vs, xs = us ++ .executed k a :: vs ∧ (∀ e ∈ vs, ¬e.Removes k ∧ ∀ b, e ≠ .executed k b) ∧
      rules.Answers (some a) r := by
  obtain ⟨u, hu, hrest⟩ := run_append_iff.mp h
  obtain ⟨v, hstep, -⟩ := run_cons_iff.mp hrest
  cases hstep with
  | answered hanswers =>
    cases hk : u k with
    | none => exact absurd (hk ▸ hanswers) hnone
    | some a =>
      obtain ⟨us, vs, hxs, hvs⟩ := Serial.entry hu hk
      exact ⟨a, us, vs, hxs, hvs, hk ▸ hanswers⟩

end OnceTable
