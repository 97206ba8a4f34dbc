import Tenancit.Lib.Runs

/-!
Version stamps. A state shows, for each object, nothing or a content under a stamp. A
step that gives every object it changes a stamp of its own, never used before, makes
the stamp decide the content: along a run an object seen twice under one stamp has one
content, then and at every state in between.
-/
namespace Stamps

variable {σ ω τ κ ι : Type*} {view : σ → ω → Option (τ × κ)} {s t u : σ} {ts us : List τ}

/-- Whatever an object shows after the step it showed before, or its stamp is one of `ts`. -/
def Moves (view : σ → ω → Option (τ × κ)) (s : σ) (ts : List τ) (t : σ) : Prop :=
  ∀ o, view t o = view s o ∨ ∀ a c, view t o = some (a, c) → a ∈ ts

/-- Every stamp shown is one of `ts`. -/
def Stamped (view : σ → ω → Option (τ × κ)) (ts : List τ) (s : σ) : Prop :=
  ∀ o a c, view s o = some (a, c) → a ∈ ts

theorem Moves.refl (s : σ) (ts : List τ) : Moves view s ts s := fun _ => .inl rfl

theorem Moves.mono (h : Moves view s ts t) (hsub : ∀ a ∈ ts, a ∈ us) : Moves view s us t := by
  intro o
  rcases h o with h | h
  · exact .inl h
  · exact .inr fun a c ha => hsub a (h a c ha)

theorem Moves.append (h : Moves view s ts t) (h' : Moves view t us u) :
    Moves view s (ts ++ us) u := by
  intro o
  rcases h' o with h' | h'
  · rw [h']
    rcases h o with h | h
    · exact .inl h
    · exact .inr fun a c ha => List.mem_append_left _ (h a c ha)
  · exact .inr fun a c ha => List.mem_append_right _ (h' a c ha)

theorem Stamped.moves (hs : Stamped view ts s) (h : Moves view s us t) :
    Stamped view (ts ++ us) t := by
  intro o a c ha
  rcases h o with h | h
  · exact List.mem_append_left _ (hs o a c (h ▸ ha))
  · exact List.mem_append_right _ (h a c ha)

/-- An object whose stamp is none of the new ones was not touched. -/
theorem Moves.eq_of_stamp (h : Moves view s ts t) {o : ω} {a : τ} {c : κ}
    (ht : view t o = some (a, c)) (ha : a ∉ ts) : view s o = some (a, c) := by
  rcases h o with h | h
  · rwa [← h]
  · exact absurd (h a c ht) ha

section run

variable {R : σ → ι → σ → Prop} {reads : ι → List τ}

theorem moves_run (hstep : ∀ s l t, R s l t → Moves view s (reads l) t) {ls : List ι}
    (h : Runs.Run R s ls t) : Moves view s (ls.flatMap reads) t := by
  induction h with
  | nil s => exact Moves.refl s _
  | cons hr _ ih =>
    rw [List.flatMap_cons]
    exact (hstep _ _ _ hr).append ih

/-- Along a run whose stamps are pairwise different and differ from those shown at the
start, a stamp seen before and after a stretch of the run is seen, with the same
content, all along the stretch. -/
theorem run_eq_of_stamp (hstep : ∀ s l t, R s l t → Moves view s (reads l) t)
    {s₀ s₁ m s₂ : σ} {ls₀ ls₁ ls₂ : List ι} {known : List τ} (hknown : Stamped view known s₀)
    (h₀ : Runs.Run R s₀ ls₀ s₁) (h₁ : Runs.Run R s₁ ls₁ m) (h₂ : Runs.Run R m ls₂ s₂)
    (hdistinct : (known ++ (ls₀ ++ ls₁ ++ ls₂).flatMap reads).Nodup)
    {o : ω} {a : τ} {c₁ c₂ : κ} (hv₁ : view s₁ o = some (a, c₁)) (hv₂ : view s₂ o = some (a, c₂)) :
    c₁ = c₂ ∧ view m o = some (a, c₂) := by
  have hold : a ∈ known ++ ls₀.flatMap reads := hknown.moves (moves_run hstep h₀) o a c₁ hv₁
  rw [List.append_assoc, List.flatMap_append, List.flatMap_append, ← List.append_assoc,
    List.nodup_append] at hdistinct
  have hnew : a ∉ ls₁.flatMap reads ++ ls₂.flatMap reads :=
    fun hn => hdistinct.2.2 a hold a hn rfl
  rw [List.mem_append, not_or] at hnew
  have hm := (moves_run hstep h₂).eq_of_stamp hv₂ hnew.2
  have hs := (moves_run hstep h₁).eq_of_stamp hm hnew.1
  rw [hv₁] at hs
  exact ⟨congrArg Prod.snd (Option.some.inj hs), hm⟩

end run

end Stamps
