import Mathlib.Tactic.Common

/-!
Transaction bodies as programs. A program reads and writes a store and draws, in
order, from a finite supply of ticks; each statement draws one. A statement that
finds the supply empty fails, so a supply that ends early stands for a fault at that
statement. A failed program yields an error and no store: the store of the caller is
the one it had.
-/
namespace Program

variable {θ δ Δ ε ε' α β : Type}

/-- A program over the store `δ` that draws ticks `θ` and may fail with `ε`. -/
def Tx (θ δ ε α : Type) : Type := List θ → δ → Except ε (α × List θ × δ)

namespace Tx

instance : Monad (Tx θ δ ε) where
  pure a := fun ts s => .ok (a, ts, s)
  bind m f := fun ts s => match m ts s with
    | .ok (a, ts', s') => f a ts' s'
    | .error e => .error e

/-- Stop with an error. -/
def fail (e : ε) : Tx θ δ ε α := fun _ _ => .error e

/-- Stop with `e` unless the condition holds. -/
def require (p : Prop) [Decidable p] (e : ε) : Tx θ δ ε Unit := if p then pure () else fail e

/-- A pure step that may fail. -/
def ofExcept (x : Except ε α) : Tx θ δ ε α := fun ts s => x.map fun a => (a, ts, s)

/-- Translate the error of a program. -/
def mapErr (m : Tx θ δ ε α) (f : ε → ε') : Tx θ δ ε' α := fun ts s => (m ts s).mapError f

/-- One statement: it draws a tick and reads and writes the store, or fails with `fault`. -/
def statement (fault : ε) (f : θ → δ → Except ε (α × δ)) : Tx θ δ ε α
  | [], _ => .error fault
  | t :: ts, s => (f t s).map fun r => (r.1, ts, r.2)

/-- A statement that leaves the store alone. -/
def query (fault : ε) (f : δ → Except ε α) : Tx θ δ ε α :=
  statement fault fun _ s => (f s).map fun a => (a, s)

/-- Draw a tick for its own sake. -/
def draw (fault : ε) : Tx θ δ ε θ := statement fault fun t s => .ok (t, s)

/-- Run a program of one part of the store on the whole store. -/
def onPart (get : Δ → δ) (put : δ → Δ → Δ) (m : Tx θ δ ε α) : Tx θ Δ ε α := fun ts s =>
  (m ts (get s)).map fun r => (r.1, r.2.1, put r.2.2 s)

theorem bind_eq_ok {m : Tx θ δ ε α} {f : α → Tx θ δ ε β} {ts : List θ} {s : δ}
    {r : β × List θ × δ} : (m >>= f) ts s = .ok r ↔
      ∃ a ts' s', m ts s = .ok (a, ts', s') ∧ f a ts' s' = .ok r := by
  change (match m ts s with
    | .ok (a, ts', s') => f a ts' s'
    | .error e => .error e) = .ok r ↔ _
  cases h : m ts s with
  | error e => simp
  | ok x =>
    obtain ⟨a, ts', s'⟩ := x
    simp

@[simp] theorem pure_eq_ok {a : α} {ts : List θ} {s : δ} {r : α × List θ × δ} :
    (pure a : Tx θ δ ε α) ts s = .ok r ↔ r = (a, ts, s) := by
  change (Except.ok (a, ts, s) : Except ε _) = .ok r ↔ _
  simp [eq_comm]

@[simp] theorem fail_eq_ok {e : ε} {ts : List θ} {s : δ} {r : α × List θ × δ} :
    (fail e : Tx θ δ ε α) ts s = .ok r ↔ False := by simp [fail]

@[simp] theorem require_eq_ok {p : Prop} [Decidable p] {e : ε} {ts : List θ} {s : δ}
    {r : Unit × List θ × δ} :
    (require p e : Tx θ δ ε Unit) ts s = .ok r ↔ p ∧ r = ((), ts, s) := by
  unfold require
  split <;> simp [*]

@[simp] theorem ofExcept_eq_ok {x : Except ε α} {ts : List θ} {s : δ} {r : α × List θ × δ} :
    (ofExcept x : Tx θ δ ε α) ts s = .ok r ↔ ∃ a, x = .ok a ∧ r = (a, ts, s) := by
  cases x <;> simp [ofExcept, Except.map, eq_comm]

@[simp] theorem mapErr_eq_ok {m : Tx θ δ ε α} {f : ε → ε'} {ts : List θ} {s : δ}
    {r : α × List θ × δ} : (m.mapErr f) ts s = .ok r ↔ m ts s = .ok r := by
  unfold mapErr
  cases m ts s <;> simp [Except.mapError]

theorem statement_eq_ok {fault : ε} {f : θ → δ → Except ε (α × δ)} {ts : List θ} {s : δ}
    {a : α} {ts' : List θ} {s' : δ} : statement fault f ts s = .ok (a, ts', s') ↔
      ∃ t, ts = t :: ts' ∧ f t s = .ok (a, s') := by
  cases ts with
  | nil => simp [statement]
  | cons t ts =>
    cases h : f t s with
    | error e => simp [statement, h, Except.map]
    | ok r =>
      obtain ⟨b, u⟩ := r
      simp [statement, h, Except.map]
      tauto

theorem query_eq_ok {fault : ε} {f : δ → Except ε α} {ts : List θ} {s : δ}
    {a : α} {ts' : List θ} {s' : δ} : query fault f ts s = .ok (a, ts', s') ↔
      ∃ t, ts = t :: ts' ∧ f s = .ok a ∧ s' = s := by
  unfold query
  rw [statement_eq_ok]
  cases f s <;> simp [Except.map, eq_comm]

theorem draw_eq_ok {fault : ε} {ts : List θ} {s : δ} {t : θ} {ts' : List θ} {s' : δ} :
    draw fault ts s = .ok (t, ts', s') ↔ ts = t :: ts' ∧ s' = s := by
  unfold draw
  rw [statement_eq_ok]
  simp only [Except.ok.injEq, Prod.mk.injEq]
  constructor
  · rintro ⟨u, hts, rfl, rfl⟩
    exact ⟨hts, rfl⟩
  · rintro ⟨hts, rfl⟩
    exact ⟨t, hts, rfl, rfl⟩

theorem onPart_eq_ok {get : Δ → δ} {put : δ → Δ → Δ} {m : Tx θ δ ε α} {ts : List θ} {s : Δ}
    {a : α} {ts' : List θ} {s' : Δ} : onPart get put m ts s = .ok (a, ts', s') ↔
      ∃ x, m ts (get s) = .ok (a, ts', x) ∧ s' = put x s := by
  unfold onPart
  cases h : m ts (get s) with
  | error e => simp [Except.map]
  | ok r =>
    obtain ⟨b, us, x⟩ := r
    simp [Except.map]
    tauto

theorem bind_eq_error {m : Tx θ δ ε α} {f : α → Tx θ δ ε β} {ts : List θ} {s : δ} {e : ε} :
    (m >>= f) ts s = .error e ↔
      m ts s = .error e ∨ ∃ a ts' s', m ts s = .ok (a, ts', s') ∧ f a ts' s' = .error e := by
  change (match m ts s with
    | .ok (a, ts', s') => f a ts' s'
    | .error e => .error e) = .error e ↔ _
  cases h : m ts s with
  | error e' => simp
  | ok r =>
    obtain ⟨a, ts', s'⟩ := r
    simp

theorem mapErr_eq_error {m : Tx θ δ ε α} {f : ε → ε'} {ts : List θ} {s : δ} {e' : ε'} :
    (m.mapErr f) ts s = .error e' ↔ ∃ e, m ts s = .error e ∧ f e = e' := by
  unfold mapErr
  cases m ts s <;> simp [Except.mapError]

theorem query_eq_error {fault : ε} {f : δ → Except ε α} {ts : List θ} {s : δ} {e : ε} :
    query fault f ts s = .error e ↔ ts = [] ∧ fault = e ∨ ts ≠ [] ∧ f s = .error e := by
  cases ts with
  | nil => simp [query, statement]
  | cons t ts => cases h : f s <;> simp [query, statement, h, Except.map]

theorem onPart_eq_error {get : Δ → δ} {put : δ → Δ → Δ} {m : Tx θ δ ε α} {ts : List θ} {s : Δ}
    {e : ε} : onPart get put m ts s = .error e ↔ m ts (get s) = .error e := by
  unfold onPart
  cases m ts (get s) <;> simp [Except.map]

theorem ofExcept_bind_eq_error {x : Except ε α} {f : α → Tx θ δ ε β} {ts : List θ} {s : δ} {e : ε} :
    (ofExcept x >>= f) ts s = .error e ↔ x = .error e ∨ ∃ a, x = .ok a ∧ f a ts s = .error e := by
  rw [bind_eq_error]
  cases x <;> simp [ofExcept, Except.map]

theorem mapErr_bind {m : Tx θ δ ε α} {f : α → Tx θ δ ε β} {g : ε → ε'} :
    (m >>= f).mapErr g = m.mapErr g >>= fun a => (f a).mapErr g := by
  funext ts s
  cases h : (m >>= f) ts s with
  | ok r =>
    obtain ⟨a, ts', s', hm, hf⟩ := bind_eq_ok.mp h
    have hleft : (m >>= f).mapErr g ts s = .ok r := mapErr_eq_ok.mpr h
    exact hleft.trans (bind_eq_ok.mpr ⟨a, ts', s', mapErr_eq_ok.mpr hm, mapErr_eq_ok.mpr hf⟩).symm
  | error e =>
    have hleft : (m >>= f).mapErr g ts s = .error (g e) := mapErr_eq_error.mpr ⟨e, h, rfl⟩
    refine hleft.trans (bind_eq_error.mpr ?_).symm
    rcases bind_eq_error.mp h with hm | ⟨a, ts', s', hm, hf⟩
    · exact .inl (mapErr_eq_error.mpr ⟨e, hm, rfl⟩)
    · exact .inr ⟨a, ts', s', mapErr_eq_ok.mpr hm, mapErr_eq_error.mpr ⟨e, hf, rfl⟩⟩

/-! A step in front of the rest of a program: what it read, drew or changed, and the rest. -/
section bind

variable {f : α → Tx θ δ ε β} {ts : List θ} {s : δ} {r : β × List θ × δ}

theorem ofExcept_bind_eq_ok {x : Except ε α} :
    (ofExcept x >>= f) ts s = .ok r ↔ ∃ a, x = .ok a ∧ f a ts s = .ok r := by
  simp only [bind_eq_ok, ofExcept_eq_ok]
  constructor
  · rintro ⟨a, ts', s', ⟨x, hx, heq⟩, h⟩
    cases heq
    exact ⟨a, hx, h⟩
  · rintro ⟨a, ha, h⟩
    exact ⟨a, ts, s, ⟨a, ha, rfl⟩, h⟩

theorem require_bind_eq_ok {p : Prop} [Decidable p] {e : ε} {f : Unit → Tx θ δ ε β} :
    (require p e >>= f) ts s = .ok r ↔ p ∧ f () ts s = .ok r := by
  simp only [bind_eq_ok, require_eq_ok]
  constructor
  · rintro ⟨a, ts', s', ⟨hp, heq⟩, h⟩
    cases heq
    exact ⟨hp, h⟩
  · rintro ⟨hp, h⟩
    exact ⟨(), ts, s, ⟨hp, rfl⟩, h⟩

theorem statement_bind_eq_ok {e : ε'} {g : θ → δ → Except ε' (α × δ)} {k : ε' → ε} :
    ((statement e g).mapErr k >>= f) ts s = .ok r ↔
      ∃ t ts' a s', ts = t :: ts' ∧ g t s = .ok (a, s') ∧ f a ts' s' = .ok r := by
  simp only [bind_eq_ok, mapErr_eq_ok, statement_eq_ok]
  constructor
  · rintro ⟨a, ts', s', ⟨t, hts, hg⟩, h⟩
    exact ⟨t, ts', a, s', hts, hg, h⟩
  · rintro ⟨t, ts', a, s', hts, hg, h⟩
    exact ⟨a, ts', s', ⟨t, hts, hg⟩, h⟩

theorem query_bind_eq_ok {e : ε'} {g : δ → Except ε' α} {k : ε' → ε} :
    ((query e g).mapErr k >>= f) ts s = .ok r ↔
      ∃ t ts' a, ts = t :: ts' ∧ g s = .ok a ∧ f a ts' s = .ok r := by
  simp only [bind_eq_ok, mapErr_eq_ok, query_eq_ok]
  constructor
  · rintro ⟨a, ts', s', ⟨t, hts, hg, rfl⟩, h⟩
    exact ⟨t, ts', a, hts, hg, h⟩
  · rintro ⟨t, ts', a, hts, hg, h⟩
    exact ⟨a, ts', s, ⟨t, hts, hg, rfl⟩, h⟩

theorem draw_bind_eq_ok {e : ε} {f : θ → Tx θ δ ε β} :
    (draw e >>= f) ts s = .ok r ↔ ∃ t rest, ts = t :: rest ∧ f t rest s = .ok r := by
  simp only [bind_eq_ok, draw_eq_ok]
  constructor
  · rintro ⟨t, rest, s', ⟨hts, rfl⟩, h⟩
    exact ⟨t, rest, hts, h⟩
  · rintro ⟨t, rest, hts, h⟩
    exact ⟨t, rest, s, ⟨hts, rfl⟩, h⟩

theorem onPart_bind_eq_ok {get : Δ → δ} {put : δ → Δ → Δ} {m : Tx θ δ ε α} {f : α → Tx θ Δ ε β}
    {d : Δ} {r : β × List θ × Δ} : (onPart get put m >>= f) ts d = .ok r ↔
      ∃ a ts' x, m ts (get d) = .ok (a, ts', x) ∧ f a ts' (put x d) = .ok r := by
  simp only [bind_eq_ok, onPart_eq_ok]
  constructor
  · rintro ⟨a, ts', d', ⟨x, hx, rfl⟩, h⟩
    exact ⟨a, ts', x, hx, h⟩
  · rintro ⟨a, ts', x, hx, h⟩
    exact ⟨a, ts', _, ⟨x, hx, rfl⟩, h⟩

end bind

end Tx

/-- A relation between stores, labelled by the ticks drawn, that composes. -/
structure Composes (R : δ → List θ → δ → Prop) : Prop where
  nil : ∀ s, R s [] s
  append : ∀ {s u t xs ys}, R s xs u → R u ys t → R s (xs ++ ys) t

/-- Every success of the program moves the store along `R`. -/
def Along (R : δ → List θ → δ → Prop) (m : Tx θ δ ε α) : Prop :=
  ∀ ts s a ts' s', m ts s = .ok (a, ts', s') → ∃ used, ts = used ++ ts' ∧ R s used s'

namespace Along

variable {R : δ → List θ → δ → Prop}

theorem ok {m : Tx θ δ ε α} (hm : Along R m) {ts : List θ} {s : δ} {a : α} {ts' : List θ} {s' : δ}
    (h : m ts s = .ok (a, ts', s')) : ∃ used, ts = used ++ ts' ∧ R s used s' := hm ts s a ts' s' h

theorem pure (hR : Composes R) (a : α) : Along R (Pure.pure a : Tx θ δ ε α) := by
  intro ts s b ts' s' h
  obtain ⟨rfl, rfl, rfl⟩ : b = a ∧ ts' = ts ∧ s' = s := by simpa using Tx.pure_eq_ok.mp h
  exact ⟨[], rfl, hR.nil _⟩

theorem bind (hR : Composes R) {m : Tx θ δ ε α} {f : α → Tx θ δ ε β} (hm : Along R m)
    (hf : ∀ a, Along R (f a)) : Along R (m >>= f) := by
  intro ts s b ts'' s'' h
  obtain ⟨a, ts', s', h₁, h₂⟩ := Tx.bind_eq_ok.mp h
  obtain ⟨xs, rfl, hx⟩ := hm.ok h₁
  obtain ⟨ys, rfl, hy⟩ := (hf a).ok h₂
  exact ⟨xs ++ ys, (List.append_assoc _ _ _).symm, hR.append hx hy⟩

theorem fail (e : ε) : Along R (Tx.fail e : Tx θ δ ε α) := by
  intro ts s a ts' s' h
  simp at h

theorem require (hR : Composes R) (p : Prop) [Decidable p] (e : ε) :
    Along R (Tx.require p e : Tx θ δ ε Unit) := by
  unfold Tx.require
  split
  · exact pure hR ()
  · exact fail e

theorem ofExcept (hR : Composes R) (x : Except ε α) : Along R (Tx.ofExcept x : Tx θ δ ε α) := by
  cases x with
  | ok a => exact pure hR a
  | error e => exact fail e

theorem mapErr {m : Tx θ δ ε α} (hm : Along R m) (f : ε → ε') : Along R (m.mapErr f) := by
  intro ts s a ts' s' h
  exact hm.ok (Tx.mapErr_eq_ok.mp h)

theorem statement {fault : ε} {f : θ → δ → Except ε (α × δ)}
    (h : ∀ t s a s', f t s = .ok (a, s') → R s [t] s') : Along R (Tx.statement fault f) := by
  intro ts s a ts' s' heq
  obtain ⟨t, rfl, hf⟩ := Tx.statement_eq_ok.mp heq
  exact ⟨[t], rfl, h t s a s' hf⟩

theorem query {fault : ε} {f : δ → Except ε α} (h : ∀ t s, R s [t] s) :
    Along R (Tx.query fault f) := by
  intro ts s a ts' s' heq
  obtain ⟨t, rfl, _, rfl⟩ := Tx.query_eq_ok.mp heq
  exact ⟨[t], rfl, h t s'⟩

theorem draw {fault : ε} (h : ∀ t s, R s [t] s) : Along R (Tx.draw fault) := by
  intro ts s a ts' s' heq
  obtain ⟨rfl, rfl⟩ := Tx.draw_eq_ok.mp heq
  exact ⟨[a], rfl, h a s'⟩

/-- A program of a part moves the whole as it moves the part. -/
theorem onPart {get : Δ → δ} {put : δ → Δ → Δ} {Q : Δ → List θ → Δ → Prop} {m : Tx θ δ ε α}
    (hm : Along R m) (h : ∀ d used x, R (get d) used x → Q d used (put x d)) :
    Along Q (Tx.onPart get put m) := by
  intro ts d a ts' d' hok
  obtain ⟨x, hx, rfl⟩ := Tx.onPart_eq_ok.mp hok
  obtain ⟨used, hused, hR⟩ := hm.ok hx
  exact ⟨used, hused, h d used x hR⟩

end Along

/-- Whatever stops the program, its error has the property. -/
def Fails (P : ε → Prop) (m : Tx θ δ ε α) : Prop := ∀ ts s e, m ts s = .error e → P e

namespace Fails

variable {P : ε → Prop}

theorem pure (a : α) : Fails P (Pure.pure a : Tx θ δ ε α) := by
  intro ts s e h
  cases h

theorem bind {m : Tx θ δ ε α} {f : α → Tx θ δ ε β} (hm : Fails P m) (hf : ∀ a, Fails P (f a)) :
    Fails P (m >>= f) := by
  intro ts s e h
  rcases Tx.bind_eq_error.mp h with h | ⟨a, ts', s', -, h⟩
  · exact hm ts s e h
  · exact hf a ts' s' e h

theorem fail {e : ε} (he : P e) : Fails P (Tx.fail e : Tx θ δ ε α) := by
  intro ts s e' h
  cases h
  exact he

theorem require {p : Prop} [Decidable p] {e : ε} (he : P e) :
    Fails P (Tx.require p e : Tx θ δ ε Unit) := by
  unfold Tx.require
  split
  · exact Fails.pure ()
  · exact Fails.fail he

theorem ofExcept {x : Except ε α} (hx : ∀ e, x = .error e → P e) :
    Fails P (Tx.ofExcept x : Tx θ δ ε α) := by
  intro ts s e h
  cases x with
  | error e' =>
    cases h
    exact hx _ rfl
  | ok a => cases h

theorem mapErr {m : Tx θ δ ε' α} {f : ε' → ε} (hf : ∀ e, P (f e)) : Fails P (m.mapErr f) := by
  intro ts s e h
  obtain ⟨e', -, rfl⟩ := Tx.mapErr_eq_error.mp h
  exact hf e'

theorem draw {fault : ε} (h : P fault) : Fails P (Tx.draw fault : Tx θ δ ε θ) := by
  intro ts s e he
  cases ts with
  | nil =>
    cases he
    exact h
  | cons t ts => cases he

theorem onPart {get : Δ → δ} {put : δ → Δ → Δ} {m : Tx θ δ ε α} (hm : Fails P m) :
    Fails P (Tx.onPart get put m) := fun ts s e h => hm ts (get s) e (Tx.onPart_eq_error.mp h)

end Fails

/-- From both stores the program fails, with one error. -/
def FailsAlike (m : Tx θ δ ε α) (ts : List θ) (s s' : δ) : Prop :=
  ∃ e, m ts s = .error e ∧ m ts s' = .error e

namespace FailsAlike

variable {ts : List θ} {s s' : δ}

theorem fail {e : ε} : FailsAlike (Tx.fail e : Tx θ δ ε α) ts s s' := ⟨e, rfl, rfl⟩

theorem bind {m : Tx θ δ ε α} {f : α → Tx θ δ ε β} (h : FailsAlike m ts s s') :
    FailsAlike (m >>= f) ts s s' := by
  obtain ⟨e, he, he'⟩ := h
  exact ⟨e, Tx.bind_eq_error.mpr (.inl he), Tx.bind_eq_error.mpr (.inl he')⟩

/-- A pure step in front makes no difference between the stores. -/
theorem ofExcept_bind {x : Except ε α} {f : α → Tx θ δ ε β}
    (h : ∀ a, x = .ok a → FailsAlike (f a) ts s s') : FailsAlike (Tx.ofExcept x >>= f) ts s s' := by
  cases x with
  | error e => exact ⟨e, rfl, rfl⟩
  | ok a => exact h a rfl

theorem require_bind {p : Prop} [Decidable p] {e : ε} {f : Unit → Tx θ δ ε β}
    (h : p → FailsAlike (f ()) ts s s') : FailsAlike (Tx.require p e >>= f) ts s s' := by
  unfold Tx.require
  split
  next hp => exact h hp
  · exact fail.bind

theorem onPart {get : Δ → δ} {put : δ → Δ → Δ} {m : Tx θ δ ε α} {d d' : Δ}
    (h : FailsAlike m ts (get d) (get d')) : FailsAlike (Tx.onPart get put m) ts d d' := by
  obtain ⟨e, he, he'⟩ := h
  exact ⟨e, Tx.onPart_eq_error.mpr he, Tx.onPart_eq_error.mpr he'⟩

/-- A query whose errors on the two stores are told as one. -/
theorem query {fault : ε'} {f : δ → Except ε' α} {g : ε' → ε} {e e' : ε'} (he : f s = .error e)
    (he' : f s' = .error e') (hsame : g e = g e') :
    FailsAlike ((Tx.query fault f).mapErr g) ts s s' := by
  by_cases hts : ts = []
  · exact ⟨g fault, Tx.mapErr_eq_error.mpr ⟨fault, Tx.query_eq_error.mpr (.inl ⟨hts, rfl⟩), rfl⟩,
      Tx.mapErr_eq_error.mpr ⟨fault, Tx.query_eq_error.mpr (.inl ⟨hts, rfl⟩), rfl⟩⟩
  · exact ⟨g e, Tx.mapErr_eq_error.mpr ⟨e, Tx.query_eq_error.mpr (.inr ⟨hts, he⟩), rfl⟩,
      Tx.mapErr_eq_error.mpr ⟨e', Tx.query_eq_error.mpr (.inr ⟨hts, he'⟩), hsame.symm⟩⟩

end FailsAlike

/-- The program succeeds exactly where the other one does and the condition holds, with the
same result. -/
def Narrowed (P : Prop) (m m' : Tx θ δ ε α) (ts : List θ) (s : δ) : Prop :=
  ∀ r, m ts s = .ok r ↔ m' ts s = .ok r ∧ P

namespace Narrowed

variable {P : Prop} {ts : List θ} {s : δ}

theorem of_pos (hP : P) (m : Tx θ δ ε α) : Narrowed P m m ts s := fun _ => (and_iff_left hP).symm

/-- Behind a common first step. -/
theorem bind {m : Tx θ δ ε α} {f f' : α → Tx θ δ ε β}
    (h : ∀ a ts' s', m ts s = .ok (a, ts', s') → Narrowed P (f a) (f' a) ts' s') :
    Narrowed P (m >>= f) (m >>= f') ts s := by
  intro r
  rw [Tx.bind_eq_ok, Tx.bind_eq_ok]
  constructor
  · rintro ⟨a, ts', s', hm, hf⟩
    obtain ⟨hf', hP⟩ := (h a ts' s' hm r).mp hf
    exact ⟨⟨a, ts', s', hm, hf'⟩, hP⟩
  · rintro ⟨⟨a, ts', s', hm, hf'⟩, hP⟩
    exact ⟨a, ts', s', hm, (h a ts' s' hm r).mpr ⟨hf', hP⟩⟩

/-- Before a common rest. -/
theorem bind_left {m m' : Tx θ δ ε α} (h : Narrowed P m m' ts s) (f : α → Tx θ δ ε β) :
    Narrowed P (m >>= f) (m' >>= f) ts s := by
  intro r
  rw [Tx.bind_eq_ok, Tx.bind_eq_ok]
  constructor
  · rintro ⟨a, ts', s', hm, hf⟩
    obtain ⟨hm', hP⟩ := (h _).mp hm
    exact ⟨⟨a, ts', s', hm', hf⟩, hP⟩
  · rintro ⟨⟨a, ts', s', hm', hf⟩, hP⟩
    exact ⟨a, ts', s', (h _).mpr ⟨hm', hP⟩, hf⟩

theorem ofExcept_bind {x : Except ε α} {f f' : α → Tx θ δ ε β}
    (h : ∀ a, x = .ok a → Narrowed P (f a) (f' a) ts s) :
    Narrowed P (Tx.ofExcept x >>= f) (Tx.ofExcept x >>= f') ts s := by
  refine bind fun a ts' s' hx => ?_
  obtain ⟨b, hb, heq⟩ := Tx.ofExcept_eq_ok.mp hx
  cases heq
  exact h a hb

theorem mapErr {m m' : Tx θ δ ε α} (h : Narrowed P m m' ts s) (f : ε → ε') :
    Narrowed P (m.mapErr f) (m'.mapErr f) ts s := by
  intro r
  rw [Tx.mapErr_eq_ok, Tx.mapErr_eq_ok]
  exact h r

theorem onPart {get : Δ → δ} {put : δ → Δ → Δ} {m m' : Tx θ δ ε α} {d : Δ}
    (h : Narrowed P m m' ts (get d)) :
    Narrowed P (Tx.onPart get put m) (Tx.onPart get put m') ts d := by
  rintro ⟨a, ts', d'⟩
  rw [Tx.onPart_eq_ok, Tx.onPart_eq_ok]
  constructor
  · rintro ⟨x, hx, rfl⟩
    obtain ⟨hx', hP⟩ := (h _).mp hx
    exact ⟨⟨x, hx', rfl⟩, hP⟩
  · rintro ⟨⟨x, hx', rfl⟩, hP⟩
    exact ⟨x, (h _).mpr ⟨hx', hP⟩, rfl⟩

end Narrowed

/-- The store after a transaction: what its program left, or the old one where it failed. -/
def Tx.after (m : Tx θ δ ε α) (ts : List θ) (s : δ) : δ :=
  match m ts s with
  | .ok (_, _, s') => s'
  | .error _ => s

theorem Tx.after_of_ok {m : Tx θ δ ε α} {ts : List θ} {s : δ} {a : α} {ts' : List θ} {s' : δ}
    (h : m ts s = .ok (a, ts', s')) : m.after ts s = s' := by simp [Tx.after, h]

/-- A program that fails leaves the store alone. -/
theorem Tx.after_of_error {m : Tx θ δ ε α} {ts : List θ} {s : δ} {e : ε} (h : m ts s = .error e) :
    m.after ts s = s := by simp [Tx.after, h]

/-- The answer of a transaction and whether it committed. -/
structure Outcome (ρ δ : Type) where
  answer : ρ
  committed : Bool
  store : δ

/-- Run a transaction: a program that fails is rolled back and its error is the answer. -/
def transact {ρ : Type} (m : Tx θ δ ρ ρ) (ts : List θ) (s : δ) : Outcome ρ δ :=
  match m ts s with
  | .ok (a, _, s') => ⟨a, true, s'⟩
  | .error e => ⟨e, false, s⟩

theorem transact_of_ok {ρ : Type} {m : Tx θ δ ρ ρ} {ts ts' : List θ} {s s' : δ} {a : ρ}
    (h : m ts s = .ok (a, ts', s')) : transact m ts s = ⟨a, true, s'⟩ := by
  unfold transact
  rw [h]

theorem transact_of_error {ρ : Type} {m : Tx θ δ ρ ρ} {ts : List θ} {s : δ} {e : ρ}
    (h : m ts s = .error e) : transact m ts s = ⟨e, false, s⟩ := by
  unfold transact
  rw [h]

theorem transact_committed {ρ : Type} {m : Tx θ δ ρ ρ} {ts : List θ} {s : δ}
    (h : (transact m ts s).committed = true) :
    ∃ a ts', m ts s = .ok (a, ts', (transact m ts s).store) := by
  unfold transact at h ⊢
  cases hm : m ts s with
  | error e => simp [hm] at h
  | ok r => exact ⟨r.1, r.2.1, rfl⟩

theorem transact_rolled_back {ρ : Type} {m : Tx θ δ ρ ρ} {ts : List θ} {s : δ}
    (h : (transact m ts s).committed = false) : (transact m ts s).store = s := by
  unfold transact at h ⊢
  cases hm : m ts s with
  | error e => rfl
  | ok r => simp [hm] at h

end Program
