import Tenancit.Lib.Locks
import Tenancit.Lib.Runs

/-!
Concurrent transactions under strict two-phase locking. A transaction is a list of
statements; each statement reads and writes rows it holds locked until the transaction
ends, and its effect is seen by others at the commit. A direct step changes, at once, rows
that nobody has locked. However the transactions interleave, and whichever of them abort,
the store goes through the committed ones one after the other.
-/
namespace Transactions

/-- The statements of transactions over a store of rows, and its direct steps. -/
structure System (σ κ ρ St Op D : Type) where
  row : κ → σ → ρ
  /-- A statement, or nothing when its transaction cannot go on. -/
  exec : St → σ → Option σ
  /-- The rows a statement locks. -/
  rows : St → List κ
  program : Op → List St
  /-- A direct step, beside the given locked rows. -/
  direct : D → (κ → Bool) → σ → Option σ
  exec_frame : ∀ {s x x' k}, exec s x = some x' → k ∉ rows s → row k x' = row k x
  exec_local : ∀ {s x y x'}, (∀ k ∈ rows s, row k x = row k y) → exec s x = some x' →
    ∃ y', exec s y = some y' ∧ ∀ k ∈ rows s, row k x' = row k y'
  direct_frame : ∀ {d locked x x' k}, direct d locked x = some x' → locked k =
    true → row k x' = row k x

/-- An open transaction: the statements done and those to do. -/
structure Session (St Op : Type) where
  op : Op
  done : List St
  todo : List St

/-- What has changed the store: a committed transaction or a direct step. -/
inductive Entry (Op D : Type) where
  | tx (op : Op)
  | direct (d : D)

/-- The committed store, the open transactions with their locks, and the entries so far. -/
structure State (σ κ St Op D : Type) where
  store : σ
  sessions : Nat → Option (Session St Op) := fun _ => none
  locks : List (Nat × κ) := []
  log : List (Entry Op D) := []

inductive Label (Op D : Type) where
  | start (n : Nat) (op : Op)
  | statement (n : Nat)
  | commit (n : Nat)
  | abort (n : Nat)
  | direct (d : D)

/-- The transaction that a step is one of. -/
def Label.session {Op D : Type} : Label Op D → Option Nat
  | .start n _ | .statement n | .commit n | .abort n => some n
  | .direct _ => none

namespace System

variable {σ κ ρ St Op D : Type} (S : System σ κ ρ St Op D)

/-- Statements one after the other. -/
def execAll (ss : List St) (x : σ) : Option σ := ss.foldlM (fun x s => S.exec s x) x

/-- A transaction ends: its locks are released. -/
def close (w : State σ κ St Op D) (n : Nat) : State σ κ St Op D :=
  { w with
    sessions := Function.update w.sessions n none
    locks := Locks.release w.locks n }

/-- The serial machine: each entry is one step. -/
def Serial (x : σ) : Entry Op D → σ → Prop
  | .tx op, y => S.execAll (S.program op) x = some y
  | .direct d, y => ∃ locked, S.direct d locked x = some y

variable {S} {x y x' : σ} {s : St} {ss ts : List St} {k : κ} {w w' : State σ κ St Op D} {n : Nat}

@[simp] theorem execAll_nil : S.execAll [] x = some x := rfl

theorem execAll_cons_eq_some :
    S.execAll (s :: ss) x = some y ↔ ∃ u, S.exec s x = some u ∧ S.execAll ss u = some y :=
  Option.bind_eq_some_iff

theorem execAll_frame (h : S.execAll ss x = some x') (hk : ∀ s ∈ ss, k ∉ S.rows s) :
    S.row k x' = S.row k x := by
  induction ss generalizing x with
  | nil =>
    obtain rfl : x = x' := Option.some.inj h
    rfl
  | cons s ss ih =>
    obtain ⟨u, hu, h⟩ := execAll_cons_eq_some.mp h
    rw [ih h fun t ht => hk t (.tail _ ht), S.exec_frame hu (hk s (.head _))]

/-- Statements run alike on stores that agree on the rows they lock. -/
theorem execAll_local (hrows : ∀ s ∈ ss, ∀ k ∈ S.rows s, S.row k x = S.row k y)
    (h : S.execAll ss x = some x') : ∃ y', S.execAll ss y = some y' := by
  induction ss generalizing x y with
  | nil => exact ⟨y, rfl⟩
  | cons s ss ih =>
    obtain ⟨u, hu, h⟩ := execAll_cons_eq_some.mp h
    obtain ⟨v, hv, hsame⟩ := S.exec_local (hrows s (.head _)) hu
    have hnext : ∀ t ∈ ss, ∀ k ∈ S.rows t, S.row k u = S.row k v := by
      intro t ht k hk
      by_cases hks : k ∈ S.rows s
      · exact hsame k hks
      · rw [S.exec_frame hu hks, S.exec_frame hv hks]
        exact hrows t (.tail _ ht) k hk
    obtain ⟨y', hy'⟩ := ih hnext h
    exact ⟨y', execAll_cons_eq_some.mpr ⟨v, hv, hy'⟩⟩

/-- What holds in every reachable state: the rows of the statements done are locked by their
transaction, and the statements run on the committed store. -/
structure Inv (S : System σ κ ρ St Op D) (w : State σ κ St Op D) : Prop where
  exclusive : Locks.Exclusive w.locks
  locked : ∀ n t, w.sessions n = some t → ∀ s ∈ t.done, ∀ k ∈ S.rows s, (n, k) ∈ w.locks
  runs : ∀ n t, w.sessions n = some t → ∃ x, S.execAll t.done w.store = some x
  program : ∀ n t, w.sessions n = some t → t.done ++ t.todo = S.program t.op

theorem close_sessions {m : Nat} {t : Session St Op} (h : (close w n).sessions m = some t) :
    w.sessions m = some t := by
  simp only [close, Function.update_apply] at h
  split at h
  · cases h
  · exact h

theorem Inv.close (h : Inv S w) (n : Nat) : Inv S (close w n) := by
  have hsession : ∀ m t, (System.close w n).sessions m = some t → m ≠
      n ∧ w.sessions m = some t := by
    intro m t ht
    simp only [System.close, Function.update_apply] at ht
    split at ht
    · cases ht
    next hm => exact ⟨hm, ht⟩
  refine ⟨h.exclusive.release n, fun m t ht s hs k hk => ?_, fun m t ht => ?_, fun m t ht => ?_⟩
  · obtain ⟨hm, ht⟩ := hsession m t ht
    exact Locks.mem_release.mpr ⟨h.locked m t ht s hs k hk, hm⟩
  · exact h.runs m t (hsession m t ht).2
  · exact h.program m t (hsession m t ht).2

/-- More rows are locked, that nobody else has locked. -/
theorem Inv.lock {ks : List κ} (h : Inv S w) (hfree : ∀ k ∈ ks, Locks.Free w.locks n k) :
    Inv S { w with locks := Locks.acquire w.locks n ks } :=
  ⟨h.exclusive.acquire hfree, fun m t ht s hs k hk =>
    Locks.mem_acquire.mpr (.inl (h.locked m t ht s hs k hk)),
    h.runs, h.program⟩

/-- A change of the store beside the locks of the open transactions. -/
theorem Inv.change {log : List (Entry Op D)} (h : Inv S w)
    (hsame : ∀ m k, (m, k) ∈ w.locks → S.row k x = S.row k w.store) :
    Inv S { w with store := x, log := log } := by
  refine ⟨h.exclusive, h.locked, fun m t ht => ?_, h.program⟩
  obtain ⟨u, hu⟩ := h.runs m t ht
  exact execAll_local (fun s hs k hk => (hsame m k (h.locked m t ht s hs k hk)).symm) hu

/-- No transaction is open and nothing is logged. -/
def initial (x : σ) : State σ κ St Op D := { store := x }

theorem inv_initial : Inv S (initial x) where
  exclusive := by simp [initial]
  locked n t ht := by cases ht
  runs n t ht := by cases ht
  program n t ht := by cases ht

variable [DecidableEq κ]

/-- Whether some transaction has locked the row. -/
def locked (w : State σ κ St Op D) (k : κ) : Bool := w.locks.any fun x => x.2 = k

/-- One step of the machine. A statement waits while a row it needs is locked; it sees the
effect of the statements before it. -/
def step (w : State σ κ St Op D) : Label Op D → Option (State σ κ St Op D)
  | .start n op => match w.sessions n with
    | none => some { w with sessions := Function.update w.sessions n (some ⟨op, [], S.program op⟩) }
    | some _ => none
  | .statement n => match w.sessions n with
    | some ⟨op, done, s :: todo⟩ =>
      if ∀ k ∈ S.rows s, Locks.Free w.locks n k then
        match S.execAll (done ++ [s]) w.store with
        | some _ => some { w with
            sessions := Function.update w.sessions n (some ⟨op, done ++ [s], todo⟩)
            locks := Locks.acquire w.locks n (S.rows s) }
        | none => some (close w n)
      else none
    | _ => none
  | .commit n => match w.sessions n with
    | some ⟨op, done, []⟩ => (S.execAll done w.store).map fun x =>
        { close w n with store := x, log := w.log ++ [.tx op] }
    | _ => none
  | .abort n => some (close w n)
  | .direct d => (S.direct d (locked w) w.store).map fun x =>
      { w with store := x, log := w.log ++ [.direct d] }

/-- A step keeps the invariant, and changes the store only as one entry of the log does. -/
theorem step_spec (h : Inv S w) {l : Label Op D} (hstep : S.step w l = some w') : Inv S w' ∧
    ((w'.store = w.store ∧ w'.log = w.log) ∨
      ∃ e, w'.log = w.log ++ [e] ∧ S.Serial w.store e w'.store) := by
  cases l with
  | start n op =>
    simp only [step] at hstep
    split at hstep
    next hnone =>
      cases hstep
      refine ⟨⟨h.exclusive, fun m t ht => ?_, fun m t ht => ?_, fun m t ht => ?_⟩, .inl ⟨rfl, rfl⟩⟩
      all_goals
        simp only [Function.update_apply] at ht
        split at ht
      · cases ht
        simp
      · exact h.locked m t ht
      · cases ht
        exact ⟨w.store, rfl⟩
      · exact h.runs m t ht
      · cases ht
        rfl
      · exact h.program m t ht
    · cases hstep
  | statement n =>
    simp only [step] at hstep
    split at hstep
    next op done s todo hsession =>
      split at hstep
      next hfree =>
        split at hstep
        next u hu =>
          cases hstep
          refine ⟨⟨h.exclusive.acquire hfree, fun m t ht s' hs' k hk => ?_, fun m t ht =>
            ?_, fun m t ht => ?_⟩,
            .inl ⟨rfl, rfl⟩⟩
          all_goals
            simp only [Function.update_apply] at ht
            split at ht
          next hm =>
            cases ht
            subst hm
            rcases List.mem_append.mp hs' with hs' | hs'
            · exact Locks.mem_acquire.mpr (.inl (h.locked m _ hsession s' hs' k hk))
            · obtain rfl := List.mem_singleton.mp hs'
              exact Locks.mem_acquire.mpr (.inr ⟨rfl, hk⟩)
          · exact Locks.mem_acquire.mpr (.inl (h.locked m t ht s' hs' k hk))
          · cases ht
            exact ⟨u, hu⟩
          · exact h.runs m t ht
          · cases ht
            simpa using h.program n _ hsession
          · exact h.program m t ht
        · cases hstep
          exact ⟨h.close n, .inl ⟨rfl, rfl⟩⟩
      · cases hstep
    · cases hstep
  | commit n =>
    simp only [step] at hstep
    split at hstep
    next op done hsession =>
      obtain ⟨u, hu, rfl⟩ := Option.map_eq_some_iff.mp hstep
      have hprogram : done = S.program op := by simpa using h.program n _ hsession
      have hserial : S.Serial w.store (.tx op) u := by
        show S.execAll (S.program op) w.store = some u
        rw [← hprogram]
        exact hu
      refine ⟨(h.close n).change fun m k hk => ?_, .inr ⟨.tx op, rfl, hserial⟩⟩
      -- a row of the committed transaction is locked by nobody else
      obtain ⟨hk, hm⟩ := Locks.mem_release.mp hk
      refine execAll_frame hu fun s hs hks => hm ?_
      exact h.exclusive _ hk _ (h.locked n _ hsession s hs k hks) rfl
    · cases hstep
  | abort n =>
    cases hstep
    exact ⟨h.close n, .inl ⟨rfl, rfl⟩⟩
  | direct d =>
    obtain ⟨u, hu, rfl⟩ := Option.map_eq_some_iff.mp hstep
    refine ⟨h.change fun m k hk => S.direct_frame hu ?_, .inr ⟨.direct d, rfl, _, hu⟩⟩
    exact List.any_eq_true.mpr ⟨(m, k), hk, by simp⟩

/-- What a step does: it opens a transaction, changes neither store nor log nor opens
anything, commits a transaction, or takes a direct step. -/
inductive Effect (S : System σ κ ρ St Op D) (w : State σ κ St Op D) :
    Label Op D → State σ κ St Op D → Prop
  | start {n : Nat} {op : Op} : Effect S w (.start n op)
      { w with sessions := Function.update w.sessions n (some ⟨op, [], S.program op⟩) }
  | statement {n : Nat} {w' : State σ κ St Op D} (hstore : w'.store = w.store)
      (hlog : w'.log = w.log)
      (hops : ∀ m t', w'.sessions m = some t' → ∃ t, w.sessions m = some t ∧ t.op = t'.op) :
      Effect S w (.statement n) w'
  | commit {n : Nat} {op : Op} {done : List St} {x : σ}
      (hsession : w.sessions n = some ⟨op, done, []⟩)
      (hserial : S.Serial w.store (.tx op) x) :
      Effect S w (.commit n) { close w n with store := x, log := w.log ++ [.tx op] }
  | abort {n : Nat} : Effect S w (.abort n) (close w n)
  | direct {d : D} {x : σ} (hdirect : S.direct d (locked w) w.store = some x) :
      Effect S w (.direct d) { w with store := x, log := w.log ++ [.direct d] }

theorem step_effect (h : Inv S w) {l : Label Op D} (hstep : S.step w l = some w') :
    Effect S w l w' := by
  cases l with
  | start n op =>
    simp only [step] at hstep
    split at hstep
    · cases hstep
      exact .start
    · cases hstep
  | statement n =>
    simp only [step] at hstep
    split at hstep
    next op done s todo hsession =>
      split at hstep
      · split at hstep
        · cases hstep
          refine .statement rfl rfl fun m t' ht => ?_
          simp only [Function.update_apply] at ht
          split at ht
          next hm =>
            cases ht
            exact ⟨⟨op, done, s :: todo⟩, hm ▸ hsession, rfl⟩
          · exact ⟨t', ht, rfl⟩
        · cases hstep
          exact .statement rfl rfl fun m t' ht => ⟨t', close_sessions ht, rfl⟩
      · cases hstep
    · cases hstep
  | commit n =>
    simp only [step] at hstep
    split at hstep
    next op done hsession =>
      obtain ⟨u, hu, rfl⟩ := Option.map_eq_some_iff.mp hstep
      have hprogram : done = S.program op := by simpa using h.program n _ hsession
      exact .commit hsession (show S.execAll (S.program op) w.store = some u from hprogram ▸ hu)
    · cases hstep
  | abort n =>
    cases hstep
    exact .abort
  | direct d =>
    obtain ⟨u, hu, rfl⟩ := Option.map_eq_some_iff.mp hstep
    exact .direct hu

/-- A step releases no lock of another transaction. -/
theorem step_locks {l : Label Op D} {m : Nat} (hstep : S.step w l = some w')
    (hl : l.session ≠ some m) (hk : (m, k) ∈ w.locks) : (m, k) ∈ w'.locks := by
  have hclose : ∀ {n}, m ≠ n → (m, k) ∈ (close w n).locks :=
    fun hne => Locks.mem_release.mpr ⟨hk, hne⟩
  cases l with
  | start n op =>
    simp only [step] at hstep
    split at hstep <;> cases hstep
    exact hk
  | statement n =>
    have hne : m ≠ n := fun h => hl (h ▸ rfl)
    simp only [step] at hstep
    split at hstep
    · split at hstep
      · split at hstep <;> cases hstep
        · exact Locks.mem_acquire.mpr (.inl hk)
        · exact hclose hne
      · cases hstep
    · cases hstep
  | commit n =>
    have hne : m ≠ n := fun h => hl (h ▸ rfl)
    simp only [step] at hstep
    split at hstep
    · obtain ⟨u, -, rfl⟩ := Option.map_eq_some_iff.mp hstep
      exact hclose hne
    · cases hstep
  | abort n =>
    cases hstep
    exact hclose fun h => hl (h ▸ rfl)
  | direct d =>
    obtain ⟨u, -, rfl⟩ := Option.map_eq_some_iff.mp hstep
    exact hk

theorem inv_run {ls : List (Label Op D)} (hrun : Runs.Run (Runs.Steps S.step) w ls w')
    (h : Inv S w) : Inv S w' :=
  hrun.invariant (fun _ _ _ h hstep => (step_spec h hstep).1) h

/-- The store of every reachable state is that of a serial run of the logged entries. -/
theorem serial_run {ls : List (Label Op D)} (hrun : Runs.Run (Runs.Steps S.step) (initial x) ls w) :
    Runs.Run S.Serial x w.log w.store := by
  refine hrun.history (P := fun _ w => Runs.Run S.Serial x w.log w.store) (.nil x) ?_
  intro ls u l t hls ih hstep
  rcases (step_spec (inv_run hls inv_initial) hstep).2 with ⟨hstore, hlog⟩ | ⟨e, hlog, he⟩
  · rwa [hstore, hlog]
  · rw [hlog]
    exact ih.snoc he

/-- What a step adds to the log is a serial step of the store. -/
theorem serial_of_log {ls : List (Label Op D)} {l : Label Op D} {e : Entry Op D}
    (hrun : Runs.Run (Runs.Steps S.step) (initial x) ls w) (hstep : S.step w l = some w')
    (hlog : w'.log = w.log ++ [e]) : S.Serial w.store e w'.store := by
  rcases (step_spec (inv_run hrun inv_initial) hstep).2 with ⟨-, hsame⟩ | ⟨e', hlog', he'⟩
  · rw [hsame] at hlog
    simp at hlog
  · obtain rfl : e' = e := by simpa using List.append_cancel_left (hlog'.symm.trans hlog)
    exact he'

/-- A property of the log and the store that every serial step keeps, in every reachable state. -/
theorem serial_invariant {P : List (Entry Op D) → σ → Prop} (h0 : P [] x)
    (hstep : ∀ log y e y', P log y → S.Serial y e y' → P (log ++ [e]) y') {ls : List (Label Op D)}
    (hrun : Runs.Run (Runs.Steps S.step) (initial x) ls w) : P w.log w.store :=
  (serial_run hrun).history h0 fun log y e y' _ hy he => hstep log y e y' hy he

/-- What is open or committed was started. -/
theorem started_run {ls : List (Label Op D)}
    (hrun : Runs.Run (Runs.Steps S.step) (initial x) ls w) :
    (∀ n t, w.sessions n = some t → ∃ m, Label.start m t.op ∈ ls) ∧
      ∀ op, Entry.tx op ∈ w.log → ∃ m, Label.start m op ∈ ls := by
  refine hrun.history (P := fun ls w =>
    (∀ n t, w.sessions n = some t → ∃ m, Label.start m t.op ∈ ls) ∧
    ∀ op, Entry.tx op ∈ w.log → ∃ m, Label.start m op ∈ ls) ⟨fun n t ht => (by cases ht),
    fun op h => (by cases h)⟩ ?_
  rintro ls u l v - ⟨hsessions, hlog⟩ hstep
  have hmono : ∀ {op : Op}, (∃ m, Label.start m op ∈ ls) → ∃ m, Label.start m op ∈ ls ++ [l] :=
    fun ⟨m, hm⟩ => ⟨m, List.mem_append_left _ hm⟩
  have hclose : ∀ n m t, (close u n).sessions m = some t → ∃ k, Label.start k t.op ∈ ls ++ [l] := by
    intro n m t ht
    simp only [close, Function.update_apply] at ht
    split at ht
    · cases ht
    · exact hmono (hsessions m t ht)
  cases l with
  | start n op =>
    simp only [Runs.Steps, step] at hstep
    split at hstep
    · cases hstep
      refine ⟨fun m t ht => ?_, fun op' h => hmono (hlog op' h)⟩
      simp only [Function.update_apply] at ht
      split at ht
      · cases ht
        exact ⟨n, by simp⟩
      · exact hmono (hsessions m t ht)
    · cases hstep
  | statement n =>
    simp only [Runs.Steps, step] at hstep
    split at hstep
    next op done s todo hsession =>
      split at hstep
      · split at hstep
        · cases hstep
          refine ⟨fun m t ht => ?_, fun op' h => hmono (hlog op' h)⟩
          simp only [Function.update_apply] at ht
          split at ht
          · cases ht
            exact hmono (hsessions n ⟨op, done, s :: todo⟩ hsession)
          · exact hmono (hsessions m t ht)
        · cases hstep
          exact ⟨hclose n, fun op' h => hmono (hlog op' h)⟩
      · cases hstep
    · cases hstep
  | commit n =>
    simp only [Runs.Steps, step] at hstep
    split at hstep
    next op done hsession =>
      obtain ⟨y, -, rfl⟩ := Option.map_eq_some_iff.mp hstep
      refine ⟨hclose n, fun op' h => hmono ?_⟩
      rcases List.mem_append.mp h with h | h
      · exact hlog op' h
      · cases List.mem_singleton.mp h
        exact hsessions n _ hsession
    · cases hstep
  | abort n =>
    cases hstep
    exact ⟨hclose n, fun op' h => hmono (hlog op' h)⟩
  | direct d =>
    obtain ⟨y, -, rfl⟩ := Option.map_eq_some_iff.mp hstep
    refine ⟨fun m t ht => hmono (hsessions m t ht), fun op' h => hmono ?_⟩
    rcases List.mem_append.mp h with h | h
    · exact hlog op' h
    · cases List.mem_singleton.mp h

end System

end Transactions
