import Tenancit.Lib.Locks
import Tenancit.Lib.Runs

/-!
`web/src/lib/use-transient-resource-reveal.ts`: the secrets of a tenant are on the screen for a
while. The hook numbers its calls by an epoch and aborts the one it has given up; answers come in
any order. Beside it stands what should be on the screen, which knows no epochs.
-/
namespace Tenancit.Web

open Runs

variable {R E : Type}

/-- What the hook keeps: its state, `controllerRef` as the number of a call, and the other refs. -/
structure RevealHook (R E : Type) where
  resources : Option R := none
  isLoading : Bool := false
  error : Option E := none
  controller : Option Nat := none
  epoch : Nat := 0
  mounted : Bool := true
  tenant : String

/-- What a call of `show` holds while it waits, and whether its signal is aborted. -/
structure RevealCall where
  tenantId : String
  requestEpoch : Nat
  credential : String
  aborted : Bool
  settled : Bool
  deriving DecidableEq

/-- The hook, the calls it has made, and the token in the storage of the browser. -/
structure RevealPage (R E : Type) where
  hook : RevealHook R E
  calls : List RevealCall := []
  token : String

/-- How a request ends: the resources, or an error, which may be an `AbortError`. -/
inductive Settlement (R E : Type) where
  | resolved (revealed : R)
  | rejected (error : E) (abortError : Bool)

/-- What happens to a page. `commit` is a change of the tenant, `setAdminToken` stands for
`clearAdminToken` as well, `otherTab` changes the token without an event, which `storageEvent` may
bring later, and nobody listens to a change of the session. `strictEffects` is React trying out the
effects of a new page. -/
inductive RevealEvent (R E : Type) where
  | show (tenantId : String)
  | settle (call : Nat) (settlement : Settlement R E)
  | hide
  | commit (tenantId : String)
  | setAdminToken (token : String)
  | otherTab (token : String)
  | storageEvent
  | setAdminSession
  | strictEffects
  | unmount

namespace RevealPage

/-- `controllerRef.current?.abort()` -/
def abort (controller : Option Nat) (calls : List RevealCall) : List RevealCall :=
  match controller with
  | none => calls
  | some call => calls.modify call fun q => { q with aborted := true }

def cancelAndErase (updateState : Bool) (p : RevealPage R E) : RevealPage R E :=
  let hook := { p.hook with epoch := p.hook.epoch + 1, controller := none }
  { p with
    calls := abort p.hook.controller p.calls
    hook := if !updateState || !p.hook.mounted then hook
      else { hook with resources := none, error := none, isLoading := false } }

/-- `show` up to the request. -/
def start (tenantId : String) (p : RevealPage R E) : RevealPage R E :=
  let erased := p.cancelAndErase true
  { erased with
    calls := erased.calls ++ [⟨tenantId, erased.hook.epoch, p.token, false, false⟩]
    hook := { erased.hook with controller := some erased.calls.length, isLoading := true } }

def isCurrent (p : RevealPage R E) (q : RevealCall) : Bool :=
  p.hook.mounted && !q.aborted && q.requestEpoch == p.hook.epoch && p.hook.tenant == q.tenantId &&
    p.token == q.credential

/-- The rest of `show`, without its `finally`. -/
def receive (q : RevealCall) (p : RevealPage R E) : Settlement R E → RevealHook R E
  | .resolved revealed =>
    if p.isCurrent q then { p.hook with resources := some revealed, error := none } else p.hook
  | .rejected error abortError =>
    if q.aborted || abortError || !p.hook.mounted || q.requestEpoch != p.hook.epoch then p.hook
    else { p.hook with resources := none, error := some error }

/-- The rest of `show`. -/
def finish (call : Nat) (q : RevealCall) (settlement : Settlement R E) (p : RevealPage R E) :
    RevealPage R E :=
  let hook := p.receive q settlement
  { p with
    calls := p.calls.set call { q with settled := true }
    hook := if hook.mounted && q.requestEpoch == hook.epoch then { hook with
      isLoading := false } else hook }

/-- A page that has just been mounted. -/
def opened (tenantId token : String) : RevealPage R E :=
  cancelAndErase true { hook := { tenant := tenantId }, token := token }

def step (p : RevealPage R E) : RevealEvent R E → Option (RevealPage R E)
  | .show tenantId => some (p.start tenantId)
  | .settle call settlement =>
    match p.calls[call]? with
    | some q => if q.settled then none else some (p.finish call q settlement)
    | none => none
  | .hide => some (p.cancelAndErase true)
  | .commit tenantId =>
    some (cancelAndErase true { p with hook := { p.hook with tenant := tenantId } })
  | .setAdminToken token =>
    let changed := { p with token := token }
    -- the listeners are gone with the page
    some (if p.hook.mounted then changed.cancelAndErase true else changed)
  | .otherTab token => some { p with token := token }
  | .storageEvent => some (if p.hook.mounted then p.cancelAndErase true else p)
  | .setAdminSession => some p
  | .strictEffects =>
    let cleaned := cancelAndErase false { p with hook := { p.hook with mounted := false } }
    if p.hook.mounted && p.calls = [] then some { cleaned with
      hook := { cleaned.hook with mounted := true } } else none
  | .unmount => some (cancelAndErase false { p with hook := { p.hook with mounted := false } })

def Step (p : RevealPage R E) (x : RevealEvent R E) (p' : RevealPage R E) : Prop :=
  p.step x = some p'

end RevealPage

/-- The call that counts: its number, its tenant and its credential. -/
structure Waiting where
  call : Nat
  tenantId : String
  credential : String
  deriving DecidableEq

/-- What should be on the screen, and what decides about it. -/
structure Screen (R E : Type) where
  waiting : Option Waiting := none
  resources : Option R := none
  error : Option E := none
  tenant : String
  token : String
  mounted : Bool := true
  calls : Nat := 0

namespace Screen

def erase (s : Screen R E) : Screen R E :=
  { s with waiting := none, resources := none, error := none }

/-- The answer to the call that counts. -/
def answer (s : Screen R E) (x : Waiting) : Settlement R E → Screen R E
  | .resolved revealed =>
    { s with
      waiting := none, resources :=
        if s.mounted && s.tenant = x.tenantId && s.token = x.credential
          then some revealed else none }
  | .rejected error abortError =>
    { s with waiting := none, error := if abortError then none else some error }

def next (s : Screen R E) : RevealEvent R E → Screen R E
  | .show tenantId =>
    { s.erase with waiting := some ⟨s.calls, tenantId, s.token⟩, calls := s.calls + 1 }
  | .settle call settlement =>
    match s.waiting with
    | some x => if x.call = call then s.answer x settlement else s
    | none => s
  | .hide | .storageEvent => s.erase
  | .commit tenantId => { s.erase with tenant := tenantId }
  | .setAdminToken token => { s.erase with token := token }
  | .otherTab token => { s with token := token }
  | .setAdminSession => s
  | .strictEffects => s
  | .unmount => { s.erase with mounted := false }

/-- What should be on the screen after some events. -/
def after (tenantId token : String) (xs : List (RevealEvent R E)) : Screen R E :=
  xs.foldl next { tenant := tenantId, token := token }

end Screen

section simulation

variable {p p' : RevealPage R E} {s : Screen R E} {x : RevealEvent R E} {u : Bool}

/-- A page whose hook shows what should be shown: the call that counts is the only one of this epoch
that has not ended. -/
structure Faithful (s : Screen R E) (p : RevealPage R E) : Prop where
  tenant : p.hook.tenant = s.tenant
  token : p.token = s.token
  length : p.calls.length = s.calls
  resources : p.hook.resources = s.resources
  error : p.hook.error = s.error
  isLoading : p.hook.isLoading = s.waiting.isSome
  epochs : ∀ q ∈ p.calls, q.requestEpoch ≤ p.hook.epoch
  waits : ∀ x ∈ s.waiting, p.calls[x.call]? =
    some ⟨x.tenantId, p.hook.epoch, x.credential, false, false⟩ ∧
    s.resources = none ∧ s.error = none
  only : ∀ k q, p.calls[k]? = some q → q.requestEpoch = p.hook.epoch → q.settled =
    false → s.waiting = some ⟨k, q.tenantId, q.credential⟩

theorem length_abort (controller : Option Nat) (calls : List RevealCall) :
    (RevealPage.abort controller calls).length = calls.length := by
  cases controller <;> simp [RevealPage.abort]

/-- After an erasure no call is of the new epoch. -/
theorem epochs_cancelAndErase (h : ∀ q ∈ p.calls, q.requestEpoch ≤ p.hook.epoch) :
    ∀ q ∈ (p.cancelAndErase u).calls, q.requestEpoch < (p.cancelAndErase u).hook.epoch := by
  have hepoch : (p.cancelAndErase u).hook.epoch = p.hook.epoch + 1 := by
    unfold RevealPage.cancelAndErase
    dsimp only
    split <;> rfl
  intro q hq
  rw [hepoch]
  refine Nat.lt_succ_of_le ?_
  change q ∈ RevealPage.abort p.hook.controller p.calls at hq
  unfold RevealPage.abort at hq
  split at hq
  · exact h q hq
  next call hcall =>
    obtain ⟨k, hk⟩ := List.mem_iff_getElem?.mp hq
    rw [List.getElem?_modify] at hk
    obtain ⟨q₀, hq₀, hsame⟩ := Option.map_eq_some_iff.mp hk
    have hle := h q₀ (List.mem_of_getElem? hq₀)
    by_cases hcallk : call = k
    · rw [if_pos hcallk] at hsame
      exact hsame ▸ hle
    · rw [if_neg hcallk] at hsame
      exact hsame ▸ hle

theorem cancelAndErase_mounted (hm : p.hook.mounted = true) : (p.cancelAndErase true).hook =
    { p.hook with
      epoch := p.hook.epoch + 1, controller := none, resources := none, error :=
        none, isLoading := false } := by
  unfold RevealPage.cancelAndErase
  simp [hm]

/-- An erasure gives up the call that counts. -/
theorem Faithful.erase (h : Faithful s p) (hm : p.hook.mounted = true) :
    Faithful s.erase (p.cancelAndErase true) := by
  have hlt := epochs_cancelAndErase (u := true) h.epochs
  have hhook := cancelAndErase_mounted hm
  refine ⟨?_, h.token, ?_, ?_, ?_, ?_, fun q hq => Nat.le_of_lt (hlt q hq),
    (fun x hx => nomatch hx), fun k q hq hepoch _ => ?_⟩
  · rw [hhook]
    exact h.tenant
  · exact (length_abort _ _).trans h.length
  · rw [hhook]
    rfl
  · rw [hhook]
    rfl
  · rw [hhook]
    rfl
  · exact absurd hepoch (Nat.ne_of_lt (hlt q (List.mem_of_getElem? hq)))

theorem Faithful.show (h : Faithful s p) (hm : p.hook.mounted = true) (tenantId : String) :
    Faithful (s.next (.show tenantId)) (p.start tenantId) := by
  have herased := h.erase hm
  have hlt := epochs_cancelAndErase (u := true) h.epochs
  refine ⟨herased.tenant, herased.token, ?_, herased.resources, herased.error, rfl, ?_, ?_, ?_⟩
  · have hlength := herased.length
    rw [RevealPage.start, List.length_append, hlength]
    rfl
  · intro q hq
    rcases List.mem_append.mp hq with hq | hq
    · exact Nat.le_of_lt (hlt q hq)
    · rw [List.mem_singleton.mp hq]
      exact Nat.le_refl _
  · rintro x ⟨⟩
    refine ⟨?_, rfl, rfl⟩
    have hlength : (p.cancelAndErase true).calls.length = s.calls := herased.length
    change ((p.cancelAndErase true).calls ++ [_])[s.calls]? = _
    rw [← hlength, List.getElem?_concat_length, h.token]
    rfl
  · intro k q hq hepoch hsettled
    have hlength : (p.cancelAndErase true).calls.length = s.calls := herased.length
    rcases Locks.concat_cases hq with ⟨rfl, rfl⟩ | ⟨-, hold⟩
    · rw [hlength, h.token]
      rfl
    · exact absurd hepoch (Nat.ne_of_lt (hlt q (List.mem_of_getElem? hold)))

theorem isCurrent_of_ne {q : RevealCall} (h : q.requestEpoch ≠ p.hook.epoch) :
    p.isCurrent q = false := by
  simp [RevealPage.isCurrent, h]

/-- An answer to a call that does not count is dropped. -/
theorem finish_dropped {k : Nat} {q : RevealCall} (settlement : Settlement R E)
    (h : q.requestEpoch ≠ p.hook.epoch) :
    p.finish k q settlement = { p with calls := p.calls.set k { q with settled := true } } := by
  have hreceive : p.receive q settlement = p.hook := by
    unfold RevealPage.receive
    cases settlement with
    | resolved revealed => simp [isCurrent_of_ne h]
    | rejected error abortError => simp [h]
  simp [RevealPage.finish, hreceive, h]

theorem next_settle_other {k : Nat} (settlement : Settlement R E)
    (h : ∀ x ∈ s.waiting, x.call ≠ k) : s.next (.settle k settlement) = s := by
  simp only [Screen.next]
  split
  next x hx => exact if_neg (h x hx)
  · rfl

theorem next_settle {k : Nat} {tenantId credential : String} (settlement : Settlement R E)
    (h : s.waiting = some ⟨k, tenantId, credential⟩) :
    s.next (.settle k settlement) = s.answer ⟨k, tenantId, credential⟩ settlement := by
  simp only [Screen.next, h, if_true]

theorem Faithful.settle (h : Faithful s p) (hm : p.hook.mounted = true) (hsm : s.mounted = true)
    {k : Nat} {q : RevealCall} (hq : p.calls[k]? = some q) (hsettled : q.settled = false)
    (settlement : Settlement R E) :
    Faithful (s.next (.settle k settlement)) (p.finish k q settlement) := by
  have hlt : k < p.calls.length := (List.getElem?_eq_some_iff.mp hq).1
  have hepochs : ∀ r ∈ p.calls.set k { q with settled := true }, r.requestEpoch ≤ p.hook.epoch := by
    intro r hr
    rcases List.mem_or_eq_of_mem_set hr with hr | rfl
    · exact h.epochs r hr
    · exact h.epochs q (List.mem_of_getElem? hq)
  by_cases hepoch : q.requestEpoch = p.hook.epoch
  · have hwaiting := h.only k q hq hepoch hsettled
    obtain ⟨hcall, hnoResources, hnoError⟩ := h.waits _ hwaiting
    have haborted : q.aborted = false :=
      congrArg RevealCall.aborted (Option.some.inj (hq.symm.trans hcall))
    have honly : ∀ (j : Nat) (r : RevealCall), (p.calls.set k { q with
      settled := true })[j]? = some r → r.requestEpoch = p.hook.epoch → r.settled = true := by
      intro j r hr hrepoch
      rcases Locks.set_cases hr with ⟨-, rfl⟩ | ⟨hne, hr⟩
      · rfl
      · by_contra hopen
        have hother := h.only j r hr hrepoch (by simpa using hopen)
        exact hne (congrArg Waiting.call (Option.some.inj (hother.symm.trans hwaiting)))
    rw [next_settle settlement hwaiting]
    cases settlement with
    | resolved revealed =>
      have hcurrent : p.isCurrent q =
          (s.mounted && s.tenant = q.tenantId && s.token = q.credential) := by
        simp [RevealPage.isCurrent, hm, hsm, haborted, hepoch, h.tenant, h.token,
          Bool.beq_eq_decide_eq]
      have hfinish : p.finish k q (.resolved revealed) = { p with
          calls := p.calls.set k { q with settled := true }
          hook := { p.hook with
            resources :=
              if s.mounted && s.tenant = q.tenantId && s.token = q.credential
                then some revealed else none
            isLoading := false } } := by
        have hresources := h.resources.trans hnoResources
        have herror := h.error.trans hnoError
        unfold RevealPage.finish RevealPage.receive
        dsimp only
        rw [hcurrent]
        split
        · simp [hm, hepoch, herror]
        · simp [hm, hepoch, hresources]
      rw [hfinish]
      refine ⟨h.tenant, h.token, (List.length_set ..).trans h.length, rfl, h.error, rfl, hepochs,
        (fun x hx => nomatch hx), ?_⟩
      intro j r hr hrepoch hrsettled
      rw [honly j r hr hrepoch] at hrsettled
      cases hrsettled
    | rejected error abortError =>
      have hfinish : p.finish k q (.rejected error abortError) = { p with
          calls := p.calls.set k { q with settled := true }
          hook :=
            { p.hook with
              error := if abortError then none else some error, isLoading := false } } := by
        have hresources := h.resources.trans hnoResources
        have herror := h.error.trans hnoError
        unfold RevealPage.finish RevealPage.receive
        cases abortError <;> simp [hm, hepoch, haborted, herror, hresources]
      rw [hfinish]
      refine ⟨h.tenant, h.token, (List.length_set ..).trans h.length, h.resources, rfl, rfl,
        hepochs, (fun x hx => nomatch hx), ?_⟩
      intro j r hr hrepoch hrsettled
      rw [honly j r hr hrepoch] at hrsettled
      cases hrsettled
  · have hother : ∀ x ∈ s.waiting, x.call ≠ k := by
      rintro x hx rfl
      rw [(h.waits x hx).1] at hq
      cases hq
      exact hepoch rfl
    rw [finish_dropped settlement hepoch, next_settle_other settlement hother]
    refine ⟨h.tenant, h.token, (List.length_set ..).trans h.length, h.resources, h.error,
      h.isLoading, hepochs, fun x hx => ?_, ?_⟩
    · refine ⟨?_, (h.waits x hx).2⟩
      rw [List.getElem?_set_ne (Ne.symm (hother x hx))]
      exact (h.waits x hx).1
    · intro j r hr hrepoch hrsettled
      rcases Locks.set_cases hr with ⟨rfl, rfl⟩ | ⟨-, hr⟩
      · cases hrsettled
      · exact h.only j r hr hrepoch hrsettled

theorem Faithful.setTenant (h : Faithful s p) (tenantId : String) :
    Faithful { s with tenant := tenantId } { p with hook := { p.hook with tenant := tenantId } } :=
  ⟨rfl, h.token, h.length, h.resources, h.error, h.isLoading, h.epochs, h.waits, h.only⟩

theorem Faithful.setToken (h : Faithful s p) (token : String) :
    Faithful { s with token := token } { p with token := token } :=
  ⟨h.tenant, rfl, h.length, h.resources, h.error, h.isLoading, h.epochs, h.waits, h.only⟩

/-- A page that has made no call yet is not changed by a trial of its effects. -/
theorem Faithful.strictEffects (h : Faithful s p) (hcalls : p.calls = []) : Faithful s { p with
    calls := RevealPage.abort p.hook.controller p.calls
    hook := { p.hook with epoch := p.hook.epoch + 1, controller := none, mounted := true } } := by
  have habort : RevealPage.abort p.hook.controller p.calls = [] :=
    List.eq_nil_of_length_eq_zero (by rw [length_abort, hcalls, List.length_nil])
  rw [habort]
  refine ⟨h.tenant, h.token, ?_, h.resources, h.error, h.isLoading, (fun q hq => nomatch hq),
    fun x hx => ?_, (fun k q hq => nomatch hq)⟩
  · rw [← h.length, hcalls]
  · have hcall := (h.waits x hx).1
    rw [hcalls] at hcall
    cases hcall

/-- A page and what should be on its screen, as long as it is mounted. -/
structure Simulates (s : Screen R E) (p : RevealPage R E) : Prop where
  mounted : p.hook.mounted = s.mounted
  faithful : s.mounted = true → Faithful s p

theorem mounted_cancelAndErase : (p.cancelAndErase u).hook.mounted = p.hook.mounted := by
  unfold RevealPage.cancelAndErase
  dsimp only
  split <;> rfl

theorem mounted_finish {k : Nat} {q : RevealCall} {settlement : Settlement R E} :
    (p.finish k q settlement).hook.mounted = p.hook.mounted := by
  have hreceive : (p.receive q settlement).mounted = p.hook.mounted := by
    unfold RevealPage.receive
    split
    · split <;> rfl
    · split <;> rfl
  unfold RevealPage.finish
  dsimp only
  split <;> exact hreceive

/-- An answer changes what is on the screen and nothing that decides about it. -/
theorem next_settle_kept (k : Nat) (settlement : Settlement R E) :
    (s.next (.settle k settlement)).mounted = s.mounted ∧
    (s.next (.settle k settlement)).tenant = s.tenant ∧
    (s.next (.settle k settlement)).token = s.token ∧
    (s.next (.settle k settlement)).calls = s.calls := by
  simp only [Screen.next]
  split
  · split
    · cases settlement <;> exact ⟨rfl, rfl, rfl, rfl⟩
    · exact ⟨rfl, rfl, rfl, rfl⟩
  · exact ⟨rfl, rfl, rfl, rfl⟩

/-- A step of the page keeps what is on the screen as it should be. -/
theorem Simulates.step (h : Simulates s p) (hstep : RevealPage.Step p x p') :
    Simulates (s.next x) p' := by
  cases x with
  | «show» tenantId =>
    cases hstep
    refine ⟨?_, fun hm => (h.faithful hm).show (h.mounted.trans hm) tenantId⟩
    exact mounted_cancelAndErase.trans h.mounted
  | settle k settlement =>
    simp only [RevealPage.Step, RevealPage.step] at hstep
    split at hstep
    next q hq =>
      split at hstep
      · cases hstep
      next hopen =>
        cases hstep
        have hmounted := (next_settle_kept (s := s) k settlement).1
        refine ⟨mounted_finish.trans (h.mounted.trans hmounted.symm), fun hm => ?_⟩
        have hm' := hmounted.symm.trans hm
        exact (h.faithful hm').settle (h.mounted.trans hm') hm' hq (by simpa using hopen) settlement
    · cases hstep
  | hide =>
    cases hstep
    exact ⟨mounted_cancelAndErase.trans h.mounted, fun hm =>
      (h.faithful hm).erase (h.mounted.trans hm)⟩
  | commit tenantId =>
    cases hstep
    refine ⟨mounted_cancelAndErase.trans h.mounted, fun hm => ?_⟩
    exact ((h.faithful hm).setTenant tenantId).erase (h.mounted.trans hm)
  | setAdminToken token =>
    cases hstep
    by_cases hm : p.hook.mounted = true
    · rw [if_pos hm]
      exact ⟨mounted_cancelAndErase.trans h.mounted, fun hs =>
        ((h.faithful hs).setToken token).erase hm⟩
    · rw [if_neg hm]
      exact ⟨h.mounted, fun hs => absurd (h.mounted.trans hs) hm⟩
  | otherTab token =>
    cases hstep
    exact ⟨h.mounted, fun hm => (h.faithful hm).setToken token⟩
  | storageEvent =>
    cases hstep
    by_cases hm : p.hook.mounted = true
    · rw [if_pos hm]
      exact ⟨mounted_cancelAndErase.trans h.mounted, fun hs => (h.faithful hs).erase hm⟩
    · rw [if_neg hm]
      exact ⟨h.mounted, fun hs => absurd (h.mounted.trans hs) hm⟩
  | setAdminSession =>
    cases hstep
    exact h
  | strictEffects =>
    simp only [RevealPage.Step, RevealPage.step, Option.ite_none_right_eq_some,
      Bool.and_eq_true, decide_eq_true_eq,
      Option.some.injEq] at hstep
    obtain ⟨⟨hm, hcalls⟩, rfl⟩ := hstep
    exact ⟨hm.symm.trans h.mounted, fun hs => (h.faithful hs).strictEffects hcalls⟩
  | unmount =>
    cases hstep
    exact ⟨mounted_cancelAndErase, fun hm => nomatch hm⟩

theorem simulates_opened (tenantId token : String) :
    Simulates ({ tenant := tenantId, token := token } : Screen R E) (.opened tenantId token) := by
  have hraw : Faithful ({ tenant := tenantId, token := token } : Screen R E)
      { hook := { tenant := tenantId }, token := token } :=
    ⟨rfl, rfl, rfl, rfl, rfl, rfl, (fun q hq => nomatch hq), (fun x hx => nomatch hx),
     (fun k q hq => nomatch hq)⟩
  exact ⟨rfl, fun _ => hraw.erase rfl⟩

theorem simulates_run {tenantId token : String} {xs : List (RevealEvent R E)}
    (h : Run RevealPage.Step (.opened tenantId token) xs p) :
    Simulates (.after tenantId token xs) p := by
  refine h.history (P := fun xs p => Simulates (.after tenantId token xs) p)
    (simulates_opened tenantId token) ?_
  intro xs q x q' _ ih hx
  rw [Screen.after, List.foldl_concat]
  exact ih.step hx

end simulation

section history

variable {xs ys zs : List (RevealEvent R E)} {x : RevealEvent R E} {tenantId token : String} {r : R}

/-- What is on the screen is erased. -/
def RevealEvent.Erases : RevealEvent R E → Prop
  | «show» _ | hide | commit _ | setAdminToken _ | storageEvent | unmount => True
  | settle _ _ | otherTab _ | setAdminSession | strictEffects => False

/-- How often `show` was called. -/
def callsIn (xs : List (RevealEvent R E)) : Nat :=
  xs.countP fun
    | .show _ => true
    | _ => false

def tenantAfter (tenantId : String) (xs : List (RevealEvent R E)) : String :=
  xs.foldl (fun t x => match x with
    | .commit tenantId => tenantId
    | _ => t) tenantId

def tokenAfter (token : String) (xs : List (RevealEvent R E)) : String :=
  xs.foldl (fun t x => match x with
    | .setAdminToken token | .otherTab token => token
    | _ => t) token

/-- A call is the last one that nothing has erased, and has not ended. -/
def Waits (token : String) (xs : List (RevealEvent R E)) (x : Waiting) : Prop :=
  ∃ ys zs, xs = ys ++ .show x.tenantId :: zs ∧ x.call =
    callsIn ys ∧ x.credential = tokenAfter token ys ∧
    (∀ z ∈ zs, ¬z.Erases) ∧ ∀ o, .settle x.call o ∉ zs

/-- A call was made for the tenant of the page and answered with the resources while the token was
the one it was made with, and nothing has erased them since the call was made. -/
def Shown (tenantId token : String) (xs : List (RevealEvent R E)) (r : R) : Prop :=
  ∃ ys t zs us, xs = ys ++
  .show t :: (zs ++ .settle (callsIn ys) (.resolved r) :: us) ∧ .unmount ∉ ys ∧
    (∀ z ∈ zs ++ us, ¬z.Erases) ∧ (∀ o, .settle (callsIn ys) o ∉ zs) ∧ t = tenantAfter tenantId ys ∧
    tokenAfter token (ys ++ .show t :: zs) = tokenAfter token ys

theorem snoc_eq_append_cons {α : Type} {l ys zs : List α} {a b : α} (h : l ++ [a] = ys ++ b :: zs) :
    zs = [] ∧ l = ys ∧ a = b ∨ ∃ ws, zs = ws ++ [a] ∧ l = ys ++ b :: ws := by
  rcases List.eq_nil_or_concat zs with rfl | ⟨ws, c, rfl⟩
  · obtain ⟨rfl, hlast⟩ := List.append_inj' h rfl
    exact .inl ⟨rfl, rfl, List.cons.inj hlast |>.1⟩
  · rw [List.concat_eq_append, ← List.cons_append, ← List.append_assoc] at h
    obtain ⟨rfl, hlast⟩ := List.append_inj' h rfl
    exact .inr ⟨ws, by rw [List.concat_eq_append, (List.cons.inj hlast).1], rfl⟩

theorem after_snoc (xs : List (RevealEvent R E)) (x : RevealEvent R E) :
    Screen.after tenantId token (xs ++ [x]) = (Screen.after tenantId token xs).next x := by
  rw [Screen.after, List.foldl_concat]
  rfl

/-- What the screen knows of the page. -/
theorem after_facts (tenantId token : String) (xs : List (RevealEvent R E)) :
    (Screen.after tenantId token xs).calls = callsIn xs ∧
    (Screen.after tenantId token xs).tenant = tenantAfter tenantId xs ∧
    (Screen.after tenantId token xs).token = tokenAfter token xs ∧
    ((Screen.after tenantId token xs).mounted = true ↔ .unmount ∉ xs) := by
  induction xs using List.reverseRecOn with
  | nil => simp [Screen.after, callsIn, tenantAfter, tokenAfter]
  | append_singleton xs x ih =>
    obtain ⟨hcalls, htenant, htoken, hmounted⟩ := ih
    rw [after_snoc]
    simp only [callsIn, tenantAfter, tokenAfter, List.countP_append, List.countP_singleton,
      List.foldl_concat, List.mem_append,
      List.mem_singleton, not_or] at hcalls htenant htoken ⊢
    cases x with
    | settle k o =>
      obtain ⟨hm, ht, hk, hc⟩ := next_settle_kept (s := Screen.after tenantId token xs) k o
      simp [hm, ht, hk, hc, hcalls, htenant, htoken, hmounted]
    | _ => simp [Screen.next, Screen.erase, hcalls, htenant, htoken, hmounted]

/-- While a call waits, nothing is shown. -/
theorem resources_of_waiting {w : Waiting} (h : (Screen.after tenantId token xs).waiting = some w) :
    (Screen.after tenantId token xs).resources = none := by
  induction xs using List.reverseRecOn with
  | nil => rfl
  | append_singleton xs x ih =>
    rw [after_snoc] at h ⊢
    cases x with
    | settle k o =>
      simp only [Screen.next] at h ⊢
      split at h
      next v hv =>
        split at h
        · cases o <;> cases h
        next hne =>
          rw [if_neg hne]
          exact ih h
      next hnone => simp [hnone] at h
    | otherTab token => exact ih h
    | setAdminSession => exact ih h
    | strictEffects => exact ih h
    | _ => rfl

theorem waits_snoc {w : Waiting} : Waits token (xs ++ [x]) w ↔
    (x = .show w.tenantId ∧ w.call = callsIn xs ∧ w.credential = tokenAfter token xs) ∨
      Waits token xs w ∧ ¬x.Erases ∧ ∀ o, x ≠ .settle w.call o := by
  constructor
  · rintro ⟨ys, zs, heq, hcall, hcredential, hkept, hopen⟩
    rcases snoc_eq_append_cons heq with ⟨rfl, rfl, hx⟩ | ⟨ws, rfl, rfl⟩
    · exact .inl ⟨hx, hcall, hcredential⟩
    · have hkept := List.forall_mem_append.mp hkept
      refine .inr ⟨⟨ys, ws, rfl, hcall, hcredential, hkept.1, fun o ho =>
        hopen o (List.mem_append_left _ ho)⟩,
        hkept.2 x (.head _), fun o ho =>
        hopen o (List.mem_append_right _ (List.mem_singleton.mpr ho.symm))⟩
  · rintro (⟨rfl, hcall, hcredential⟩ | ⟨⟨ys, zs, rfl, hcall, hcredential, hkept, hopen⟩,
      hx, hsettle⟩)
    · exact ⟨xs, [], rfl, hcall, hcredential, nofun, nofun⟩
    · refine ⟨ys, zs ++ [x], by simp, hcall, hcredential,
        List.forall_mem_append.mpr ⟨hkept, by simpa using hx⟩, fun o ho => ?_⟩
      rcases List.mem_append.mp ho with ho | ho
      · exact hopen o ho
      · exact hsettle o (List.mem_singleton.mp ho).symm

/-- The call that counts is the one that waits. -/
theorem waiting_iff {w : Waiting} :
    (Screen.after tenantId token xs).waiting = some w ↔ Waits token xs w := by
  induction xs using List.reverseRecOn with
  | nil =>
    refine ⟨(fun h => nomatch h), ?_⟩
    rintro ⟨ys, zs, heq, -⟩
    simp at heq
  | append_singleton xs x ih =>
    obtain ⟨hcalls, -, htoken, -⟩ := after_facts tenantId token xs
    rw [after_snoc, waits_snoc, ← ih]
    cases x with
    | «show» t =>
      have hnext : ((Screen.after tenantId token xs).next (.show t)).waiting =
          some ⟨callsIn xs, t, tokenAfter token xs⟩ := by
        rw [← hcalls, ← htoken]
        rfl
      rw [hnext, or_iff_left fun h => h.2.1 trivial]
      constructor
      · rintro ⟨⟩
        exact ⟨rfl, rfl, rfl⟩
      · rintro ⟨⟨⟩, hcall, hcredential⟩
        rw [← hcall, ← hcredential]
    | settle k o =>
      rw [or_iff_right fun h => nomatch h.1]
      simp only [Screen.next]
      split
      next v hv =>
        split
        next hk =>
          have hgone : ((Screen.after tenantId token xs).answer v o).waiting =
            none := by cases o <;> rfl
          rw [hgone]
          refine ⟨(fun h => nomatch h), fun h => ?_⟩
          obtain rfl := Option.some.inj (hv.symm.trans h.1)
          exact absurd (by rw [hk]) (h.2.2 o)
        next hk =>
          rw [hv]
          refine ⟨fun h => ⟨h, not_false, fun o' ho' => ?_⟩, fun h => h.1⟩
          obtain rfl := Option.some.inj h
          cases ho'
          exact hk rfl
      next hnone =>
        rw [hnone]
        exact ⟨(fun h => nomatch h), fun h => h.1⟩
    | hide | commit | setAdminToken | storageEvent | unmount =>
      exact ⟨(fun h => nomatch h), fun h => h.elim (fun h => nomatch h.1)
        fun h => absurd trivial h.2.1⟩
    | otherTab | setAdminSession | strictEffects =>
      rw [or_iff_right fun h => nomatch h.1]
      exact ⟨fun h => ⟨h, not_false, (fun o ho => nomatch ho)⟩, fun h => h.1⟩

/-- Between two erasures the tenant stays. -/
theorem tenantAfter_kept {t : String} (h : ∀ z ∈ zs, ¬z.Erases) :
    tenantAfter tenantId (ys ++ .show t :: zs) = tenantAfter tenantId ys := by
  induction zs using List.reverseRecOn with
  | nil => simp [tenantAfter]
  | append_singleton zs z ih =>
    obtain ⟨hzs, hz⟩ := List.forall_mem_append.mp h
    rw [← List.cons_append, ← List.append_assoc, ← ih hzs]
    simp only [tenantAfter, List.foldl_concat]
    cases z with
    | commit t => exact absurd trivial (hz _ (.head _))
    | _ => rfl

theorem shown_snoc : Shown tenantId token (xs ++ [x]) r ↔
    (∃ w, x = .settle w.call (.resolved r) ∧ Waits token xs w ∧ .unmount ∉ xs ∧
      tenantAfter tenantId xs = w.tenantId ∧
      tokenAfter token xs = w.credential) ∨ Shown tenantId token xs r ∧ ¬x.Erases := by
  constructor
  · rintro ⟨ys, t, zs, us, heq, hmounted, hkept, hopen, htenant, htoken⟩
    obtain ⟨hnil, -⟩ | ⟨ws, hws, rfl⟩ := snoc_eq_append_cons heq
    · simp at hnil
    obtain ⟨rfl, rfl, rfl⟩ | ⟨us, rfl, rfl⟩ := snoc_eq_append_cons hws.symm
    · rw [List.append_nil] at hkept
      refine .inl ⟨⟨callsIn ys, t, tokenAfter token ys⟩, rfl,
        ⟨ys, ws, rfl, rfl, rfl, hkept, hopen⟩, fun hgone => ?_,
        (tenantAfter_kept hkept).trans htenant.symm, htoken⟩
      rcases List.mem_append.mp hgone with hgone | hgone
      · exact hmounted hgone
      · rcases List.mem_cons.mp hgone with hgone | hgone
        · cases hgone
        · exact hkept _ hgone trivial
    · rw [← List.append_assoc, List.forall_mem_append] at hkept
      exact .inr ⟨⟨ys, t, zs, us, rfl, hmounted, hkept.1, hopen, htenant, htoken⟩,
        hkept.2 x (.head _)⟩
  · rintro (⟨w, rfl, ⟨ys, zs, rfl, hcall, hcredential, hkept, hopen⟩, hmounted, htenant, htoken⟩ |
      ⟨⟨ys, t, zs, us, rfl, hmounted, hkept, hopen, htenant, htoken⟩, hx⟩)
    · refine ⟨ys, w.tenantId, zs, [], by simp [hcall], fun h =>
        hmounted (List.mem_append_left _ h), by simpa using hkept, ?_,
        htenant.symm.trans (tenantAfter_kept hkept), htoken.trans hcredential⟩
      rw [← hcall]
      exact hopen
    · refine ⟨ys, t, zs, us ++ [x], by simp, hmounted, ?_, hopen, htenant, htoken⟩
      rw [← List.append_assoc]
      exact List.forall_mem_append.mpr ⟨hkept, by simpa using hx⟩

theorem resources_iff :
    (Screen.after tenantId token xs).resources = some r ↔ Shown tenantId token xs r := by
  induction xs using List.reverseRecOn with
  | nil =>
    refine ⟨(fun h => nomatch h), ?_⟩
    rintro ⟨ys, t, zs, us, heq, -⟩
    simp at heq
  | append_singleton xs x ih =>
    obtain ⟨-, htenant, htoken, hmounted⟩ := after_facts tenantId token xs
    rw [after_snoc, shown_snoc, ← ih]
    cases x with
    | settle k o =>
      simp only [Screen.next]
      split
      next v hv =>
        have hnone : (Screen.after tenantId token xs).resources ≠ some r := by
          rw [resources_of_waiting hv]
          exact nofun
        rw [or_iff_left fun h => hnone h.1]
        split
        next hk =>
          cases o with
          | rejected error abortError =>
            refine ⟨fun h => absurd h hnone, ?_⟩
            rintro ⟨w, ⟨⟩, -⟩
          | resolved revealed =>
            simp only [Screen.answer, Option.ite_none_right_eq_some, Bool.and_eq_true,
              decide_eq_true_eq, Option.some.injEq, hmounted,
              htenant, htoken]
            constructor
            · rintro ⟨⟨⟨hm, ht⟩, hc⟩, rfl⟩
              exact ⟨v, by rw [hk], waiting_iff.mp hv, hm, ht, hc⟩
            · rintro ⟨w, hw, hwaits, hm, ht, hc⟩
              obtain rfl := Option.some.inj (hv.symm.trans (waiting_iff.mpr hwaits))
              cases hw
              exact ⟨⟨⟨hm, ht⟩, hc⟩, rfl⟩
        next hk =>
          refine ⟨fun h => absurd h hnone, ?_⟩
          rintro ⟨w, hw, hwaits, -⟩
          obtain rfl := Option.some.inj (hv.symm.trans (waiting_iff.mpr hwaits))
          cases hw
          exact absurd rfl hk
      next hidle =>
        refine ⟨fun h => .inr ⟨h, not_false⟩, ?_⟩
        rintro (⟨w, -, hwaits, -⟩ | ⟨h, -⟩)
        · exact nomatch hidle.symm.trans (waiting_iff.mpr hwaits)
        · exact h
    | «show» | hide | commit | setAdminToken | storageEvent | unmount =>
      refine ⟨(fun h => nomatch h), ?_⟩
      rintro (⟨w, hw, -⟩ | ⟨-, h⟩)
      · cases hw
      · exact absurd trivial h
    | otherTab | setAdminSession | strictEffects =>
      refine ⟨fun h => .inr ⟨h, not_false⟩, ?_⟩
      rintro (⟨w, hw, -⟩ | ⟨h, -⟩)
      · cases hw
      · exact h

/-- Whatever happens to a page and in whatever order its requests end: while it is mounted, it shows
resources exactly if they were asked for and received for the present tenant, with the credential
they were asked with, and nothing has erased them since; and it is loading exactly as long as the
last call waits. -/
theorem revealed_iff {p : RevealPage R E} (h : Run RevealPage.Step (.opened tenantId token) xs p)
    (hm : p.hook.mounted = true) :
    (∀ r, p.hook.resources = some r ↔ Shown tenantId token xs r) ∧
    (p.hook.isLoading = true ↔ ∃ w, Waits token xs w) := by
  have hpage := simulates_run h
  have hfaithful := hpage.faithful (hpage.mounted.symm.trans hm)
  refine ⟨fun r => ?_, ?_⟩
  · rw [hfaithful.resources, resources_iff]
  · rw [hfaithful.isLoading, Option.isSome_iff_exists]
    exact exists_congr fun w => waiting_iff

/-- The first request ends after the tenant has changed, and before the second one. -/
def sampleReveal : List (RevealEvent String String) :=
  [.show "acme", .commit "globex", .show "globex", .settle 0 (.resolved "old"),
   .settle 1 (.resolved "new"), .setAdminSession]

theorem revealed_iff_sample : ∃ p :
    RevealPage String String, Run RevealPage.Step (.opened "acme" "token") sampleReveal p ∧
    p.hook.resources = some "new" ∧
    (∀ r, p.hook.resources = some r ↔ Shown "acme" "token" sampleReveal r) ∧
    (p.hook.isLoading = true ↔ ∃ w, Waits "token" sampleReveal w) := by
  have hrun : Run RevealPage.Step (.opened "acme" "token") sampleReveal _ :=
    .cons rfl (.cons rfl (.cons rfl (.cons rfl (.cons rfl (.cons rfl (.nil _))))))
  exact ⟨_, hrun, rfl, revealed_iff hrun rfl⟩

end history

end Tenancit.Web
