import Tenancit.Adminauth.Login

/-!
A login attempt is single-use. In every interleaving of `Start` and `Complete`, a `Start` is
found by one `Complete` at most, and a session comes only from a `Complete` that found the
attempt in time and answered for its state and nonce.
-/
namespace Tenancit.Adminauth

open Encoding Crypto Store Table Text Locks Runs

variable {Key : Type} {aead : Aead Key} {sha256 : Bytes → Bytes} {servers : Nat → Cryptor aead}
  {config : OIDCConfig}

/-- The claims answer for the nonce of the `Start`, for the configured issuer, and map to a
role. -/
structure Identifies (config : OIDCConfig) (s : Start) (claims : OIDCClaims) : Prop where
  nonce : claims.nonce = s.nonce
  issuer : normalizedIssuer claims.issuer = normalizedIssuer config.issuer
  roles : mapRoles claims.roleValues config.roleMappings ≠ none

/-- What was found is the attempt of the `Start`, by its state and in time. -/
structure Found.Of (sha256 : Bytes → Bytes) (f : Found) (s : Start) : Prop where
  state : f.state = s.state
  nonceHash : f.attempt.nonceHash = hashCredential sha256 s.nonce
  inTime : f.now < s.now + loginAttemptTTL

/-- How far a call has come agrees with the `Start` it found. -/
def Completion.Sound (sha256 : Bytes → Bytes) (config : OIDCConfig) (s : Start) : Completion → Prop
  | .consumed f => f.Of sha256 s
  | .identified f claims _ => f.Of sha256 s ∧ Identifies config s claims
  | .completed f claims _ => f.Of sha256 s ∧ Identifies config s claims
  | .failed .. => True

/-- The row is that of the `Start`. -/
def LoginAttempt.Of (sha256 : Bytes → Bytes) (a : LoginAttempt) (s : Start) : Prop :=
  a.stateHash = hashCredential sha256 s.state ∧ a.nonceHash = hashCredential sha256 s.nonce ∧
    a.expiresAt = timestamp (s.now + loginAttemptTTL)

/-- What holds in every reachable state. -/
structure LoginInv (sha256 : Bytes → Bytes) (config : OIDCConfig) (w : LoginWorld) : Prop where
  numbered : Keyed Prod.fst w.attempts
  stored : ∀ x ∈ w.attempts, ∃ s, w.starts[x.1]? = some s ∧ x.2.Of sha256 s
  once : HeldOnce Completion.start w.calls
  found : ∀ c ∈ w.calls, ∀ k, c.start = some k →
    k ∉ w.attempts.map Prod.fst ∧ ∃ s, w.starts[k]? = some s ∧ c.Sound sha256 config s
  made : ∀ s at_ idleTTL, Entry.created s at_ idleTTL ∈ w.sessions.log → ∃ f claims,
    .completed f claims s ∈ w.calls

theorem loginInv_start : LoginInv sha256 config {} where
  numbered := keyed_nil
  stored := by simp
  once := heldOnce_nil
  found := by simp
  made := by simp

theorem newAttempt_of (cryptor : Cryptor aead) (random : Nat → UInt8) (redirect : String)
    (s : Start) : (newAttempt sha256 cryptor random redirect s).Of sha256 s :=
  ⟨rfl, rfl, rfl⟩

theorem identify_ok {cryptor : Cryptor aead} {attempt : LoginAttempt} {response : Option OIDCClaims}
    {claims : OIDCClaims} {identity : SessionIdentity} {s : Start}
    (hinj : Function.Injective sha256)
    (h : identify sha256 config cryptor attempt response = .ok (claims, identity))
    (hnonce : attempt.nonceHash = hashCredential sha256 s.nonce) : Identifies config s claims := by
  unfold identify at h
  split at h
  · cases h
  split at h
  · cases h
  next c =>
    split at h
    · cases h
    next hidentity =>
      split at h
      · cases h
      next hvalid =>
        split at h
        · cases h
        next roles hroles =>
          cases h
          simp only [validateOIDCIdentity, Bool.and_eq_true, decide_eq_true_eq, not_not]
            at hidentity
          simp only [validateNonce, Bool.and_eq_true, decide_eq_true_eq, not_not] at hvalid
          refine ⟨?_, hidentity.1, by simp [hroles]⟩
          exact hashCredential_injective hinj (hvalid.2.symm.trans hnonce)

section step

variable {w w' : LoginWorld} {n : Nat} {c c' : Completion} {f : Found} {claims : OIDCClaims}
  {identity : SessionIdentity} {sessions : World}

/-- A call goes on about the `Start` it found, and the sessions created come from it. -/
theorem LoginInv.setCall (h : LoginInv sha256 config w) (hn : w.calls[n]? = some c)
    (hstart : c'.start = c.start) (hsound : ∀ s, c.Sound sha256 config s → c'.Sound sha256 config s)
    (hold : ∀ f claims s, c ≠ .completed f claims s)
    (hmade : ∀ s at_ idleTTL, Entry.created s at_ idleTTL ∈ sessions.log →
      Entry.created s at_ idleTTL ∈ w.sessions.log ∨ ∃ f claims, c' = .completed f claims s) :
    LoginInv sha256 config { w with sessions := sessions, calls := w.calls.set n c' } where
  numbered := h.numbered
  stored := h.stored
  once := by
    refine h.once.set fun k hk m x hne hx hxk => ?_
    exact hne (h.once m n x c k hx hn hxk (hstart ▸ hk))
  found x hx k hk := by
    rcases List.mem_or_eq_of_mem_set hx with hx | rfl
    · exact h.found x hx k hk
    · obtain ⟨habsent, s, hs, hc⟩ := h.found c (List.mem_of_getElem? hn) k (hstart ▸ hk)
      exact ⟨habsent, s, hs, hsound s hc⟩
  made s at_ idleTTL hs := by
    obtain ⟨hlt, -⟩ := List.getElem?_eq_some_iff.mp hn
    rcases hmade s at_ idleTTL hs with hs | ⟨f, claims, rfl⟩
    · obtain ⟨f, claims, hmem⟩ := h.made s at_ idleTTL hs
      obtain ⟨m, hm⟩ := List.mem_iff_getElem?.mp hmem
      have hne : n ≠ m := by
        rintro rfl
        exact hold f claims s (Option.some.inj (hn.symm.trans hm))
      exact ⟨f, claims, List.mem_of_getElem? ((List.getElem?_set_ne hne).trans hm)⟩
    · exact ⟨f, claims, List.mem_set hlt _⟩

/-- A `Start` stores its attempt under the next number. -/
theorem LoginInv.addStart (h : LoginInv sha256 config w) {s : Start} {a : LoginAttempt}
    (ha : a.Of sha256 s) :
    LoginInv sha256 config { w with
      attempts := w.attempts ++ [(w.starts.length, a)], starts := w.starts ++ [s] } := by
  have hkept : ∀ (k : Nat) x, w.starts[k]? = some x → (w.starts ++ [s])[k]? = some x := by
    intro k x hx
    obtain ⟨hlt, -⟩ := List.getElem?_eq_some_iff.mp hx
    exact (List.getElem?_append_left hlt).trans hx
  refine ⟨h.numbered.append fun x hx he => ?_, fun x hx => ?_, h.once, fun c hc k hk => ?_, h.made⟩
  · obtain ⟨y, hy, -⟩ := h.stored x hx
    obtain ⟨hlt, -⟩ := List.getElem?_eq_some_iff.mp hy
    have he : x.1 = w.starts.length := he
    omega
  · rcases List.mem_append.mp hx with hx | hx
    · obtain ⟨y, hy, hof⟩ := h.stored x hx
      exact ⟨y, hkept _ _ hy, hof⟩
    · obtain rfl := List.mem_singleton.mp hx
      exact ⟨s, by simp, ha⟩
  · obtain ⟨habsent, y, hy, hsound⟩ := h.found c hc k hk
    refine ⟨fun hmem => ?_, y, hkept _ _ hy, hsound⟩
    obtain ⟨hlt, -⟩ := List.getElem?_eq_some_iff.mp hy
    rw [List.map_append, List.mem_append] at hmem
    rcases hmem with hmem | hmem
    · exact habsent hmem
    · have he : k = w.starts.length := by simpa using hmem
      omega

/-- A `Complete` finds an attempt, which is gone then. -/
theorem LoginInv.addFound (h : LoginInv sha256 config w) (hinj : Function.Injective sha256)
    {state : String} {now : Int} {k : Nat} {a : LoginAttempt}
    (hfind : w.attempts.find? (fun x =>
      Consumable (hashCredential sha256 state) (timestamp now) x.2) = some (k, a)) :
    LoginInv sha256 config { w with
      attempts :=
      delete (fun x => Consumable (hashCredential sha256 state) (timestamp now) x.2) w.attempts
      calls := w.calls ++ [.consumed ⟨k, a, state, now⟩] } := by
  have hmem := List.mem_of_find?_eq_some hfind
  have hok : Consumable (hashCredential sha256 state) (timestamp now) a := by
    simpa using List.find?_some hfind
  obtain ⟨s, hs, hstate, hnonce, hexpires⟩ := h.stored _ hmem
  have hof : Found.Of sha256 ⟨k, a, state, now⟩ s := by
    refine ⟨hashCredential_injective hinj (hok.1.symm.trans hstate), hnonce, ?_⟩
    have hlt : timestamp now < timestamp (s.now + loginAttemptTTL) := hexpires ▸ hok.2.1
    exact timestamp_lt hlt
  have hgone : k ∉ (delete (fun x => Consumable (hashCredential sha256 state) (timestamp now) x.2)
      w.attempts).map Prod.fst := by
    intro hk
    obtain ⟨x, hx, hxk⟩ := List.mem_map.mp hk
    obtain ⟨hx, hnot⟩ := mem_delete.mp hx
    obtain rfl : x = (k, a) := h.numbered.eq_of_key hx hmem hxk
    simp [hok] at hnot
  refine ⟨h.numbered.delete, fun x hx => h.stored x (mem_delete.mp hx).1, ?_, fun c hc i hi =>
    ?_, fun x at_ d hx => ?_⟩
  · refine h.once.concat fun i hi c hc hci => ?_
    obtain rfl : k = i := Option.some.inj hi
    exact (h.found c hc k hci).1 (List.mem_map_of_mem hmem)
  · rcases List.mem_append.mp hc with hc | hc
    · obtain ⟨habsent, hrest⟩ := h.found c hc i hi
      refine ⟨fun hi => habsent ?_, hrest⟩
      obtain ⟨x, hx, hxi⟩ := List.mem_map.mp hi
      exact hxi ▸ List.mem_map_of_mem (mem_delete.mp hx).1
    · obtain rfl := List.mem_singleton.mp hc
      obtain rfl : k = i := Option.some.inj hi
      exact ⟨hgone, s, hs, hof⟩
  · obtain ⟨g, claims, hmade⟩ := h.made x at_ d hx
    exact ⟨g, claims, List.mem_append_left _ hmade⟩

/-- A session statement other than a creation creates nothing. -/
theorem effect_created {v v' : World} {l : Label} (hl : ¬l.IsCreate)
    (he : Effect sha256 servers v l v') {s : AdminSession} {at_ idleTTL : Nanoseconds}
    (h : Entry.created s at_ idleTTL ∈ v'.log) :
    Entry.created s at_ idleTTL ∈ v.log := by
  cases he with
  | created => exact absurd trivial hl
  | authenticated => simpa using h
  | loggedOut => simpa using h
  | committed => simpa using h
  | _ => exact h

theorem LoginInv.step (h : LoginInv sha256 config w) (hinj : Function.Injective sha256)
    {l : LoginLabel} (hstep : loginStep sha256 config servers w l = some w') :
    LoginInv sha256 config w' := by
  cases l with
  | start server redirectAfter random now =>
    simp only [loginStep] at hstep
    split at hstep
    · cases hstep
      exact h
    split at hstep
    · cases hstep
      exact h
    · cases hstep
      exact h.addStart (newAttempt_of _ _ _ _)
  | consume state code now =>
    simp only [loginStep] at hstep
    split at hstep
    · cases hstep
      exact h
    split at hstep
    · cases hstep
      refine ⟨h.numbered, h.stored, h.once.concat (by rintro k ⟨⟩), fun c hc k hk =>
        ?_, fun s at_ d hs => ?_⟩
      · rcases List.mem_append.mp hc with hc | hc
        · exact h.found c hc k hk
        · cases List.mem_singleton.mp hc
          cases hk
      · obtain ⟨f, claims, hmem⟩ := h.made s at_ d hs
        exact ⟨f, claims, List.mem_append_left _ hmem⟩
    next k a hfind =>
      cases hstep
      exact h.addFound hinj hfind
  | exchange n server response =>
    simp only [loginStep] at hstep
    split at hstep
    next f hn =>
      split at hstep
      · cases hstep
        exact h.setCall hn rfl (fun _ _ => trivial) (by rintro f claims s ⟨⟩)
          fun _ _ _ hs => .inl hs
      next claims identity hidentify =>
        cases hstep
        refine h.setCall hn rfl (fun s hof => ⟨hof, identify_ok hinj hidentify hof.nonceHash⟩)
          (by rintro f claims s ⟨⟩) fun _ _ _ hs => .inl hs
    · cases hstep
  | createSession n server policy random now id =>
    simp only [loginStep] at hstep
    split at hstep
    next f claims identity hn =>
      split at hstep
      · cases hstep
        exact h.setCall hn rfl (fun _ _ => trivial) (by rintro f claims s ⟨⟩)
          fun _ _ _ hs => .inl hs
      next session sessions hcreate =>
        cases hstep
        refine h.setCall hn rfl (fun s hsound => hsound)
          (by rintro f claims s ⟨⟩) fun s at_ d hs => ?_
        obtain ⟨absoluteTTL, idleTTL, -, -, -, rfl⟩ := createSession_ok hcreate
        rcases List.mem_append.mp hs with hs | hs
        · exact .inl hs
        · cases List.mem_singleton.mp hs
          exact .inr ⟨f, claims, rfl⟩
    · cases hstep
  | session l =>
    simp only [loginStep] at hstep
    split at hstep
    · cases hstep
    next hl =>
      obtain ⟨sessions, hsessions, rfl⟩ := Option.map_eq_some_iff.mp hstep
      exact { h with
        made := fun s at_ d hs => h.made s at_ d (effect_created hl (step_effect hsessions) hs) }

end step

theorem run_loginInv (hinj : Function.Injective sha256) {w : LoginWorld} {ls : List LoginLabel}
    (h : Run (Steps (loginStep sha256 config servers)) {} ls w) : LoginInv sha256 config w :=
  h.invariant (P := LoginInv sha256 config) (fun _ _ _ hi hs => hi.step hinj hs) loginInv_start

/-- The sessions of logins go through a run of the machine of sessions. -/
theorem run_sessions {w : LoginWorld} {ls : List LoginLabel}
    (h : Run (Steps (loginStep sha256 config servers)) {} ls w) :
    ∃ ls', Run (Steps (step sha256 servers)) {} ls' w.sessions := by
  refine h.invariant (P := fun w =>
    ∃ ls', Run (Steps (step sha256 servers)) {} ls' w.sessions) ?_ ⟨[], .nil _⟩
  rintro u l t ⟨ls', hrun⟩ hstep
  cases l with
  | start server redirectAfter random now =>
    simp only [Steps, loginStep] at hstep
    split at hstep
    · cases hstep
      exact ⟨ls', hrun⟩
    split at hstep <;> cases hstep <;> exact ⟨ls', hrun⟩
  | consume state code now =>
    simp only [Steps, loginStep] at hstep
    split at hstep
    · cases hstep
      exact ⟨ls', hrun⟩
    split at hstep <;> cases hstep <;> exact ⟨ls', hrun⟩
  | exchange n server response =>
    simp only [Steps, loginStep] at hstep
    split at hstep
    · split at hstep <;> cases hstep <;> exact ⟨ls', hrun⟩
    · cases hstep
  | createSession n server policy random now id =>
    simp only [Steps, loginStep] at hstep
    split at hstep
    next f claims identity hn =>
      split at hstep
      · cases hstep
        exact ⟨ls', hrun⟩
      next session sessions hcreate =>
        cases hstep
        have hstep : step sha256 servers u.sessions (.create server identity policy random now id) =
            some sessions := by
          simp only [step, hcreate]
        exact ⟨_, hrun.snoc hstep⟩
    · cases hstep
  | session l =>
    simp only [Steps, loginStep] at hstep
    split at hstep
    · cases hstep
    · obtain ⟨sessions, hsessions, rfl⟩ := Option.map_eq_some_iff.mp hstep
      exact ⟨_, hrun.snoc hsessions⟩

/-- The reading that a step takes of the clock for an attempt. -/
def LoginLabel.reading : LoginLabel → Option Nanoseconds
  | .start _ _ _ now => some now
  | .consume _ _ now => some now
  | _ => none

/-- The readings never go back. -/
def InOrder (ls : List LoginLabel) : Prop := (ls.filterMap LoginLabel.reading).Pairwise (· ≤ ·)

/-- The attempt that a call found, while it goes on or where it created a session. -/
def Completion.attempt : Completion → Option Found
  | .consumed f => some f
  | .identified f _ _ => some f
  | .completed f _ _ => some f
  | .failed .. => none

theorem Completion.start_of_attempt {c : Completion} {f : Found} (h : c.attempt = some f) :
    c.start = some f.start := by
  cases c with
  | failed start failure => cases h
  | _ =>
    cases h
    rfl

/-- How a step extends the `Start`s and the calls. -/
theorem loginStep_extends {w w' : LoginWorld} {l : LoginLabel}
    (hstep : loginStep sha256 config servers w l = some w') :
    (w'.starts = w.starts ∨ ∃ s, w'.starts = w.starts ++ [s] ∧ l.reading = some s.now) ∧
      ∀ c ∈ w'.calls, ∀ f, c.attempt = some f →
        (∃ c₀ ∈ w.calls, c₀.attempt = some f) ∨ w'.starts = w.starts ∧ l.reading = some f.now := by
  have hset : ∀ {n : Nat} {c₀ c' : Completion}, w.calls[n]? = some c₀ → (∀ f, c'.attempt = some f →
    c₀.attempt = some f) →
      ∀ c ∈ w.calls.set n c', ∀ f, c.attempt = some f → ∃ c₀ ∈ w.calls, c₀.attempt = some f := by
    intro n c₀ c' hn hc' c hc f hf
    rcases List.mem_or_eq_of_mem_set hc with hc | rfl
    · exact ⟨c, hc, hf⟩
    · exact ⟨c₀, List.mem_of_getElem? hn, hc' f hf⟩
  cases l with
  | start server redirectAfter random now =>
    simp only [loginStep] at hstep
    split at hstep
    · cases hstep
      exact ⟨.inl rfl, fun c hc f hf => .inl ⟨c, hc, hf⟩⟩
    split at hstep
    · cases hstep
      exact ⟨.inl rfl, fun c hc f hf => .inl ⟨c, hc, hf⟩⟩
    · cases hstep
      exact ⟨.inr ⟨_, rfl, rfl⟩, fun c hc f hf => .inl ⟨c, hc, hf⟩⟩
  | consume state code now =>
    simp only [loginStep] at hstep
    split at hstep
    · cases hstep
      exact ⟨.inl rfl, fun c hc f hf => .inl ⟨c, hc, hf⟩⟩
    split at hstep
    · cases hstep
      refine ⟨.inl rfl, fun c hc f hf => ?_⟩
      rcases List.mem_append.mp hc with hc | hc
      · exact .inl ⟨c, hc, hf⟩
      · cases List.mem_singleton.mp hc
        cases hf
    · cases hstep
      refine ⟨.inl rfl, fun c hc f hf => ?_⟩
      rcases List.mem_append.mp hc with hc | hc
      · exact .inl ⟨c, hc, hf⟩
      · cases List.mem_singleton.mp hc
        cases hf
        exact .inr ⟨rfl, rfl⟩
  | exchange n server response =>
    simp only [loginStep] at hstep
    split at hstep
    next f hn =>
      split at hstep
      · cases hstep
        exact ⟨.inl rfl, fun c hc g hg => .inl (hset hn (by rintro g ⟨⟩) c hc g hg)⟩
      · cases hstep
        refine ⟨.inl rfl, fun c hc g hg => .inl (hset hn ?_ c hc g hg)⟩
        exact fun g hg => hg
    · cases hstep
  | createSession n server policy random now id =>
    simp only [loginStep] at hstep
    split at hstep
    next f claims identity hn =>
      split at hstep
      · cases hstep
        exact ⟨.inl rfl, fun c hc g hg => .inl (hset hn (by rintro g ⟨⟩) c hc g hg)⟩
      · cases hstep
        refine ⟨.inl rfl, fun c hc g hg => .inl (hset hn ?_ c hc g hg)⟩
        exact fun g hg => hg
    · cases hstep
  | session l =>
    simp only [loginStep] at hstep
    split at hstep
    · cases hstep
    · obtain ⟨sessions, -, rfl⟩ := Option.map_eq_some_iff.mp hstep
      exact ⟨.inl rfl, fun c hc f hf => .inl ⟨c, hc, hf⟩⟩

/-- Where readings never go back, an attempt is found no earlier than it was started. -/
theorem run_ordered (hinj : Function.Injective sha256) {w : LoginWorld} {ls : List LoginLabel}
    (h : Run (Steps (loginStep sha256 config servers)) {} ls w) (horder : InOrder ls) :
    ∀ c ∈ w.calls, ∀ f, c.attempt = some f → ∀ s, w.starts[f.start]? = some s → s.now ≤ f.now := by
  have hhistory : (∀ s ∈ w.starts, s.now ∈ ls.filterMap LoginLabel.reading) ∧ (InOrder ls →
      ∀ c ∈ w.calls, ∀ f, c.attempt = some f → ∀ s, w.starts[f.start]? =
        some s → s.now ≤ f.now) := by
    refine h.history (P := fun ls w => (∀ s ∈ w.starts, s.now ∈ ls.filterMap LoginLabel.reading) ∧
      (InOrder ls →
      ∀ c ∈ w.calls, ∀ f, c.attempt = some f → ∀ s, w.starts[f.start]? =
        some s → s.now ≤ f.now)) ?_ ?_
    · exact ⟨by simp, fun _ => by simp⟩
    · rintro ls u l t hu ⟨hread, hordered⟩ hstep
      obtain ⟨hstarts, hcalls⟩ := loginStep_extends hstep
      refine ⟨fun s hs => ?_, fun horder c hc f hf s hs => ?_⟩
      · rw [List.filterMap_append, List.mem_append]
        rcases hstarts with hsame | ⟨s', hnew, hreading⟩
        · exact .inl (hread s (hsame ▸ hs))
        · rw [hnew] at hs
          rcases List.mem_append.mp hs with hs | hs
          · exact .inl (hread s hs)
          · obtain rfl := List.mem_singleton.mp hs
            exact .inr (by simp [hreading])
      · rw [InOrder, List.filterMap_append, List.pairwise_append] at horder
        obtain ⟨horder, -, hbefore⟩ := horder
        rcases hcalls c hc f hf with ⟨c₀, hc₀, hf₀⟩ | ⟨hsame, hreading⟩
        · obtain ⟨-, s₀, hs₀, -⟩ :=
            (run_loginInv hinj hu).found c₀ hc₀ _ (Completion.start_of_attempt hf₀)
          have hkept : t.starts[f.start]? = some s₀ := by
            rcases hstarts with hsame | ⟨s', hnew, -⟩
            · rw [hsame]
              exact hs₀
            · obtain ⟨hlt, -⟩ := List.getElem?_eq_some_iff.mp hs₀
              rw [hnew]
              exact (List.getElem?_append_left hlt).trans hs₀
          obtain rfl : s₀ = s := Option.some.inj (hkept.symm.trans hs)
          exact hordered horder c₀ hc₀ f hf₀ s₀ hs₀
        · rw [hsame] at hs
          exact hbefore _ (hread s (List.mem_of_getElem? hs)) _ (by simp [hreading])
  exact hhistory.2 horder

/-- A failure stands. -/
theorem loginStep_failed {w w' : LoginWorld} {l : LoginLabel} {n : Nat} {start : Option Nat}
    {failure : FlowFailure} (hstep : loginStep sha256 config servers w l = some w')
    (h : w.calls[n]? = some (.failed start failure)) :
    w'.calls[n]? = some (.failed start failure) := by
  have hadd : ∀ c, (w.calls ++ [c])[n]? = some (.failed start failure) := by
    intro c
    obtain ⟨hlt, -⟩ := List.getElem?_eq_some_iff.mp h
    exact (List.getElem?_append_left hlt).trans h
  have hset : ∀ {m : Nat} {c c' : Completion}, w.calls[m]? = some c → c ≠ .failed start failure →
      (w.calls.set m c')[n]? = some (.failed start failure) := by
    intro m c c' hm hc
    have hne : m ≠ n := by
      rintro rfl
      exact hc (Option.some.inj (hm.symm.trans h))
    exact (List.getElem?_set_ne hne).trans h
  cases l with
  | start server redirectAfter random now =>
    simp only [loginStep] at hstep
    split at hstep
    · cases hstep
      exact h
    split at hstep <;> cases hstep <;> exact h
  | consume state code now =>
    simp only [loginStep] at hstep
    split at hstep
    · cases hstep
      exact h
    split at hstep <;> cases hstep <;> exact hadd _
  | exchange n server response =>
    simp only [loginStep] at hstep
    split at hstep
    next f hn =>
      split at hstep <;> cases hstep <;> exact hset hn (by rintro ⟨⟩)
    · cases hstep
  | createSession n server policy random now id =>
    simp only [loginStep] at hstep
    split at hstep
    next f claims identity hn =>
      split at hstep <;> cases hstep <;> exact hset hn (by rintro ⟨⟩)
    · cases hstep
  | session l =>
    simp only [loginStep] at hstep
    split at hstep
    · cases hstep
    · obtain ⟨sessions, -, rfl⟩ := Option.map_eq_some_iff.mp hstep
      exact h

/-- A login attempt is single-use, in every interleaving. Two `Complete`s that created a
session did not find one `Start`; every session created is that of a `Complete` which found
the attempt of a `Start`, carried its state, less than ten minutes after it, and had claims
with its nonce, of the configured issuer, that map to a role; and once a `Complete` has
failed after finding an attempt, the attempt is gone and its `Start` has no session, then
and ever after. -/
theorem login_attempts_single_use (hinj : Function.Injective sha256) {w : LoginWorld}
    {ls : List LoginLabel} (hrun : Run (Steps (loginStep sha256 config servers)) {} ls w) :
    (∀ (m n : Nat) f f' claims claims' s s', w.calls[m]? = some (.completed f claims s) →
      w.calls[n]? = some (.completed f' claims' s') → f.start = f'.start → m = n ∧ s = s') ∧
      (∀ s at_ idleTTL, Entry.created s at_ idleTTL ∈ w.sessions.log →
        ∃ f claims start, .completed f claims s ∈ w.calls ∧ w.starts[f.start]? = some start ∧
          f.state = start.state ∧
          f.now < start.now + loginAttemptTTL ∧ (InOrder ls → start.now ≤ f.now) ∧
          Identifies config start claims) ∧
      ∀ (n : Nat) k failure, w.calls[n]? = some (.failed (some k) failure) →
        ∀ more w', Run (Steps (loginStep sha256 config servers)) w more w' →
          k ∉ w'.attempts.map Prod.fst ∧ ∀ f claims s, .completed f claims s ∈
            w'.calls → f.start ≠ k := by
  have hinv := run_loginInv hinj hrun
  refine ⟨fun m n f f' claims claims' s s' hm hn hstart => ?_, fun s at_ d hs =>
    ?_, fun n k failure hn more w' hmore => ?_⟩
  · obtain rfl : m = n := hinv.once m n _ _ f.start hm hn rfl (congrArg some hstart.symm)
    obtain heq := Option.some.inj (hm.symm.trans hn)
    cases heq
    exact ⟨rfl, rfl⟩
  · obtain ⟨f, claims, hmem⟩ := hinv.made s at_ d hs
    obtain ⟨-, start, hstart, hof, hidentifies⟩ := hinv.found _ hmem f.start rfl
    exact ⟨f, claims, start, hmem, hstart, hof.state, hof.inTime,
      fun horder => run_ordered hinj hrun horder _ hmem f rfl start hstart, hidentifies⟩
  · have hfailed : w'.calls[n]? = some (.failed (some k) failure) :=
      hmore.invariant (P := fun w => w.calls[n]? = some (.failed (some k) failure))
        (fun _ _ _ hf hs => loginStep_failed hs hf) hn
    have hinv' := run_loginInv hinj (hrun.append hmore)
    refine ⟨(hinv'.found _ (List.mem_of_getElem? hfailed) k rfl).1,
      fun f claims s hmem hstart => ?_⟩
    obtain ⟨m, hm⟩ := List.mem_iff_getElem?.mp hmem
    obtain rfl := hinv'.once m n _ _ k hm hfailed (congrArg some hstart) rfl
    cases hm.symm.trans hfailed

def sampleConfig : OIDCConfig := ⟨"https://id.example", [("admins", .securityAdmin)]⟩

/-- A login, and a second callback with its state. -/
def sampleLogin : List LoginLabel :=
  [.start 0 (some "/") (fun _ => 1) 0, .consume (randomCredential fun _ => 1) "code" (60 * second),
   .exchange 0 0 (some ⟨"https://id.example/", "alice", "",
     randomCredential fun _ => 1, ["admins"]⟩),
   .createSession 0 0 samplePolicy (fun _ => 2) (61 * second) 7,
   .consume (randomCredential fun _ => 1) "code" (62 * second)]

/-- The session that an entry creates. -/
def Entry.createdSession : Entry → Option AdminSession
  | .created s _ _ => some s
  | _ => none

theorem login_attempts_single_use_sample : ∃ w s f claims start,
    Run (Steps (loginStep sampleSha sampleConfig sampleServers)) {} sampleLogin w ∧ s.id = 7 ∧
      .completed f claims s ∈ w.calls ∧ w.starts[f.start]? = some start ∧
      Identifies sampleConfig start claims ∧
        f.now < start.now + loginAttemptTTL := by
  have hcreated : (exec (loginStep sampleSha sampleConfig sampleServers) {}
    sampleLogin).map (fun w =>
      (w.sessions.log.filterMap Entry.createdSession).map AdminSession.id) = some [7] := by
        decide +kernel
  obtain ⟨w, hw, hids⟩ := Option.map_eq_some_iff.mp hcreated
  have hrun := exec_eq_some_iff.mp hw
  obtain ⟨s, hs, hid⟩ := List.map_eq_singleton_iff.mp hids
  obtain ⟨e, he, hes⟩ := List.mem_filterMap.mp (hs ▸ List.mem_singleton_self s)
  cases e with
  | created s' at_ idleTTL =>
    cases hes
    obtain ⟨f, claims, start, hmem, hstart, -, htime, -, hidentifies⟩ :=
      (login_attempts_single_use (hashKnowing_injective (by decide)) hrun).2.1 s at_ idleTTL he
    exact ⟨w, s, f, claims, start, hrun, hid, hmem, hstart, hidentifies, htime⟩
  | authenticated id at_ idleTTL => cases hes
  | revoked id => cases hes

/-- A login whose callback reads the clock two hours before its `Start` has. -/
def sampleEarly : List LoginLabel :=
  [.start 0 (some "/") (fun _ => 1) (7200 * second),
   .consume (randomCredential fun _ => 1) "code" 0,
   .exchange 0 0 (some ⟨"https://id.example/", "alice", "",
     randomCredential fun _ => 1, ["admins"]⟩),
   .createSession 0 0 samplePolicy (fun _ => 2) second 7]

/-- The reading of a call that has created a session. -/
def Completion.readingOf : Completion → Option Nanoseconds
  | .completed f _ _ => some f.now
  | _ => none

/-- A clock that has gone back lets a session come from a `Complete` more than ten minutes away
from its `Start`: an attempt has an end, but no beginning. -/
theorem early_login_completes :
    ∃ w s, Run (Steps (loginStep sampleSha sampleConfig sampleServers)) {} sampleEarly w ∧
    (∃ at_ idleTTL, Entry.created s at_ idleTTL ∈ w.sessions.log) ∧
    ∀ f claims start, .completed f claims s ∈ w.calls → w.starts[f.start]? = some start →
      f.now + loginAttemptTTL < start.now := by
  have hshown : (exec (loginStep sampleSha sampleConfig sampleServers) {} sampleEarly).map (fun w =>
      (((w.sessions.log.filterMap Entry.createdSession).map AdminSession.id,
        w.calls.map Completion.readingOf),
        w.starts.map Start.now)) = some (([7], [some 0]), [7200 * second]) := by decide +kernel
  obtain ⟨w, hw, hworld⟩ := Option.map_eq_some_iff.mp hshown
  obtain ⟨hentries, hstarts⟩ := Prod.mk.inj hworld
  obtain ⟨hids, hreadings⟩ := Prod.mk.inj hentries
  obtain ⟨s, hs, -⟩ := List.map_eq_singleton_iff.mp hids
  obtain ⟨e, he, hes⟩ := List.mem_filterMap.mp (hs ▸ List.mem_singleton_self s)
  have hcreated : ∃ at_ idleTTL, Entry.created s at_ idleTTL ∈ w.sessions.log := by
    cases e with
    | created s' at_ idleTTL =>
      cases hes
      exact ⟨at_, idleTTL, he⟩
    | authenticated id at_ idleTTL => cases hes
    | revoked id => cases hes
  refine ⟨w, s, exec_eq_some_iff.mp hw, hcreated, fun f claims start hcall hstart => ?_⟩
  have hnow : some f.now ∈ w.calls.map Completion.readingOf := List.mem_map.mpr ⟨_, hcall, rfl⟩
  have hbegun : start.now ∈ w.starts.map Start.now :=
    List.mem_map.mpr ⟨_, List.mem_of_getElem? hstart, rfl⟩
  rw [hreadings, List.mem_singleton, Option.some.injEq] at hnow
  rw [hstarts, List.mem_singleton] at hbegun
  rw [hnow, hbegun]
  decide

end Tenancit.Adminauth
