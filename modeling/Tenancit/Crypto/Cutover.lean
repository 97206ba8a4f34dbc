import Tenancit.Crypto.FromEnv
import Tenancit.Lib.Runs
import Tenancit.Rewrap.Batch
import Mathlib.Data.List.MinMax

/-!
The cutover of `docs/runbooks/aes-key-rewrap.md` to a new key: a rolling restart that loads the key
for reading, once it has reached every replica another one that writes under it, and after the
rewrap of all rows a third one without the old key. Each of the configurations is accepted, and
throughout what one replica has written opens on all of them.
-/
namespace Tenancit.Crypto

open Encoding Runs

/-- `name=value` -/
def Environ.set (env : Environ) (name value : String) : Environ := env.insert name value

def Environ.unset (env : Environ) (name : String) : Environ := env.erase name

section set

variable {env : Environ} {name other value : String} {v w : Int}

theorem lookup_set :
    (env.set name value).lookup other = if other = name then some value else env.lookup other := by
  split
  next h =>
    subst h
    exact AList.lookup_insert _
  next h => exact AList.lookup_insert_ne h

theorem getenv_set :
    (env.set name value).getenv other = if other = name then value else env.getenv other := by
  unfold Environ.getenv
  rw [lookup_set]
  split <;> rfl

theorem furtherKey_set : (env.set (versionedKeyName w) value).furtherKey v =
    if v = w then Base64.decode value else env.furtherKey v := by
  unfold Environ.furtherKey
  rw [lookup_set]
  by_cases h : v = w
  · rw [if_pos (congrArg _ h), if_pos h, Option.bind_some]
  · rw [if_neg fun hname => h (versionedKeyName_inj hname), if_neg h]

theorem furtherKey_set_of_not (h : ¬NamesKey name) :
    (env.set name value).furtherKey v = env.furtherKey v := by
  unfold Environ.furtherKey
  rw [lookup_set, if_neg fun hname : versionedKeyName v = name =>
    h (hname ▸ namesKey_versionedKeyName v)]

theorem lookup_unset :
    (env.unset name).lookup other = if other = name then none else env.lookup other := by
  split
  next h =>
    subst h
    exact AList.lookup_erase _ _
  next h => exact AList.lookup_erase_ne h

theorem getenv_unset (h : other ≠ name) : (env.unset name).getenv other = env.getenv other := by
  unfold Environ.getenv
  rw [lookup_unset, if_neg h]

theorem furtherKey_unset (h : v ≠ w) :
    (env.unset (versionedKeyName w)).furtherKey v = env.furtherKey v := by
  unfold Environ.furtherKey
  rw [lookup_unset, if_neg fun hname => h (versionedKeyName_inj hname)]

theorem not_namesKey_currentVersionName : ¬NamesKey currentVersionName := fun h => h.1 rfl

theorem not_namesKey_currentKeyName : ¬NamesKey currentKeyName :=
  fun h => absurd h.2.length_le (by decide)

theorem currentVersionName_ne : currentVersionName ≠ versionedKeyName v :=
  fun h => not_namesKey_currentVersionName (h ▸ namesKey_versionedKeyName v)

theorem currentKeyName_ne : currentKeyName ≠ versionedKeyName v :=
  fun h => not_namesKey_currentKeyName (h ▸ namesKey_versionedKeyName v)

end set

namespace Cryptor

variable {Key : Type} {aead : Aead Key} {c d : Cryptor aead} {v : Int} {k : Key}

/-- A further key, under a version that none was loaded for. -/
def load (c : Cryptor aead) (v : Int) (k : Key) (hv : Storable v) (hfresh : c.aeads v = none) :
    Cryptor aead where
  aeads w := if w = v then some k else c.aeads w
  current := c.current
  currentKey := c.currentKey
  current_loaded := by
    have hne : c.current ≠ v := by
      rintro rfl
      rw [c.current_loaded] at hfresh
      cases hfresh
    rw [if_neg hne, c.current_loaded]
  loaded_stored := by
    intro w k' hk
    split at hk
    next hw => exact hw ▸ hv
    next => exact c.loaded_stored hk

/-- Another of the loaded keys as the one that writes. -/
def switch (c : Cryptor aead) (v : Int) (k : Key) (hk : c.aeads v = some k) : Cryptor aead where
  aeads := c.aeads
  current := v
  currentKey := k
  current_loaded := hk
  loaded_stored := c.loaded_stored

/-- Without the key of a version that does not write. -/
def retire (c : Cryptor aead) (v : Int) (hv : v ≠ c.current) : Cryptor aead where
  aeads w := if w = v then none else c.aeads w
  current := c.current
  currentKey := c.currentKey
  current_loaded := by rw [if_neg hv.symm, c.current_loaded]
  loaded_stored := by
    intro w k hk
    split at hk
    next => cases hk
    next => exact c.loaded_stored hk

/-- What opens under a key opens where that key is loaded. -/
theorem decrypt_mono {e : Encrypted} {s : String}
    (h : ∀ k, c.aeads e.keyVersion = some k → d.aeads e.keyVersion = some k)
    (hs : c.decrypt e = .ok s) : d.decrypt e = .ok s := by
  unfold decrypt at hs ⊢
  cases hp : c.decryptBytes e with
  | error err =>
    rw [hp] at hs
    cases hs
  | ok p =>
    obtain ⟨key, hkey, hopen⟩ := decryptBytes_eq_ok.mp hp
    have hd : d.decryptBytes e = .ok p := decryptBytes_eq_ok.mpr ⟨key, h _ hkey, hopen⟩
    rw [hp] at hs
    rw [hd]
    exact hs

end Cryptor

section configurations

variable {aead : Aead AesKey} {c : Cryptor aead} {env : Environ} {v : Int} {k : AesKey}
  {text : String}

/-- `TENANCIT_AES_KEY_V<n>` for a new version loads its key. -/
theorem Configures.load (h : Configures env c) (hv : Storable v) (hfresh : c.aeads v = none)
    (htext : Base64.decode text = some k.val) :
    Configures (env.set (versionedKeyName v) text) (c.load v k hv hfresh) where
  version := by
    rw [getenv_set, if_neg currentVersionName_ne]
    exact h.version
  key := by
    rw [getenv_set, if_neg currentKeyName_ne]
    exact h.key
  entries name value hvalue hnames := by
    rw [lookup_set] at hvalue
    split at hvalue
    next hname =>
      cases hvalue
      exact ⟨v, k, hname, htext, if_pos rfl⟩
    next hname =>
      obtain ⟨w, k', rfl, hdecode, hk'⟩ := h.entries name value hvalue hnames
      exact ⟨w, k', rfl, hdecode, (if_neg fun hw => hname (congrArg _ hw)).trans hk'⟩
  loaded w k' hk' := by
    rw [furtherKey_set]
    by_cases hw : w = v
    · obtain rfl : k = k' := Option.some.inj ((if_pos hw).symm.trans hk')
      rw [if_pos hw]
      exact .inr htext
    · rw [if_neg hw]
      exact h.loaded w k' ((if_neg hw).symm.trans hk')

/-- The variables that make a loaded key the current one, and the current one a further key. -/
def switchTo (env : Environ) (origin v : Int) (text : String) : Environ :=
  ((env.set (versionedKeyName origin) (env.getenv currentKeyName)).set currentKeyName text).set
    currentVersionName (toString v)

theorem Configures.switch (h : Configures env c) (hk : c.aeads v = some k)
    (htext : Base64.decode text = some k.val) :
    Configures (switchTo env c.current v text) (c.switch v k hk) where
  version := by
    rw [switchTo, getenv_set, if_pos rfl]
    exact .inr rfl
  key := by
    have hne : currentKeyName ≠ currentVersionName := by decide
    rw [switchTo, getenv_set, if_neg hne, getenv_set, if_pos rfl]
    exact htext
  entries name value hvalue hnames := by
    have hversion : name ≠ currentVersionName := hnames.1
    have hkey : name ≠ currentKeyName := fun hname => not_namesKey_currentKeyName (hname ▸ hnames)
    rw [switchTo, lookup_set, if_neg hversion, lookup_set, if_neg hkey, lookup_set] at hvalue
    split at hvalue
    next hname =>
      cases hvalue
      exact ⟨c.current, c.currentKey, hname, h.key, c.current_loaded⟩
    next => exact h.entries name value hvalue hnames
  loaded w k' hk' := by
    rw [switchTo, furtherKey_set_of_not not_namesKey_currentVersionName,
      furtherKey_set_of_not not_namesKey_currentKeyName,
      furtherKey_set]
    by_cases hw : w = c.current
    · subst hw
      obtain rfl := Option.some.inj (c.current_loaded.symm.trans hk')
      rw [if_pos rfl]
      exact .inr h.key
    · rw [if_neg hw]
      exact .inr ((h.loaded w k' hk').resolve_left hw)

/-- Without `TENANCIT_AES_KEY_V<n>`. -/
theorem Configures.retire (h : Configures env c) (hv : v ≠ c.current) :
    Configures (env.unset (versionedKeyName v)) (c.retire v hv) where
  version := by
    rw [getenv_unset currentVersionName_ne]
    exact h.version
  key := by
    rw [getenv_unset currentKeyName_ne]
    exact h.key
  entries name value hvalue hnames := by
    rw [lookup_unset] at hvalue
    split at hvalue
    next => cases hvalue
    next hname =>
      obtain ⟨w, k, rfl, hdecode, hk⟩ := h.entries name value hvalue hnames
      exact ⟨w, k, rfl, hdecode, (if_neg fun hw => hname (congrArg _ hw)).trans hk⟩
  loaded w k hk := by
    by_cases hw : w = v
    · cases (if_pos hw).symm.trans hk
    · rw [furtherKey_unset hw]
      exact h.loaded w k ((if_neg hw).symm.trans hk)

end configurations

/-- A cutover: the configuration before it, and a new key under a version not used so far. -/
structure Cutover (aead : Aead AesKey) where
  env : Environ
  cryptor : Cryptor aead
  accepted : fromEnv aead env = .ok cryptor
  version : Int
  text : String
  key : AesKey
  range : Storable version
  decoded : Base64.decode text = some key.val
  fresh : cryptor.aeads version = none

/-- How far a replica is. -/
inductive Phase where
  | origin
  | staged
  | target
  | retired
  deriving DecidableEq

def Phase.rank : Phase → Nat
  | .origin => 0
  | .staged => 1
  | .target => 2
  | .retired => 3

namespace Cutover

variable {aead : Aead AesKey} (x : Cutover aead)

/-- The version that is written under before the cutover. -/
def old : Int := x.cryptor.current

theorem old_ne : x.old ≠ x.version := by
  intro h
  have hfresh := x.fresh
  rw [← h, old, x.cryptor.current_loaded] at hfresh
  cases hfresh

/-- The variables of a replica in a phase. -/
def environ : Phase → Environ
  | .origin => x.env
  | .staged => x.env.set (versionedKeyName x.version) x.text
  | .target => switchTo (x.env.set (versionedKeyName x.version) x.text) x.old x.version x.text
  | .retired =>
    (switchTo (x.env.set (versionedKeyName x.version) x.text) x.old x.version x.text).unset
      (versionedKeyName x.old)

def stagedCryptor : Cryptor aead := x.cryptor.load x.version x.key x.range x.fresh

theorem staged_version : x.stagedCryptor.aeads x.version = some x.key := if_pos rfl

theorem staged_of_origin {v : Int} {k : AesKey} (h : x.cryptor.aeads v = some k) :
    x.stagedCryptor.aeads v = some k := by
  have hne : v ≠ x.version := by
    rintro rfl
    rw [x.fresh] at h
    cases h
  exact (if_neg hne).trans h

def targetCryptor : Cryptor aead := x.stagedCryptor.switch x.version x.key x.staged_version

/-- The keyring of a replica in a phase. -/
def keyring : Phase → Cryptor aead
  | .origin => x.cryptor
  | .staged => x.stagedCryptor
  | .target => x.targetCryptor
  | .retired => x.targetCryptor.retire x.old x.old_ne

theorem fromEnv_environ (p : Phase) : fromEnv aead (x.environ p) = .ok (x.keyring p) := by
  have horigin := fromEnv_eq_ok_iff.mp x.accepted
  have hstaged := horigin.load x.range x.fresh x.decoded
  have htarget := hstaged.switch x.staged_version x.decoded
  cases p with
  | origin => exact x.accepted
  | staged => exact fromEnv_eq_ok_iff.mpr hstaged
  | target => exact fromEnv_eq_ok_iff.mpr htarget
  | retired => exact fromEnv_eq_ok_iff.mpr (htarget.retire x.old_ne)

theorem staged_of_keyring {p : Phase} {v : Int} {k : AesKey} (h : (x.keyring p).aeads v = some k) :
    x.stagedCryptor.aeads v = some k := by
  cases p with
  | origin => exact x.staged_of_origin h
  | staged => exact h
  | target => exact h
  | retired => exact (Option.ite_none_left_eq_some.mp h).2

/-- A version is the same key wherever it is loaded, as a rewrap beside the writers relies on. -/
theorem agree (p q : Phase) : (x.keyring p).Agree (x.keyring q) := by
  intro k hk
  have hp := x.staged_of_keyring (x.keyring p).current_loaded
  exact Option.some.inj ((x.staged_of_keyring hk).symm.trans hp)

theorem keeps_staged (p : Phase) : (x.keyring p).Keeps x.stagedCryptor :=
  x.staged_of_keyring (x.keyring p).current_loaded

theorem keeps_origin {p : Phase} (h : p.rank ≤ 1) : (x.keyring p).Keeps x.cryptor := by
  cases p with
  | origin => exact x.cryptor.current_loaded
  | staged => exact x.cryptor.current_loaded
  | target => cases Nat.le_of_succ_le_succ h
  | retired => cases Nat.le_of_succ_le_succ h

theorem current_ne {p : Phase} (h : 2 ≤ p.rank) : (x.keyring p).current ≠ x.old := by
  cases p with
  | origin => cases h
  | staged => cases Nat.le_of_succ_le_succ h
  | target => exact x.old_ne.symm
  | retired => exact x.old_ne.symm

/-- Without the first phase: a replica that has not loaded the key rejects what is written under
it. -/
theorem origin_rejects (random : Nat → UInt8) (s : String) :
    x.cryptor.decrypt (x.targetCryptor.encrypt random s) =
      .error (.unknownKeyVersion x.version) := by
  have hnone : x.cryptor.aeads (x.targetCryptor.encrypt random s).keyVersion = none := x.fresh
  have hbytes : x.cryptor.decryptBytes (x.targetCryptor.encrypt random s) =
      .error (.unknownKeyVersion x.version) := by
    rw [Cryptor.decryptBytes, hnone]
    rfl
  rw [Cryptor.decrypt, hbytes]

/-- The replicas, and the rows they share, each with the text that it is about. -/
structure World where
  replicas : List Phase
  rows : List (Encrypted × String)

inductive Label where
  | restart (i : Nat) (p : Phase)
  | write (i : Nat) (random : Nat → UInt8) (s : String)
  | rewrap (i j : Nat) (random : Nat → UInt8)

/-- The text that a step adds. -/
def Label.text? : Label → Option String
  | .write _ _ s => some s
  | _ => none

/-- The gates: no replica goes back, none is more than one phase ahead of another, and the old key
goes when no row is under it. -/
def World.Admits (w : World) (i : Nat) (p : Phase) : Prop :=
  (∃ q ∈ w.replicas[i]?, q.rank ≤ p.rank) ∧ (∀ q ∈ w.replicas, p.rank ≤ q.rank + 1) ∧
    (p = .retired → ∀ row ∈ w.rows, row.1.keyVersion ≠ x.old)

instance (w : World) (i : Nat) (p : Phase) : Decidable (World.Admits x w i p) := by
  unfold World.Admits
  infer_instance

/-- The keyring that a replica has built from its variables. -/
def World.cryptor? (w : World) (i : Nat) : Option (Cryptor aead) :=
  w.replicas[i]?.bind fun p => (fromEnv aead (x.environ p)).toOption

def step (w : World) : Label → Option World
  | .restart i p =>
    if World.Admits x w i p then some { w with replicas := w.replicas.set i p } else none
  | .write i random s =>
    (World.cryptor? x w i).map fun c => { w with rows := w.rows ++ [(c.encrypt random s, s)] }
  | .rewrap i j random => do
    let c ← World.cryptor? x w i
    let row ← w.rows[j]?
    let s ← (c.decrypt row.1).toOption
    some { w with rows := w.rows.set j (c.encrypt random s, row.2) }

section steps

variable {x} {w : World} {i j : Nat} {p : Phase} {c : Cryptor aead} {random : Nat → UInt8}
  {s : String}
variable {row : Encrypted × String}

theorem cryptor?_eq_some :
    World.cryptor? x w i = some c ↔ ∃ p, w.replicas[i]? = some p ∧ x.keyring p = c := by
  simp only [World.cryptor?, Option.bind_eq_some_iff, fromEnv_environ,
    Except.toOption, Option.some.injEq]

theorem step_restart (h : World.Admits x w i p) :
    x.step w (.restart i p) = some { w with replicas := w.replicas.set i p } :=
  if_pos h

theorem step_write (hp : w.replicas[i]? = some p) :
    x.step w (.write i random s) = some { w with
      rows := w.rows ++ [((x.keyring p).encrypt random s, s)] } := by
  rw [step, cryptor?_eq_some.mpr ⟨p, hp, rfl⟩, Option.map_some]

theorem step_rewrap (hp : w.replicas[i]? = some p) (hrow : w.rows[j]? = some row)
    (hs : (x.keyring p).decrypt row.1 = .ok s) :
    x.step w (.rewrap i j random) = some { w with
      rows := w.rows.set j ((x.keyring p).encrypt random s, row.2) } := by
  rw [step, cryptor?_eq_some.mpr ⟨p, hp, rfl⟩, hrow, Option.bind_eq_bind,
    Option.bind_some, Option.bind_eq_bind,
    Option.bind_some, hs]
  rfl

end steps

section rewrapRow

variable {Key : Type} {aead : Aead Key} {c : Cryptor aead} {s : String}

theorem utf8_of_ofUtf8? {b : Bytes} (h : ofUtf8? b = some s) : utf8 s = b := by
  unfold ofUtf8? String.fromUTF8? at h
  split at h
  next hvalid =>
    cases h
    rw [utf8_eq_toByteArray]
    rfl
  next => cases h

/-- What the job writes for a row that opens: the rewrap of a step. -/
theorem rewrapRow_eq {row : Store.TenantResourceValue} {random : Nat → UInt8}
    (h : c.decrypt (Rewrap.encryptedOf row) = .ok s) :
    Rewrap.rewrapRow c random row = .ok (c.encrypt random s) := by
  unfold Cryptor.decrypt at h
  split at h
  next => cases h
  next p hp =>
    split at h
    next => cases h
    next s' hs =>
      cases h
      -- the check of the job is passed: the key that seals is loaded
      have hagain : c.decryptBytes (c.encryptBytes random p) = .ok p :=
        Cryptor.decryptBytes_encryptBytes c.keeps_refl p
      rw [Rewrap.rewrapRow, hp]
      simp only [hagain, if_true]
      rw [Cryptor.encrypt, utf8_of_ofUtf8? hs]

end rewrapRow

/-- A row opens where the key that it needs is due. -/
structure Readable (w : World) (row : Encrypted × String) : Prop where
  staged : x.stagedCryptor.decrypt row.1 = .ok row.2
  origin : .origin ∈ w.replicas → x.cryptor.decrypt row.1 = .ok row.2
  retired : .retired ∈ w.replicas → row.1.keyVersion ≠ x.old

structure Inv (w : World) : Prop where
  near : ∀ p ∈ w.replicas, ∀ q ∈ w.replicas, p.rank ≤ q.rank + 1
  rows : ∀ row ∈ w.rows, x.Readable w row

variable {x} {w w' : World} {ls : List Label}

theorem Readable.keyring {row : Encrypted × String} (h : x.Readable w row) {p : Phase}
    (hp : p ∈ w.replicas) : (x.keyring p).decrypt row.1 = .ok row.2 := by
  cases p with
  | origin => exact h.origin hp
  | staged => exact h.staged
  | target => exact Cryptor.decrypt_mono (fun _ hk => hk) h.staged
  | retired => exact Cryptor.decrypt_mono (fun k hk => (if_neg (h.retired hp)).trans hk) h.staged

/-- What a replica writes is readable: the phases of the others are near its own. -/
theorem Inv.readable_encrypt (h : x.Inv w) {p : Phase} (hp : p ∈ w.replicas) (random : Nat → UInt8)
    (s : String) : x.Readable w ((x.keyring p).encrypt random s, s) where
  staged := Cryptor.decrypt_encrypt (x.keeps_staged p) s
  origin horigin := Cryptor.decrypt_encrypt (x.keeps_origin (h.near p hp .origin horigin)) s
  retired hretired := x.current_ne (Nat.le_of_succ_le_succ (h.near .retired hretired p hp))

theorem Inv.restart (h : x.Inv w) {i : Nat} {p : Phase} (hadmits : World.Admits x w i p) :
    x.Inv { w with replicas := w.replicas.set i p } := by
  obtain ⟨⟨q, hq, hle⟩, hnear, hgate⟩ := hadmits
  have hqmem : q ∈ w.replicas := List.mem_of_getElem? hq
  have hmem : ∀ {r}, r ∈ w.replicas.set i p → r ∈ w.replicas ∨ r = p := List.mem_or_eq_of_mem_set
  refine ⟨fun r hr r' hr' => ?_, fun row hrow =>
    ⟨(h.rows row hrow).staged, fun horigin => ?_, fun hretired => ?_⟩⟩
  · rcases hmem hr with hold | hnew
    · rcases hmem hr' with hold' | hnew'
      · exact h.near r hold r' hold'
      · exact hnew' ▸ (h.near r hold q hqmem).trans (Nat.succ_le_succ hle)
    · rcases hmem hr' with hold' | hnew'
      · exact hnew ▸ hnear r' hold'
      · rw [hnew, hnew']
        exact Nat.le_succ _
  · refine (h.rows row hrow).origin ?_
    rcases hmem horigin with horigin | rfl
    · exact horigin
    · -- a replica that starts at the origin was there before
      cases q with
      | origin => exact hqmem
      | staged => cases hle
      | target => cases hle
      | retired => cases hle
  · rcases hmem hretired with hretired | hp
    · exact (h.rows row hrow).retired hretired
    · exact hgate hp.symm row hrow

theorem Inv.rows_of (h : x.Inv w) {rows : List (Encrypted × String)}
    (hrows : ∀ row ∈ rows, row ∈ w.rows ∨ x.Readable w row) : x.Inv { w with rows := rows } where
  near := h.near
  rows row hrow := by
    have hreadable : x.Readable w row := (hrows row hrow).elim (h.rows row) id
    exact ⟨hreadable.staged, hreadable.origin, hreadable.retired⟩

/-- What a step does: it keeps the invariant, and the texts but for one that it adds. -/
theorem Inv.step (h : x.Inv w) {l : Label} (hstep : x.step w l = some w') :
    x.Inv w' ∧ w'.rows.map Prod.snd = w.rows.map Prod.snd ++ l.text?.toList := by
  cases l with
  | restart i p =>
    obtain ⟨hadmits, hw⟩ := Option.ite_none_right_eq_some.mp hstep
    cases hw
    exact ⟨h.restart hadmits, (List.append_nil _).symm⟩
  | write i random s =>
    obtain ⟨c, hc, rfl⟩ := Option.map_eq_some_iff.mp hstep
    obtain ⟨p, hp, rfl⟩ := cryptor?_eq_some.mp hc
    refine ⟨h.rows_of fun row hrow => ?_, List.map_append⟩
    rcases List.mem_append.mp hrow with hrow | hrow
    · exact .inl hrow
    · rw [List.mem_singleton.mp hrow]
      exact .inr (h.readable_encrypt (List.mem_of_getElem? hp) random s)
  | rewrap i j random =>
    obtain ⟨c, hc, hstep⟩ := Option.bind_eq_some_iff.mp hstep
    obtain ⟨row, hrow, hstep⟩ := Option.bind_eq_some_iff.mp hstep
    obtain ⟨s, hs, hw⟩ := Option.bind_eq_some_iff.mp hstep
    cases hw
    obtain ⟨p, hp, rfl⟩ := cryptor?_eq_some.mp hc
    have hpmem := List.mem_of_getElem? hp
    have hrowmem := List.mem_of_getElem? hrow
    -- the row opens to its text, so that is what is sealed again
    rw [(h.rows row hrowmem).keyring hpmem] at hs
    cases hs
    refine ⟨h.rows_of fun row' hrow' => ?_, ?_⟩
    · rcases List.mem_or_eq_of_mem_set hrow' with hrow' | rfl
      · exact .inl hrow'
      · exact .inr (h.readable_encrypt hpmem random row.2)
    · have hself : (w.rows.map Prod.snd)[j]? = some row.2 := by
        rw [List.getElem?_map, hrow, Option.map_some]
      obtain ⟨hlt, htext⟩ := List.getElem?_eq_some_iff.mp hself
      rw [List.map_set, ← htext, List.set_getElem_self]
      exact (List.append_nil _).symm

theorem Inv.run (h : x.Inv w) (hrun : Run (fun w l w' => x.step w l = some w') w ls w') :
    x.Inv w' ∧ w'.rows.map Prod.snd = w.rows.map Prod.snd ++ ls.filterMap Label.text? := by
  induction hrun with
  | nil w => exact ⟨h, (List.append_nil _).symm⟩
  | @cons w u w' l ls hstep _ ih =>
    obtain ⟨hmid, htexts⟩ := h.step hstep
    obtain ⟨hend, hrest⟩ := ih hmid
    refine ⟨hend, ?_⟩
    rw [hrest, htexts, List.append_assoc, List.filterMap_cons]
    cases l.text? with
    | none => rfl
    | some s => rfl

/-- Before the cutover all replicas are configured alike and read all rows. -/
theorem inv_start (hphases : ∀ p ∈ w.replicas, p = .origin)
    (hrows : ∀ row ∈ w.rows, x.cryptor.decrypt row.1 = .ok row.2) : x.Inv w := by
  refine ⟨fun p hp q hq => ?_, fun row hrow => ⟨?_, fun _ => hrows row hrow, fun hretired => ?_⟩⟩
  · rw [hphases p hp]
    exact Nat.zero_le _
  · exact Cryptor.decrypt_mono (fun _ hk => x.staged_of_origin hk) (hrows row hrow)
  · cases hphases _ hretired

section completion

variable {replicas : List Phase} {rows : List (Encrypted × String)} {p : Phase}

/-- A replica after the other enters a phase that is the next one or their own. -/
theorem sweep (hgate : p = .retired → ∀ row ∈ rows, row.1.keyVersion ≠ x.old) {todo : List Phase}
    (htodo : ∀ q ∈ todo, q.rank ≤ p.rank ∧ p.rank ≤ q.rank + 1) (n : Nat) :
    ∃ ls, Run (fun w l w' => x.step w l = some w') ⟨List.replicate n p ++ todo, rows⟩ ls
      ⟨List.replicate (n + todo.length) p, rows⟩ := by
  induction todo generalizing n with
  | nil =>
    rw [List.append_nil]
    exact ⟨[], .nil _⟩
  | cons q todo ih =>
    obtain ⟨hq, hrest⟩ := List.forall_mem_cons.mp htodo
    obtain ⟨ls, hls⟩ := ih hrest (n + 1)
    have hadmits : World.Admits x ⟨List.replicate n p ++ q :: todo, rows⟩ n p := by
      refine ⟨⟨q, by simp, hq.1⟩, fun r hr => ?_, hgate⟩
      rcases List.mem_append.mp hr with hr | hr
      · rw [List.eq_of_mem_replicate hr]
        exact Nat.le_succ _
      · exact (htodo r hr).2
    have hset : (List.replicate n p ++ q :: todo).set n p = List.replicate (n + 1) p ++ todo := by
      rw [List.replicate_succ', List.append_assoc, List.set_append_right _ _ (by simp)]
      simp
    have hlength : n + (q :: todo).length = n + 1 + todo.length := by
      rw [List.length_cons]
      omega
    refine ⟨.restart n p :: ls, .cons (step_restart hadmits) ?_⟩
    rw [hset, hlength]
    exact hls

/-- A row after the other is sealed under the new key. -/
theorem rewrap_rows (hp : replicas[0]? = some p) (hrank : 2 ≤ p.rank)
    {todo : List (Encrypted × String)}
    (htodo : ∀ row ∈ todo, (x.keyring p).decrypt row.1 = .ok row.2)
    (done : List (Encrypted × String)) (hdone : ∀ row ∈ done, row.1.keyVersion ≠ x.old) :
    ∃ ls rows, Run (fun w l w' => x.step w l = some w') ⟨replicas, done ++
      todo⟩ ls ⟨replicas, rows⟩ ∧
      (∀ row ∈ rows, row.1.keyVersion ≠ x.old) ∧
      rows.map Prod.snd = (done ++ todo).map Prod.snd := by
  induction todo generalizing done with
  | nil =>
    rw [List.append_nil]
    exact ⟨[], done, .nil _, hdone, rfl⟩
  | cons row todo ih =>
    obtain ⟨hrow, hrest⟩ := List.forall_mem_cons.mp htodo
    obtain ⟨row', hrow'⟩ : ∃ row', row' =
      ((x.keyring p).encrypt (fun _ => 0) row.2, row.2) := ⟨_, rfl⟩
    have hnew : row'.1.keyVersion ≠ x.old := hrow' ▸ x.current_ne hrank
    have hstep : x.step ⟨replicas, done ++ row :: todo⟩ (.rewrap 0 done.length fun _ => 0) =
        some ⟨replicas, done ++ [row'] ++ todo⟩ := by
      have hget : (done ++ row :: todo)[done.length]? = some row := by simp
      rw [step_rewrap hp hget hrow, ← hrow', List.set_append_right _ _ le_rfl,
        Nat.sub_self, List.append_assoc]
      rfl
    obtain ⟨ls, rows, hls, hrows, htexts⟩ :=
      ih hrest (done ++ [row'])
      (List.forall_mem_append.mpr ⟨hdone, List.forall_mem_singleton.mpr hnew⟩)
    refine ⟨.rewrap 0 done.length (fun _ => 0) :: ls, rows, .cons hstep hls, hrows, ?_⟩
    rw [htexts, hrow']
    simp

/-- The cutover can be brought to its end, with no text lost. -/
def Completes (x : Cutover aead) (w : World) : Prop :=
  ∃ ls w', Run (fun w l w' => x.step w l = some w') w ls w' ∧ w'.replicas =
    List.replicate w.replicas.length .retired ∧
    w'.rows.map Prod.snd = w.rows.map Prod.snd

/-- Replicas that are all in one phase go on to the end. -/
def PhaseCompletes (x : Cutover aead) (n : Nat) (p : Phase) : Prop :=
  ∀ rows, x.Inv ⟨List.replicate n p, rows⟩ → x.Completes ⟨List.replicate n p, rows⟩

theorem PhaseCompletes.after_sweep (h : x.PhaseCompletes replicas.length p)
    (hinv : x.Inv ⟨replicas, rows⟩) (hgate : p = .retired → ∀ row ∈ rows, row.1.keyVersion ≠ x.old)
    (hnext : ∀ q ∈ replicas, q.rank ≤ p.rank ∧ p.rank ≤ q.rank + 1) :
    x.Completes ⟨replicas, rows⟩ := by
  obtain ⟨ls, hls⟩ := sweep hgate hnext 0
  rw [List.replicate_zero, List.nil_append, Nat.zero_add] at hls
  obtain ⟨ls', w', hrun, hreplicas, htexts⟩ := h rows (hinv.run hls).1
  rw [List.length_replicate] at hreplicas
  exact ⟨ls ++ ls', w', hls.append hrun, hreplicas, htexts⟩

theorem PhaseCompletes.before {n : Nat} {q : Phase} (h : x.PhaseCompletes n p) (hp : p ≠ .retired)
    (hle : q.rank ≤ p.rank) (hnear : p.rank ≤ q.rank + 1) : x.PhaseCompletes n q := by
  intro rows hinv
  refine PhaseCompletes.after_sweep (p := p) ?_ hinv (fun hretired =>
    absurd hretired hp) fun r hr => ?_
  · rw [List.length_replicate]
    exact h
  · rw [List.eq_of_mem_replicate hr]
    exact ⟨hle, hnear⟩

theorem phaseCompletes_retired {n : Nat} : x.PhaseCompletes n .retired :=
  fun rows _ => ⟨[], _, .nil _, by rw [List.length_replicate], rfl⟩

/-- Every row is rewrapped before the old key goes. -/
theorem phaseCompletes_target {n : Nat} : x.PhaseCompletes n .target := by
  intro rows hinv
  cases n with
  | zero => exact ⟨[], _, .nil _, rfl, rfl⟩
  | succ n =>
    have hfirst : (List.replicate (n + 1) Phase.target)[0]? = some .target := rfl
    have hopens : ∀ row ∈ rows, (x.keyring .target).decrypt row.1 = .ok row.2 :=
      fun row hrow => (hinv.rows row hrow).keyring (List.mem_of_getElem? hfirst)
    obtain ⟨ls, rows', hls, hrows, htexts⟩ :=
      rewrap_rows hfirst le_rfl hopens [] (List.forall_mem_nil _)
    have hend : x.Completes ⟨List.replicate (n + 1) .target, rows'⟩ := by
      refine phaseCompletes_retired.after_sweep (hinv.run hls).1 (fun _ => hrows) fun q hq => ?_
      rw [List.eq_of_mem_replicate hq]
      decide
    obtain ⟨ls', w', hrun, hreplicas, htexts'⟩ := hend
    exact ⟨ls ++ ls', w', hls.append hrun, hreplicas, htexts'.trans htexts⟩

theorem phaseCompletes {n : Nat} (p : Phase) : x.PhaseCompletes n p := by
  have hstaged : x.PhaseCompletes n .staged :=
    phaseCompletes_target.before (by decide) (by decide) (by decide)
  cases p with
  | origin => exact hstaged.before (by decide) (by decide) (by decide)
  | staged => exact hstaged
  | target => exact phaseCompletes_target
  | retired => exact phaseCompletes_retired

theorem Inv.completes (h : x.Inv w) : x.Completes w := by
  obtain ⟨replicas, rows⟩ := w
  cases hmax : replicas.argmax Phase.rank with
  | none =>
    obtain rfl := List.argmax_eq_none.mp hmax
    exact ⟨[], _, .nil _, rfl, rfl⟩
  | some p =>
    have hp : p ∈ replicas := List.argmax_mem hmax
    refine (phaseCompletes p).after_sweep h (fun hretired row hrow => ?_) fun q hq => ?_
    · exact (h.rows row hrow).retired (hretired ▸ hp)
    · exact ⟨List.le_of_mem_argmax hq hmax, h.near p hp q hq⟩

end completion

/-- Along every cutover, whatever the replicas do in between, each row opens on every replica, under
the keyring that its variables configure, to the text that was written; and no text gets lost. -/
theorem cutover_readable (hrun : Run (fun w l w' => x.step w l = some w') w ls w')
    (hphases : ∀ p ∈ w.replicas, p = .origin)
    (hrows : ∀ row ∈ w.rows, x.cryptor.decrypt row.1 = .ok row.2) :
    (∀ row ∈ w'.rows, ∀ p ∈ w'.replicas, ∃ c, fromEnv aead (x.environ p) = .ok c ∧
      c.decrypt row.1 = .ok row.2) ∧
      w'.rows.map Prod.snd = w.rows.map Prod.snd ++ ls.filterMap Label.text? := by
  obtain ⟨hinv, htexts⟩ := (inv_start hphases hrows).run hrun
  exact ⟨fun row hrow p hp =>
    ⟨x.keyring p, x.fromEnv_environ p, (hinv.rows row hrow).keyring hp⟩, htexts⟩

/-- From every state of every cutover there is a way to its end. -/
theorem cutover_completes (hrun : Run (fun w l w' => x.step w l = some w') w ls w')
    (hphases : ∀ p ∈ w.replicas, p = .origin)
    (hrows : ∀ row ∈ w.rows, x.cryptor.decrypt row.1 = .ok row.2) : x.Completes w' :=
  ((inv_start hphases hrows).run hrun).1.completes

/-- A cipher over keys of 32 octets. -/
def sampleAead : Aead AesKey where
  nonceSize := Aead.tagged.nonceSize
  overhead := Aead.tagged.overhead
  sealText k := Aead.tagged.sealText (k.val.headD 0)
  openText k := Aead.tagged.openText (k.val.headD 0)
  openText_sealText _ := Aead.tagged.openText_sealText _
  length_sealText _ := Aead.tagged.length_sealText _

def sampleKey (a : UInt8) : AesKey := ⟨List.replicate 32 a, List.length_replicate⟩

def sampleEnviron : Environ :=
  .singleton currentKeyName (String.ofList (Base64.encode (sampleKey 0).val))

theorem sample_accepted :
    fromEnv sampleAead sampleEnviron = .ok (.single sampleAead (sampleKey 0)) := by
  have hlookup : ∀ {name}, name ≠ currentKeyName → sampleEnviron.lookup name = none :=
    fun h => List.dlookup_cons_ne _ _ h
  have hkey : sampleEnviron.getenv currentKeyName =
      String.ofList (Base64.encode (sampleKey 0).val) := by
    rw [Environ.getenv, sampleEnviron, AList.lookup, AList.singleton_entries,
      List.dlookup_cons_eq, Option.getD_some]
  refine fromEnv_eq_ok_iff.mpr ⟨.inl ⟨?_, rfl⟩, ?_,
    fun name text htext hnames => ?_, fun v k hk => ?_⟩
  · have hne : currentVersionName ≠ currentKeyName := by decide
    rw [Environ.getenv, hlookup hne, Option.getD_none]
  · rw [hkey, Base64.decode_encode]
    rfl
  · rw [hlookup fun hname => not_namesKey_currentKeyName (hname ▸ hnames)] at htext
    cases htext
  · exact .inl (Option.ite_none_right_eq_some.mp hk).1

def sampleCutover : Cutover sampleAead where
  env := sampleEnviron
  cryptor := .single sampleAead (sampleKey 0)
  accepted := sample_accepted
  version := 2
  text := String.ofList (Base64.encode (sampleKey 1).val)
  key := sampleKey 1
  range := by decide
  decoded := Base64.decode_encode _
  fresh := rfl

def sampleRandom : Nat → UInt8 := fun _ => 0

/-- Two replicas and a row under the old key. -/
def sampleWorld : World where
  replicas := [.origin, .origin]
  rows := [(sampleCutover.cryptor.encrypt sampleRandom "a", "a")]

/-- One replica writes under the new key, the other one only reads under it. -/
def sampleMixed : World where
  replicas := [.target, .staged]
  rows :=
    [(sampleCutover.cryptor.encrypt sampleRandom "a", "a"),
     (sampleCutover.targetCryptor.encrypt sampleRandom "b", "b")]

def sampleRetired : World where
  replicas := [.retired, .retired]
  rows := ["a", "b"].map fun s => (sampleCutover.targetCryptor.encrypt sampleRandom s, s)

theorem sampleMixed_run : Run (fun w l w' => sampleCutover.step w l = some w') sampleWorld
    [.restart 0 .staged, .restart 1 .staged, .restart 0 .target,
      .write 0 sampleRandom "b"] sampleMixed := by
  refine .cons (step_restart (by decide))
    (.cons (step_restart (by decide)) (.cons (step_restart (by decide)) ?_))
  exact .cons (step_write rfl) (.nil _)

theorem sampleRetired_run : Run (fun w l w' => sampleCutover.step w l = some w') sampleMixed
    [.restart 1 .target, .rewrap 1 0 sampleRandom, .restart 0 .retired,
      .restart 1 .retired] sampleRetired := by
  have hkeeps : sampleCutover.cryptor.Keeps sampleCutover.targetCryptor :=
    sampleCutover.keeps_staged .origin
  have hopen : (sampleCutover.keyring .target).decrypt
      (sampleCutover.cryptor.encrypt sampleRandom "a") = .ok "a" :=
    Cryptor.decrypt_encrypt hkeeps "a"
  refine .cons (step_restart (by decide)) (.cons (step_rewrap rfl rfl hopen) ?_)
  exact .cons (step_restart (by decide)) (.cons (step_restart (by decide)) (.nil _))

theorem sampleWorld_opens :
    ∀ row ∈ sampleWorld.rows, sampleCutover.cryptor.decrypt row.1 = .ok row.2 :=
  List.forall_mem_singleton.mpr (Cryptor.decrypt_encrypt sampleCutover.cryptor.keeps_refl "a")

theorem cutover_readable_sample : (∀ row ∈ sampleRetired.rows, ∀ p ∈ sampleRetired.replicas,
    ∃ c, fromEnv sampleAead (sampleCutover.environ p) = .ok c ∧ c.decrypt row.1 = .ok row.2) ∧
      sampleRetired.rows.map Prod.snd = ["a"] ++ ["b"] :=
  cutover_readable (sampleMixed_run.append sampleRetired_run) (by decide) sampleWorld_opens

theorem cutover_completes_sample : sampleCutover.Completes sampleMixed :=
  cutover_completes sampleMixed_run (by decide) sampleWorld_opens

end Cutover

end Tenancit.Crypto
