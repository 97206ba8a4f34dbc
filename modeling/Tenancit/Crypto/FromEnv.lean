import Tenancit.Crypto
import Tenancit.Lib.Base64
import Tenancit.Lib.Text
import Mathlib.Data.List.AList

/-!
`crypto/config.go` and `New` of `crypto/crypto.go`: the keyring that the environment of a process
configures. It is accepted exactly if the current version and the name of every further key are
numerals in canonical form within the range of a stored version, every key is the base64 of
32 octets, and a further key under the current version is the current key.
-/
namespace Tenancit.Crypto

open Encoding

/-- The variables of a process, each name once. -/
abbrev Environ := AList fun _ : String => String

/-- `os.Getenv`: the empty text for a variable that is not set. -/
def Environ.getenv (env : Environ) (name : String) : String := (env.lookup name).getD ""

inductive ConfigError where
  | invalidCurrentVersion
  | keyRequired
  | keyNotBase64
  | invalidVersionedKey (name : String)
  | versionedKeyNotBase64 (name : String)
  | conflictsWithCurrent (name : String)
  | noKeys
  | currentNotPresent (version : Int)
  | keySize (version : Int)
  deriving DecidableEq

/-- The key of an AES-256 cipher. -/
abbrev AesKey := { b : Bytes // b.length = 32 }

def aesKey? (b : Bytes) : Option AesKey := if h : b.length = 32 then some ⟨b, h⟩ else none

def currentKeyName : String := "TENANCIT_AES_KEY"

def currentVersionName : String := "TENANCIT_AES_KEY_VERSION"

def versionedKeyPrefix : String := "TENANCIT_AES_KEY_V"

def versionedKeyName (version : Int) : String := versionedKeyPrefix ++ toString version

/-- The versions that a stored value can have. -/
abbrev Storable (version : Int) : Prop := 0 < version ∧ version ≤ maxStoredKeyVersion

/-- A version in canonical form and within the range of the stored ones. -/
def parseVersion (text : String) : Option Int :=
  (Text.atoi text).filter fun v => 0 < v && v ≤ maxStoredKeyVersion && toString v = text

/-- Keys by version, all of them in the range. -/
@[ext] structure KeyTable where
  keys : AList fun _ : Int => Bytes
  stored : ∀ v ∈ keys, Storable v

def KeyTable.put (t : KeyTable) (v : Int) (key : Bytes) (hv : Storable v) : KeyTable where
  keys := t.keys.insert v key
  stored := by
    intro w hw
    rcases (AList.mem_insert _).mp hw with rfl | hw
    · exact hv
    · exact t.stored w hw

def KeyTable.single (v : Int) (key : Bytes) (hv : Storable v) : KeyTable where
  keys := .singleton v key
  stored := by
    intro w hw
    rw [AList.mem_keys, AList.keys_singleton, List.mem_singleton] at hw
    exact hw ▸ hv

theorem range_of_parseVersion {text : String} {v : Int} (h : parseVersion text = some v) :
    Storable v := by
  obtain ⟨-, hv⟩ := Option.filter_eq_some_iff.mp h
  simp only [Bool.and_eq_true, decide_eq_true_eq] at hv
  exact hv.1

/-- One variable of the environment. -/
def addVersionedKey (version : Int) (current : Bytes) (t : KeyTable)
    (entry : (_ : String) × String) : Except ConfigError KeyTable :=
  if entry.1 = currentVersionName ∨ ¬versionedKeyPrefix.toList.isPrefixOf entry.1.toList then .ok t
  else match h : parseVersion (String.ofList (entry.1.toList.drop versionedKeyPrefix.length)) with
    | none => .error (.invalidVersionedKey entry.1)
    | some keyVersion => match Base64.decode entry.2 with
      | none => .error (.versionedKeyNotBase64 entry.1)
      | some additionalKey =>
        if keyVersion = version ∧ additionalKey ≠
          current then .error (.conflictsWithCurrent entry.1)
        else .ok (t.put keyVersion additionalKey (range_of_parseVersion h))

/-- `New`, where of several keys of a wrong size the last one added is named. -/
def new (aead : Aead AesKey) (t : KeyTable) (current : Int) : Except ConfigError (Cryptor aead) :=
  if t.keys.entries = [] then .error .noKeys
  else if (t.keys.lookup current).isNone then .error (.currentNotPresent current)
  else match t.keys.entries.find? fun p => p.2.length ≠ 32 with
    | some p => .error (.keySize p.1)
    | none => match h : (t.keys.lookup current).bind aesKey? with
      | none => .error (.keySize current)
      | some key => .ok {
          aeads v := (t.keys.lookup v).bind aesKey?
          current := current
          currentKey := key
          current_loaded := h
          loaded_stored := fun hv => by
            obtain ⟨b, hb, -⟩ := Option.bind_eq_some_iff.mp hv
            exact t.stored _ (AList.lookup_isSome.mp (Option.isSome_of_mem hb)) }

/-- `TENANCIT_AES_KEY_VERSION`, 1 where it is empty. -/
def currentVersion (env : Environ) : Option Int :=
  if env.getenv currentVersionName = "" then some 1
    else parseVersion (env.getenv currentVersionName)

theorem range_of_currentVersion {env : Environ} {v : Int} (h : currentVersion env = some v) :
    Storable v := by
  unfold currentVersion at h
  split at h
  · cases h
    decide
  · exact range_of_parseVersion h

/-- `FromEnv` -/
def fromEnv (aead : Aead AesKey) (env : Environ) : Except ConfigError (Cryptor aead) :=
  match h : currentVersion env with
  | none => .error .invalidCurrentVersion
  | some version =>
    if env.getenv currentKeyName = "" then .error .keyRequired
    else match Base64.decode (env.getenv currentKeyName) with
      | none => .error .keyNotBase64
      | some key =>
        (env.entries.foldlM (addVersionedKey version key)
          (.single version key (range_of_currentVersion h))).bind fun t =>
          new aead t version

section entries

variable {version v : Int} {current : Bytes} {t t' : KeyTable} {e : (_ : String) × String}

theorem parseVersion_eq_some {text : String} :
    parseVersion text = some v ↔ text = toString v ∧ Storable v := by
  rw [parseVersion, Option.filter_eq_some_iff]
  simp only [Bool.and_eq_true, decide_eq_true_eq]
  constructor
  · rintro ⟨-, hrange, heq⟩
    exact ⟨heq.symm, hrange⟩
  · rintro ⟨rfl, hpos, hle⟩
    have hint : Text.IsInt64 v := by
      unfold maxStoredKeyVersion at hle
      constructor <;> omega
    exact ⟨Text.atoi_toString hint, ⟨hpos, hle⟩, rfl⟩

theorem ne_toString {text : String} (h : Text.parseDecimal text = none) : text ≠ toString v := by
  rintro rfl
  rw [Text.parseDecimal_toString] at h
  cases h

/-- The variables that name a further key. -/
def NamesKey (name : String) : Prop :=
  name ≠ currentVersionName ∧ versionedKeyPrefix.toList <+: name.toList

theorem namesKey_versionedKeyName (v : Int) : NamesKey (versionedKeyName v) := by
  have hsplit : (versionedKeyName v).toList = versionedKeyPrefix.toList ++ (toString v).toList := by
    simp [versionedKeyName]
  refine ⟨fun h => ?_, ⟨_, hsplit.symm⟩⟩
  have hcurrent : currentVersionName.toList = versionedKeyPrefix.toList ++ "ERSION".toList := rfl
  rw [h, hcurrent, List.append_cancel_left_eq] at hsplit
  exact ne_toString (by decide) (String.toList_injective hsplit)

theorem versionedKeyName_inj {v w : Int} (h : versionedKeyName v = versionedKeyName w) : v = w := by
  have htext : toString v = toString w := by
    refine String.toList_injective ?_
    simpa [versionedKeyName] using congrArg String.toList h
  have hv := Text.parseDecimal_toString v
  rw [htext, Text.parseDecimal_toString] at hv
  exact (Option.some.inj hv).symm

theorem skipped_iff {name : String} :
    name = currentVersionName ∨ ¬versionedKeyPrefix.toList.isPrefixOf name.toList ↔
    ¬NamesKey name := by
  rw [NamesKey, not_and_or, not_not, List.isPrefixOf_iff_prefix]

/-- What a name says after the prefix is a version exactly if it is the name for that version. -/
theorem parseVersion_drop {name : String} (h : NamesKey name) :
    parseVersion (String.ofList (name.toList.drop versionedKeyPrefix.length)) = some v ↔
      name = versionedKeyName v ∧ Storable v := by
  obtain ⟨rest, hrest⟩ := h.2
  have hdrop : name.toList.drop versionedKeyPrefix.length = rest := by
    rw [← hrest]
    exact List.drop_left
  rw [parseVersion_eq_some, hdrop, versionedKeyName, ← String.toList_inj, ← String.toList_inj,
    String.toList_append, ← hrest,
    List.append_cancel_left_eq, String.toList_ofList]

/-- What one variable does. -/
theorem addVersionedKey_eq_ok :
    addVersionedKey version current t e = .ok t' ↔ ¬NamesKey e.1 ∧ t' = t ∨
    ∃ v b, Storable v ∧ e.1 = versionedKeyName v ∧ Base64.decode e.2 = some b ∧
      (v = version → b = current) ∧ t'.keys = t.keys.insert v b := by
  unfold addVersionedKey
  split
  next hother =>
    have hnot := skipped_iff.mp hother
    constructor
    · rintro ⟨⟩
      exact .inl ⟨hnot, rfl⟩
    · rintro (⟨-, rfl⟩ | ⟨v, b, -, hname, -⟩)
      · rfl
      · exact absurd (hname ▸ namesKey_versionedKeyName v) hnot
  next hother =>
    have hnames : NamesKey e.1 := not_not.mp fun h => hother (skipped_iff.mpr h)
    rw [or_iff_right fun h => h.1 hnames]
    split
    next hparse =>
      refine iff_of_false (fun h => nomatch h) ?_
      rintro ⟨v, b, hrange, hv, -⟩
      rw [(parseVersion_drop hnames).mpr ⟨hv, hrange⟩] at hparse
      cases hparse
    next keyVersion hparse =>
      obtain ⟨hkey, hrange⟩ := (parseVersion_drop hnames).mp hparse
      split
      next hdecode =>
        refine iff_of_false (fun h => nomatch h) ?_
        rintro ⟨v, b, -, -, hb, -⟩
        rw [hdecode] at hb
        cases hb
      next additionalKey hdecode =>
        split
        next hconflict =>
          refine iff_of_false (fun h => nomatch h) ?_
          rintro ⟨v, b, -, hv, hb, hagree, -⟩
          obtain rfl := versionedKeyName_inj (hkey.symm.trans hv)
          rw [hdecode] at hb
          cases hb
          exact hconflict.2 (hagree hconflict.1)
        next hagree =>
          constructor
          · rintro ⟨⟩
            exact ⟨keyVersion, additionalKey, hrange, hkey, hdecode, fun hv =>
              by_contra fun hb => hagree ⟨hv, hb⟩, rfl⟩
          · rintro ⟨v, b, -, hv, hb, -, hkeys⟩
            obtain rfl := versionedKeyName_inj (hkey.symm.trans hv)
            rw [hdecode] at hb
            cases hb
            exact congrArg Except.ok (KeyTable.ext hkeys.symm)

end entries

section table

theorem except_bind_eq_ok {ε α β : Type} {x : Except ε α} {f : α → Except ε β} {b : β} :
    x.bind f = .ok b ↔ ∃ a, x = .ok a ∧ f a = .ok b := by
  cases x <;> simp [Except.bind]

variable {aead : Aead AesKey} {c d : Cryptor aead} {version v : Int} {current b : Bytes}
  {t t' : KeyTable}
variable {es : List ((_ : String) × String)} {env : Environ}

/-- The key that the variables give for a version, other than the current one. -/
def Environ.furtherKey (env : Environ) (v : Int) : Option Bytes :=
  (env.lookup (versionedKeyName v)).bind Base64.decode

/-- What the variables leave: their own keys over those that were there. -/
theorem lookup_foldlM (hnodup : es.NodupKeys)
    (h : es.foldlM (addVersionedKey version current) t = .ok t') (v : Int) :
    t'.keys.lookup v =
      ((es.dlookup (versionedKeyName v)).bind Base64.decode).or (t.keys.lookup v) := by
  induction es generalizing t with
  | nil =>
    cases h
    rfl
  | cons e es ih =>
    obtain ⟨name, text⟩ := e
    obtain ⟨hnot, hnodup⟩ := List.nodupKeys_cons.mp hnodup
    obtain ⟨t₁, hstep, hrest⟩ := except_bind_eq_ok.mp h
    rw [ih hnodup hrest]
    rcases addVersionedKey_eq_ok.mp hstep with ⟨hother, rfl⟩ | ⟨w, b, -, rfl, hdecode, -, hkeys⟩
    · have hne : versionedKeyName v ≠ name := fun hv => hother (hv ▸ namesKey_versionedKeyName v)
      rw [List.dlookup_cons_ne _ _ hne]
    · by_cases hv : v = w
      · subst hv
        rw [List.dlookup_eq_none.mpr hnot, List.dlookup_cons_eq, hkeys, AList.lookup_insert,
          Option.bind_some, hdecode]
        rfl
      · rw [List.dlookup_cons_ne _ _ fun h => hv (versionedKeyName_inj h), hkeys,
          AList.lookup_insert_ne hv]

/-- The variables are taken exactly if each one that names a further key names a version in
canonical form and holds a key in base64, which for the current version is the current key. -/
theorem foldlM_isOk : (∃ t', es.foldlM (addVersionedKey version current) t = .ok t') ↔
    ∀ e ∈ es, NamesKey e.1 → ∃ v b, Storable v ∧ e.1 = versionedKeyName v ∧
      Base64.decode e.2 = some b ∧ (v = version → b = current) := by
  induction es generalizing t with
  | nil => simp [pure, Except.pure]
  | cons e es ih =>
    rw [List.forall_mem_cons]
    constructor
    · rintro ⟨t', h⟩
      obtain ⟨t₁, hstep, hrest⟩ := except_bind_eq_ok.mp h
      refine ⟨fun hnames => ?_, ih.mp ⟨t', hrest⟩⟩
      rcases addVersionedKey_eq_ok.mp hstep
        with ⟨hother, -⟩ | ⟨w, b, hrange, hname, hdecode, hagree, -⟩
      · exact absurd hnames hother
      · exact ⟨w, b, hrange, hname, hdecode, hagree⟩
    · rintro ⟨hfirst, hrest⟩
      have hstep : ∃ t₁, addVersionedKey version current t e = .ok t₁ := by
        by_cases hnames : NamesKey e.1
        · obtain ⟨w, b, hrange, hname, hdecode, hagree⟩ := hfirst hnames
          exact ⟨t.put w b hrange,
            addVersionedKey_eq_ok.mpr (.inr ⟨w, b, hrange, hname, hdecode, hagree, rfl⟩)⟩
        · exact ⟨t, addVersionedKey_eq_ok.mpr (.inl ⟨hnames, rfl⟩)⟩
      obtain ⟨t₁, hstep⟩ := hstep
      obtain ⟨t', ht'⟩ := ih.mpr hrest
      exact ⟨t', except_bind_eq_ok.mpr ⟨t₁, hstep, ht'⟩⟩

theorem aesKey?_eq_some {k : AesKey} : aesKey? b = some k ↔ b = k.val := by
  unfold aesKey?
  split
  next h => simp [Subtype.ext_iff]
  next h =>
    refine iff_of_false (fun h => nomatch h) ?_
    rintro rfl
    exact h k.property

/-- A cryptor is its current version and its keys. -/
theorem Cryptor.ext_of_keys (hcurrent : c.current = d.current) (hkeys : c.aeads = d.aeads) :
    c = d := by
  have hkey : c.currentKey = d.currentKey := by
    have hloaded := d.current_loaded
    rw [← hcurrent, ← hkeys] at hloaded
    exact Option.some.inj (c.current_loaded.symm.trans hloaded)
  cases c
  cases d
  simp only [Cryptor.mk.injEq]
  exact ⟨hkeys, hcurrent, hkey⟩

theorem exists_new (hsize : ∀ p ∈ t.keys.entries, p.2.length = 32)
    (hpresent : t.keys.lookup version = some b) : ∃ c, new aead t version = .ok c := by
  have hmem := AList.mem_lookup_iff.mp hpresent
  have hkey : (t.keys.lookup version).bind aesKey? = some ⟨b, hsize _ hmem⟩ := by
    rw [hpresent, Option.bind_some, aesKey?_eq_some]
  unfold new
  split
  next hempty =>
    rw [hempty] at hmem
    cases hmem
  split
  next hnone =>
    rw [hpresent] at hnone
    cases hnone
  split
  next p hfound =>
    exact absurd (hsize p (List.mem_of_find?_eq_some hfound))
      (by simpa using List.find?_some hfound)
  split
  next hnone =>
    rw [hkey] at hnone
    cases hnone
  next => exact ⟨_, rfl⟩

theorem new_eq_ok :
    new aead t version = .ok c ↔ (∀ p ∈ t.keys.entries, p.2.length = 32) ∧ c.current = version ∧
    ∀ v, c.aeads v = (t.keys.lookup v).bind aesKey? := by
  have hforward : ∀ {d : Cryptor aead}, new aead t version = .ok d →
      (∀ p ∈ t.keys.entries, p.2.length = 32) ∧ d.current = version ∧ ∀ v,
      d.aeads v = (t.keys.lookup v).bind aesKey? := by
    intro d h
    unfold new at h
    split at h
    next => cases h
    split at h
    next => cases h
    split at h
    next => cases h
    next hsize =>
    split at h
    next => cases h
    next =>
      cases h
      exact ⟨fun p hp => by simpa using List.find?_eq_none.mp hsize p hp, rfl, fun v => rfl⟩
  refine ⟨hforward, ?_⟩
  rintro ⟨hsize, rfl, hkeys⟩
  obtain ⟨b, hb, -⟩ := Option.bind_eq_some_iff.mp ((hkeys _).symm.trans c.current_loaded)
  obtain ⟨d, hd⟩ := exists_new hsize hb
  obtain ⟨-, hcurrent, hloaded⟩ := hforward hd
  rw [hd, Cryptor.ext_of_keys hcurrent (funext fun v => (hloaded v).trans (hkeys v).symm)]

/-- The keyring that an environment describes. -/
structure Configures (env : Environ) (c : Cryptor aead) : Prop where
  version : env.getenv currentVersionName = "" ∧ c.current = 1 ∨
    env.getenv currentVersionName = toString c.current
  key : Base64.decode (env.getenv currentKeyName) = some c.currentKey.val
  entries : ∀ name text, env.lookup name = some text → NamesKey name →
    ∃ v k, name = versionedKeyName v ∧ Base64.decode text = some k.val ∧ c.aeads v = some k
  loaded : ∀ v k, c.aeads v = some k → v = c.current ∨ env.furtherKey v = some k.val

theorem currentVersion_eq_some : currentVersion env = some v ↔
    (env.getenv currentVersionName = "" ∧ v = 1 ∨ env.getenv currentVersionName = toString v) ∧
    Storable v := by
  unfold currentVersion
  split
  next hempty =>
    have hnumeral : env.getenv currentVersionName ≠ toString v := hempty ▸ ne_toString (by decide)
    rw [or_iff_left hnumeral]
    constructor
    · rintro ⟨⟩
      exact ⟨⟨hempty, rfl⟩, by decide⟩
    · rintro ⟨⟨-, rfl⟩, -⟩
      rfl
  next hset => rw [parseVersion_eq_some, or_iff_right fun h => hset h.1]

/-- The keys of accepted variables: the current one, and for other versions the further ones. -/
theorem lookup_accepted (hrange : Storable version)
    (h : env.entries.foldlM (addVersionedKey version current) (.single version current hrange) =
      .ok t) (v : Int) :
    t.keys.lookup v = if v = version then some current else env.furtherKey v := by
  rw [lookup_foldlM env.nodupKeys h]
  split
  next hv =>
    subst hv
    have hsingle : (KeyTable.single v current hrange).keys.lookup v = some current :=
      List.dlookup_cons_eq _ _ _
    rw [hsingle]
    cases hfurther : (env.entries.dlookup (versionedKeyName v)).bind Base64.decode with
    | none => rfl
    | some b =>
      -- a further key under the current version was compared with the current one
      obtain ⟨text, htext, hdecode⟩ := Option.bind_eq_some_iff.mp hfurther
      obtain ⟨w, b', -, hname, hdecode', hagree⟩ :=
        foldlM_isOk.mp ⟨t, h⟩ _ (List.of_mem_dlookup htext) (namesKey_versionedKeyName v)
      obtain rfl := Option.some.inj (hdecode.symm.trans hdecode')
      rw [hagree (versionedKeyName_inj hname).symm]
      rfl
  next hv =>
    have hsingle : (KeyTable.single version current hrange).keys.lookup v = none :=
      List.dlookup_cons_ne _ _ hv
    rw [hsingle, Option.or_none]
    rfl

theorem fromEnv_eq_ok : fromEnv aead env = .ok c ↔ ∃ version key t, ∃ hrange : Storable version,
    currentVersion env = some version ∧ env.getenv currentKeyName ≠ "" ∧
      Base64.decode (env.getenv currentKeyName) = some key ∧
      env.entries.foldlM (addVersionedKey version key) (.single version key hrange) = .ok t ∧
      new aead t version = .ok c := by
  unfold fromEnv
  split
  next hnone =>
    refine iff_of_false (fun h => nomatch h) ?_
    rintro ⟨version, key, t, -, hversion, -⟩
    rw [hnone] at hversion
    cases hversion
  next version hversion =>
    split
    next hempty =>
      exact iff_of_false (fun h => nomatch h) fun ⟨_, _, _, _, _, hset, _⟩ => hset hempty
    next hset =>
      split
      next hnone =>
        refine iff_of_false (fun h => nomatch h) ?_
        rintro ⟨-, key, t, -, -, -, hkey, -⟩
        rw [hnone] at hkey
        cases hkey
      next key hkey =>
        rw [except_bind_eq_ok]
        constructor
        · rintro ⟨t, hvars, hnew⟩
          exact ⟨version, key, t, _, hversion, hset, hkey, hvars, hnew⟩
        · rintro ⟨version', key', t, hrange, hversion', -, hkey', hvars, hnew⟩
          obtain rfl := Option.some.inj (hversion.symm.trans hversion')
          obtain rfl := Option.some.inj (hkey.symm.trans hkey')
          exact ⟨t, hvars, hnew⟩

theorem Configures.of_fromEnv (h : fromEnv aead env = .ok c) : Configures env c := by
  obtain ⟨version, key, t, hrange, hversion, -, hkey, hvars, hnew⟩ := fromEnv_eq_ok.mp h
  obtain ⟨hsize, rfl, hkeys⟩ := new_eq_ok.mp hnew
  have hlookup := lookup_accepted hrange hvars
  have hloaded : ∀ {v k}, c.aeads v = some k → t.keys.lookup v = some k.val := by
    intro v k hk
    obtain ⟨b, hb, hkey⟩ := Option.bind_eq_some_iff.mp ((hkeys v).symm.trans hk)
    rw [hb, aesKey?_eq_some.mp hkey]
  refine ⟨(currentVersion_eq_some.mp hversion).1, ?_,
    fun name text htext hnames => ?_, fun v k hk => ?_⟩
  · have hcurrent := hloaded c.current_loaded
    rw [hlookup, if_pos rfl] at hcurrent
    rw [hkey, hcurrent]
  · obtain ⟨v, b, -, rfl, hdecode, hagree⟩ :=
      foldlM_isOk.mp ⟨t, hvars⟩ _ (AList.mem_lookup_iff.mp htext) hnames
    have hb : t.keys.lookup v = some b := by
      rw [hlookup]
      split
      next hv => rw [hagree hv]
      next => rw [Environ.furtherKey, htext, Option.bind_some, hdecode]
    have hlength : b.length = 32 := hsize _ (AList.mem_lookup_iff.mp hb)
    refine ⟨v, ⟨b, hlength⟩, rfl, hdecode, ?_⟩
    rw [hkeys, hb, Option.bind_some, aesKey?_eq_some]
  · have hk := hloaded hk
    rw [hlookup] at hk
    split at hk
    next hv => exact .inl hv
    next => exact .inr hk

theorem Configures.furtherKey_eq_some (h : Configures env c) (hb : env.furtherKey v = some b) :
    ∃ k, c.aeads v = some k ∧ b = k.val := by
  obtain ⟨text, htext, hdecode⟩ := Option.bind_eq_some_iff.mp hb
  obtain ⟨w, k, hname, hdecode', hk⟩ := h.entries _ text htext (namesKey_versionedKeyName v)
  obtain rfl := versionedKeyName_inj hname
  exact ⟨k, hk, Option.some.inj (hdecode.symm.trans hdecode')⟩

/-- The keys that the description gives for a version. -/
theorem Configures.lookup (h : Configures env c) (v : Int) :
    (if v = c.current then some c.currentKey.val else env.furtherKey v) =
      (c.aeads v).map Subtype.val := by
  split
  next hv => rw [hv, c.current_loaded, Option.map_some]
  next hv =>
    cases hfurther : env.furtherKey v with
    | none =>
      cases hk : c.aeads v with
      | none => rfl
      | some k =>
        rcases h.loaded v k hk with hcurrent | hgiven
        · exact absurd hcurrent hv
        · rw [hfurther] at hgiven
          cases hgiven
    | some b =>
      obtain ⟨k, hk, rfl⟩ := h.furtherKey_eq_some hfurther
      rw [hk, Option.map_some]

theorem bind_aesKey? (o : Option AesKey) : (o.map Subtype.val).bind aesKey? = o := by
  cases o with
  | none => rfl
  | some k => exact aesKey?_eq_some.mpr rfl

/-- `FromEnv` accepts an environment exactly if it describes a keyring, which is then the one it
builds. -/
theorem fromEnv_eq_ok_iff : fromEnv aead env = .ok c ↔ Configures env c := by
  refine ⟨Configures.of_fromEnv, fun h => ?_⟩
  have hrange := c.loaded_stored c.current_loaded
  have hset : env.getenv currentKeyName ≠ "" := by
    intro hempty
    have hkey := h.key
    rw [hempty] at hkey
    have hnil : c.currentKey.val = [] := (Option.some.inj hkey).symm
    have hlength := c.currentKey.property
    rw [hnil] at hlength
    cases hlength
  have haccepted : ∃ t, env.entries.foldlM (addVersionedKey c.current c.currentKey.val)
      (.single c.current c.currentKey.val hrange) = .ok t := by
    refine foldlM_isOk.mpr fun e he hnames => ?_
    obtain ⟨v, k, hname, hdecode, hk⟩ := h.entries e.1 e.2 (AList.mem_lookup_iff.mpr he) hnames
    refine ⟨v, k.val, c.loaded_stored hk, hname, hdecode, fun hv => ?_⟩
    rw [hv, c.current_loaded] at hk
    rw [← Option.some.inj hk]
  obtain ⟨t, ht⟩ := haccepted
  have hlookup : ∀ v, t.keys.lookup v = (c.aeads v).map Subtype.val :=
    fun v => (lookup_accepted hrange ht v).trans (h.lookup v)
  have hnew : new aead t c.current = .ok c := by
    refine new_eq_ok.mpr ⟨fun p hp => ?_, rfl, fun v => ?_⟩
    · have hb := AList.mem_lookup_iff.mpr hp
      rw [hlookup] at hb
      obtain ⟨k, -, hk⟩ := Option.map_eq_some_iff.mp hb
      rw [← hk]
      exact k.property
    · rw [hlookup, bind_aesKey?]
  have hversion := currentVersion_eq_some.mpr ⟨h.version, hrange⟩
  exact fromEnv_eq_ok.mpr ⟨c.current, c.currentKey.val, t, hrange, hversion, hset, h.key, ht, hnew⟩

end table

end Tenancit.Crypto
