import Tenancit.Lib.Text

/-! `service/identity.go` and `service/hostname.go`: the identifiers of the public contract. -/
namespace Tenancit.Service

open Text

def alphanumeric (c : Char) : Bool := isLower c || isDigit c

/-- What may follow a letter or digit of a slug: `[a-z0-9]*(?:-[a-z0-9]+)*`. -/
def slugRest : List Char → Bool
  | [] => true
  | '-' :: c :: cs => alphanumeric c && slugRest cs
  | c :: cs => alphanumeric c && slugRest cs

/-- `^[a-z0-9]+(?:-[a-z0-9]+)*$` -/
def tenantSlugPattern (s : String) : Bool :=
  match s.toList with
  | [] => false
  | c :: cs => alphanumeric c && slugRest cs

/-- `^[a-z][a-z0-9_-]{0,62}$` -/
def definitionKeyPattern (s : String) : Bool :=
  match s.toList with
  | [] => false
  | c :: cs => isLower c && cs.length ≤ 62 && cs.all fun c => alphanumeric c || c = '_' || c = '-'

/-- `^-?\d+$` -/
def integerValuePattern (s : String) : Bool :=
  match s.toList with
  | '-' :: cs => !cs.isEmpty && cs.all isDigit
  | cs => !cs.isEmpty && cs.all isDigit

def normalizeTenantSlug (raw : String) : String × Bool :=
  let slug := trimSpace raw
  (slug, octetLength slug ≤ 63 && tenantSlugPattern slug)

/-- The keys of definitions and of fields. -/
def normalizeDefinitionKey (raw : String) : String × Bool :=
  let key := trimSpace raw
  (key, definitionKeyPattern key)

def validResourceValue (dataType value : String) : Bool :=
  if value = "" then true
  else if dataType = "int" then integerValuePattern value
  else if dataType = "bool" then value = "true" || value = "false"
  else true

/-- The pieces of a text between the occurrences of a separator. -/
def splitOn (sep : Char) : List Char → List (List Char)
  | [] => [[]]
  | c :: cs => if c = sep then [] :: splitOn sep cs else match splitOn sep cs with
    | [] => [[c]]
    | piece :: pieces => (c :: piece) :: pieces

def hostnameLabel (label : List Char) : Bool :=
  !label.isEmpty && label.length ≤ 63 && label.head? != some '-' && label.getLast? != some '-' &&
    label.all fun c => alphanumeric c || c = '-'

/-- The canonical form of an ASCII hostname, or `""`. -/
def canonicalHostname (raw : String) : String :=
  let lowered := (toLower (trimSpace raw)).toList
  let hostname := if lowered.getLast? = some '.' then lowered.dropLast else lowered
  let text := String.ofList hostname
  if hostname = [] ∨ octetLength text > 253 then ""
  else if (splitOn '.' hostname).all hostnameLabel then text
  else ""

theorem alphanumeric_ascii {c : Char} (h : alphanumeric c = true) : c.toNat < 128 ∧ c ≠ ':' := by
  simp only [alphanumeric, isLower, isDigit, Bool.or_eq_true, decide_eq_true_eq, Char.le_def,
    UInt32.le_iff_toNat_le] at h
  have hz : ('z' : Char).val.toNat = 122 := rfl
  have ha : ('a' : Char).val.toNat = 97 := rfl
  have h9 : ('9' : Char).val.toNat = 57 := rfl
  have h0 : ('0' : Char).val.toNat = 48 := rfl
  refine ⟨?_, ?_⟩
  · change c.val.toNat < 128
    omega
  · rintro rfl
    have hc : (':' : Char).val.toNat = 58 := rfl
    omega

theorem slugRest_ascii {cs : List Char} (h : slugRest cs = true) :
    ∀ c ∈ cs, c.toNat < 128 ∧ c ≠ ':' := by
  induction cs using slugRest.induct with
  | case1 => simp
  | case2 c cs ih =>
    simp only [slugRest, Bool.and_eq_true] at h
    simp only [List.mem_cons, forall_eq_or_imp]
    exact ⟨by decide, alphanumeric_ascii h.1, ih h.2⟩
  | case3 c cs hne ih =>
    rw [slugRest, Bool.and_eq_true] at h
    · simp only [List.mem_cons, forall_eq_or_imp]
      exact ⟨alphanumeric_ascii h.1, ih h.2⟩
    · exact hne

/-- A slug is ASCII text without a colon. -/
theorem tenantSlugPattern_ascii {s : String} (h : tenantSlugPattern s = true) :
    ∀ c ∈ s.toList, c.toNat < 128 ∧ c ≠ ':' := by
  unfold tenantSlugPattern at h
  split at h
  · simp at h
  next c cs hcs =>
    rw [Bool.and_eq_true] at h
    rw [hcs]
    simp only [List.mem_cons, forall_eq_or_imp]
    exact ⟨alphanumeric_ascii h.1, slugRest_ascii h.2⟩

/-- The key of a definition or of a field is ASCII text without a colon. -/
theorem definitionKeyPattern_ascii {s : String} (h : definitionKeyPattern s = true) :
    ∀ c ∈ s.toList, c.toNat < 128 ∧ c ≠ ':' := by
  unfold definitionKeyPattern at h
  split at h
  · simp at h
  next c cs hcs =>
    simp only [Bool.and_eq_true, List.all_eq_true] at h
    rw [hcs]
    simp only [List.mem_cons, forall_eq_or_imp]
    refine ⟨alphanumeric_ascii (by simp [alphanumeric, h.1.1]), fun c hc => ?_⟩
    have hc := h.2 c hc
    simp only [Bool.or_eq_true, decide_eq_true_eq] at hc
    rcases hc with (hc | rfl) | rfl
    · exact alphanumeric_ascii hc
    · decide
    · decide

end Tenancit.Service
