import Mathlib.Algebra.Group.Action.Defs
import Mathlib.Algebra.Order.BigOperators.Group.List
import Tenancit.Lib.Json
import Tenancit.Lib.Strip

/-!
The octets of the spaced text of a JSON value. They are a sum over the members, so that they
depend neither on the order of the keys nor on more of a text than its octets when quoted.
-/
namespace Encoding.Json

open Text

/-- The octets of the UTF-8 encoding of characters. -/
def charOctets (cs : List Char) : Nat := (cs.map Char.utf8Size).sum

@[simp] theorem charOctets_nil : charOctets [] = 0 := rfl

@[simp] theorem charOctets_cons (c : Char) (cs : List Char) :
    charOctets (c :: cs) = c.utf8Size + charOctets cs := by
  simp [charOctets]

@[simp] theorem charOctets_append (cs ds : List Char) :
    charOctets (cs ++ ds) = charOctets cs + charOctets ds := by
  simp [charOctets]

theorem octetLength_ofList (cs : List Char) : octetLength (String.ofList cs) = charOctets cs := by
  induction cs with
  | nil => rfl
  | cons c cs ih => rw [octetLength_cons, ih, charOctets_cons]

/-- ASCII characters take an octet each. -/
theorem charOctets_ascii {cs : List Char} (h : ∀ c ∈ cs, c.toNat < 128) :
    charOctets cs = cs.length := by
  rw [← octetLength_ofList]
  exact octetLength_eq_length_iff.mpr h

/-- The octets of a text between quotation marks, with its escapes. -/
def quotedOctets (s : String) : Nat := charOctets (quoted spaced s)

/-- The octets of a numeral. -/
def numOctets (n : Int) : Nat := charOctets (toString n).toList

def boolOctets (b : Bool) : Nat := if b then 4 else 5

/-- The octets of an array: brackets and commas among members of these octets. -/
def arrOctets (items : List Nat) : Nat := if items = [] then 2 else (items.map fun n => n + 2).sum

/-- The octets of an object whose values have these octets. -/
def objOctets (fields : List (String × Nat)) : Nat :=
  if fields = [] then 2 else (fields.map fun f => quotedOctets f.1 + f.2 + 4).sum

/-- The octets of the spaced text. -/
def octets (j : Json) : Nat := octetLength j.text

theorem octets_eq (j : Json) : j.octets = charOctets (j.render spaced) := octetLength_ofList _

section members

@[simp] theorem octets_null : null.octets = 4 := by decide +kernel

@[simp] theorem octets_bool (b : Bool) : (bool b).octets = boolOctets b := by
  cases b <;> decide +kernel

@[simp] theorem octets_num (n : Int) : (num n).octets = numOctets n := octets_eq _

@[simp] theorem octets_str (s : String) : (str s).octets = quotedOctets s := octets_eq _

theorem charOctets_renderItems (x : Json) (xs : List Json) :
    charOctets (renderItems spaced (x :: xs)) + 2 = ((x :: xs).map fun x => x.octets + 2).sum := by
  induction xs generalizing x with
  | nil => simp [renderItems, octets_eq]
  | cons y ys ih =>
    have hrest := ih y
    rw [List.map_cons, List.sum_cons, ← hrest, renderItems, octets_eq]
    have hcomma : charOctets [',', ' '] = 2 := rfl
    simp only [List.isEmpty_cons, Bool.false_eq_true, if_false, charOctets_append,
      charOctets_cons, charOctets_nil,
      spaced] at hcomma ⊢
    omega

@[simp] theorem octets_arr (xs : List Json) : (arr xs).octets = arrOctets (xs.map octets) := by
  rw [octets_eq, render]
  cases xs with
  | nil => rfl
  | cons x xs =>
    have hitems := charOctets_renderItems x xs
    have hbrackets : charOctets ['[', ']'] = 2 := rfl
    simp only [charOctets_cons, charOctets_append, charOctets_nil, arrOctets,
      List.map_map, List.map_cons,
      Function.comp_def, reduceCtorEq, if_false] at hitems hbrackets ⊢
    omega

theorem charOctets_renderFields (f : String × Json) (fs : List (String × Json)) :
    charOctets (renderFields spaced (f :: fs)) + 2 =
      ((f :: fs).map fun f => quotedOctets f.1 + f.2.octets + 4).sum := by
  have hmarks : charOctets [':', ' '] = 2 ∧ charOctets [',', ' '] = 2 := ⟨rfl, rfl⟩
  have hfield : ∀ f : String × Json, charOctets (renderField spaced f) =
      quotedOctets f.1 + f.2.octets + 2 := by
    rintro ⟨k, v⟩
    simp only [renderField, charOctets_append, charOctets_cons, charOctets_nil,
      octets_eq, quotedOctets, spaced]
      at hmarks ⊢
    omega
  induction fs generalizing f with
  | nil =>
    have hf := hfield f
    simp only [renderFields, List.isEmpty_nil, if_true, List.append_nil, List.map_cons,
      List.map_nil, List.sum_cons,
      List.sum_nil]
    omega
  | cons g gs ih =>
    have hrest := ih g
    have hf := hfield f
    rw [List.map_cons, List.sum_cons, ← hrest, renderFields]
    simp only [List.isEmpty_cons, Bool.false_eq_true, if_false, charOctets_append,
      charOctets_cons, charOctets_nil,
      spaced] at hmarks hf ⊢
    omega

@[simp] theorem octets_obj (fields : List (String × Json)) :
    (obj fields).octets = objOctets (fields.map fun f => (f.1, f.2.octets)) := by
  rw [octets_eq, render]
  cases fields with
  | nil => rfl
  | cons f fs =>
    have hfields := charOctets_renderFields f fs
    have hbraces : charOctets ['{', '}'] = 2 := rfl
    simp only [charOctets_cons, charOctets_append, charOctets_nil, objOctets,
      List.map_map, List.map_cons,
      Function.comp_def, reduceCtorEq, if_false] at hfields hbraces ⊢
    omega

/-- The order of the members does not count. -/
theorem objOctets_perm {fields fields' : List (String × Nat)} (h : fields.Perm fields') :
    objOctets fields = objOctets fields' := by
  have hnil : fields = [] ↔ fields' = [] :=
    ⟨fun he => (he ▸ h).nil_eq.symm, fun he => (he ▸ h).eq_nil⟩
  simp only [objOctets, hnil, (h.map _).sum_eq]

@[simp] theorem octets_ofMap (entries : List (String × Json)) :
    (ofMap entries).octets = objOctets (entries.map fun e => (e.1, e.2.octets)) := by
  rw [ofMap, octets_obj]
  exact objOctets_perm ((List.perm_insertionSort _ entries).map _)

end members

section plain

/-- A character that stands in a text as it is. -/
def Plain (c : Char) : Prop := 32 ≤ c.toNat ∧ c.toNat < 128 ∧ c ≠ '"' ∧ c ≠ '\\'

theorem escapeControl_plain {c : Char} (h : Plain c) : escapeControl c = [c] := by
  obtain ⟨hlow, -, hquote, hslash⟩ := h
  have hne : c.toNat ≠ 34 ∧ c.toNat ≠ 92 := by
    constructor
    · intro he
      exact hquote (Char.ext (UInt32.toNat_inj.mp he))
    · intro he
      exact hslash (Char.ext (UInt32.toNat_inj.mp he))
  unfold escapeControl
  split <;> first | omega | rw [if_neg (by omega)]

/-- A plain text takes its characters and the quotation marks. -/
theorem quotedOctets_plain {s : String} (h : ∀ c ∈ s.toList, Plain c) :
    quotedOctets s = s.toList.length + 2 := by
  have hescaped : s.toList.flatMap escapeControl = s.toList :=
    (List.flatMap_congr fun c hc => escapeControl_plain (h c hc)).trans (List.flatMap_singleton' _)
  have hmark : charOctets ['"'] = 1 := rfl
  simp only [quotedOctets, quoted, spaced, hescaped, charOctets_cons,
    charOctets_append, charOctets_nil,
    charOctets_ascii fun c hc => (h c hc).2.1] at hmark ⊢
  omega

end plain

section bounds

theorem charOctets_escapeControl_le (c : Char) : charOctets (escapeControl c) ≤ 6 := by
  unfold escapeControl
  split
  iterate 7 decide
  split
  · have hlength : (hexEscape c).length = 6 := by simp [hexEscape]
    rw [charOctets_ascii, hlength]
    intro d hd
    simp only [hexEscape, List.mem_cons] at hd
    rcases hd with rfl | rfl | hd
    · decide
    · decide
    · exact (mem_hexDigits hd).1
  · have hfour := c.utf8Size_le_four
    rw [charOctets_cons, charOctets_nil]
    omega

/-- A character takes six octets at most when quoted. -/
theorem quotedOctets_le (s : String) : quotedOctets s ≤ 6 * s.toList.length + 2 := by
  have hmark : charOctets ['"'] = 1 := rfl
  have hescaped : ∀ cs : List Char, charOctets (cs.flatMap escapeControl) ≤ 6 * cs.length := by
    intro cs
    induction cs with
    | nil => exact Nat.zero_le _
    | cons c cs ih =>
      have hc := charOctets_escapeControl_le c
      rw [List.flatMap_cons, charOctets_append, List.length_cons]
      omega
  have hs := hescaped s.toList
  simp only [quotedOctets, quoted, spaced, charOctets_cons, charOctets_append,
    charOctets_nil] at hmark ⊢
  omega

/-- A number of so many digits at most, with its sign. -/
theorem numOctets_le {n : Int} {k : Nat} (hk : 0 < k) (hn : n.natAbs < 10 ^ k) :
    numOctets n ≤ k + 1 := by
  have hdigits : ∀ m < 10 ^ k, charOctets (Nat.repr m).toList ≤ k := by
    intro m hm
    rw [Nat.toList_repr, charOctets_ascii]
    · exact (Nat.length_toDigits_le_iff (by decide) hk).mpr hm
    · intro c hc
      have hdigit : isDigit c = true := by
        have h := Nat.isDigit_of_mem_toDigits (by decide) (by decide) hc
        simpa [isDigit, Char.isDigit, Char.le_def] using h
      have hrange := isDigit_range hdigit
      omega
  cases n with
  | ofNat m => exact (hdigits m hn).trans (Nat.le_succ k)
  | negSucc m =>
    have hm := hdigits (m + 1) hn
    show charOctets ("-" ++ Nat.repr (m + 1)).toList ≤ _
    rw [String.toList_append, charOctets_append]
    have hsign : charOctets "-".toList = 1 := rfl
    omega

/-- An array of members of so many octets at most. -/
theorem arrOctets_le {items : List Nat} {k : Nat} (h : ∀ n ∈ items, n ≤ k) :
    arrOctets items ≤ items.length * (k + 2) + 2 := by
  unfold arrOctets
  split
  · omega
  · have hsum := List.sum_le_card_nsmul (items.map fun n => n + 2) (k + 2) (by simpa using h)
    rw [List.length_map, smul_eq_mul] at hsum
    omega

end bounds

end Encoding.Json
