import Mathlib.Algebra.Group.Int.Defs
import Mathlib.Tactic.Common

/-!
Trimming and case of texts, and decimal numerals: Go's `strings` and `strconv` packages and
PostgreSQL's text functions.
-/
namespace Text

/-- Unicode white space, as Go's `unicode.IsSpace` has it. -/
def isSpace (c : Char) : Bool :=
  c = ' ' || (9 ≤ c.toNat && c.toNat ≤ 13) || c.toNat = 0x85 ||
    c.toNat = 0xA0 || c.toNat = 0x1680 ||
    (0x2000 ≤ c.toNat && c.toNat ≤ 0x200A) || c.toNat = 0x2028 || c.toNat = 0x2029 ||
    c.toNat = 0x202F || c.toNat = 0x205F || c.toNat = 0x3000

/-- Remove the characters in `p` from both ends. -/
def trim (p : Char → Bool) (cs : List Char) : List Char :=
  ((cs.dropWhile p).reverse.dropWhile p).reverse

/-- `strings.TrimSpace` -/
def trimSpace (s : String) : String := String.ofList (trim isSpace s.toList)

/-- `btrim` without a second argument, which trims spaces only. -/
def btrim (s : String) : String := String.ofList (trim (· = ' ') s.toList)

/-- Lower case as far as it reaches ASCII: the Kelvin sign and the capital dotted I are
the two characters outside ASCII whose lower case is an ASCII letter. -/
def lowerChar (c : Char) : Char :=
  if 'A' ≤ c ∧ c ≤ 'Z' then Char.ofNat (c.toNat + 32)
  else if c.toNat = 0x212A then 'k'
  else if c.toNat = 0x130 then 'i'
  else c

def toLower (s : String) : String := String.ofList (s.toList.map lowerChar)

/-- The octets of the UTF-8 encoding, counted. -/
def octetLength (s : String) : Nat := s.utf8ByteSize

def isDigit (c : Char) : Bool := '0' ≤ c ∧ c ≤ '9'

def isLower (c : Char) : Bool := 'a' ≤ c ∧ c ≤ 'z'

section ascii

theorem trim_eq_self {p : Char → Bool} {cs : List Char} (h : ∀ c ∈ cs, p c = false) :
    trim p cs = cs := by
  have hdrop : ∀ l : List Char, (∀ c ∈ l, p c = false) → l.dropWhile p = l := by
    intro l hl
    cases l with
    | nil => rfl
    | cons c l => simp [hl c (.head _)]
  rw [trim, hdrop cs h, hdrop _ fun c hc => h c (List.mem_reverse.mp hc), List.reverse_reverse]

theorem lowerChar_eq_self {c : Char} (h : c.toNat < 128) (hupper : ¬('A' ≤ c ∧ c ≤ 'Z')) :
    lowerChar c = c := by
  rw [lowerChar, if_neg hupper, if_neg (by omega), if_neg (by omega)]

/-- Spaces and capitals are all that the lower case of a trimmed ASCII text changes. -/
theorem toLower_btrim_eq_self {s : String}
    (h : ∀ c ∈ s.toList, c ≠ ' ' ∧ c.toNat < 128 ∧ ¬('A' ≤ c ∧ c ≤ 'Z')) :
    toLower (btrim s) = s := by
  have htrim : btrim s = s := by
    rw [btrim, trim_eq_self fun c hc => decide_eq_false (h c hc).1, String.ofList_toList]
  have hmap : s.toList.map lowerChar = s.toList := by
    refine (List.map_congr_left fun c hc => ?_).trans (List.map_id _)
    exact lowerChar_eq_self (h c hc).2.1 (h c hc).2.2
  rw [htrim, toLower, hmap, String.ofList_toList]

theorem isLower_range {c : Char} (h : isLower c = true) : 97 ≤ c.toNat ∧ c.toNat ≤ 122 := by
  simpa [isLower, Char.le_def, UInt32.le_iff_toNat_le] using h

theorem isDigit_range {c : Char} (h : isDigit c = true) : 48 ≤ c.toNat ∧ c.toNat ≤ 57 := by
  simpa [isDigit, Char.le_def, UInt32.le_iff_toNat_le] using h

end ascii

section numerals

/-- The number that decimal digits stand for; none for an empty list. -/
def digitsValue (cs : List Char) : Option Nat :=
  if cs ≠ [] ∧ cs.all Char.isDigit then some (Nat.ofDigitChars 10 cs 0) else none

/-- A decimal numeral with an optional sign. -/
def parseDecimal (s : String) : Option Int :=
  match s.toList with
  | '-' :: cs => (digitsValue cs).map fun (n : Nat) => -(n : Int)
  | '+' :: cs => (digitsValue cs).map fun (n : Nat) => (n : Int)
  | cs => (digitsValue cs).map fun (n : Nat) => (n : Int)

/-- The numbers of an `int64`. -/
def IsInt64 (n : Int) : Prop := -2 ^ 63 ≤ n ∧ n < 2 ^ 63

instance (n : Int) : Decidable (IsInt64 n) := by
  unfold IsInt64
  infer_instance

/-- `strconv.Atoi`, and `strconv.ParseInt` in base 10, where they succeed. -/
def atoi (s : String) : Option Int := (parseDecimal s).filter fun n => IsInt64 n

/-- The number that `strconv.Atoi` gives also where it fails. -/
def atoiValue (s : String) : Int :=
  match parseDecimal s with
  | none => 0
  | some n => max (-2 ^ 63) (min (2 ^ 63 - 1) n)

@[simp] theorem digitsValue_repr (n : Nat) : digitsValue n.repr.toList = some n := by
  have hdigits : ∀ c ∈ Nat.toDigits 10 n, c.isDigit = true :=
    fun c hc => Nat.isDigit_of_mem_toDigits (by decide) (by decide) hc
  have hne : Nat.toDigits 10 n ≠ [] := by
    simp
  rw [Nat.toList_repr, digitsValue, if_pos ⟨hne, List.all_eq_true.mpr hdigits⟩,
    Nat.ofDigitChars_ten_toDigits]

@[simp] theorem parseDecimal_toString (n : Int) : parseDecimal (toString n) = some n := by
  cases n with
  | ofNat n =>
    have hlist : (toString (Int.ofNat n)).toList = n.repr.toList := rfl
    have hhead : ∀ c ∈ n.repr.toList, c ≠ '-' ∧ c ≠ '+' := by
      intro c hc
      rw [Nat.toList_repr] at hc
      have hd := Nat.isDigit_of_mem_toDigits (by decide) (by decide) hc
      constructor <;> rintro rfl <;> cases hd
    unfold parseDecimal
    rw [hlist]
    split
    next cs hcs => exact absurd rfl (hhead '-' (hcs ▸ List.mem_cons_self)).1
    next cs hcs => exact absurd rfl (hhead '+' (hcs ▸ List.mem_cons_self)).2
    · rw [digitsValue_repr]
      rfl
  | negSucc n =>
    have hlist : (toString (Int.negSucc n)).toList = '-' :: (n + 1).repr.toList := by
      show ("-" ++ (n + 1).repr).toList = _
      simp
    unfold parseDecimal
    rw [hlist]
    show (digitsValue (n + 1).repr.toList).map _ = _
    rw [digitsValue_repr]
    rfl

theorem atoi_toString {n : Int} (h : IsInt64 n) : atoi (toString n) = some n := by
  rw [atoi, parseDecimal_toString]
  simp [h]

theorem atoiValue_of_atoi {s : String} {n : Int} (h : atoi s = some n) : atoiValue s = n := by
  obtain ⟨hparse, hn⟩ := Option.filter_eq_some_iff.mp h
  have hn : IsInt64 n := by simpa using hn
  unfold IsInt64 at hn
  simp only [atoiValue, hparse]
  omega

end numerals

end Text
