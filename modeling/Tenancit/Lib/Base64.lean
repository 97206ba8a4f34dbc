import Tenancit.Lib.Encoding

/-!
Base64 in the standard alphabet with padding, as `base64.StdEncoding` writes and reads it: line
ends are passed over, and the bits that the last character has too many are not looked at.
-/
namespace Base64

open Encoding

def digit (n : Nat) : Char :=
  "ABCDEFGHIJKLMNOPQRSTUVWXYZabcdefghijklmnopqrstuvwxyz0123456789+/".toList.getD n '='

def value (c : Char) : Option Nat := (List.range 64).find? fun n => digit n = c

def encode : Bytes → List Char
  | a :: b :: c :: rest =>
    digit (a.toNat / 4) :: digit (a.toNat % 4 * 16 + b.toNat / 16) ::
      digit (b.toNat % 16 * 4 + c.toNat / 64) ::
      digit (c.toNat % 64) :: encode rest
  | [a, b] =>
    [digit (a.toNat / 4), digit (a.toNat % 4 * 16 + b.toNat / 16), digit (b.toNat % 16 * 4), '=']
  | [a] => [digit (a.toNat / 4), digit (a.toNat % 4 * 16), '=', '=']
  | [] => []

def first (x y : Nat) : UInt8 := (x * 4 + y / 16).toUInt8

def second (y z : Nat) : UInt8 := (y % 16 * 16 + z / 4).toUInt8

def third (z w : Nat) : UInt8 := (z % 4 * 64 + w).toUInt8

/-- Groups of four characters, of which the last one may be filled up with padding. -/
def decodeGroups : List Char → Option Bytes
  | [] => some []
  | a :: b :: c :: d :: rest =>
    if d = '=' ∧ rest = [] then
      if c = '=' then do
        let x ← value a
        let y ← value b
        some [first x y]
      else do
        let x ← value a
        let y ← value b
        let z ← value c
        some [first x y, second y z]
    else do
      let x ← value a
      let y ← value b
      let z ← value c
      let w ← value d
      let bs ← decodeGroups rest
      some (first x y :: second y z :: third z w :: bs)
  | _ => none

def isLineEnd (c : Char) : Bool := c = '\r' || c = '\n'

/-- `base64.StdEncoding.DecodeString` -/
def decode (s : String) : Option Bytes := decodeGroups (s.toList.filter fun c => !isLineEnd c)

theorem value_digit {n : Nat} (h : n < 64) :
    value (digit n) = some n ∧ digit n ≠ '=' ∧ isLineEnd (digit n) = false := by
  revert n
  decide +kernel

theorem toUInt8_of_toNat {n : Nat} {a : UInt8} (h : n = a.toNat) : n.toUInt8 = a := by
  rw [h, Nat.toUInt8, UInt8.ofNat_toNat]

theorem decodeGroups_encode (b : Bytes) : decodeGroups (encode b) = some b := by
  induction b using encode.induct with
  | case1 a b c rest ih =>
    have ha := a.toNat_lt
    have hb := b.toNat_lt
    have hc := c.toNat_lt
    have hlast := value_digit (n := c.toNat % 64) (by omega)
    rw [encode, decodeGroups, if_neg fun h => hlast.2.1 h.1, (value_digit (by omega)).1,
      (value_digit (by omega)).1,
      (value_digit (by omega)).1, hlast.1, ih]
    show some (first _ _ :: second _ _ :: third _ _ :: rest) = _
    rw [first, second, third, toUInt8_of_toNat (a := a) (by omega),
      toUInt8_of_toNat (a := b) (by omega),
      toUInt8_of_toNat (a := c) (by omega)]
  | case2 a b =>
    have ha := a.toNat_lt
    have hb := b.toNat_lt
    have hthird := value_digit (n := b.toNat % 16 * 4) (by omega)
    rw [encode, decodeGroups, if_pos ⟨rfl, rfl⟩, if_neg hthird.2.1, (value_digit (by omega)).1,
      (value_digit (by omega)).1,
      hthird.1]
    show some [first _ _, second _ _] = _
    rw [first, second, toUInt8_of_toNat (a := a) (by omega), toUInt8_of_toNat (a := b) (by omega)]
  | case3 a =>
    have ha := a.toNat_lt
    rw [encode, decodeGroups, if_pos ⟨rfl, rfl⟩, if_pos rfl, (value_digit (by omega)).1,
      (value_digit (by omega)).1]
    show some [first _ _] = _
    rw [first, toUInt8_of_toNat (a := a) (by omega)]
  | case4 => rfl

theorem lineEnd_notMem_encode (b : Bytes) : ∀ c ∈ encode b, isLineEnd c = false := by
  have hdigit : ∀ n : Nat, isLineEnd (digit n) = false := by
    intro n
    by_cases hn : n < 64
    · exact (value_digit hn).2.2
    · have hpad : digit n = '=' := by
        rw [digit, List.getD_eq_getElem?_getD, List.getElem?_eq_none (Nat.le_of_not_lt hn)]
        rfl
      rw [hpad]
      rfl
  have hpad : isLineEnd '=' = false := rfl
  induction b using encode.induct with
  | case1 a b c rest ih =>
    simp only [encode, List.forall_mem_cons, hdigit, true_and]
    exact ih
  | case2 a b => simp [encode, hdigit, hpad]
  | case3 a => simp [encode, hdigit, hpad]
  | case4 => simp [encode]

/-- What was encoded decodes. -/
theorem decode_encode (b : Bytes) : decode (String.ofList (encode b)) = some b := by
  have hfilter : (encode b).filter (fun c => !isLineEnd c) = encode b :=
    List.filter_eq_self.mpr fun c hc => by rw [lineEnd_notMem_encode b c hc]; rfl
  rw [decode, String.toList_ofList, hfilter, decodeGroups_encode]

end Base64
