import Mathlib.Data.Nat.Digits.Lemmas
import Mathlib.Tactic.Common

/-!
Octets of texts and numbers, and what can be read back from a concatenation: UTF-8,
decimal and fixed-width hexadecimal numerals, and splitting at a delimiter that the
first part does not contain.
-/
namespace Encoding

abbrev Bytes := List UInt8

/-- The UTF-8 octets of a text. -/
def utf8 (s : String) : Bytes := s.toList.flatMap String.utf8EncodeChar

/-- The text with the given UTF-8 octets. -/
def ofUtf8? (b : Bytes) : Option String := String.fromUTF8? ⟨b.toArray⟩

theorem utf8_eq_toByteArray (s : String) : utf8 s = s.toByteArray.data.toList := by
  rw [← String.utf8Encode_toList]
  simp [utf8, List.utf8Encode]

@[simp] theorem ofUtf8?_utf8 (s : String) : ofUtf8? (utf8 s) = some s := by
  have h : (⟨(utf8 s).toArray⟩ : ByteArray) = s.toByteArray := by
    rw [utf8_eq_toByteArray]
  unfold ofUtf8?
  rw [h, String.fromUTF8?, dif_pos s.isValidUTF8]
  rfl

theorem utf8_injective : Function.Injective utf8 := by
  intro s t h
  simpa using congrArg ofUtf8? h

@[simp] theorem utf8_append (s t : String) : utf8 (s ++ t) = utf8 s ++ utf8 t := by
  simp [utf8]

/-- The octet of an ASCII character. -/
def octet (c : Char) : UInt8 := c.toNat.toUInt8

theorem utf8EncodeChar_ascii {c : Char} (h : c.toNat < 128) :
    String.utf8EncodeChar c = [octet c] := by
  have h' : c.toNat ≤ 127 := Nat.le_of_lt_succ h
  simp [String.utf8EncodeChar, octet, h']

/-- A text without the ASCII character `d`, all of it ASCII, has no octet of `d`. -/
theorem octet_notMem_utf8 {s : String} {d : Char} (hd : d.toNat < 128)
    (hs : ∀ c ∈ s.toList, c.toNat < 128 ∧ c ≠ d) : octet d ∉ utf8 s := by
  intro hmem
  obtain ⟨c, hc, hcd⟩ := List.mem_flatMap.mp hmem
  obtain ⟨hlt, hne⟩ := hs c hc
  rw [utf8EncodeChar_ascii hlt, List.mem_singleton] at hcd
  apply hne
  have hnat : c.toNat = d.toNat := by
    have := congrArg UInt8.toNat hcd
    simp only [octet, Nat.toUInt8, UInt8.toNat_ofNat'] at this
    omega
  exact Char.ext (UInt32.toNat_inj.mp hnat)

/-- The part before the first delimiter, and the part after it, are determined. -/
theorem append_delim_inj {α : Type*} {d : α} {xs ys us vs : List α} (hx : d ∉ xs) (hu : d ∉ us)
    (h : xs ++ d :: ys = us ++ d :: vs) : xs = us ∧ ys = vs := by
  induction xs generalizing us with
  | nil =>
    cases us with
    | nil => simpa using h
    | cons u us =>
      obtain ⟨rfl, -⟩ := List.cons.inj h
      exact absurd List.mem_cons_self hu
  | cons x xs ih =>
    cases us with
    | nil =>
      obtain ⟨rfl, -⟩ := List.cons.inj h
      exact absurd List.mem_cons_self hx
    | cons u us =>
      obtain ⟨rfl, ht⟩ := List.cons.inj h
      obtain ⟨rfl, rfl⟩ := ih (fun hm => hx (.tail _ hm)) (fun hm => hu (.tail _ hm)) ht
      exact ⟨rfl, rfl⟩

section numerals

/-- The decimal numeral of a natural number. -/
def decimalNat (n : Nat) : Bytes :=
  if n = 0 then [48] else (Nat.digits 10 n).reverse.map fun d => (48 + d).toUInt8

/-- The decimal numeral of an integer, with a minus sign where it is negative. -/
def decimal (n : Int) : Bytes := if n < 0 then 45 :: decimalNat n.natAbs else decimalNat n.natAbs

theorem mem_decimalNat {n : Nat} {b : UInt8} (h : b ∈ decimalNat n) : 48 ≤ b ∧ b ≤ 57 := by
  unfold decimalNat at h
  split at h
  · obtain rfl := List.mem_singleton.mp h
    decide
  · obtain ⟨d, hd, rfl⟩ := List.mem_map.mp h
    have hlt : d < 10 := Nat.digits_lt_base (by norm_num) (List.mem_reverse.mp hd)
    clear hd h
    revert d
    decide

theorem notMem_decimal {n : Int} {b : UInt8} (hb : b < 45 ∨ 57 < b) : b ∉ decimal n := by
  intro h
  have h45 : b ≠ 45 := by rintro rfl; revert hb; decide
  have hnat : b ∈ decimalNat n.natAbs := by
    unfold decimal at h
    split at h
    · exact (List.mem_cons.mp h).resolve_left h45
    · exact h
  obtain ⟨hl, hu⟩ := mem_decimalNat hnat
  rw [UInt8.le_iff_toNat_le] at hl hu
  rw [UInt8.lt_iff_toNat_lt, UInt8.lt_iff_toNat_lt] at hb
  revert hl hu hb
  generalize b.toNat = k
  intro hl hu hb
  have e48 : (48 : UInt8).toNat = 48 := rfl
  have e57 : (57 : UInt8).toNat = 57 := rfl
  have e45 : (45 : UInt8).toNat = 45 := rfl
  omega

/-- Reading a decimal numeral back. -/
def ofDecimalNat (b : Bytes) : Nat := Nat.ofDigits 10 (b.reverse.map fun c => c.toNat - 48)

theorem ofDecimalNat_decimalNat (n : Nat) : ofDecimalNat (decimalNat n) = n := by
  unfold ofDecimalNat decimalNat
  split
  · subst n
    rfl
  · rw [← List.map_reverse, List.reverse_reverse, List.map_map]
    have hid : ∀ d ∈ Nat.digits 10 n, ((fun c : UInt8 => c.toNat - 48) ∘ fun d =>
        (48 + d).toUInt8) d = d := by
      intro d hd
      have hlt : d < 10 := Nat.digits_lt_base (by norm_num) hd
      simp only [Function.comp_apply, Nat.toUInt8, UInt8.toNat_ofNat']
      omega
    rw [List.map_congr_left hid, List.map_id', Nat.ofDigits_digits]

theorem decimalNat_injective : Function.Injective decimalNat :=
  Function.LeftInverse.injective ofDecimalNat_decimalNat

theorem decimal_injective : Function.Injective decimal := by
  have hsign : ∀ {n m : Nat}, decimalNat n ≠ 45 :: decimalNat m := by
    intro n m h
    have h45 : (45 : UInt8) ∈ decimalNat n := h ▸ List.mem_cons_self
    exact absurd (mem_decimalNat h45).1 (by decide)
  intro n m h
  unfold decimal at h
  split at h <;> split at h
  · have := decimalNat_injective (List.cons.inj h).2
    omega
  · exact absurd h.symm hsign
  · exact absurd h hsign
  · have := decimalNat_injective h
    omega

/-- The last `width` digits of a number in a base, the most significant first. -/
def fixedDigits (base : Nat) : Nat → Nat → List Nat
  | 0, _ => []
  | width + 1, n => fixedDigits base width (n / base) ++ [n % base]

@[simp] theorem length_fixedDigits (base width n : Nat) :
    (fixedDigits base width n).length = width := by
  induction width generalizing n with
  | zero => rfl
  | succ w ih => simp [fixedDigits, ih]

theorem fixedDigits_lt {base width n : Nat} (hb : 0 < base) :
    ∀ d ∈ fixedDigits base width n, d < base := by
  induction width generalizing n with
  | zero => simp [fixedDigits]
  | succ w ih =>
    intro d hd
    rcases List.mem_append.mp hd with hd | hd
    · exact ih d hd
    · rw [List.mem_singleton] at hd
      exact hd ▸ Nat.mod_lt _ hb

theorem fixedDigits_inj {base width n m : Nat} (hn : n < base ^ width) (hm : m < base ^ width)
    (h : fixedDigits base width n = fixedDigits base width m) : n = m := by
  induction width generalizing n m with
  | zero =>
    rw [pow_zero] at hn hm
    omega
  | succ w ih =>
    rw [pow_succ] at hn hm
    obtain ⟨hhigh, hlow⟩ := List.append_inj h (by simp)
    have hhigh := ih (Nat.div_lt_of_lt_mul (by rwa [mul_comm]))
      (Nat.div_lt_of_lt_mul (by rwa [mul_comm])) hhigh
    have hlow := (List.cons.inj hlow).1
    rw [← Nat.div_add_mod n base, ← Nat.div_add_mod m base, hhigh, hlow]

/-- The last `width` hexadecimal digits of a number, in lower case. -/
def hexDigits (width n : Nat) : List Char := (fixedDigits 16 width n).map Nat.digitChar

@[simp] theorem length_hexDigits (width n : Nat) : (hexDigits width n).length = width := by
  simp [hexDigits]

theorem digitChar_inj {a b : Nat} (ha : a < 16) (hb : b < 16)
    (h : Nat.digitChar a = Nat.digitChar b) : a = b := by
  have hall : ∀ a < 16, ∀ b < 16, Nat.digitChar a = Nat.digitChar b → a = b := by decide
  exact hall a ha b hb h

theorem digitChar_ascii {d : Nat} (h : d < 16) :
    (Nat.digitChar d).toNat < 128 ∧ Nat.digitChar d ≠ '-' := by
  revert d
  decide

theorem hexDigits_inj {width n m : Nat} (hn : n < 16 ^ width) (hm : m < 16 ^ width)
    (h : hexDigits width n = hexDigits width m) : n = m := by
  refine fixedDigits_inj hn hm (List.ext_getElem (by simp) fun i hi hi' => ?_)
  apply digitChar_inj (fixedDigits_lt (by norm_num) _ (List.getElem_mem hi))
    (fixedDigits_lt (by norm_num) _ (List.getElem_mem hi'))
  have hget := congrArg (fun l => l[i]?) h
  simpa [hexDigits, List.getElem?_eq_getElem hi, List.getElem?_eq_getElem hi'] using hget

theorem mem_hexDigits {width n : Nat} {c : Char} (h : c ∈ hexDigits width n) :
    c.toNat < 128 ∧ c ≠ '-' := by
  obtain ⟨d, hd, rfl⟩ := List.mem_map.mp h
  exact digitChar_ascii (fixedDigits_lt (by norm_num) d hd)

/-- The hexadecimal digits of a list of octets. -/
def hexEncode (b : Bytes) : String := String.ofList (b.flatMap fun x => hexDigits 2 x.toNat)

theorem flatMap_hexDigits_inj {xs ys : Bytes}
    (h : xs.flatMap (fun x => hexDigits 2 x.toNat) = ys.flatMap fun x => hexDigits 2 x.toNat) :
    xs = ys := by
  induction xs generalizing ys with
  | nil =>
    cases ys with
    | nil => rfl
    | cons y ys =>
      have := congrArg List.length h
      rw [List.flatMap_cons, List.length_append, length_hexDigits] at this
      simp only [List.flatMap_nil, List.length_nil] at this
      omega
  | cons x xs ih =>
    cases ys with
    | nil =>
      have := congrArg List.length h
      rw [List.flatMap_cons, List.length_append, length_hexDigits] at this
      simp only [List.flatMap_nil, List.length_nil] at this
      omega
    | cons y ys =>
      rw [List.flatMap_cons, List.flatMap_cons] at h
      obtain ⟨hx, hxs⟩ := List.append_inj h (by simp)
      have hx := hexDigits_inj x.toNat_lt y.toNat_lt hx
      rw [UInt8.toNat_inj.mp hx, ih hxs]

theorem hexEncode_injective : Function.Injective hexEncode := fun _ _ h =>
  flatMap_hexDigits_inj (String.ofList_injective h)

end numerals

/-- A hash that is injective and gives thirty-two octets for the inputs it is told of. -/
def hashKnowing (known : List Bytes) (b : Bytes) : Bytes :=
  if b ∈ known then List.replicate 31 0 ++ [(known.idxOf b).toUInt8] else b ++ List.replicate 33 0

theorem hashKnowing_injective {known : List Bytes} (hlen : known.length ≤ 256) :
    Function.Injective (hashKnowing known) := by
  intro a b h
  unfold hashKnowing at h
  by_cases ha : a ∈ known <;> by_cases hb : b ∈ known
  · rw [if_pos ha, if_pos hb, List.append_cancel_left_eq, List.singleton_inj] at h
    have hidx : known.idxOf a = known.idxOf b := by
      have := congrArg UInt8.toNat h
      simp only [Nat.toUInt8, UInt8.toNat_ofNat'] at this
      have ha' := List.idxOf_lt_length_of_mem ha
      have hb' := List.idxOf_lt_length_of_mem hb
      omega
    exact (List.idxOf_inj ha).mp hidx
  · rw [if_pos ha, if_neg hb] at h
    have hlen := congrArg List.length h
    simp at hlen
  · rw [if_neg ha, if_pos hb] at h
    have hlen := congrArg List.length h
    simp at hlen
  · rw [if_neg ha, if_neg hb] at h
    exact List.append_cancel_right h

end Encoding
