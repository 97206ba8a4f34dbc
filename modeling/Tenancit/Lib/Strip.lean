import Mathlib.Data.List.DropRight
import Tenancit.Lib.Text

/-!
What is left of a list when the elements of a class are removed from its ends, and the
octets of ASCII text.
-/
namespace Text

section strip

variable {α : Type*} {p : α → Bool} {xs ys : List α}

theorem rdropWhile_append_of_pos (h : ∀ a ∈ ys, p a = true) :
    (xs ++ ys).rdropWhile p = xs.rdropWhile p := by
  induction ys using List.reverseRecOn with
  | nil => rw [List.append_nil]
  | append_singleton ys y ih =>
    rw [← List.append_assoc, List.rdropWhile_concat_pos _ _ y (h y (by simp))]
    exact ih fun a ha => h a (List.mem_append_left _ ha)

theorem rdropWhile_eq_self (h : ∀ a ∈ xs.getLast?, p a = false) : xs.rdropWhile p = xs := by
  refine List.rdropWhile_eq_self_iff.mpr fun hne hp => ?_
  rw [h _ (List.getLast?_eq_some_getLast hne)] at hp
  cases hp

theorem dropWhile_eq_self (h : ∀ a ∈ xs.head?, p a = false) : xs.dropWhile p = xs := by
  cases xs with
  | nil => rfl
  | cons a xs => exact List.dropWhile_cons_of_neg (by simp [h a rfl])

/-- A list is what is left of it, and elements of the class behind it. -/
theorem exists_rdropWhile (p : α → Bool) (xs : List α) :
    ∃ ys, (∀ a ∈ ys, p a = true) ∧ xs = xs.rdropWhile p ++ ys :=
  ⟨xs.rtakeWhile p, fun _ => List.mem_rtakeWhile_imp, List.rdropWhile_append_rtakeWhile.symm⟩

theorem trim_eq (p : Char → Bool) (cs : List Char) : trim p cs = (cs.dropWhile p).rdropWhile p :=
  rfl

/-- Trimming finds the part that neither begins nor ends in the class. -/
theorem trim_append {p : Char → Bool} {as cs bs : List Char} (ha : ∀ a ∈ as, p a = true)
    (hb : ∀ b ∈ bs, p b = true) (hhead : ∀ c ∈ cs.head?, p c = false)
    (hlast : ∀ c ∈ cs.getLast?, p c = false) :
    trim p (as ++ (cs ++ bs)) = cs := by
  rw [trim_eq, List.dropWhile_append_of_pos ha]
  cases cs with
  | nil =>
    have hnone : bs.dropWhile p = [] := List.dropWhile_eq_nil_iff.mpr hb
    rw [List.nil_append, hnone, List.rdropWhile_nil]
  | cons c cs =>
    rw [dropWhile_eq_self (by simpa using hhead), rdropWhile_append_of_pos hb,
      rdropWhile_eq_self hlast]

/-- A list is its trimmed part between elements of the class. -/
theorem exists_trim (p : Char → Bool) (cs : List Char) :
    ∃ as bs, (∀ a ∈ as, p a = true) ∧ (∀ b ∈ bs, p b = true) ∧ cs = as ++ (trim p cs ++ bs) := by
  obtain ⟨bs, hb, hrest⟩ := exists_rdropWhile p (cs.dropWhile p)
  refine ⟨cs.takeWhile p, bs, fun a ha => List.mem_takeWhile_imp ha, hb, ?_⟩
  rw [trim_eq, ← hrest, List.takeWhile_append_dropWhile]

end strip

section octets

theorem octetLength_cons (c : Char) (cs : List Char) :
    octetLength (String.ofList (c :: cs)) = c.utf8Size + octetLength (String.ofList cs) := by
  rw [octetLength, String.ofList_cons, String.utf8ByteSize_append,
    String.utf8ByteSize_singleton, octetLength]

theorem length_le_octetLength (cs : List Char) : cs.length ≤ octetLength (String.ofList cs) := by
  induction cs with
  | nil => exact Nat.zero_le _
  | cons c cs ih =>
    have hpos := c.utf8Size_pos
    rw [octetLength_cons, List.length_cons]
    omega

/-- A text has as many octets as characters exactly if it is ASCII. -/
theorem octetLength_eq_length_iff {cs : List Char} :
    octetLength (String.ofList cs) = cs.length ↔ ∀ c ∈ cs, c.toNat < 128 := by
  induction cs with
  | nil => exact iff_of_true rfl nofun
  | cons c cs ih =>
    have hone : c.utf8Size = 1 ↔ c.toNat < 128 := by
      rw [Char.utf8Size_eq_one_iff, UInt32.le_iff_toNat_le]
      exact Nat.lt_succ_iff.symm
    have hpos := c.utf8Size_pos
    have hrest := length_le_octetLength cs
    rw [octetLength_cons, List.length_cons, List.forall_mem_cons, ← ih, ← hone]
    omega

end octets

end Text
