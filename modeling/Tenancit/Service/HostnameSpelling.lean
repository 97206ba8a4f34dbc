import Tenancit.Service.Hostname

/-!
Which spellings `CanonicalHostname` takes for a host name, and what it makes of them. Its lower
case reaches beyond ASCII: two characters there become ASCII letters.
-/
namespace Tenancit.Service

open Text

/-- A text without the white space around it, and then without one dot at its end. -/
def bareName (s : String) : List Char :=
  let cs := trim isSpace s.toList
  if cs.getLast? = some '.' then cs.dropLast else cs

/-- The Kelvin sign and the capital I with a dot, whose lower case is in ASCII. -/
def FoldsToASCII (c : Char) : Prop := c.toNat = 0x212A ∨ c.toNat = 0x130

instance (c : Char) : Decidable (FoldsToASCII c) := inferInstanceAs (Decidable (_ ∨ _))

/-- The ASCII letter that stands for such a character after the lower case. -/
def foldChar (c : Char) : Char :=
  if c.toNat = 0x212A then 'k' else if c.toNat = 0x130 then 'i' else c

section chars

variable {c : Char} {cs : List Char}

theorem foldChar_of_not (h : ¬FoldsToASCII c) : foldChar c = c := by
  obtain ⟨hk, hi⟩ := not_or.mp h
  rw [foldChar, if_neg hk, if_neg hi]

theorem foldsToASCII_not_ascii (h : FoldsToASCII c) : ¬c.toNat < 128 := by
  rcases h with h | h <;> omega

/-- The lower case of a character is that of the letter it stands for. -/
theorem lowerChar_foldChar (c : Char) : lowerChar (foldChar c) = lowerChar c := by
  by_cases hfold : FoldsToASCII c
  · have hupper : ¬('A' ≤ c ∧ c ≤ 'Z') := by
      rintro ⟨-, hhigh⟩
      have hhigh : c.toNat ≤ 90 := hhigh
      exact foldsToASCII_not_ascii hfold (by omega)
    rcases hfold with h | h
    · have hk : lowerChar 'k' = 'k' := by decide
      rw [foldChar, if_pos h, hk, lowerChar, if_neg hupper, if_pos h]
    · have hne : ¬c.toNat = 0x212A := by omega
      have hi : lowerChar 'i' = 'i' := by decide
      rw [foldChar, if_neg hne, if_pos h, hi, lowerChar, if_neg hupper, if_neg hne, if_pos h]
  · rw [foldChar_of_not hfold]

/-- What has an ASCII lower case stands for an ASCII character. -/
theorem foldChar_ascii (h : (lowerChar c).toNat < 128) : (foldChar c).toNat < 128 := by
  by_cases hfold : FoldsToASCII c
  · rcases hfold with h | h
    · rw [foldChar, if_pos h]
      decide
    · have hne : ¬c.toNat = 0x212A := by omega
      rw [foldChar, if_neg hne, if_pos h]
      decide
  · rw [foldChar_of_not hfold]
    obtain ⟨hk, hi⟩ := not_or.mp hfold
    by_cases hupper : 'A' ≤ c ∧ c ≤ 'Z'
    · have hhigh : c.toNat ≤ 90 := hupper.2
      omega
    · rwa [lowerChar, if_neg hupper, if_neg hk, if_neg hi] at h

/-- A text whose lower case is a host name spells one, with those two characters as letters. -/
theorem hostname_lower_iff : Hostname (cs.map lowerChar) ↔ Hostname (cs.map foldChar) := by
  have hsame : cs.map lowerChar = (cs.map foldChar).map lowerChar := by
    rw [List.map_map]
    exact List.map_congr_left fun c _ => (lowerChar_foldChar c).symm
  constructor
  · intro h
    have hascii : ∀ c ∈ cs.map foldChar, c.toNat < 128 := by
      intro c hc
      obtain ⟨c', hc', rfl⟩ := List.mem_map.mp hc
      exact foldChar_ascii (h.ascii _ (List.mem_map_of_mem hc')).2
    exact (hostname_lower hascii).mp (hsame ▸ h)
  · intro h
    rw [hsame]
    exact (hostname_lower fun c hc => (h.ascii c hc).2).mpr h

end chars

section canonical

variable {s : String}

theorem lowerChar_eq_dot (c : Char) : lowerChar c = '.' ↔ c = '.' := by
  constructor
  · intro h
    have hascii := foldChar_ascii (c := c) (by rw [h]; decide)
    have hfold :=
      (lowerChar_eq_iff hascii (show '.'.toNat < 65 by decide)).mp ((lowerChar_foldChar c).trans h)
    by_cases hc : FoldsToASCII c
    · rcases hc with hc | hc
      · rw [foldChar, if_pos hc] at hfold
        exact absurd hfold (by decide)
      · have hne : ¬c.toNat = 0x212A := by omega
        rw [foldChar, if_neg hne, if_pos hc] at hfold
        exact absurd hfold (by decide)
    · rwa [foldChar_of_not hc] at hfold
  · rintro rfl
    decide

/-- The dot comes off before or after the lower case. -/
theorem lowered_bareName (s : String) :
    (if (toLower (trimSpace s)).toList.getLast? = some '.'
      then (toLower (trimSpace s)).toList.dropLast
      else (toLower (trimSpace s)).toList) = (bareName s).map lowerChar := by
  have htext : (toLower (trimSpace s)).toList = (trim isSpace s.toList).map lowerChar := by
    simp [toLower, trimSpace]
  have hlast : ((trim isSpace s.toList).map lowerChar).getLast? = some '.' ↔
      (trim isSpace s.toList).getLast? = some '.' := by
    rw [List.getLast?_map, Option.map_eq_some_iff]
    constructor
    · rintro ⟨c, hc, hdot⟩
      rwa [(lowerChar_eq_dot c).mp hdot] at hc
    · intro hc
      exact ⟨'.', hc, by decide⟩
  rw [htext, bareName]
  by_cases hdot : (trim isSpace s.toList).getLast? = some '.'
  · rw [if_pos (hlast.mpr hdot), if_pos hdot, List.map_dropLast]
  · rw [if_neg (mt hlast.mp hdot), if_neg hdot]

/-- What the function returns: the lower case of the bare name, where that is a host name. -/
theorem canonicalHostname_eq (s : String) : (Hostname ((bareName s).map lowerChar) ∧
      canonicalHostname s = String.ofList ((bareName s).map lowerChar)) ∨
    (¬Hostname ((bareName s).map lowerChar) ∧ canonicalHostname s = "") := by
  unfold canonicalHostname
  simp only [lowered_bareName]
  generalize hname : (bareName s).map lowerChar = name
  by_cases hlong : name = [] ∨ octetLength (String.ofList name) > 253
  · rw [if_pos hlong]
    refine .inr ⟨fun h => ?_, rfl⟩
    rcases hlong with hnil | hlong
    · exact h.ne_nil hnil
    · have hascii := octetLength_eq_length_iff.mpr fun c hc => (h.ascii c hc).2
      have hlength := h.length
      omega
  · rw [if_neg hlong]
    by_cases hall : (splitOn '.' name).all hostnameLabel = true
    · rw [if_pos hall]
      refine .inl ⟨hostname_iff.mpr ⟨fun l hl => ?_, ?_⟩, rfl⟩
      · exact (hostnameLabel_iff.mp (List.all_eq_true.mp hall l hl)).1
      · exact (length_le_octetLength name).trans (not_lt.mp (not_or.mp hlong).2)
    · rw [if_neg hall]
      refine .inr ⟨fun h => hall (List.all_eq_true.mpr fun l hl => ?_), rfl⟩
      refine hostnameLabel_iff.mpr ⟨(hostname_iff.mp h).1 l hl, fun c hc => ?_⟩
      have hmem := mem_of_mem_splitOn hl hc
      rw [← hname] at hmem
      obtain ⟨c', hc', rfl⟩ := List.mem_map.mp hmem
      rw [← lowerChar_foldChar]
      refine lowerChar_not_upper (foldChar_ascii ?_)
      rw [← hname] at h
      exact (h.ascii _ (List.mem_map_of_mem hc')).2

theorem canonicalHostname_ne_iff :
    canonicalHostname s ≠ "" ↔ Hostname ((bareName s).map lowerChar) := by
  rcases canonicalHostname_eq s with ⟨h, heq⟩ | ⟨h, heq⟩
  · refine iff_of_true (fun hempty => h.ne_nil ?_) h
    rw [heq] at hempty
    simpa using congrArg String.toList hempty
  · exact iff_of_false (not_not.mpr heq) h

/-- The function leaves what it returns as it is. -/
theorem canonicalHostname_idempotent (h : canonicalHostname s ≠ "") :
    canonicalHostname (canonicalHostname s) = canonicalHostname s := by
  rcases canonicalHostname_eq s with ⟨hname, heq⟩ | ⟨-, heq⟩
  · rw [heq]
    refine (canonicalHostname_eq_self.mpr ?_).1
    rw [String.toList_ofList]
    refine ⟨hname, fun c hc => ?_⟩
    obtain ⟨c', hc', rfl⟩ := List.mem_map.mp hc
    rw [← lowerChar_foldChar]
    exact lowerChar_not_upper (foldChar_ascii (hname.ascii _ hc).2)
  · exact absurd heq h

theorem lowerChar_eq_toLower {c : Char} (h : c.toNat < 128) : lowerChar c = c.toLower := by
  have hall : ∀ n < 128, lowerChar (Char.ofNat n) = (Char.ofNat n).toLower := by decide
  have hc := hall c.toNat h
  rwa [Char.ofNat_toNat] at hc

/-- A text is taken for a host name exactly if its bare name is one, and then only capitals
change, unless the bare name has a Kelvin sign or a dotted capital I and is a host name with
the letters they stand for. -/
theorem canonicalHostname_exact_iff (s : String) :
    ((canonicalHostname s ≠ "" ↔ Hostname (bareName s)) ∧
      (canonicalHostname s ≠ "" → canonicalHostname s =
        String.ofList ((bareName s).map Char.toLower))) ↔
    ¬((∃ c ∈ bareName s, FoldsToASCII c) ∧ Hostname ((bareName s).map foldChar)) := by
  rw [canonicalHostname_ne_iff, hostname_lower_iff]
  by_cases hfolds : ∃ c ∈ bareName s, FoldsToASCII c
  · obtain ⟨c, hc, hfold⟩ := hfolds
    have hbare : ¬Hostname (bareName s) := fun h => foldsToASCII_not_ascii hfold (h.ascii c hc).2
    constructor
    · rintro ⟨hiff, -⟩ ⟨-, hname⟩
      exact hbare (hiff.mp hname)
    · intro hnot
      have hname : ¬Hostname ((bareName s).map foldChar) := fun h => hnot ⟨⟨c, hc, hfold⟩, h⟩
      exact ⟨iff_of_false hname hbare, fun h => absurd h hname⟩
  · have hsame : (bareName s).map foldChar = bareName s := by
      refine (List.map_congr_left fun c hc => ?_).trans (List.map_id _)
      exact foldChar_of_not fun hfold => hfolds ⟨c, hc, hfold⟩
    rw [hsame]
    refine iff_of_true ⟨Iff.rfl, fun hname => ?_⟩ fun h => hfolds h.1
    rcases canonicalHostname_eq s with ⟨-, heq⟩ | ⟨hnot, -⟩
    · rw [heq]
      exact congrArg String.ofList (List.map_congr_left fun c hc =>
        lowerChar_eq_toLower (hname.ascii c hc).2)
    · exact absurd (hostname_lower_iff.mpr (hsame.symm ▸ hname)) hnot

/-- The Kelvin sign passes for the letter k. -/
theorem kelvin_hostname : canonicalHostname "\u212aube.example" = "kube.example" ∧
    ¬(canonicalHostname "\u212aube.example" ≠ "" ↔ Hostname (bareName "\u212aube.example")) := by
  have hkube : canonicalHostname "\u212aube.example" = "kube.example" := by decide +kernel
  refine ⟨hkube, fun hiff => ?_⟩
  have h : Hostname (bareName "\u212aube.example") := hiff.mp (by rw [hkube]; decide)
  have hc : Char.ofNat 0x212a ∈ bareName "\u212aube.example" := by decide +kernel
  exact absurd (h.ascii _ hc).2 (by decide)

end canonical

end Tenancit.Service
