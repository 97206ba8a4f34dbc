import Tenancit.Lib.Strip
import Tenancit.Service.Identity

/-!
The grammar of ASCII host names, apart from the function that canonicalises them: labels of
letters, digits and hyphens with dots between them. The function leaves a text as it is
exactly if it is such a name in lower case.
-/
namespace Tenancit.Service

open Text

section split

variable {sep : Char} {cs : List Char} {f : Char → Char}

theorem splitOn_ne_nil : splitOn sep cs ≠ [] := by
  cases cs with
  | nil => simp [splitOn]
  | cons c cs =>
    unfold splitOn
    split
    · simp
    · split <;> simp

theorem splitOn_cons_of_ne {c : Char} (h : c ≠ sep) {piece : List Char} {pieces : List (List Char)}
    (hcs : splitOn sep cs = piece :: pieces) : splitOn sep (c :: cs) = (c :: piece) :: pieces := by
  rw [splitOn, if_neg h, hcs]

/-- The pieces, with the separator between them, make up the text. -/
theorem intercalate_splitOn : List.intercalate [sep] (splitOn sep cs) = cs := by
  induction cs with
  | nil => rfl
  | cons c cs ih =>
    cases hcs : splitOn sep cs with
    | nil => exact absurd hcs splitOn_ne_nil
    | cons piece pieces =>
      rw [hcs] at ih
      by_cases h : c = sep
      · rw [splitOn, if_pos h, hcs, h, ← ih]
        rfl
      · rw [splitOn_cons_of_ne h hcs, ← ih]
        cases pieces <;> rfl

theorem splitOn_eq_singleton {piece : List Char} (h : sep ∉ piece) :
    splitOn sep piece = [piece] := by
  induction piece with
  | nil => rfl
  | cons c piece ih =>
    obtain ⟨hc, hpiece⟩ := not_or.mp (List.mem_cons.not.mp h)
    exact splitOn_cons_of_ne (Ne.symm hc) (ih hpiece)

/-- The pieces before and after an occurrence of the separator. -/
theorem splitOn_append (xs ys : List Char) :
    splitOn sep (xs ++ sep :: ys) = splitOn sep xs ++ splitOn sep ys := by
  induction xs with
  | nil => simp [splitOn]
  | cons x xs ih =>
    by_cases h : x = sep
    · rw [List.cons_append, splitOn, if_pos h, ih, splitOn, if_pos h]
      rfl
    · cases hxs : splitOn sep xs with
      | nil => exact absurd hxs splitOn_ne_nil
      | cons piece pieces =>
        rw [hxs] at ih
        rw [List.cons_append, splitOn_cons_of_ne h ih, splitOn_cons_of_ne h hxs]
        rfl

theorem splitOn_intercalate {pieces : List (List Char)} (hne : pieces ≠ [])
    (h : ∀ piece ∈ pieces, sep ∉ piece) : splitOn sep (List.intercalate [sep] pieces) = pieces := by
  induction pieces with
  | nil => exact absurd rfl hne
  | cons piece pieces ih =>
    have hpiece := splitOn_eq_singleton (h piece (.head _))
    cases pieces with
    | nil =>
      have halone : List.intercalate [sep] [piece] = piece := by simp [List.intercalate]
      rw [halone, hpiece]
    | cons next pieces =>
      have hjoin : List.intercalate [sep] (piece :: next :: pieces) =
          piece ++ sep :: List.intercalate [sep] (next :: pieces) := by simp [List.intercalate]
      rw [hjoin, splitOn_append, hpiece, ih (by simp) fun x hx => h x (.tail _ hx)]
      rfl

theorem splitOn_map (hf : ∀ c ∈ cs, f c = sep ↔ c = sep) :
    splitOn sep (cs.map f) = (splitOn sep cs).map (List.map f) := by
  induction cs with
  | nil => rfl
  | cons c cs ih =>
    obtain ⟨hc, hcs⟩ := List.forall_mem_cons.mp hf
    have hrest := ih hcs
    by_cases h : c = sep
    · rw [List.map_cons, splitOn, splitOn, if_pos (hc.mpr h), if_pos h, hrest]
      rfl
    · cases hsplit : splitOn sep cs with
      | nil => exact absurd hsplit splitOn_ne_nil
      | cons piece pieces =>
        rw [hsplit] at hrest
        rw [splitOn_cons_of_ne h hsplit, List.map_cons, splitOn_cons_of_ne (mt hc.mp h) hrest]
        rfl

end split

/-- The ASCII letters of either case and the digits. -/
def LetterOrDigit (c : Char) : Prop := isLower c = true ∨ ('A' ≤ c ∧ c ≤ 'Z') ∨ isDigit c = true

/-- A label of a host name: letters, digits and hyphens, and no hyphen at either end. -/
structure Label (cs : List Char) : Prop where
  nonempty : cs ≠ []
  length : cs.length ≤ 63
  head : cs.head? ≠ some '-'
  last : cs.getLast? ≠ some '-'
  chars : ∀ c ∈ cs, LetterOrDigit c ∨ c = '-'

/-- A host name: labels with dots between them. -/
structure Hostname (cs : List Char) : Prop where
  labels : ∃ labels : List (List Char), labels ≠ [] ∧ (∀ l ∈ labels, Label l) ∧ cs =
    List.intercalate ['.'] labels
  length : cs.length ≤ 253

section labels

variable {cs : List Char}

theorem LetterOrDigit.ascii {c : Char} (h : LetterOrDigit c ∨ c = '-') :
    45 ≤ c.toNat ∧ c.toNat < 128 ∧ c ≠ '.' := by
  have hrange : c.toNat = 45 ∨ 48 ≤ c.toNat ∧ c.toNat < 128 := by
    rcases h with (h | ⟨hlow, hhigh⟩ | h) | rfl
    · have := isLower_range h
      omega
    · have hlow : 65 ≤ c.toNat := hlow
      have hhigh : c.toNat ≤ 90 := hhigh
      omega
    · have := isDigit_range h
      omega
    · exact .inl rfl
  refine ⟨by omega, by omega, ?_⟩
  rintro rfl
  revert hrange
  decide

theorem Label.dot_notMem (h : Label cs) :
    '.' ∉ cs := fun hmem => (LetterOrDigit.ascii (h.chars _ hmem)).2.2 rfl

/-- The pieces of a text decide whether it is a host name. -/
theorem hostname_iff : Hostname cs ↔ (∀ l ∈ splitOn '.' cs, Label l) ∧ cs.length ≤ 253 := by
  constructor
  · rintro ⟨⟨labels, hne, hlabels, rfl⟩, hlength⟩
    refine ⟨?_, hlength⟩
    rwa [splitOn_intercalate hne fun l hl => (hlabels l hl).dot_notMem]
  · rintro ⟨hlabels, hlength⟩
    exact ⟨⟨splitOn '.' cs, splitOn_ne_nil, hlabels, intercalate_splitOn.symm⟩, hlength⟩

/-- What the function checks of a piece: it is a label without capitals. -/
theorem hostnameLabel_iff :
    hostnameLabel cs = true ↔ Label cs ∧ ∀ c ∈ cs, ¬('A' ≤ c ∧ c ≤ 'Z') := by
  simp only [hostnameLabel, Bool.and_eq_true, Bool.not_eq_true', List.isEmpty_eq_false_iff,
    decide_eq_true_eq, bne_iff_ne,
    List.all_eq_true, Bool.or_eq_true]
  constructor
  · rintro ⟨⟨⟨⟨hne, hlength⟩, hhead⟩, hlast⟩, hchars⟩
    refine ⟨⟨hne, hlength, hhead, hlast, fun c hc => ?_⟩, fun c hc => ?_⟩
    · rcases hchars c hc with h | h
      · rcases Bool.or_eq_true_iff.mp h with h | h
        · exact .inl (.inl h)
        · exact .inl (.inr (.inr h))
      · exact .inr h
    · rintro ⟨hlow, hhigh⟩
      have hlow : 65 ≤ c.toNat := hlow
      have hhigh : c.toNat ≤ 90 := hhigh
      rcases hchars c hc with h | rfl
      · rcases Bool.or_eq_true_iff.mp h with h | h
        · have := isLower_range h
          omega
        · have := isDigit_range h
          omega
      · revert hlow
        decide
  · rintro ⟨h, hupper⟩
    refine ⟨⟨⟨⟨h.nonempty, h.length⟩, h.head⟩, h.last⟩, fun c hc => ?_⟩
    rcases h.chars c hc with (hc' | hc' | hc') | hc'
    · exact .inl (Bool.or_eq_true_iff.mpr (.inl hc'))
    · exact absurd hc' (hupper c hc)
    · exact .inl (Bool.or_eq_true_iff.mpr (.inr hc'))
    · exact .inr hc'

theorem mem_splitOn_of_mem {c : Char} (hc : c ∈ cs) (hdot : c ≠ '.') :
    ∃ l ∈ splitOn '.' cs, c ∈ l := by
  induction cs with
  | nil => cases hc
  | cons c' cs ih =>
    cases hsplit : splitOn '.' cs with
    | nil => exact absurd hsplit splitOn_ne_nil
    | cons piece pieces =>
      by_cases h : c' = '.'
      · have hmem : c ∈ cs := (List.mem_cons.mp hc).resolve_left fun he => hdot (he.trans h)
        obtain ⟨l, hl, hcl⟩ := ih hmem
        rw [splitOn, if_pos h]
        exact ⟨l, .tail _ hl, hcl⟩
      · rw [splitOn_cons_of_ne h hsplit]
        rcases List.mem_cons.mp hc with rfl | hc
        · exact ⟨_, .head _, .head _⟩
        · obtain ⟨l, hl, hcl⟩ := ih hc
          rw [hsplit] at hl
          rcases List.mem_cons.mp hl with rfl | hl
          · exact ⟨_, .head _, .tail _ hcl⟩
          · exact ⟨l, .tail _ hl, hcl⟩

/-- The characters of a host name. -/
theorem Hostname.chars (h : Hostname cs) : ∀ c ∈ cs, LetterOrDigit c ∨ c = '-' ∨ c = '.' := by
  intro c hc
  by_cases hdot : c = '.'
  · exact .inr (.inr hdot)
  · obtain ⟨l, hl, hcl⟩ := mem_splitOn_of_mem hc hdot
    exact ((hostname_iff.mp h).1 l hl).chars c hcl |>.imp_right .inl

theorem Hostname.ascii (h : Hostname cs) : ∀ c ∈ cs, 45 ≤ c.toNat ∧ c.toNat < 128 := by
  intro c hc
  rcases h.chars c hc with hc | rfl | rfl
  · have := LetterOrDigit.ascii (.inl hc)
    exact ⟨this.1, this.2.1⟩
  · decide
  · decide

/-- A host name ends in a label, and so not with a dot. -/
theorem Hostname.getLast?_ne (h : Hostname cs) : cs.getLast? ≠ some '.' := by
  intro hlast
  obtain ⟨init, rfl⟩ := List.getLast?_eq_some_iff.mp hlast
  have hsplit : splitOn '.' (init ++ ['.']) = splitOn '.' init ++ [[]] := splitOn_append init []
  have hempty := (hostname_iff.mp h).1 [] (by rw [hsplit]; simp)
  exact hempty.nonempty rfl

theorem Hostname.ne_nil (h : Hostname cs) : cs ≠ [] := by
  rintro rfl
  exact ((hostname_iff.mp h).1 [] (.head _)).nonempty rfl

theorem mem_of_mem_splitOn {c : Char} {l : List Char} (hl : l ∈ splitOn '.' cs) (hc : c ∈ l) :
    c ∈ cs := by
  induction cs generalizing l with
  | nil =>
    obtain rfl := List.mem_singleton.mp hl
    exact hc
  | cons c' cs ih =>
    cases hsplit : splitOn '.' cs with
    | nil => exact absurd hsplit splitOn_ne_nil
    | cons piece pieces =>
      by_cases h : c' = '.'
      · rw [splitOn, if_pos h] at hl
        rcases List.mem_cons.mp hl with rfl | hl
        · cases hc
        · exact .tail _ (ih hl hc)
      · rw [splitOn_cons_of_ne h hsplit] at hl
        rcases List.mem_cons.mp hl with rfl | hl
        · rcases List.mem_cons.mp hc with rfl | hc
          · exact .head _
          · exact .tail _ (ih (hsplit ▸ .head _) hc)
        · exact .tail _ (ih (hsplit ▸ .tail _ hl) hc)

theorem isSpace_eq_false {c : Char} (hlow : 45 ≤ c.toNat) (hhigh : c.toNat < 128) :
    isSpace c = false := by
  have hblank : c ≠ ' ' := by
    rintro rfl
    revert hlow
    decide
  have hrest : ¬(9 ≤ c.toNat ∧ c.toNat ≤ 13) ∧ c.toNat ≠ 0x85 ∧ c.toNat ≠ 0xA0 ∧ c.toNat ≠ 0x1680 ∧
      ¬(0x2000 ≤ c.toNat ∧ c.toNat ≤ 0x200A) ∧ c.toNat ≠ 0x2028 ∧
      c.toNat ≠ 0x2029 ∧ c.toNat ≠ 0x202F ∧
      c.toNat ≠ 0x205F ∧ c.toNat ≠ 0x3000 := by omega
  simp only [isSpace, ← Bool.decide_and, ← Bool.decide_or, decide_eq_false_iff_not]
  tauto

/-- What the function returns: nothing, or labels without capitals. -/
theorem canonicalHostname_cases (raw : String) : canonicalHostname raw = "" ∨
    ∃ name, canonicalHostname raw = String.ofList name ∧ octetLength (String.ofList name) ≤ 253 ∧
      (splitOn '.' name).all hostnameLabel = true := by
  unfold canonicalHostname
  extract_lets hostname name
  by_cases hlong : name = [] ∨ octetLength (String.ofList name) > 253
  · rw [if_pos hlong]
    exact .inl rfl
  · rw [if_neg hlong]
    by_cases hall : (splitOn '.' name).all hostnameLabel = true
    · rw [if_pos hall]
      exact .inr ⟨name, rfl, not_lt.mp (not_or.mp hlong).2, hall⟩
    · rw [if_neg hall]
      exact .inl rfl

/-- The texts that the function leaves as they are: host names without capitals. -/
theorem canonicalHostname_eq_self {h : String} :
    (canonicalHostname h = h ∧ h ≠ "") ↔ Hostname h.toList ∧ ∀ c ∈ h.toList,
    ¬('A' ≤ c ∧ c ≤ 'Z') := by
  constructor
  · rintro ⟨hcanonical, hne⟩
    rcases canonicalHostname_cases h with hempty | ⟨name, hname, hshort, hall⟩
    · exact absurd (hcanonical.symm.trans hempty) hne
    · obtain rfl := hcanonical.symm.trans hname
      rw [String.toList_ofList]
      have hlabels := fun l hl => hostnameLabel_iff.mp (List.all_eq_true.mp hall l hl)
      have hlength : name.length ≤ 253 := (length_le_octetLength name).trans hshort
      refine ⟨hostname_iff.mpr ⟨fun l hl => (hlabels l hl).1, hlength⟩, fun c hc hupper => ?_⟩
      by_cases hdot : c = '.'
      · subst hdot
        revert hupper
        decide
      · obtain ⟨l, hl, hcl⟩ := mem_splitOn_of_mem hc hdot
        exact (hlabels l hl).2 c hcl hupper
  · rintro ⟨hname, hupper⟩
    have hspace : ∀ c ∈ h.toList, isSpace c = false := by
      intro c hc
      obtain ⟨hlow, hhigh⟩ := hname.ascii c hc
      exact isSpace_eq_false hlow hhigh
    have hlower : h.toList.map lowerChar = h.toList :=
      (List.map_congr_left fun c hc =>
        lowerChar_eq_self (hname.ascii c hc).2 (hupper c hc)).trans (List.map_id _)
    have htext : (toLower (trimSpace h)).toList = h.toList := by
      rw [toLower, trimSpace, trim_eq_self hspace, String.toList_ofList,
        String.toList_ofList, hlower]
    have hoctets : octetLength h ≤ 253 := by
      have hascii := octetLength_eq_length_iff.mpr fun c hc => (hname.ascii c hc).2
      rw [String.ofList_toList] at hascii
      exact hascii.trans_le hname.length
    have hall : (splitOn '.' h.toList).all hostnameLabel = true := List.all_eq_true.mpr fun l hl =>
      hostnameLabel_iff.mpr ⟨(hostname_iff.mp hname).1 l hl, fun c hc =>
        hupper c (mem_of_mem_splitOn hl hc)⟩
    refine ⟨?_, fun hempty => hname.ne_nil (by simp [hempty])⟩
    unfold canonicalHostname
    simp only [htext, if_neg hname.getLast?_ne, String.ofList_toList]
    rw [if_neg (not_or.mpr ⟨hname.ne_nil, not_lt.mpr hoctets⟩), if_pos hall]

end labels

section lower

variable {c : Char} {cs : List Char}

/-- The lower case of a capital is one of the small letters. -/
theorem lowerChar_of_upper (h : 'A' ≤ c ∧ c ≤ 'Z') : (lowerChar c).toNat = c.toNat + 32 := by
  have hhigh : c.toNat ≤ 90 := h.2
  rw [lowerChar, if_pos h]
  have hvalid : (c.toNat + 32).isValidChar := .inl (by omega)
  rw [Char.ofNat, dif_pos hvalid]
  rfl

theorem lowerChar_cases (h : c.toNat < 128) :
    (65 ≤ c.toNat ∧ c.toNat ≤ 90 ∧ (lowerChar c).toNat = c.toNat + 32) ∨
    (¬('A' ≤ c ∧ c ≤ 'Z') ∧ lowerChar c = c) := by
  by_cases hupper : 'A' ≤ c ∧ c ≤ 'Z'
  · exact .inl ⟨hupper.1, hupper.2, lowerChar_of_upper hupper⟩
  · exact .inr ⟨hupper, lowerChar_eq_self h hupper⟩

theorem lowerChar_not_upper (h : c.toNat < 128) : ¬('A' ≤ lowerChar c ∧ lowerChar c ≤ 'Z') := by
  rintro ⟨hlow, hhigh⟩
  have hlow : 65 ≤ (lowerChar c).toNat := hlow
  have hhigh : (lowerChar c).toNat ≤ 90 := hhigh
  rcases lowerChar_cases h with ⟨_, _, hlower⟩ | ⟨hupper, hlower⟩
  · omega
  · rw [hlower] at hlow hhigh
    exact hupper ⟨hlow, hhigh⟩

/-- No character becomes a character below the letters. -/
theorem lowerChar_eq_iff {sep : Char} (h : c.toNat < 128) (hsep : sep.toNat < 65) :
    lowerChar c = sep ↔ c = sep := by
  rcases lowerChar_cases h with ⟨hlow, _, hlower⟩ | ⟨_, hlower⟩
  · refine iff_of_false (fun he => ?_) fun he => ?_
    · rw [he] at hlower
      omega
    · rw [he] at hlow
      omega
  · rw [hlower]

theorem letterOrDigit_lowerChar (h : c.toNat < 128) :
    LetterOrDigit (lowerChar c) ↔ LetterOrDigit c := by
  rcases lowerChar_cases h with ⟨hlow, hhigh, hlower⟩ | ⟨_, hlower⟩
  · refine iff_of_true (.inl ?_) (.inr (.inl ⟨hlow, hhigh⟩))
    have hrange : 97 ≤ (lowerChar c).toNat ∧ (lowerChar c).toNat ≤ 122 := by omega
    exact decide_eq_true hrange
  · rw [hlower]

theorem label_lower (h : ∀ c ∈ cs, c.toNat < 128) : Label (cs.map lowerChar) ↔ Label cs := by
  have hhyphen : ∀ c ∈ cs, lowerChar c = '-' ↔ c = '-' :=
    fun c hc => lowerChar_eq_iff (h c hc) (by decide)
  have hhead : (cs.map lowerChar).head? = some '-' ↔ cs.head? = some '-' := by
    cases cs with
    | nil => rfl
    | cons c cs => simpa using hhyphen c (.head _)
  have hlast : (cs.map lowerChar).getLast? = some '-' ↔ cs.getLast? = some '-' := by
    rw [List.getLast?_map, Option.map_eq_some_iff]
    refine ⟨fun ⟨c, hc, he⟩ => ?_, fun hc => ⟨'-', hc, rfl⟩⟩
    rwa [(hhyphen c (List.mem_of_getLast? hc)).mp he] at hc
  have hchars : (∀ c ∈ cs.map lowerChar, LetterOrDigit c ∨ c = '-') ↔ ∀ c ∈ cs,
      LetterOrDigit c ∨ c = '-' := by
    rw [List.forall_mem_map]
    exact forall₂_congr fun c hc => or_congr (letterOrDigit_lowerChar (h c hc)) (hhyphen c hc)
  constructor
  · rintro ⟨hne, hlength, hh, hl, hc⟩
    exact ⟨fun he => hne (by rw [he]; rfl), by rwa [List.length_map] at hlength,
      mt hhead.mpr hh, mt hlast.mpr hl,
      hchars.mp hc⟩
  · rintro ⟨hne, hlength, hh, hl, hc⟩
    exact ⟨mt List.map_eq_nil_iff.mp hne, by rwa [List.length_map], mt hhead.mp hh,
      mt hlast.mp hl, hchars.mpr hc⟩

/-- Capitals make no difference to whether a text is a host name. -/
theorem hostname_lower (h : ∀ c ∈ cs, c.toNat < 128) :
    Hostname (cs.map lowerChar) ↔ Hostname cs := by
  have hdot : ∀ c ∈ cs, lowerChar c = '.' ↔ c = '.' :=
    fun c hc => lowerChar_eq_iff (h c hc) (by decide)
  rw [hostname_iff, hostname_iff, splitOn_map hdot, List.forall_mem_map, List.length_map]
  refine and_congr_left fun _ => forall₂_congr fun l hl => label_lower fun c hc =>
    h c (mem_of_mem_splitOn hl hc)

end lower

end Tenancit.Service
