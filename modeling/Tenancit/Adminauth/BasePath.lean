import Tenancit.Lib.Paths

/-!
`normalizeBasePath` of `adminauth/config.go`, and of what form the paths are that it returns.
-/
namespace Tenancit.Adminauth

open Encoding Paths

/-- `isBasePathChar`, on octets: a character outside ASCII has none that is in this class. -/
def isBasePathChar (char : UInt8) : Bool :=
  (97 ≤ char && char ≤ 122) || (65 ≤ char && char ≤ 90) || (48 ≤ char && char ≤ 57) ||
    (utf8 "-._~").contains char

/-- What the loop over the segments finds wrong with one. -/
def checkSegment (segment : Bytes) : Except String Unit :=
  if segment = [] ∨ segment = dot ∨ segment = dotDot
    then .error "TENANCIT_BASE_PATH contains an invalid segment"
  else if segment.all isBasePathChar then .ok ()
  else .error "TENANCIT_BASE_PATH contains unsupported characters"

def checkSegments : List Bytes → Except String Unit
  | [] => .ok ()
  | segment :: rest => do
    checkSegment segment
    checkSegments rest

/-- The octets that a base path may not have. -/
def refusedChars : Bytes := utf8 "\\?#<>\"'\r\n\t "

/-- What is done with an absolute path. -/
def normalizeAbsolute (value : Bytes) : Except String Bytes := do
  let value := trimSuffix [slash] value
  if clean value ≠ value then .error "TENANCIT_BASE_PATH must not contain dot segments"
  else do
    checkSegments ((trimPrefix [slash] value).splitOn slash)
    .ok value

def normalizeBasePath (raw : Bytes) : Except String Bytes :=
  let value := trimSpace raw
  if value = [] ∨ value = [slash] then .ok [slash]
  else if ¬[slash] <+: value ∨ [slash, slash] <+: value ∨ containsAny refusedChars value ∨
    containsWord [slash, slash] value then
    .error "TENANCIT_BASE_PATH must be an absolute URL path"
  else normalizeAbsolute value

section chars

theorem forall_octets {p : UInt8 → Prop} (h : ∀ n < 256, p (.ofNat n)) (b : UInt8) : p b := by
  simpa using h b.toNat b.toNat_lt

/-- A character of a base path is none that has a meaning of its own in a URL. -/
theorem basePathChar_plain (b : UInt8) : isBasePathChar b = true →
    b ∉ refusedChars ∧ b ≠ slash ∧ b ≠ 37 ∧ isControl b = false ∧ b < 128 :=
  forall_octets (p := fun b => isBasePathChar b = true →
    b ∉ refusedChars ∧ b ≠ slash ∧ b ≠ 37 ∧ isControl b = false ∧ b < 128) (by decide +kernel) b

end chars

/-- A segment of a base path. -/
structure PlainSegment (segment : Bytes) : Prop where
  nonempty : segment ≠ []
  dot : segment ≠ dot
  dotDot : segment ≠ dotDot
  chars : ∀ b ∈ segment, isBasePathChar b = true

theorem checkSegment_ok {segment : Bytes} :
    checkSegment segment = .ok () ↔ PlainSegment segment := by
  unfold checkSegment
  split
  next h =>
    refine iff_of_false nofun ?_
    rintro ⟨h1, h2, h3, -⟩
    rcases h with h | h | h
    · exact h1 h
    · exact h2 h
    · exact h3 h
  next h =>
    obtain ⟨h1, h2⟩ := not_or.mp h
    obtain ⟨h2, h3⟩ := not_or.mp h2
    split
    next hall => exact iff_of_true rfl ⟨h1, h2, h3, List.all_eq_true.mp hall⟩
    next hall => exact iff_of_false nofun fun hs => hall (List.all_eq_true.mpr hs.chars)

theorem checkSegments_ok {segments : List Bytes} :
    checkSegments segments = .ok () ↔ ∀ s ∈ segments, PlainSegment s := by
  induction segments with
  | nil => exact iff_of_true rfl nofun
  | cons s rest ih =>
    rw [List.forall_mem_cons, ← ih, ← checkSegment_ok, checkSegments]
    cases checkSegment s with
    | error e => exact iff_of_false nofun fun h => nomatch h.1
    | ok u => exact ⟨fun h => ⟨rfl, h⟩, fun h => h.2⟩

/-- A path below the root that is in normal form. -/
structure PlainPath (base : Bytes) : Prop where
  segments : ∃ segments, segments ≠ [] ∧ base = slash :: [slash].intercalate segments ∧ ∀ s ∈
    segments, PlainSegment s
  cleaned : clean base = base

theorem PlainSegment.separate {s : Bytes} (h : PlainSegment s) : s ≠ [] ∧ slash ∉ s :=
  ⟨h.nonempty, fun hmem => (basePathChar_plain slash (h.chars slash hmem)).2.1 rfl⟩

/-- What remains of an absolute path is checked segment by segment. -/
theorem normalizeAbsolute_ok {value base : Bytes} (hroot : [slash] <+: value)
    (hone : value ≠ [slash]) :
    normalizeAbsolute value = .ok base ↔ base = trimSuffix [slash] value ∧ PlainPath base := by
  obtain ⟨path, rfl⟩ := hroot
  obtain ⟨c, path, rfl⟩ :=
    List.exists_cons_of_ne_nil fun hnil : path = [] => hone (by rw [hnil, List.append_nil])
  -- a slash at the end is not the one at the start
  obtain ⟨rest, hrest⟩ : ∃ rest, trimSuffix [slash] ([slash] ++ c :: path) = slash :: rest := by
    unfold trimSuffix
    split
    · exact ⟨_, rfl⟩
    · exact ⟨_, rfl⟩
  have hsplit : (trimPrefix [slash] (slash :: rest)).splitOn slash = rest.splitOn slash := by
    simp [trimPrefix]
  have hplain : PlainPath (slash :: rest) ↔ clean (slash :: rest) = slash :: rest ∧
      ∀ s ∈ rest.splitOn slash, PlainSegment s := by
    constructor
    · rintro ⟨⟨segments, hne, heq, hsegments⟩, hclean⟩
      rw [(List.cons.inj heq).2, List.splitOn_intercalate slash (fun s hs =>
        (hsegments s hs).separate.2) hne]
      exact ⟨(List.cons.inj heq).2 ▸ hclean, hsegments⟩
    · rintro ⟨hclean, hsegments⟩
      exact ⟨⟨_, List.splitOn_ne_nil slash rest, by rw [List.intercalate_splitOn], hsegments⟩,
        hclean⟩
  rw [normalizeAbsolute, hrest, hsplit]
  by_cases hclean : clean (slash :: rest) = slash :: rest
  · rw [if_neg (not_not.mpr hclean)]
    cases hcheck : checkSegments (rest.splitOn slash) with
    | error e =>
      refine iff_of_false nofun ?_
      rintro ⟨rfl, h⟩
      rw [checkSegments_ok.mpr (hplain.mp h).2] at hcheck
      cases hcheck
    | ok u =>
      constructor
      · rintro ⟨⟩
        exact ⟨rfl, hplain.mpr ⟨hclean, checkSegments_ok.mp hcheck⟩⟩
      · rintro ⟨rfl, -⟩
        rfl
  · rw [if_pos hclean]
    refine iff_of_false nofun ?_
    rintro ⟨rfl, h⟩
    exact hclean h.cleaned

theorem normalizeBasePath_ok {raw base : Bytes} (h : normalizeBasePath raw = .ok base) :
    base = [slash] ∨ PlainPath base := by
  dsimp only [normalizeBasePath] at h
  split at h
  · exact .inl (Except.ok.inj h).symm
  next hroot =>
    split at h
    · cases h
    next habsolute =>
      have hstart : [slash] <+: trimSpace raw := by
        by_contra hne
        exact habsolute (.inl hne)
      exact .inr ((normalizeAbsolute_ok hstart fun h => hroot (.inr h)).mp h).2

namespace PlainPath

variable {base : Bytes}

theorem chars (h : PlainPath base) : ∀ b ∈ base, b = slash ∨ isBasePathChar b = true := by
  obtain ⟨⟨segments, -, rfl, hsegments⟩, -⟩ := h
  intro b hb
  rcases List.mem_cons.mp hb with rfl | hb
  · exact .inl rfl
  · obtain h | ⟨s, hs, hb⟩ := mem_intercalate hb
    · exact .inl h
    · exact .inr ((hsegments s hs).chars b hb)

theorem root (h : PlainPath base) : base.head? = some slash := by
  obtain ⟨⟨segments, -, rfl, -⟩, -⟩ := h
  rfl

/-- Behind a slash stands a character of a segment. -/
theorem after_slash (h : PlainPath base) {xs ys : Bytes} (heq : base = xs ++ slash :: ys) :
    ys ≠ [] ∧ ys.head? ≠ some slash := by
  obtain ⟨⟨segments, hne, rfl, hsegments⟩, -⟩ := h
  exact segments_nonempty hne (fun s hs => (hsegments s hs).separate) heq

theorem last (h : PlainPath base) : ∃ b, base.getLast? = some b ∧ isBasePathChar b = true := by
  have hne : base ≠ [] := List.ne_nil_of_mem (List.mem_of_mem_head? h.root)
  refine ⟨base.getLast hne, List.getLast?_eq_some_getLast hne,
    (h.chars _ (List.getLast_mem hne)).resolve_left fun hlast => ?_⟩
  have heq : base = base.dropLast ++ [slash] := by rw [← hlast, List.dropLast_append_getLast]
  exact (h.after_slash heq).1 rfl

theorem trimmed (h : PlainPath base) : trimSpace base = base := by
  obtain ⟨b, hlast, hb⟩ := h.last
  refine trimSpace_eq_self h.root hlast (by decide +kernel) fun w hw => ?_
  have hends : ∀ w ∈ spaces.map List.reverse, w ≠ [] ∧ ∀ c ∈ w.head?,
    isBasePathChar c = false := by decide +kernel
  obtain ⟨hne, hfirst⟩ := hends w hw
  refine ⟨hne, fun hhead => ?_⟩
  rw [hfirst b hhead] at hb
  cases hb

theorem not_suffix (h : PlainPath base) : trimSuffix [slash] base = base := by
  refine if_neg fun hsuffix => ?_
  obtain ⟨xs, hxs⟩ := List.isSuffixOf_iff_suffix.mp hsuffix
  exact (h.after_slash hxs.symm).1 rfl

theorem not_infix (h : PlainPath base) : ¬[slash, slash] <:+: base := by
  rintro ⟨xs, ys, heq⟩
  have hsplit : base = xs ++ slash :: (slash :: ys) := by rw [← heq, List.append_assoc]; rfl
  exact (h.after_slash hsplit).2 rfl

theorem not_refused (h : PlainPath base) : containsAny refusedChars base = false := by
  refine containsAny_eq_false.mpr fun b hb => ?_
  rcases h.chars b hb with rfl | hchar
  · decide
  · exact (basePathChar_plain b hchar).1

theorem one_slash (h : PlainPath base) : [slash] <+: base ∧ ¬[slash, slash] <+: base := by
  refine ⟨?_, fun hpre => h.not_infix hpre.isInfix⟩
  obtain ⟨⟨segments, -, rfl, -⟩, -⟩ := h
  exact ⟨_, rfl⟩

theorem ne_root (h : PlainPath base) : base ≠ [slash] := by
  intro heq
  exact (h.after_slash (show base = [] ++ slash :: [] from heq)).1 rfl

/-- A path in normal form is returned as it is. -/
theorem normalized (h : PlainPath base) : normalizeBasePath base = .ok base := by
  have hword : ¬containsWord [slash, slash] base = true := fun hcontains =>
    h.not_infix ((containsWord_iff (by decide)).mp hcontains)
  have hne : ¬(base = [] ∨ base = [slash]) := by
    rintro (rfl | rfl)
    · cases h.root
    · exact h.ne_root rfl
  unfold normalizeBasePath
  rw [h.trimmed]
  dsimp only
  rw [if_neg hne, if_neg]
  · exact (normalizeAbsolute_ok h.one_slash.1 h.ne_root).mpr ⟨h.not_suffix.symm, h⟩
  · rintro (h1 | h1 | h1 | h1)
    · exact h1 h.one_slash.1
    · exact h.one_slash.2 h1
    · rw [h.not_refused] at h1
      cases h1
    · exact hword h1

end PlainPath

theorem normalizeBasePath_idem {raw base : Bytes} (h : normalizeBasePath raw = .ok base) :
    normalizeBasePath base = .ok base := by
  rcases normalizeBasePath_ok h with rfl | hplain
  · rfl
  · exact hplain.normalized

end Tenancit.Adminauth
