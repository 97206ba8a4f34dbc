import Tenancit.Adminauth.BasePath
import Tenancit.Lib.Strip

/-!
The base path at the other two places that check it: the handler that serves the SPA
(`spa/spa.go`), and the web client (`lib/runtime-base-path.ts`), to which the handler hands it
in a meta tag.
-/
namespace Tenancit.Spa

open Encoding Paths
open Adminauth (refusedChars normalizeAbsolute PlainPath isBasePathChar)

/-- `normalizeBasePath`. What it does with an absolute path is the same in both packages. -/
def normalizeBasePath (raw : Bytes) : Except String Bytes :=
  let value := trimSpace raw
  if value = [] ∨ value = [slash] then .ok [slash]
  else if ¬[slash] <+: value ∨ [slash, slash] <+: value ∨ [slash, 92] <+: value ∨
    containsAny refusedChars value ∨
      containsWord [slash, slash] value then
    .error "TENANCIT_BASE_PATH must be an absolute URL path"
  else normalizeAbsolute value

/-- The backslash behind the first slash is refused at the other place with all the others. -/
theorem normalizeBasePath_eq (raw : Bytes) :
    normalizeBasePath raw = Adminauth.normalizeBasePath raw := by
  have hbackslash : [slash, 92] <+: trimSpace raw →
      containsAny refusedChars (trimSpace raw) = true := by
    rintro ⟨rest, hrest⟩
    rw [← hrest]
    exact List.any_eq_true.mpr ⟨92, by simp, by decide⟩
  have hcond : (¬[slash] <+: trimSpace raw ∨ [slash, slash] <+: trimSpace raw ∨
    [slash, 92] <+: trimSpace raw ∨
      containsAny refusedChars (trimSpace raw) ∨ containsWord [slash, slash] (trimSpace raw)) ↔
      (¬[slash] <+: trimSpace raw ∨ [slash, slash] <+: trimSpace raw ∨
        containsAny refusedChars (trimSpace raw) ∨
        containsWord [slash, slash] (trimSpace raw)) := by tauto
  dsimp only [normalizeBasePath, Adminauth.normalizeBasePath]
  rw [if_congr hcond rfl rfl]

section page

/-- `html.EscapeString` -/
def escapeString (s : Bytes) : Bytes :=
  s.flatMap fun b =>
    if b = 38 then utf8 "&amp;" else if b = 39 then utf8 "&#39;" else if b = 60 then utf8 "&lt;"
    else if b = 62 then utf8 "&gt;" else if b = 34 then utf8 "&#34;" else [b]

def metaStart : String := "<meta name=\"tenancit-base-path\" content=\""

/-- The tag that `Handler` puts in the place of the marker. -/
def metaTag (basePath : Bytes) : Bytes := utf8 metaStart ++ (escapeString basePath ++ utf8 "\">")

/-- An attribute in double quotes, as a browser reads it from behind the first of them.
`reference` decodes a character reference behind its ampersand, and tells how long it is. -/
def attributeValue (reference : List Char → Option (List Char × Nat)) (cs : List Char) :
    List Char :=
  match cs with
  | [] => []
  | c :: rest =>
    if c = '"' then []
    else if c = '&' then
      match reference rest with
      | none => c :: attributeValue reference rest
      | some (decoded, used) => decoded ++ attributeValue reference (rest.drop used)
    else c :: attributeValue reference rest
termination_by cs.length

/-- The `content` of the element that the tag makes. -/
def metaContent (reference : List Char → Option (List Char × Nat)) (tag : String) :
    Option (List Char) :=
  if metaStart.toList <+: tag.toList
    then some (attributeValue reference (tag.toList.drop metaStart.toList.length)) else none

variable {reference : List Char → Option (List Char × Nat)}

theorem attributeValue_plain {cs : List Char} (h : ∀ c ∈ cs, c ≠ '"' ∧ c ≠ '&') (rest : List Char) :
    attributeValue reference (cs ++ '"' :: rest) = cs := by
  induction cs with
  | nil => simp [attributeValue]
  | cons c cs ih =>
    obtain ⟨⟨hquote, hamp⟩, hcs⟩ := List.forall_mem_cons.mp h
    rw [List.cons_append, attributeValue, if_neg hquote, if_neg hamp, ih hcs]

theorem escapeString_eq_self {s : Bytes} (h : ∀ b ∈ s, b ∉ utf8 "&'<>\"") : escapeString s = s := by
  have hchars : utf8 "&'<>\"" = [38, 39, 60, 62, 34] := by decide +kernel
  induction s with
  | nil => rfl
  | cons b s ih =>
    obtain ⟨hb, hs⟩ := List.forall_mem_cons.mp h
    have hrest := ih hs
    rw [hchars] at hb
    simp only [List.mem_cons, List.not_mem_nil, or_false, not_or] at hb
    obtain ⟨h1, h2, h3, h4, h5⟩ := hb
    rw [escapeString] at hrest
    rw [escapeString, List.flatMap_cons, hrest, if_neg h1, if_neg h2,
      if_neg h3, if_neg h4, if_neg h5]
    rfl

end page

section client

/-- White space and line ends of ECMAScript. -/
def isWhiteSpace (c : Char) : Bool :=
  (9 ≤ c.toNat && c.toNat ≤ 13) || c = ' ' || c.toNat = 0xA0 || c.toNat = 0x1680 ||
    (0x2000 ≤ c.toNat && c.toNat ≤ 0x200A) || c.toNat = 0x2028 || c.toNat = 0x2029 ||
    c.toNat = 0x202F || c.toNat = 0x205F || c.toNat = 0x3000 || c.toNat = 0xFEFF

/-- `readRuntimeBasePath`, from the `content` of the meta element, if there is one. -/
def readRuntimeBasePath (content : Option (List Char)) : Except String (List Char) :=
  let configured := (content.map (Text.trim isWhiteSpace)).getD []
  if configured = [] ∨ configured = ['/'] then .ok ['/']
  else if configured.head? ≠ some '/' ∨ ['/', '/'] <+: configured ∨
    configured.getLast? = some '/' ∨ '?' ∈ configured ∨
      '#' ∈ configured ∨ '\\' ∈ configured ∨
      ∃ segment ∈ (configured.drop 1).splitOn '/', segment = [] ∨ segment =
        ['.'] ∨ segment = ['.', '.'] then
    .error ("invalid runtime base path: " ++ String.ofList configured)
  else .ok configured

end client

section ascii

/-- The character that an octet of ASCII text stands for. -/
def asciiChar (b : UInt8) : Char := Char.ofNat b.toNat

theorem octet_asciiChar (b : UInt8) : octet (asciiChar b) = b :=
  Adminauth.forall_octets (p := fun b => octet (asciiChar b) = b) (by decide +kernel) b

theorem map_octet_asciiChar (s : Bytes) : (s.map asciiChar).map octet = s := by
  rw [List.map_map]
  exact (List.map_congr_left fun b _ => octet_asciiChar b).trans (List.map_id s)

theorem utf8_asciiChar {s : Bytes} (h : ∀ b ∈ s, b < 128) :
    utf8 (String.ofList (s.map asciiChar)) = s := by
  have hbyte : ∀ b : UInt8, b < 128 → String.utf8EncodeChar (asciiChar b) = [b] :=
    Adminauth.forall_octets (by decide +kernel)
  rw [utf8, String.toList_ofList, List.flatMap_map]
  induction s with
  | nil => rfl
  | cons b s ih =>
    obtain ⟨hb, hs⟩ := List.forall_mem_cons.mp h
    rw [List.flatMap_cons, hbyte b hb, ih hs]
    rfl

theorem map_intercalate (segments : List Bytes) : ([slash].intercalate segments).map asciiChar =
    ['/'].intercalate (segments.map fun s => s.map asciiChar) := by
  have hslash : asciiChar slash = '/' := rfl
  induction segments with
  | nil => rfl
  | cons s rest ih =>
    cases rest with
    | nil => simp
    | cons t rest =>
      rw [List.intercalate_cons_cons, List.map_append, List.map_append, ih]
      simp [hslash]

end ascii

section agreement

variable {base : Bytes}

/-- Nothing in a base path has a meaning of its own to the parser of HTML, or to the client. -/
theorem plainPath_chars (h : PlainPath base) :
    ∀ b ∈ base, b < 128 ∧ b ∉ utf8 "&'<>\"" ∧ isWhiteSpace (asciiChar b) = false ∧
    asciiChar b ∉ ['"', '&', '?', '#', '\\'] := by
  have hbyte : ∀ b, isBasePathChar b = true → b <
    128 ∧ b ∉ utf8 "&'<>\"" ∧ isWhiteSpace (asciiChar b) = false ∧
      asciiChar b ∉ ['"', '&', '?', '#', '\\'] := Adminauth.forall_octets (by decide +kernel)
  intro b hb
  rcases h.chars b hb with rfl | hchar
  · decide +kernel
  · exact hbyte b hchar

/-- The client takes a path in normal form as it is. -/
theorem readRuntimeBasePath_plain (h : PlainPath base) :
    readRuntimeBasePath (some (base.map asciiChar)) = .ok (base.map asciiChar) := by
  have hchars := plainPath_chars h
  have hinj : ∀ {s : Bytes} {cs : List Char}, s.map asciiChar = cs → s = cs.map octet :=
    fun heq => by
    rw [← heq, map_octet_asciiChar]
  have htrim : Text.trim isWhiteSpace (base.map asciiChar) = base.map asciiChar := by
    refine Text.trim_eq_self fun c hc => ?_
    obtain ⟨b, hb, rfl⟩ := List.mem_map.mp hc
    exact (hchars b hb).2.2.1
  have hmem : ∀ c, c ∈ ['"', '&', '?', '#', '\\'] → c ∉ base.map asciiChar := by
    intro c hc hmem
    obtain ⟨b, hb, rfl⟩ := List.mem_map.mp hmem
    exact (hchars b hb).2.2.2 hc
  have hempty : ¬(base.map asciiChar = [] ∨ base.map asciiChar = ['/']) := by
    rintro (heq | heq)
    · exact absurd (h.root.symm.trans (congrArg List.head? (hinj heq))) (by decide)
    · exact h.ne_root (hinj heq)
  simp only [readRuntimeBasePath, Option.map_some, Option.getD_some, htrim]
  rw [if_neg hempty, if_neg]
  rintro (hbad | hbad | hbad | hbad | hbad | hbad | ⟨segment, hsegment, hbad⟩)
  · rw [List.head?_map, h.root] at hbad
    exact hbad rfl
  · obtain ⟨rest, hrest⟩ := hbad
    refine h.one_slash.2 ⟨rest.map octet, ?_⟩
    rw [hinj hrest.symm]
    rfl
  · obtain ⟨b, hlast, hb⟩ := h.last
    rw [List.getLast?_map, hlast] at hbad
    have hslash : b = slash := by rw [← octet_asciiChar b, Option.some.inj hbad]; rfl
    exact (Adminauth.basePathChar_plain b hb).2.1 hslash
  · exact hmem '?' (by decide) hbad
  · exact hmem '#' (by decide) hbad
  · exact hmem '\\' (by decide) hbad
  · obtain ⟨⟨segments, hne, rfl, hsegments⟩, -⟩ := h
    rw [List.map_cons, List.drop_one, List.tail_cons, map_intercalate,
      List.splitOn_intercalate] at hsegment
    · obtain ⟨s, hs, rfl⟩ := List.mem_map.mp hsegment
      rcases hbad with hbad | hbad | hbad
      · exact (hsegments s hs).nonempty (hinj hbad)
      · exact (hsegments s hs).dot (hinj hbad)
      · exact (hsegments s hs).dotDot (hinj hbad)
    · intro cs hcs hmem
      obtain ⟨s, hs, rfl⟩ := List.mem_map.mp hcs
      obtain ⟨b, hb, hslash⟩ := List.mem_map.mp hmem
      refine (hsegments s hs).separate.2 ?_
      have hb_slash : b = slash := by rw [← octet_asciiChar b, hslash]; rfl
      exact hb_slash ▸ hb
    · exact fun hnil => hne (List.map_eq_nil_iff.mp hnil)

/-- A browser finds in the tag the path that was written to it. -/
theorem metaContent_metaTag (hascii : ∀ b ∈ base, b < 128 ∧ b ∉ utf8 "&'<>\"" ∧
      asciiChar b ∉ ['"', '&']) :
    ∃ tag, utf8 tag = metaTag base ∧ ∀ reference, metaContent reference tag =
      some (base.map asciiChar) := by
  refine ⟨metaStart ++ (String.ofList (base.map asciiChar) ++ "\">"), ?_, fun reference => ?_⟩
  · rw [utf8_append, utf8_append, utf8_asciiChar fun b hb => (hascii b hb).1, metaTag,
      escapeString_eq_self fun b hb => (hascii b hb).2.1]
  · have hend : "\">".toList = ['"', '>'] := by decide
    rw [metaContent, String.toList_append, String.toList_append, String.toList_ofList,
      if_pos (List.prefix_append _ _),
      List.drop_left, hend, attributeValue_plain]
    intro c hc
    obtain ⟨b, hb, rfl⟩ := List.mem_map.mp hc
    simpa [not_or] using (hascii b hb).2.2

/-- The checks agree on every text, each returns its own results as they are, and the web client
reads the path back from the tag that the handler writes for it. -/
theorem base_paths_agree (raw : Bytes) : normalizeBasePath raw = Adminauth.normalizeBasePath raw ∧
    ∀ base, Adminauth.normalizeBasePath raw = .ok base →
      Adminauth.normalizeBasePath base = .ok base ∧ normalizeBasePath base = .ok base ∧
      ∀ reference : List Char → Option (List Char × Nat), ∃ tag content, utf8 tag = metaTag base ∧
        readRuntimeBasePath (metaContent reference tag) = .ok content ∧
        utf8 (String.ofList content) = base := by
  refine ⟨normalizeBasePath_eq raw, fun base hbase => ?_⟩
  have hidem := Adminauth.normalizeBasePath_idem hbase
  refine ⟨hidem, (normalizeBasePath_eq base).trans hidem, fun reference => ?_⟩
  obtain rfl | hplain := Adminauth.normalizeBasePath_ok hbase
  · have hroot : ∀ b ∈ [slash], b < 128 ∧ b ∉ utf8 "&'<>\"" ∧ asciiChar b ∉ ['"', '&'] := by
      decide +kernel
    obtain ⟨tag, htag, hcontent⟩ := metaContent_metaTag hroot
    refine ⟨tag, ['/'], htag, ?_, by decide +kernel⟩
    rw [hcontent]
    rfl
  · have hchars := plainPath_chars hplain
    have hplain_chars : ∀ b ∈ base, b < 128 ∧ b ∉ utf8 "&'<>\"" ∧ asciiChar b ∉ ['"', '&'] := by
      intro b hb
      obtain ⟨hascii, hescaped, -, hmeaning⟩ := hchars b hb
      exact ⟨hascii, hescaped, fun hmem => hmeaning (List.mem_append_left ['?', '#', '\\'] hmem)⟩
    obtain ⟨tag, htag, hcontent⟩ := metaContent_metaTag hplain_chars
    refine ⟨tag, base.map asciiChar, htag, ?_, utf8_asciiChar fun b hb => (hchars b hb).1⟩
    rw [hcontent]
    exact readRuntimeBasePath_plain hplain

/-- A base path with white space around it and a slash too many. -/
theorem base_paths_agree_sample : normalizeBasePath (utf8 "/tenancit") = .ok (utf8 "/tenancit") ∧
    ∃ tag content, utf8 tag = metaTag (utf8 "/tenancit") ∧
      readRuntimeBasePath (metaContent (fun _ => none) tag) = .ok content ∧
      utf8 (String.ofList content) = utf8 "/tenancit" := by
  have hbase : Adminauth.normalizeBasePath (utf8 " /tenancit/ ") = .ok (utf8 "/tenancit") := by
    decide +kernel
  obtain ⟨-, hspa, hclient⟩ := (base_paths_agree (utf8 " /tenancit/ ")).2 _ hbase
  exact ⟨hspa, hclient fun _ => none⟩

end agreement

end Tenancit.Spa
