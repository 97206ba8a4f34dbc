import Mathlib.Data.List.Infix
import Mathlib.Data.List.TakeWhile
import Tenancit.Lib.Encoding

/-!
Paths and URL references as octets: what Go's packages `strings`, `path` and `net/url` make of
them, and how dot segments are removed from a path.
-/
namespace Paths

open Encoding

section strings

/-- The encodings of white space. -/
def spaces : List Bytes :=
  [[9], [10], [11], [12], [13], [32], [0xC2, 0x85], [0xC2, 0xA0], [0xE1, 0x9A, 0x80]] ++
    ((List.range 11).map fun i => [0xE2, 0x80, 0x80 + i.toUInt8]) ++
    [[0xE2, 0x80, 0xA8], [0xE2, 0x80, 0xA9], [0xE2, 0x80, 0xAF],
     [0xE2, 0x81, 0x9F], [0xE3, 0x80, 0x80]]

/-- Remove words from the start, a number of times at most. -/
def dropWords (words : List Bytes) : Nat → Bytes → Bytes
  | 0, s => s
  | n + 1, s =>
    match words.find? fun w => w.isPrefixOf s with
    | none => s
    | some w => dropWords words n (s.drop w.length)

/-- `strings.TrimSpace` -/
def trimSpace (s : Bytes) : Bytes :=
  let s := dropWords spaces s.length s
  (dropWords (spaces.map List.reverse) s.length s.reverse).reverse

/-- `strings.TrimPrefix` -/
def trimPrefix (start s : Bytes) : Bytes := if start.isPrefixOf s then s.drop start.length else s

/-- `strings.TrimSuffix` -/
def trimSuffix (ending s : Bytes) : Bytes :=
  if ending.isSuffixOf s then s.take (s.length - ending.length) else s

/-- `strings.ContainsAny`, of characters in ASCII -/
def containsAny (chars s : Bytes) : Bool := s.any fun b => chars.contains b

/-- `strings.Contains` -/
def containsWord (word : Bytes) : Bytes → Bool
  | [] => word.isEmpty
  | b :: s => word.isPrefixOf (b :: s) || containsWord word s

/-- `strings.Cut`: what stands before the first of an octet, and what stands behind it. -/
def cut (sep : UInt8) (s : Bytes) : Bytes × Bytes :=
  (s.takeWhile fun b => b ≠ sep, (s.dropWhile fun b => b ≠ sep).tail)

theorem cut_cons {sep b : UInt8} (h : b ≠ sep) (s : Bytes) :
    (cut sep (b :: s)).1 = b :: (cut sep s).1 := by
  simp [cut, h]

theorem cut_prefix (sep : UInt8) (s : Bytes) : (cut sep s).1 <+: s := List.takeWhile_prefix _

theorem cut_of_notMem {sep : UInt8} {s : Bytes} (h : sep ∉ s) : (cut sep s).1 = s :=
  List.takeWhile_eq_self_iff.mpr fun _ hb => decide_eq_true fun heq => h (heq ▸ hb)

variable {s word : Bytes}

/-- Where no word begins with the first octet, nothing is removed. -/
theorem dropWords_eq_self {words : List Bytes} {b : UInt8}
    (h : ∀ w ∈ words, w ≠ [] ∧ w.head? ≠ some b) (n : Nat) :
    dropWords words n (b :: s) = b :: s := by
  cases n with
  | zero => rfl
  | succ n =>
    have hnone : words.find? (fun w => w.isPrefixOf (b :: s)) = none := by
      refine List.find?_eq_none.mpr fun w hw hpre => ?_
      obtain ⟨hne, hhead⟩ := h w hw
      obtain ⟨c, w, rfl⟩ := List.exists_cons_of_ne_nil hne
      obtain ⟨rfl, -⟩ := List.cons_prefix_cons.mp (List.isPrefixOf_iff_prefix.mp hpre)
      exact hhead rfl
    rw [dropWords, hnone]

theorem trimSpace_eq_self {b c : UInt8} (hfirst : s.head? = some b) (hlast : s.getLast? = some c)
    (hb : ∀ w ∈ spaces, w ≠ [] ∧ w.head? ≠ some b)
    (hc : ∀ w ∈ spaces.map List.reverse, w ≠ [] ∧ w.head? ≠ some c) : trimSpace s = s := by
  have hstart : dropWords spaces s.length s = s := by
    cases s with
    | nil => cases hfirst
    | cons a s =>
      obtain rfl := Option.some.inj hfirst
      exact dropWords_eq_self hb _
  have hend : dropWords (spaces.map List.reverse) s.length s.reverse = s.reverse := by
    rw [← List.head?_reverse] at hlast
    cases hrev : s.reverse with
    | nil =>
      rw [hrev] at hlast
      cases hlast
    | cons a t =>
      rw [hrev] at hlast
      obtain rfl := Option.some.inj hlast
      exact dropWords_eq_self hc _
  rw [trimSpace, hstart, hend, List.reverse_reverse]

theorem containsWord_iff (hword : word ≠ []) : containsWord word s = true ↔ word <:+: s := by
  induction s with
  | nil => simp [containsWord, hword]
  | cons b s ih =>
    rw [containsWord, Bool.or_eq_true, ih, List.isPrefixOf_iff_prefix, List.infix_cons_iff]

theorem containsAny_eq_false {chars : Bytes} :
    containsAny chars s = false ↔ ∀ b ∈ s, b ∉ chars := by
  simp [containsAny]

end strings

section paths

def slash : UInt8 := 47

def dot : Bytes := [46]

def dotDot : Bytes := [46, 46]

/-- A path without the elements that stand for none and, as far as it can be, without those
that stand for the directory above: `path.Clean`. -/
def cleanElements (rooted : Bool) : List Bytes → List Bytes → List Bytes
  | out, [] => out.reverse
  | out, s :: rest =>
    if s = [] ∨ s = dot then cleanElements rooted out rest
    else if s = dotDot then
      match out with
      | top :: below =>
        if top = dotDot then cleanElements rooted (s :: out) rest
          else cleanElements rooted below rest
      | [] => if rooted then cleanElements rooted [] rest else cleanElements rooted [s] rest
    else cleanElements rooted (s :: out) rest

/-- `path.Clean` -/
def clean (path : Bytes) : Bytes :=
  let rooted := path.head? = some slash
  let cleaned :=
    (if rooted then [slash] else []) ++
      [slash].intercalate (cleanElements rooted [] (path.splitOn slash))
  if cleaned = [] then dot else cleaned

/-- The segments of a path, the last of which stays where it stands for a directory. -/
def removeDots : List Bytes → List Bytes → List Bytes
  | out, [] => out.reverse
  | out, [s] =>
    if s = dot then ([] :: out).reverse else if s = dotDot then ([] :: out.tail).reverse
      else (s :: out).reverse
  | out, s :: rest =>
    if s = dot then removeDots out rest else if s = dotDot then removeDots out.tail rest
      else removeDots (s :: out) rest

/-- A path that begins with a slash, without its dot segments. -/
def removeDotSegments (path : Bytes) : Bytes :=
  slash :: [slash].intercalate (removeDots [] (path.tail.splitOn slash))

/-- The octets of a path are slashes and those of its segments. -/
theorem mem_intercalate {b : UInt8} {segments : List Bytes} (h : b ∈ [slash].intercalate segments) :
    b = slash ∨ ∃ s ∈ segments, b ∈ s := by
  induction segments with
  | nil => cases h
  | cons s rest ih =>
    cases rest with
    | nil => exact .inr ⟨s, .head _, by simpa using h⟩
    | cons t rest =>
      rw [List.intercalate_cons_cons, List.mem_append, List.mem_append, List.mem_singleton] at h
      rcases h with (h | h) | h
      · exact .inr ⟨s, .head _, h⟩
      · exact .inl h
      · obtain h | ⟨u, hu, hb⟩ := ih h
        · exact .inl h
        · exact .inr ⟨u, .tail _ hu, hb⟩

/-- A path whose segments are not empty has no two slashes in a row, and none at its end. -/
theorem segments_nonempty {segments : List Bytes} (hne : segments ≠ [])
    (h : ∀ s ∈ segments, s ≠ [] ∧ slash ∉ s) {xs ys : Bytes}
    (heq : slash :: [slash].intercalate segments = xs ++ slash :: ys) :
    ys ≠ [] ∧ ys.head? ≠ some slash := by
  have hsplit : [] :: segments = xs.splitOn slash ++ ys.splitOn slash := by
    rw [← List.splitOn_append_cons_self, ← heq, ← List.nil_append (slash :: _),
      List.splitOn_append_cons_self,
      List.splitOn_intercalate _ (fun s hs => (h s hs).2) hne]
    rfl
  obtain ⟨first, more, hfirst⟩ := List.exists_cons_of_ne_nil (List.splitOn_ne_nil slash xs)
  rw [hfirst, List.cons_append] at hsplit
  have hnil : [] ∉ ys.splitOn slash := fun hmem =>
    (h [] ((List.cons.inj hsplit).2 ▸ List.mem_append_right _ hmem)).1 rfl
  constructor
  · rintro rfl
    exact hnil (by simp)
  · intro hhead
    obtain ⟨b, ys, rfl⟩ :=
      List.exists_cons_of_ne_nil (List.ne_nil_of_mem (List.mem_of_mem_head? hhead))
    obtain rfl : b = slash := Option.some.inj hhead
    refine hnil ?_
    rw [← List.nil_append (slash :: ys), List.splitOn_append_cons_self]
    simp

theorem removeDots_eq_self {segments : List Bytes} (h : ∀ s ∈ segments, s ≠ dot ∧ s ≠ dotDot)
    (out : List Bytes) :
    removeDots out segments = out.reverse ++ segments := by
  induction segments generalizing out with
  | nil => exact (List.append_nil _).symm
  | cons s rest ih =>
    obtain ⟨hdot, hdotDot⟩ := h s (.head _)
    cases rest with
    | nil => rw [removeDots, if_neg hdot, if_neg hdotDot, List.reverse_cons]
    | cons t rest =>
      rw [removeDots, if_neg hdot, if_neg hdotDot, ih fun u hu => h u (.tail _ hu)]
      · simp
      · nofun

/-- A path without dot segments is left as it is. -/
theorem removeDotSegments_eq_self {path : Bytes} (hroot : path.head? = some slash)
    (h : ∀ s ∈ path.tail.splitOn slash, s ≠ dot ∧ s ≠ dotDot) : removeDotSegments path = path := by
  obtain ⟨b, rest, rfl⟩ :=
    List.exists_cons_of_ne_nil (List.ne_nil_of_mem (List.mem_of_mem_head? hroot))
  obtain rfl : b = slash := Option.some.inj hroot
  rw [removeDotSegments, removeDots_eq_self h, List.reverse_nil, List.nil_append,
    List.intercalate_splitOn, List.tail_cons]

end paths

section url

/-- The value of a hexadecimal digit. -/
def unhex (b : UInt8) : Option UInt8 :=
  if 48 ≤ b ∧ b ≤ 57 then some (b - 48)
  else if 97 ≤ b ∧ b ≤ 102 then some (b - 87)
  else if 65 ≤ b ∧ b ≤ 70 then some (b - 55)
  else none

/-- `unescape` of `net/url`, for a path or a fragment -/
def unescape : Bytes → Option Bytes
  | [] => some []
  | 37 :: a :: b :: rest => do
    let high ← unhex a
    let low ← unhex b
    let rest ← unescape rest
    pure ((high <<< 4 ||| low) :: rest)
  | [37] => none
  | [37, _] => none
  | b :: rest => (unescape rest).map fun rest => b :: rest

theorem unescape_cons {b : UInt8} (h : b ≠ 37) (rest : Bytes) :
    unescape (b :: rest) = (unescape rest).map fun rest => b :: rest := by
  rw [unescape.eq_def]
  split
  · contradiction
  · simp_all
  · simp_all
  · simp_all
  · simp_all

/-- A text without a percent sign has nothing to decode. -/
theorem unescape_eq_self {s : Bytes} (h : 37 ∉ s) : unescape s = some s := by
  induction s with
  | nil => rfl
  | cons b rest ih =>
    obtain ⟨hb, hrest⟩ := not_or.mp (List.mem_cons.not.mp h)
    rw [unescape_cons (Ne.symm hb), ih hrest, Option.map_some]

/-- `url.URL`, without what is only kept to write it again. -/
structure URL where
  scheme : Bytes
  opaque_ : Bytes
  host : Bytes
  path : Bytes
  fragment : Bytes
  deriving DecidableEq

/-- An octet that no URL may have before its fragment. -/
def isControl (b : UInt8) : Bool := b < 32 || b = 127

def isLetter (b : UInt8) : Bool := (97 ≤ b && b ≤ 122) || (65 ≤ b && b ≤ 90)

/-- The other octets of a scheme: digits, plus, minus and dot. -/
def isSchemeSign (b : UInt8) : Bool := (48 ≤ b && b ≤ 57) || b = 43 || b = 45 || b = 46

/-- `getScheme` of `net/url` -/
def getScheme (rawURL : Bytes) : Option (Bytes × Bytes) :=
  let scheme := rawURL.takeWhile fun b => isLetter b || isSchemeSign b
  match rawURL.drop scheme.length with
  | 58 :: rest =>
    if scheme = [] then none
    else if scheme.head?.any isLetter then some (scheme, rest)
    else some ([], rawURL)
  | _ => some ([], rawURL)

def lower (b : UInt8) : UInt8 := if 65 ≤ b ∧ b ≤ 90 then b + 32 else b

/-- `parse` of `net/url` for a reference without its fragment; `parseAuthority` finds the host. -/
def parseReference (parseAuthority : Bytes → Bytes → Option Bytes) (rawURL : Bytes) : Option URL :=
  if rawURL.any isControl then none
  else if rawURL = [42] then some ⟨[], [], [], [42], []⟩
  else do
    let (scheme, rest) ← getScheme rawURL
    let scheme := scheme.map lower
    -- the query is cut off, with its question mark
    let rest := (cut 63 rest).1
    if rest.head? ≠ some slash ∧ scheme ≠ [] then some ⟨scheme, rest, [], [], []⟩
    else if rest.head? ≠ some slash ∧ 58 ∈ (cut slash rest).1 then none
    else if (scheme ≠ [] ∨ ¬[slash, slash, slash] <+: rest) ∧ [slash, slash] <+: rest then do
      let authority := (cut slash (rest.drop 2)).1
      let host ← parseAuthority scheme authority
      let path ← unescape (rest.drop (2 + authority.length))
      some ⟨scheme, [], host, path, []⟩
    else do
      let path ← unescape rest
      some ⟨scheme, [], [], path, []⟩

/-- `url.Parse` -/
def parse (parseAuthority : Bytes → Bytes → Option Bytes) (rawURL : Bytes) : Option URL := do
  let (reference, fragment) := cut 35 rawURL
  let url ← parseReference parseAuthority reference
  let fragment ← unescape fragment
  some { url with fragment }

/-- The part of a reference that is its path, where it begins with one slash. -/
def rawPath (rawURL : Bytes) : Bytes := (cut 63 (cut 35 rawURL).1).1

theorem rawPath_cons (s : Bytes) : rawPath (slash :: s) = slash :: (cut 63 (cut 35 s).1).1 := by
  rw [rawPath, cut_cons (by decide), cut_cons (by decide)]

/-- The decoded path of a reference that begins with a slash does so too. -/
theorem decoded_rooted {rawURL path : Bytes} (hroot : rawURL.head? = some slash)
    (h : unescape (rawPath rawURL) = some path) : path.head? = some slash := by
  obtain ⟨b, s, rfl⟩ :=
    List.exists_cons_of_ne_nil (List.ne_nil_of_mem (List.mem_of_mem_head? hroot))
  obtain rfl : b = slash := Option.some.inj hroot
  rw [rawPath_cons, unescape_cons (by decide)] at h
  obtain ⟨rest, -, rfl⟩ := Option.map_eq_some_iff.mp h
  rfl

/-- What a reference that begins with one slash is parsed to: nothing before its fragment is a
control octet, and its path is what stands before the query and the fragment, decoded once. -/
theorem parse_rooted {parseAuthority : Bytes → Bytes → Option Bytes} {rawURL : Bytes} {url : URL}
    (hroot : rawURL.head? = some slash) (hone : ¬[slash, slash] <+: rawURL)
    (h : parse parseAuthority rawURL = some url) :
    (∀ b ∈ (cut 35 rawURL).1, isControl b = false) ∧ unescape (rawPath rawURL) = some url.path ∧
      url.scheme = [] ∧ url.host = [] ∧ url.opaque_ = [] := by
  obtain ⟨b, s, rfl⟩ :=
    List.exists_cons_of_ne_nil (List.ne_nil_of_mem (List.mem_of_mem_head? hroot))
  obtain rfl : b = slash := Option.some.inj hroot
  obtain ⟨u, hu, h⟩ : ∃ u, parseReference parseAuthority (cut 35 (slash :: s)).1 = some u ∧ _ :=
    Option.bind_eq_some_iff.mp h
  obtain ⟨fragment, -, h⟩ := Option.bind_eq_some_iff.mp h
  obtain rfl := Option.some.inj h
  have hcut : (cut 35 (slash :: s)).1 = slash :: (cut 35 s).1 := cut_cons (by decide) s
  rw [hcut] at hu ⊢
  rw [parseReference] at hu
  split at hu
  · cases hu
  next hcontrol =>
    have hnotStar : slash :: (cut 35 s).1 ≠ [42] := by
      intro hstar
      have hhead : slash = 42 := (List.cons.inj hstar).1
      exact absurd hhead (by decide)
    have hscheme : getScheme (slash :: (cut 35 s).1) = some ([], slash :: (cut 35 s).1) := rfl
    have hone' : ¬[slash, slash] <+: slash :: (cut 63 (cut 35 s).1).1 := by
      intro hpre
      refine hone (hpre.trans ?_)
      rw [← cut_cons (show slash ≠ 63 by decide), ← hcut]
      exact ( cut_prefix 63 _).trans ( cut_prefix 35 _)
    rw [if_neg hnotStar, hscheme, Option.bind_eq_bind, Option.bind_some] at hu
    simp only [List.map_nil, cut_cons (show slash ≠ 63 by decide), List.head?_cons, ne_eq,
      not_true_eq_false, false_and,
      if_false, hone', and_false] at hu
    obtain ⟨path, hpath, hu⟩ := Option.bind_eq_some_iff.mp hu
    obtain rfl := Option.some.inj hu
    refine ⟨fun c hc => ?_, ?_, rfl, rfl, rfl⟩
    · exact Bool.eq_false_iff.mpr fun hcc => hcontrol (List.any_eq_true.mpr ⟨c, hc, hcc⟩)
    · rw [rawPath_cons]
      exact hpath

end url

end Paths
