import Mathlib.Data.List.Chain
import Tenancit.Lib.Encoding

/-!
JSON values, their text in the two renderings met here (the compact one of an encoder
that escapes HTML, and the spaced one of PostgreSQL's `jsonb`), and RFC 3339 times.
-/
namespace Encoding

inductive Json where
  | null
  | bool (b : Bool)
  | num (n : Int)
  | str (s : String)
  | arr (xs : List Json)
  | obj (fields : List (String × Json))

namespace Json

/-- How texts are escaped and what stands after a comma and a colon. -/
structure Style where
  escape : Char → List Char
  space : List Char

def hexEscape (c : Char) : List Char := '\\' :: 'u' :: hexDigits 4 c.toNat

/-- The escapes that both renderings share. -/
def escapeControl (c : Char) : List Char :=
  match c.toNat with
  | 34 => ['\\', '"']
  | 92 => ['\\', '\\']
  | 8 => ['\\', 'b']
  | 12 => ['\\', 'f']
  | 10 => ['\\', 'n']
  | 13 => ['\\', 'r']
  | 9 => ['\\', 't']
  | code => if code < 32 then hexEscape c else [c]

/-- The angle brackets, the ampersand and the two line separators are escaped as well. -/
def escapeHTML (c : Char) : List Char :=
  match c.toNat with
  | 60 | 62 | 38 | 0x2028 | 0x2029 => hexEscape c
  | _ => escapeControl c

def compact : Style where
  escape := escapeHTML
  space := []

def spaced : Style where
  escape := escapeControl
  space := [' ']

def quoted (style : Style) (s : String) : List Char :=
  '"' :: (s.toList.flatMap style.escape ++ ['"'])

mutual

def render (style : Style) : Json → List Char
  | null => ['n', 'u', 'l', 'l']
  | bool true => ['t', 'r', 'u', 'e']
  | bool false => ['f', 'a', 'l', 's', 'e']
  | num n => (toString n).toList
  | str s => quoted style s
  | arr xs => '[' :: (renderItems style xs ++ [']'])
  | obj fields => '{' :: (renderFields style fields ++ ['}'])

def renderItems (style : Style) : List Json → List Char
  | [] => []
  | x :: xs =>
    render style x ++ if xs.isEmpty then [] else ',' :: (style.space ++ renderItems style xs)

def renderFields (style : Style) : List (String × Json) → List Char
  | [] => []
  | f :: fs =>
    renderField style f ++ if fs.isEmpty then [] else ',' :: (style.space ++ renderFields style fs)

def renderField (style : Style) : String × Json → List Char
  | (k, v) => quoted style k ++ ':' :: (style.space ++ render style v)

end

/-- The octets `json.Marshal` gives. -/
def marshal (j : Json) : Bytes := (j.render compact).flatMap String.utf8EncodeChar

/-- The text of a `jsonb` value, up to the order of its keys, which `jsonb` sorts. -/
def text (j : Json) : String := String.ofList (j.render spaced)

/-- An optional value, `null` where it is missing. -/
def opt {α : Type} (f : α → Json) : Option α → Json
  | none => null
  | some a => f a

/-- A map from strings: an encoder writes its keys in order. -/
def ofMap (entries : List (String × Json)) : Json :=
  obj (entries.insertionSort fun a b => a.1 ≤ b.1)

example : (ofMap [("b", num (-3)), ("a", arr [str "<x", null])]).text =
      "\x7b\"a\": [\"<x\", null], \"b\": -3\x7d" := by
  decide +kernel

section texts

/-- The character after the backslash, for what has a short escape. -/
def short : Nat → Option Char
  | 34 => some '"'
  | 92 => some '\\'
  | 8 => some 'b'
  | 12 => some 'f'
  | 10 => some 'n'
  | 13 => some 'r'
  | 9 => some 't'
  | _ => none

theorem short_inj {a b : Nat} {c : Char} (ha : short a = some c) (hb : short b = some c) :
    a = b ∧ c ≠ 'u' := by
  unfold short at ha hb
  split at ha <;> cases ha <;> split at hb <;> cases hb <;> exact ⟨rfl, by decide⟩

theorem escapeHTML_cases (c : Char) : (∃ d, short c.toNat = some d ∧ escapeHTML c = ['\\', d]) ∨
    (c.toNat < 16 ^ 4 ∧ escapeHTML c = hexEscape c) ∨
    (c ≠ '\\' ∧ c ≠ '"' ∧ escapeHTML c = [c]) := by
  by_cases hhtml : c.toNat = 60 ∨ c.toNat = 62 ∨ c.toNat = 38 ∨ c.toNat = 0x2028 ∨ c.toNat = 0x2029
  · refine .inr (.inl ?_)
    rcases hhtml with h | h | h | h | h <;> exact ⟨by omega, by simp only [escapeHTML, h]⟩
  have hcontrol : escapeHTML c = escapeControl c := by
    unfold escapeHTML
    split <;> first | rfl | omega
  rw [hcontrol]
  cases hshort : short c.toNat with
  | some d =>
    refine .inl ⟨d, rfl, ?_⟩
    unfold short at hshort
    unfold escapeControl
    split at hshort <;> cases hshort <;> simp_all
  | none =>
    have hne : c.toNat ≠ 34 ∧ c.toNat ≠ 92 ∧ escapeControl c = if c.toNat < 32
        then hexEscape c else [c] := by
      unfold short at hshort
      unfold escapeControl
      split at hshort <;> try cases hshort
      split <;> simp_all
    by_cases hlow : c.toNat < 32
    · exact .inr (.inl ⟨by omega, by rw [hne.2.2, if_pos hlow]⟩)
    · refine .inr (.inr ⟨?_, ?_, by rw [hne.2.2, if_neg hlow]⟩)
      · rintro rfl
        exact hne.2.1 rfl
      · rintro rfl
        exact hne.1 rfl

theorem hexEscape_inj {c d : Char} {r s : List Char} (hc : c.toNat < 16 ^ 4) (hd : d.toNat < 16 ^ 4)
    (h : hexEscape c ++ r = hexEscape d ++ s) : c = d ∧ r = s := by
  have h := (List.cons.inj (List.cons.inj h).2).2
  obtain ⟨hdigits, hrest⟩ := List.append_inj h (by simp)
  exact ⟨Char.ext (UInt32.toNat_inj.mp (hexDigits_inj hc hd hdigits)), hrest⟩

/-- An escaped character and what follows it are determined. -/
theorem escapeHTML_inj {c d : Char} {r s : List Char} (h : escapeHTML c ++ r = escapeHTML d ++ s) :
    c = d ∧ r = s := by
  rcases escapeHTML_cases c with ⟨x, hx, hc⟩ | ⟨hc, he⟩ | ⟨hc, -, he⟩ <;>
    rcases escapeHTML_cases d with ⟨y, hy, hd⟩ | ⟨hd, he'⟩ | ⟨hd, -, he'⟩
  · rw [hc, hd] at h
    obtain ⟨hxy, hrest⟩ := List.cons.inj (List.cons.inj h).2
    subst hxy
    exact ⟨Char.ext (UInt32.toNat_inj.mp (short_inj hx hy).1), hrest⟩
  · rw [hc, he'] at h
    exact absurd (List.cons.inj (List.cons.inj h).2).1 (short_inj hx hx).2
  · rw [hc, he'] at h
    exact absurd (List.cons.inj h).1.symm hd
  · rw [he, hd] at h
    exact absurd (List.cons.inj (List.cons.inj h).2).1.symm (short_inj hy hy).2
  · rw [he, he'] at h
    exact hexEscape_inj hc hd h
  · rw [he, he'] at h
    exact absurd (List.cons.inj h).1.symm hd
  · rw [he, hd] at h
    exact absurd (List.cons.inj h).1 hc
  · rw [he, he'] at h
    exact absurd (List.cons.inj h).1 hc
  · rw [he, he'] at h
    exact List.cons.inj h

theorem escapeHTML_head (c : Char) : ∃ d r, escapeHTML c = d :: r ∧ d ≠ '"' := by
  rcases escapeHTML_cases c with ⟨x, -, hc⟩ | ⟨-, hc⟩ | ⟨-, hne, hc⟩
  · exact ⟨_, _, hc, by decide⟩
  · exact ⟨_, _, hc, by decide⟩
  · exact ⟨_, _, hc, hne⟩

/-- A quoted text and what follows it are determined. -/
theorem quoted_inj {x y : String} {r s : List Char}
    (h : quoted compact x ++ r = quoted compact y ++ s) : x = y ∧ r = s := by
  have hchars : ∀ (cs ds : List Char), cs.flatMap escapeHTML ++
    '"' :: r = ds.flatMap escapeHTML ++ '"' :: s →
      cs = ds ∧ r = s := by
    intro cs
    induction cs with
    | nil =>
      intro ds h
      cases ds with
      | nil => exact ⟨rfl, (List.cons.inj h).2⟩
      | cons d ds =>
        obtain ⟨e, t, he, hne⟩ := escapeHTML_head d
        rw [List.flatMap_cons, he] at h
        exact absurd (List.cons.inj h).1.symm hne
    | cons c cs ih =>
      intro ds h
      cases ds with
      | nil =>
        obtain ⟨e, t, he, hne⟩ := escapeHTML_head c
        rw [List.flatMap_cons, he] at h
        exact absurd (List.cons.inj h).1 hne
      | cons d ds =>
        rw [List.flatMap_cons, List.flatMap_cons, List.append_assoc, List.append_assoc] at h
        obtain ⟨hhead, htail⟩ := escapeHTML_inj h
        obtain ⟨hcs, hrest⟩ := ih ds htail
        exact ⟨by rw [hhead, hcs], hrest⟩
  simp only [quoted, compact, List.cons_append, List.append_assoc, List.nil_append,
    List.cons.injEq, true_and] at h
  obtain ⟨htexts, hrest⟩ := hchars _ _ h
  exact ⟨String.toList_injective htexts, hrest⟩

theorem head_flatMap_escapeHTML {cs : List Char} :
    ∀ c ∈ (cs.flatMap escapeHTML).head?, c ≠ '"' := by
  intro c hc
  cases cs with
  | nil => cases hc
  | cons d ds =>
    obtain ⟨e, r, he, hne⟩ := escapeHTML_head d
    rw [List.flatMap_cons, he] at hc
    obtain rfl : e = c := by simpa using hc
    exact hne

/-- In an escaped text a quotation mark has a backslash before it. -/
theorem isChain_flatMap_escapeHTML (cs : List Char) :
    (cs.flatMap escapeHTML).IsChain fun a b => b = '"' → a = '\\' := by
  induction cs with
  | nil => exact .nil
  | cons c cs ih =>
    rw [List.flatMap_cons]
    refine List.isChain_append.mpr ⟨?_, ih, fun a _ b hb hq =>
      absurd hq (head_flatMap_escapeHTML b hb)⟩
    rcases escapeHTML_cases c with ⟨x, -, hc⟩ | ⟨-, hc⟩ | ⟨-, -, hc⟩
    · rw [hc]
      simp
    · rw [hc]
      have hdigits : ∀ b ∈ hexEscape c, b ≠ '"' := by
        intro b hb
        rcases List.mem_cons.mp hb with rfl | hb
        · decide
        rcases List.mem_cons.mp hb with rfl | hb
        · decide
        obtain ⟨d, hd, rfl⟩ := List.mem_map.mp hb
        have hlt := fixedDigits_lt (by decide) d hd
        have hsixteen : ∀ d < 16, Nat.digitChar d ≠ '"' := by decide
        exact hsixteen d hlt
      exact (List.pairwise_of_forall_mem_list fun a _ b hb hq => absurd hq (hdigits b hb)).isChain
    · rw [hc]
      simp

/-- The octets of a value determine its text. -/
theorem marshal_inj {j j' : Json} (h : j.marshal = j'.marshal) :
    j.render compact = j'.render compact := by
  refine String.ofList_injective (utf8_injective ?_)
  simpa [marshal, utf8] using h

/-- A quoted text behind a colon, at the end of what is determined. -/
theorem quoted_last_inj {x y : String} {r s : List Char}
    (h : r ++ ':' :: quoted compact x = s ++ ':' :: quoted compact y) : x = y := by
  have hno : ∀ (z : String) (w v : List Char), z.toList.flatMap escapeHTML ≠
      w ++ ':' :: '"' :: v := by
    intro z w v he
    have hchain := isChain_flatMap_escapeHTML z.toList
    rw [he, List.isChain_append_cons_cons] at hchain
    exact absurd (hchain.2.1 rfl) (by decide)
  have hopen : ∀ z : String, quoted compact z = '"' :: (z.toList.flatMap escapeHTML ++ ['"']) :=
    fun _ => rfl
  have h' : r ++ ':' :: '"' :: x.toList.flatMap escapeHTML = s ++
      ':' :: '"' :: y.toList.flatMap escapeHTML := by
    rw [hopen, hopen] at h
    exact (List.append_left_inj ['"']).mp (by simpa using h)
  have hsame : x.toList.flatMap escapeHTML = y.toList.flatMap escapeHTML → x = y := by
    intro he
    refine (quoted_inj (r := []) (s := []) ?_).1
    rw [hopen, hopen, he]
  rcases List.append_eq_append_iff.mp h' with ⟨as, -, he⟩ | ⟨as, -, he⟩
  · rcases as with - | ⟨a, - | ⟨b, as⟩⟩
    · exact hsame (List.cons.inj (List.cons.inj he).2).2
    · exact absurd (List.cons.inj (List.cons.inj he).2).1 (by decide)
    · exact absurd (List.cons.inj (List.cons.inj he).2).2 (hno x as _)
  · rcases as with - | ⟨a, - | ⟨b, as⟩⟩
    · exact hsame (List.cons.inj (List.cons.inj he).2).2.symm
    · exact absurd (List.cons.inj (List.cons.inj he).2).1 (by decide)
    · exact absurd (List.cons.inj (List.cons.inj he).2).2 (hno y as _)

/-- An object whose values are texts. -/
def texts (entries : List (String × String)) : Json := obj (entries.map fun e => (e.1, str e.2))

theorem renderField_str (e : String × String) :
    renderField compact (e.1, str e.2) = quoted compact e.1 ++ ':' :: quoted compact e.2 := by
  simp [renderField, render, compact]

theorem renderFields_texts_inj {xs ys : List (String × String)} {r s : List Char}
    (h : renderFields compact (xs.map fun e => (e.1, str e.2)) ++ '}' :: r =
      renderFields compact (ys.map fun e => (e.1, str e.2)) ++ '}' :: s) : xs = ys ∧ r = s := by
  induction xs generalizing ys with
  | nil =>
    cases ys with
    | nil => exact ⟨rfl, (List.cons.inj h).2⟩
    | cons y ys =>
      simp only [List.map_nil, List.map_cons, renderFields, renderField_str, quoted] at h
      exact absurd (List.cons.inj h).1 (by decide)
  | cons x xs ih =>
    cases ys with
    | nil =>
      simp only [List.map_nil, List.map_cons, renderFields, renderField_str, quoted] at h
      exact absurd (List.cons.inj h).1.symm (by decide)
    | cons y ys =>
      simp only [List.map_cons, renderFields, renderField_str, List.append_assoc,
        List.cons_append] at h
      obtain ⟨hkey, h⟩ := quoted_inj h
      obtain ⟨hvalue, h⟩ := quoted_inj (List.cons.inj h).2
      have hxy : x = y := Prod.ext hkey hvalue
      cases xs with
      | nil =>
        cases ys with
        | nil => exact ⟨by rw [hxy], by simpa using h⟩
        | cons y' ys => simp at h
      | cons x' xs =>
        cases ys with
        | nil => simp at h
        | cons y' ys =>
          simp only [List.map_cons, List.isEmpty_cons, Bool.false_eq_true,
            if_false, List.cons_append,
            List.cons.injEq, true_and] at h
          obtain ⟨hrest, hend⟩ := @ih (y' :: ys) h
          exact ⟨by rw [hxy, hrest], hend⟩

/-- The text of an object whose values are texts, and what follows it, are determined. -/
theorem render_texts_inj {xs ys : List (String × String)} {r s : List Char}
    (h : render compact (texts xs) ++ r = render compact (texts ys) ++ s) : xs = ys ∧ r = s := by
  simp only [texts, render, List.cons_append, List.append_assoc, List.nil_append] at h
  exact renderFields_texts_inj (List.cons.inj h).2

end texts

end Json

/-- The civil date of a day counted from 1 January 1970. -/
def civil (day : Int) : Int × Nat × Nat :=
  let z := day + 719468
  let era := z / 146097
  let doe := (z % 146097).toNat
  let yoe := (doe - doe / 1460 + doe / 36524 - doe / 146096) / 365
  let doy := doe - (365 * yoe + yoe / 4 - yoe / 100)
  let mp := (5 * doy + 2) / 153
  let month := if mp < 10 then mp + 3 else mp - 9
  (yoe + era * 400 + (if month ≤ 2 then 1 else 0), month, doy - (153 * mp + 2) / 5 + 1)

/-- A number with at least `width` decimal digits. -/
def padded (width n : Nat) : String :=
  let digits := (Nat.repr n).toList
  String.ofList (List.replicate (width - digits.length) '0' ++ digits)

/-- The RFC 3339 text, in UTC, of a time in microseconds since 1970; with its fraction of
a second, less trailing zeros, where `fraction` is set. -/
def rfc3339 (fraction : Bool) (micros : Int) : String :=
  let (year, month, day) := civil (micros / 86400000000)
  let micro := (micros % 86400000000).toNat
  let sec := micro / 1000000
  let sub := (((padded 6 (micro % 1000000)).toList.reverse.dropWhile (· = '0')).reverse)
  padded 4 year.toNat ++ "-" ++ padded 2 month ++ "-" ++ padded 2 day ++ "T" ++
    padded 2 (sec / 3600) ++ ":" ++ padded 2 (sec / 60 % 60) ++ ":" ++ padded 2 (sec % 60) ++
    (if fraction && !sub.isEmpty then "." ++ String.ofList sub else "") ++ "Z"

example : rfc3339 true 1754000000120000 = "2025-07-31T22:13:20.12Z" := by decide +kernel

end Encoding
