import Tenancit.Lib.Json
import Tenancit.Lib.JsonScan
import Tenancit.Lib.Text

/-!
A reader of JSON values by recursive descent: whole numbers, blanks only behind commas and
colons, and no halves of surrogate pairs. It reads back what both renderings write.
-/
namespace Encoding.Json

/-- The character of a short escape, by the one behind the backslash. -/
def long (c : Char) : Option Char :=
  if c = '"' ∨ c = '\\' ∨ c = '/' then some c
  else if c = 'b' then some '\x08'
  else if c = 'f' then some '\x0c'
  else if c = 'n' then some '\n'
  else if c = 'r' then some '\r'
  else if c = 't' then some '\t'
  else none

/-- One character of a string, and what follows it. -/
def readChar : List Char → Option (Char × List Char)
  | [] => none
  | c :: cs =>
    if c = '"' then none
    else if c = '\\' then
      match cs with
      | [] => none
      | e :: rest =>
        if e = 'u' then
          match rest with
          | a :: b :: c :: d :: rest =>
            if (JsonScan.hex4 a b c d).isValidChar
              then some (Char.ofNat (JsonScan.hex4 a b c d), rest) else none
          | _ => none
        else (long e).map fun c => (c, rest)
    else some (c, cs)

/-- The characters up to the closing quotation mark, and what follows it. -/
def readChars : Nat → List Char → Option (List Char × List Char)
  | 0, _ => none
  | n + 1, cs =>
    if cs.head? = some '"' then some ([], cs.tail)
    else (readChar cs).bind fun (c, cs) => (readChars n cs).map fun (ds, rest) => (c :: ds, rest)

def skipBlanks (cs : List Char) : List Char := cs.dropWhile (· = ' ')

def readNat (cs : List Char) : Option (Nat × List Char) :=
  (Text.digitsValue (cs.takeWhile Char.isDigit)).map fun n => (n, cs.dropWhile Char.isDigit)

def readString (cs : List Char) : Option (String × List Char) :=
  match cs with
  | '"' :: cs => (readChars cs.length cs).map fun (ds, rest) => (String.ofList ds, rest)
  | _ => none

mutual

/-- A value, and what follows it. -/
def readValue : Nat → List Char → Option (Json × List Char)
  | 0, _ => none
  | _ + 1, [] => none
  | n + 1, c :: cs =>
    if c = 'n' then if ['u', 'l', 'l'].isPrefixOf cs then some (null, cs.drop 3) else none
    else if c = 't' then if ['r', 'u', 'e'].isPrefixOf cs then some (bool true, cs.drop 3) else none
    else if c = 'f' then if ['a', 'l', 's', 'e'].isPrefixOf cs
      then some (bool false, cs.drop 4) else none
    else if c = '"' then (readString (c :: cs)).map fun (s, rest) => (str s, rest)
    else if c = '[' then
      if cs.head? = some ']' then some (arr [], cs.tail) else (readItems n cs).map
        fun (xs, rest) => (arr xs, rest)
    else if c = '{' then
      if cs.head? = some '}' then some (obj [], cs.tail) else (readFields n cs).map
        fun (fs, rest) => (obj fs, rest)
    else if c = '-' then (readNat cs).map fun (m, rest) => (num (-m), rest)
    else (readNat (c :: cs)).map fun (m, rest) => (num m, rest)

/-- The members of an array up to its end. -/
def readItems : Nat → List Char → Option (List Json × List Char)
  | 0, _ => none
  | n + 1, cs => (readValue n cs).bind fun (x, cs) =>
    match cs with
    | ',' :: cs => (readItems n (skipBlanks cs)).map fun (xs, rest) => (x :: xs, rest)
    | ']' :: rest => some ([x], rest)
    | _ => none

/-- The members of an object up to its end. -/
def readFields : Nat → List Char → Option (List (String × Json) × List Char)
  | 0, _ => none
  | n + 1, cs => (readString cs).bind fun (k, cs) =>
    match cs with
    | ':' :: cs => (readValue n (skipBlanks cs)).bind fun (x, cs) =>
      match cs with
      | ',' :: cs => (readFields n (skipBlanks cs)).map fun (fs, rest) => ((k, x) :: fs, rest)
      | '}' :: rest => some ([(k, x)], rest)
      | _ => none
    | _ => none

end

/-- The value that a text is, with nothing behind it. -/
def read (cs : List Char) : Option Json :=
  (readValue cs.length cs).bind fun (j, rest) => if rest = [] then some j else none

example : (read "[\x7b\"a\": -12, \"<\\u00e9\":null\x7d,[]]".toList).map (fun j => j.text) =
    some "[\x7b\"a\": -12, \"<é\": null\x7d, []]" := by
  decide +kernel

/-- How a character may be written within a string. -/
def Escapes (c : Char) (cs : List Char) : Prop :=
  (∃ d, short c.toNat = some d ∧ cs = ['\\', d]) ∨ (c.toNat < 16 ^ 4 ∧ cs = hexEscape c) ∨
  (c ≠ '\\' ∧ c ≠ '"' ∧ cs = [c])

theorem escapeControl_cases (c : Char) : Escapes c (escapeControl c) := by
  by_cases hhtml : c.toNat = 60 ∨ c.toNat = 62 ∨ c.toNat = 38 ∨ c.toNat = 0x2028 ∨ c.toNat = 0x2029
  · refine .inr (.inr ⟨?_, ?_, ?_⟩)
    · rintro rfl
      revert hhtml
      decide
    · rintro rfl
      revert hhtml
      decide
    · rcases hhtml with h | h | h | h | h <;> simp only [escapeControl, h] <;> rfl
  · have hsame : escapeControl c = escapeHTML c := by
      unfold escapeHTML
      split <;> first | rfl | omega
    rw [hsame]
    exact escapeHTML_cases c

/-- A rendering whose texts are escaped, with blanks only between members. -/
structure Style.Readable (style : Style) : Prop where
  escapes : ∀ c, Escapes c (style.escape c)
  blanks : ∀ c ∈ style.space, c = ' '

theorem readable_compact : compact.Readable where
  escapes := escapeHTML_cases
  blanks _ hc := nomatch hc

theorem readable_spaced : spaced.Readable where
  escapes := escapeControl_cases
  blanks c hc := by simpa [spaced] using hc

section strings

variable {c : Char} {cs rest : List Char}

theorem long_of_short {d : Char} (h : short c.toNat = some d) : long d = some c ∧ d ≠ 'u' := by
  have hc : c = Char.ofNat c.toNat := (Char.ofNat_toNat c).symm
  unfold short at h
  split at h <;> cases h <;> rename_i hn <;> rw [hc, hn] <;> decide

theorem hexValue_digitChar {d : Nat} (h : d < 16) : JsonScan.hexValue (Nat.digitChar d) = d := by
  revert d
  decide

/-- Four hexadecimal digits give the number back. -/
theorem hex4_hexDigits {n : Nat} (h : n < 16 ^ 4) :
    ∃ a b c d, hexDigits 4 n = [a, b, c, d] ∧ JsonScan.hex4 a b c d = n := by
  refine ⟨_, _, _, _, rfl, ?_⟩
  simp only [JsonScan.hex4, hexValue_digitChar (Nat.mod_lt _ (by decide : 0 < 16))]
  omega

theorem isValidChar_toNat (c : Char) : c.toNat.isValidChar := c.valid

theorem readChar_escape (h : Escapes c cs) : readChar (cs ++ rest) = some (c, rest) := by
  obtain ⟨d, hd, rfl⟩ | ⟨hc, rfl⟩ | ⟨hback, hquote, rfl⟩ := h
  · obtain ⟨hlong, hu⟩ := long_of_short hd
    simp [readChar, hlong, hu]
  · obtain ⟨a, b, e, d, hdigits, hvalue⟩ := hex4_hexDigits hc
    simp [readChar, hexEscape, hdigits, hvalue, isValidChar_toNat, Char.ofNat_toNat]
  · simp [readChar, hback, hquote]

theorem head_escape (h : Escapes c cs) : ∃ d ds, cs = d :: ds ∧ d ≠ '"' := by
  obtain ⟨d, -, rfl⟩ | ⟨-, rfl⟩ | ⟨-, hquote, rfl⟩ := h
  · exact ⟨_, _, rfl, by decide⟩
  · exact ⟨_, _, rfl, by decide⟩
  · exact ⟨_, _, rfl, hquote⟩

theorem readChars_escaped {style : Style} (hs : style.Readable) {n : Nat}
    (hn : (cs.flatMap style.escape).length < n) :
    readChars n (cs.flatMap style.escape ++ '"' :: rest) = some (cs, rest) := by
  induction cs generalizing n with
  | nil =>
    obtain _ | n := n
    · exact absurd hn (Nat.not_lt_zero _)
    · simp [readChars]
  | cons c cs ih =>
    obtain ⟨d, ds, hhead, hquote⟩ := head_escape (hs.escapes c)
    have hlen : (style.escape c).length = ds.length + 1 := by rw [hhead, List.length_cons]
    rw [List.flatMap_cons, List.length_append] at hn
    obtain _ | n := n
    · omega
    have hne : ((c :: cs).flatMap style.escape ++ '"' :: rest).head? ≠ some '"' := by
      rw [List.flatMap_cons, hhead]
      simpa using hquote
    rw [readChars, if_neg hne, List.flatMap_cons, List.append_assoc, readChar_escape (hs.escapes c)]
    show (readChars n _).map _ = _
    rw [ih (by omega)]
    rfl

theorem readString_quoted {style : Style} (hs : style.Readable) (s : String) :
    readString (quoted style s ++ rest) = some (s, rest) := by
  have hquoted : quoted style s ++
    rest = '"' :: (s.toList.flatMap style.escape ++ '"' :: rest) := by simp [quoted]
  rw [hquoted]
  show (readChars _ _).map _ = _
  rw [readChars_escaped hs (by simp)]
  simp

end strings

section numbers

variable {rest : List Char}

theorem readNat_repr (n : Nat) (hrest : ∀ c ∈ rest.head?, c.isDigit = false) :
    readNat (n.repr.toList ++ rest) = some (n, rest) := by
  have hdigits : ∀ c ∈ n.repr.toList, c.isDigit = true := fun c hc =>
    Nat.isDigit_of_mem_toDigits (by decide) (by decide) (Nat.toList_repr ▸ hc)
  have hstop : rest.takeWhile Char.isDigit = [] ∧ rest.dropWhile Char.isDigit = rest := by
    cases rest with
    | nil => exact ⟨rfl, rfl⟩
    | cons c cs =>
      have hc := hrest c rfl
      simp [hc]
  rw [readNat, List.takeWhile_append_of_pos hdigits, List.dropWhile_append_of_pos hdigits, hstop.1,
    hstop.2, List.append_nil,
    Text.digitsValue_repr]
  rfl

/-- What may stand behind a value: no digit, which would go on with a number. -/
def Follows (rest : List Char) : Prop := ∀ c ∈ rest.head?, c.isDigit = false

theorem follows_cons {c : Char} (h : c.isDigit = false) : Follows (c :: rest) := by
  intro d hd
  obtain rfl : c = d := by simpa using hd
  exact h

theorem toList_negSucc (n : Nat) :
    (toString (Int.negSucc n)).toList = '-' :: (n + 1).repr.toList := by
  show ("-" ++ (n + 1).repr).toList = _
  simp

theorem isDigit_head {n : Nat} : ∃ c cs, n.repr.toList = c :: cs ∧ c.isDigit = true := by
  have hne : n.repr.toList ≠ [] := by simp [Nat.toList_repr]
  obtain ⟨c, cs, heq⟩ := List.exists_cons_of_ne_nil hne
  refine ⟨c, cs, heq, Nat.isDigit_of_mem_toDigits (b := 10) (n := n) (by decide) (by decide) ?_⟩
  rw [← Nat.toList_repr, heq]
  exact List.mem_cons_self

/-- A digit begins nothing but a number. -/
theorem readValue_digit {n : Nat} {c : Char} {cs : List Char} (hc : c.isDigit = true) :
    readValue (n + 1) (c :: cs) = (readNat (c :: cs)).map fun (m, rest) => (num m, rest) := by
  have hne : ∀ d : Char, d.isDigit = false → c ≠ d := by
    rintro d hd rfl
    rw [hc] at hd
    cases hd
  rw [readValue, if_neg (hne _ rfl), if_neg (hne _ rfl), if_neg (hne _ rfl),
    if_neg (hne _ rfl), if_neg (hne _ rfl),
    if_neg (hne _ rfl), if_neg (hne _ rfl)]

theorem readValue_num {n : Nat} (m : Int) (hrest : Follows rest) :
    readValue (n + 1) ((toString m).toList ++ rest) = some (num m, rest) := by
  cases m with
  | ofNat m =>
    have hlist : (toString (Int.ofNat m)).toList = m.repr.toList := rfl
    obtain ⟨c, cs, heq, hc⟩ := isDigit_head (n := m)
    rw [hlist, heq, List.cons_append, readValue_digit hc, ← List.cons_append, ← heq,
      readNat_repr m hrest]
    rfl
  | negSucc m =>
    rw [toList_negSucc, List.cons_append, readValue]
    show (readNat _).map _ = _
    rw [readNat_repr _ hrest]
    rfl

end numbers

section values

variable {style : Style} {rest : List Char}

/-- What a value begins with. -/
theorem render_head (style : Style) (j : Json) :
    ∃ c cs, render style j = c :: cs ∧ c ≠ ' ' ∧ c ≠ ']' := by
  cases j with
  | null => exact ⟨_, _, rfl, by decide, by decide⟩
  | bool b => cases b <;> exact ⟨_, _, rfl, by decide, by decide⟩
  | num n =>
    cases n with
    | ofNat n =>
      obtain ⟨c, cs, heq, hc⟩ := isDigit_head (n := n)
      refine ⟨c, cs, heq, ?_, ?_⟩ <;> rintro rfl <;> cases hc
    | negSucc n => exact ⟨_, _, toList_negSucc n, by decide, by decide⟩
  | str s => exact ⟨_, _, rfl, by decide, by decide⟩
  | arr xs => exact ⟨_, _, rfl, by decide, by decide⟩
  | obj fields => exact ⟨_, _, rfl, by decide, by decide⟩

/-- The blanks before a member are skipped. -/
theorem skipBlanks_space (hs : style.Readable) {c : Char} {cs : List Char} (hc : c ≠ ' ') :
    skipBlanks (style.space ++ c :: cs) = c :: cs := by
  rw [skipBlanks, List.dropWhile_append_of_pos fun d hd => by simpa using hs.blanks d hd]
  simp [hc]

theorem skipBlanks_render (hs : style.Readable) (j : Json) :
    skipBlanks (style.space ++ (render style j ++ rest)) = render style j ++ rest := by
  obtain ⟨c, cs, heq, hc, -⟩ := render_head style j
  rw [heq, List.cons_append, skipBlanks_space hs hc]

/-- With so much fuel every value of a text no longer than this is read. -/
def Reads (style : Style) (n : Nat) : Prop :=
  ∀ j rest, (render style j).length ≤
    n → Follows rest → readValue n (render style j ++ rest) = some (j, rest)

theorem renderItems_cons (style : Style) (x y : Json) (ys : List Json) :
    renderItems style (x :: y :: ys) = render style x ++
    ',' :: (style.space ++ renderItems style (y :: ys)) := by
  rw [renderItems]
  rfl

theorem renderItems_singleton (style : Style) (x : Json) :
    renderItems style [x] = render style x := by
  simp [renderItems]

theorem readItems_render (hs : style.Readable) {n : Nat} (h : ∀ m < n, Reads style m) {x : Json}
    {xs : List Json} (hlen : (renderItems style (x :: xs)).length < n) :
    readItems n (renderItems style (x :: xs) ++ ']' :: rest) = some (x :: xs, rest) := by
  induction xs generalizing x n with
  | nil =>
    obtain _ | n := n
    · omega
    rw [renderItems_singleton] at hlen ⊢
    rw [readItems, h n (Nat.lt_succ_self n) x _ (Nat.le_of_lt_succ hlen) (follows_cons rfl)]
    rfl
  | cons y ys ih =>
    obtain _ | n := n
    · omega
    rw [renderItems_cons] at hlen ⊢
    rw [List.length_append, List.length_cons, List.length_append] at hlen
    obtain ⟨c, cs, heq, hc, -⟩ := render_head style y
    have hskip : skipBlanks (style.space ++ (renderItems style (y :: ys) ++ ']' :: rest)) =
        renderItems style (y :: ys) ++ ']' :: rest := by
      rw [renderItems, heq, List.cons_append, List.cons_append, skipBlanks_space hs hc]
    simp only [List.append_assoc, List.cons_append] at hskip ⊢
    rw [readItems, h n (Nat.lt_succ_self n) x _ (by omega) (follows_cons rfl)]
    show (readItems n _).map _ = _
    rw [hskip, ih (fun m hm => h m (Nat.lt_succ_of_lt hm)) (by omega)]
    rfl

theorem renderFields_cons (style : Style) (f g : String × Json) (gs : List (String × Json)) :
    renderFields style (f :: g :: gs) = renderField style f ++
    ',' :: (style.space ++ renderFields style (g :: gs)) := by
  rw [renderFields]
  rfl

theorem renderFields_singleton (style : Style) (f : String × Json) :
    renderFields style [f] = renderField style f := by
  simp [renderFields]

theorem readFields_render (hs : style.Readable) {n : Nat} (h : ∀ m < n, Reads style m)
    {f : String × Json} {fs : List (String × Json)}
    (hlen : (renderFields style (f :: fs)).length < n) :
    readFields n (renderFields style (f :: fs) ++ '}' :: rest) = some (f :: fs, rest) := by
  induction fs generalizing f n with
  | nil =>
    obtain _ | n := n
    · omega
    obtain ⟨k, x⟩ := f
    rw [renderFields_singleton, renderField] at hlen ⊢
    rw [List.length_append, List.length_cons, List.length_append] at hlen
    simp only [List.append_assoc, List.cons_append]
    rw [readFields, readString_quoted hs]
    show (readValue n _).bind _ = _
    rw [skipBlanks_render hs, h n (Nat.lt_succ_self n) x _ (by omega) (follows_cons rfl)]
    rfl
  | cons g gs ih =>
    obtain _ | n := n
    · omega
    obtain ⟨k, x⟩ := f
    rw [renderFields_cons, renderField] at hlen ⊢
    rw [List.length_append, List.length_append, List.length_cons, List.length_append,
      List.length_cons, List.length_append] at hlen
    have hskip : skipBlanks (style.space ++ (renderFields style (g :: gs) ++ '}' :: rest)) =
        renderFields style (g :: gs) ++ '}' :: rest := by
      rw [renderFields, renderField, quoted, List.cons_append, List.cons_append, List.cons_append,
        skipBlanks_space hs (by decide)]
    simp only [List.append_assoc, List.cons_append] at hskip ⊢
    rw [readFields, readString_quoted hs]
    show (readValue n _).bind _ = _
    rw [skipBlanks_render hs, h n (Nat.lt_succ_self n) x _ (by omega) (follows_cons rfl)]
    show (readFields n _).map _ = _
    rw [hskip, ih (fun m hm => h m (Nat.lt_succ_of_lt hm)) (by omega)]
    rfl

theorem reads (hs : style.Readable) (n : Nat) : Reads style n := by
  induction n using Nat.strong_induction_on with
  | _ n ih =>
    intro j rest hlen hrest
    obtain _ | n := n
    · obtain ⟨c, cs, heq, -⟩ := render_head style j
      rw [heq, List.length_cons] at hlen
      omega
    have ih' : ∀ m < n, Reads style m := fun m hm => ih m (Nat.lt_succ_of_lt hm)
    cases j with
    | null => simp [render, readValue]
    | bool b => cases b <;> simp [render, readValue]
    | num m => exact readValue_num m hrest
    | str s =>
      show (readString (quoted style s ++ rest)).map _ = _
      rw [readString_quoted hs]
      rfl
    | arr xs =>
      cases xs with
      | nil => simp [render, renderItems, readValue]
      | cons x xs =>
        obtain ⟨c, cs, heq, -, hc⟩ := render_head style x
        rw [render, List.length_cons, List.length_append, List.length_singleton] at hlen
        have hhead : (renderItems style (x :: xs) ++ ']' :: rest).head? ≠ some ']' := by
          rw [renderItems, heq]
          simpa using hc
        rw [render, List.cons_append, List.append_assoc, List.singleton_append, readValue]
        simp only [Char.reduceEq, if_false, if_true, if_neg hhead]
        rw [readItems_render hs ih' (by omega)]
        rfl
    | obj fs =>
      cases fs with
      | nil => simp [render, renderFields, readValue]
      | cons f fs =>
        rw [render, List.length_cons, List.length_append, List.length_singleton] at hlen
        have hhead : (renderFields style (f :: fs) ++ '}' :: rest).head? ≠ some '}' := by
          rw [renderFields, renderField, quoted]
          simp
        rw [render, List.cons_append, List.append_assoc, List.singleton_append, readValue]
        simp only [Char.reduceEq, if_false, if_true, if_neg hhead]
        rw [readFields_render hs ih' (by omega)]
        rfl

/-- The text of a value is read back. -/
theorem read_render (hs : style.Readable) (j : Json) : read (render style j) = some j := by
  have hreads := reads hs (render style j).length j [] (Nat.le_refl _) fun c hc => nomatch hc
  rw [List.append_nil] at hreads
  rw [read, hreads]
  rfl

end values

/-! Values on a line each. -/
section lines

def lines (js : List Json) : List Char := js.flatMap fun j => render compact j ++ ['\n']

/-- The values of a text that ends with its last line. -/
def readLines (cs : List Char) : Option (List Json) :=
  let pieces := cs.splitOn '\n'
  if pieces.getLast? = some [] then pieces.dropLast.mapM read else none

theorem newline_notMem_escapeHTML (c : Char) : '\n' ∉ escapeHTML c := by
  by_cases hc : c = '\n'
  · rw [hc]
    decide
  rcases escapeHTML_cases c with ⟨d, hd, heq⟩ | ⟨-, heq⟩ | ⟨-, -, heq⟩
  · rw [heq]
    have hne : d ≠ '\n' := by
      rintro rfl
      obtain ⟨hlong, -⟩ := long_of_short hd
      cases hlong
    simpa using hne.symm
  · rw [heq]
    have hdigits : '\n' ∉ hexDigits 4 c.toNat := by
      intro hmem
      obtain ⟨d, hd, hchar⟩ := List.mem_map.mp hmem
      have hlt := fixedDigits_lt (by decide) d hd
      have hall : ∀ d < 16, Nat.digitChar d ≠ '\n' := by decide
      exact hall d hlt hchar
    simpa [hexEscape] using hdigits
  · rw [heq]
    simpa using Ne.symm hc

theorem newline_notMem_quoted (s : String) : '\n' ∉ quoted compact s := by
  have hchars : '\n' ∉ s.toList.flatMap escapeHTML := fun hmem => by
    obtain ⟨c, -, hc⟩ := List.mem_flatMap.mp hmem
    exact newline_notMem_escapeHTML c hc
  simpa [quoted, compact] using hchars

theorem newline_notMem_num (n : Int) : '\n' ∉ (toString n).toList := by
  have hnat : ∀ m : Nat, '\n' ∉ m.repr.toList := fun m hmem => by
    have hdigit := Nat.isDigit_of_mem_toDigits (by decide) (by decide) (Nat.toList_repr ▸ hmem)
    cases hdigit
  cases n with
  | ofNat n => exact hnat n
  | negSucc n =>
    rw [toList_negSucc]
    simpa using hnat (n + 1)

mutual

/-- A value takes one line. -/
theorem newline_notMem_render : ∀ j : Json, '\n' ∉ render compact j
  | null => by simp [render]
  | bool true => by simp [render]
  | bool false => by simp [render]
  | num n => newline_notMem_num n
  | str s => newline_notMem_quoted s
  | arr xs => by simpa [render] using newline_notMem_renderItems xs
  | obj fields => by simpa [render] using newline_notMem_renderFields fields

theorem newline_notMem_renderItems : ∀ xs : List Json, '\n' ∉ renderItems compact xs
  | [] => by simp [renderItems]
  | x :: xs => by
    have hx := newline_notMem_render x
    have hxs := newline_notMem_renderItems xs
    rw [renderItems]
    split <;> simp_all [compact]

theorem newline_notMem_renderFields : ∀ fs : List (String × Json), '\n' ∉ renderFields compact fs
  | [] => by simp [renderFields]
  | (k, x) :: fs => by
    have hk := newline_notMem_quoted k
    have hx := newline_notMem_render x
    have hfs := newline_notMem_renderFields fs
    rw [renderFields, renderField]
    split <;> simp_all [compact]

end

/-- Values that are written on a line each are read back. -/
theorem readLines_lines (js : List Json) : readLines (lines js) = some js := by
  have hsplit : (lines js).splitOn '\n' = js.map (render compact) ++ [[]] := by
    induction js with
    | nil => rfl
    | cons j js ih =>
      have hcons : lines (j :: js) = render compact j ++ '\n' :: lines js := by simp [lines]
      rw [hcons, List.splitOn_append_cons_self_of_not_mem (newline_notMem_render j), ih]
      rfl
  have hread : ∀ js : List Json, (js.map (render compact)).mapM read = some js := by
    intro js
    induction js with
    | nil => rfl
    | cons j js ih =>
      rw [List.map_cons, List.mapM_cons, read_render readable_compact, ih]
      rfl
  rw [readLines, hsplit]
  simpa using hread js

end lines

end Encoding.Json
