import Tenancit.Lib.Encoding

/-!
The scanner of `encoding/json`, over octets written as characters: whether a text is JSON,
and the members of an object as they stand in the text.
-/
namespace JsonScan

/-- Octets as characters of the same numbers. -/
def latin (b : Encoding.Bytes) : List Char := b.map fun x => Char.ofNat x.toNat

def isSpace (c : Char) : Bool := c = ' ' || c = '\t' || c = '\r' || c = '\n'

/-- What surrounds a value: `parseObjectKey`, `parseObjectValue` and `parseArrayValue`. -/
inductive Nest where
  | objectKey
  | objectValue
  | arrayValue
  deriving DecidableEq

/-- The step functions of the scanner. -/
inductive Mode where
  | beginValue
  | beginValueOrEmpty
  | beginString
  | beginStringOrEmpty
  | endValue
  | endTop
  | inString
  | inStringEsc
  | inStringEscU (left : Nat)
  | literal (left : List Char)
  | neg
  | one
  | zero
  | dot
  | dot0
  | exp
  | expSign
  | exp0
  deriving DecidableEq

/-- The mode, and what is open around it. -/
abbrev State := Mode × List Nest

def maxNestingDepth : Nat := 10000

def push (n : Nest) (mode : Mode) (open_ : List Nest) : Option State :=
  if open_.length + 1 ≤ maxNestingDepth then some (mode, n :: open_) else none

def pop (open_ : List Nest) : State := (if open_ = [] then .endTop else .endValue, open_)

/-- `stateEndValue` and `stateEndTop`: what may follow a value. -/
def endValue (open_ : List Nest) (c : Char) : Option State :=
  match open_ with
  | [] => if isSpace c then some (.endTop, []) else none
  | top :: rest =>
    if isSpace c then some (.endValue, top :: rest)
    else match top with
      | .objectKey => if c = ':' then some (.beginValue, .objectValue :: rest) else none
      | .objectValue =>
        if c = ',' then some (.beginString, .objectKey :: rest) else if c = '}'
          then some (pop rest) else none
      | .arrayValue =>
        if c = ',' then some (.beginValue, top :: rest) else if c = ']'
          then some (pop rest) else none

def beginValue (open_ : List Nest) (c : Char) : Option State :=
  if isSpace c then some (.beginValue, open_)
  else if c = '{' then push .objectKey .beginStringOrEmpty open_
  else if c = '[' then push .arrayValue .beginValueOrEmpty open_
  else if c = '"' then some (.inString, open_)
  else if c = '-' then some (.neg, open_)
  else if c = '0' then some (.zero, open_)
  else if c.isDigit then some (.one, open_)
  else if c = 't' then some (.literal "rue".toList, open_)
  else if c = 'f' then some (.literal "alse".toList, open_)
  else if c = 'n' then some (.literal "ull".toList, open_)
  else none

def beginString (open_ : List Nest) (c : Char) : Option State :=
  if isSpace c then some (.beginString, open_) else if c = '"'
    then some (.inString, open_) else none

def isHexDigit (c : Char) : Bool := c.isDigit || ('a' ≤ c && c ≤ 'f') || ('A' ≤ c && c ≤ 'F')

def step (s : State) (c : Char) : Option State :=
  let open_ := s.2
  match s.1 with
  | .beginValue => beginValue open_ c
  | .beginValueOrEmpty =>
    if isSpace c then some (.beginValueOrEmpty, open_) else if c = ']' then endValue open_ c
      else beginValue open_ c
  | .beginString => beginString open_ c
  | .beginStringOrEmpty =>
    if isSpace c then some (.beginStringOrEmpty, open_)
    else if c = '}' then endValue (.objectValue :: open_.tail) c
    else beginString open_ c
  | .endValue => endValue open_ c
  | .endTop => if isSpace c then some (.endTop, open_) else none
  | .inString =>
    if c = '"' then some (.endValue, open_) else if c = '\\' then some (.inStringEsc, open_)
    else if c.toNat < 32 then none else some (.inString, open_)
  | .inStringEsc =>
    if c ∈ ['b', 'f', 'n', 'r', 't', '\\', '/', '"'] then some (.inString, open_)
    else if c = 'u' then some (.inStringEscU 3, open_) else none
  | .inStringEscU left =>
    if isHexDigit c then some (if left = 0 then .inString
      else .inStringEscU (left - 1), open_) else none
  | .literal (x :: left) =>
    if c = x then some (if left = [] then .endValue else .literal left, open_) else none
  | .literal [] => none
  | .neg => if c = '0' then some (.zero, open_) else if c.isDigit then some (.one, open_) else none
  | .one =>
    if c.isDigit then some (.one, open_) else if c = '.' then some (.dot, open_)
    else if c = 'e' ∨ c = 'E' then some (.exp, open_) else endValue open_ c
  | .zero =>
    if c = '.' then some (.dot, open_) else if c = 'e' ∨
      c = 'E' then some (.exp, open_) else endValue open_ c
  | .dot => if c.isDigit then some (.dot0, open_) else none
  | .dot0 =>
    if c.isDigit then some (.dot0, open_) else if c = 'e' ∨
      c = 'E' then some (.exp, open_) else endValue open_ c
  | .exp =>
    if c = '+' ∨ c = '-' then some (.expSign, open_) else if c.isDigit
      then some (.exp0, open_) else none
  | .expSign => if c.isDigit then some (.exp0, open_) else none
  | .exp0 => if c.isDigit then some (.exp0, open_) else endValue open_ c

def scan : State → List Char → Option State
  | s, [] => some s
  | s, c :: cs => step s c >>= fun s' => scan s' cs

/-- `checkValid`: at the end a blank must complete the value. -/
def valid (cs : List Char) : Bool :=
  match scan (.beginValue, []) cs >>= fun s => step s ' ' with
  | some (.endTop, _) => true
  | _ => false

example : valid "\x7b\"a\": [1, -2.5e3, \"\\u00e9\"], \"b\": null\x7d ".toList = true ∧
    valid "\x7b\"a\" 1\x7d".toList = false ∧
    valid "[1,]".toList = false ∧ valid "01".toList = false := by
  decide

/-- Where in a text of JSON a place is: how deep, and whether within a string. -/
structure Place where
  depth : Nat := 0
  inString : Bool := false
  escaped : Bool := false

def Place.next (p : Place) (c : Char) : Place :=
  if p.escaped then { p with escaped := false }
  else if p.inString then
    if c = '\\' then { p with escaped := true } else if c = '"' then { p with
      inString := false } else p
  else if c = '"' then { p with inString := true }
  else if c = '{' ∨ c = '[' then { p with depth := p.depth + 1 }
  else if c = '}' ∨ c = ']' then { p with depth := p.depth - 1 }
  else p

/-- The pieces of a text between the separators that stand outside of all values. -/
def pieces (sep : Char) : Place → List Char → List (List Char)
  | _, [] => [[]]
  | p, c :: cs =>
    if c = sep ∧ p.depth = 0 ∧ p.inString = false then [] :: pieces sep p cs
    else match pieces sep (p.next c) cs with
      | [] => [[c]]
      | piece :: rest => (c :: piece) :: rest

def trimSpace (cs : List Char) : List Char :=
  ((cs.dropWhile isSpace).reverse.dropWhile isSpace).reverse

/-- The members of a text that is an object: the name and the value of each as they stand there. -/
def members (cs : List Char) : Option (List (List Char × List Char)) :=
  match trimSpace cs with
  | '{' :: inside =>
    if trimSpace inside.dropLast = [] then some []
    else (pieces ',' {} inside.dropLast).mapM fun member =>
      match pieces ':' {} member with
      | [name, value] => some (trimSpace name, trimSpace value)
      | _ => none
  | _ => none

example : members " \x7b\"a\" : [1, \x7b\"x\":2\x7d], \"b:,\":\"\\\",\"\x7d ".toList =
    some [("\"a\"".toList, "[1, \x7b\"x\":2\x7d]".toList),
      ("\"b:,\"".toList, "\"\\\",\"".toList)] := by
  decide

section unquote

def hexValue (c : Char) : Nat :=
  if c.isDigit then c.toNat - 48 else if 'a' ≤ c && c ≤ 'f' then c.toNat - 87 else c.toNat - 55

def hex4 (a b c d : Char) : Nat :=
  ((hexValue a * 16 + hexValue b) * 16 + hexValue c) * 16 + hexValue d

def inRange (lo hi : Nat) (c : Char) : Bool := lo ≤ c.toNat && c.toNat ≤ hi

/-- The length of the UTF-8 sequence that octets begin with, or 0 where they begin with none. -/
def runeLength : List Char → Nat
  | a :: rest =>
    if inRange 0 0x7f a then 1
    else match rest with
      | b :: rest =>
        if inRange 0xc2 0xdf a && inRange 0x80 0xbf b then 2
        else match rest with
          | c :: rest =>
            if (a.toNat = 0xe0 && inRange 0xa0 0xbf b || inRange 0xe1 0xec a &&
              inRange 0x80 0xbf b ||
                a.toNat = 0xed && inRange 0x80 0x9f b || inRange 0xee 0xef a &&
                  inRange 0x80 0xbf b) &&
                inRange 0x80 0xbf c then 3
            else match rest with
              | d :: _ =>
                if (a.toNat = 0xf0 && inRange 0x90 0xbf b || inRange 0xf1 0xf3 a &&
                  inRange 0x80 0xbf b ||
                    a.toNat = 0xf4 && inRange 0x80 0x8f b) && inRange 0x80 0xbf c &&
                      inRange 0x80 0xbf d then 4
                else 0
              | [] => 0
          | [] => 0
      | [] => 0
  | [] => 0

/-- The octets of a character, or of U+FFFD for half of a surrogate pair. -/
def runeOctets (n : Nat) : List Char :=
  latin (String.utf8EncodeChar (if n.isValidChar then Char.ofNat n else '\ufffd'))

/-- The octets that a string stands for (`unquote`), of which the first so many are taken as
they are. What is not UTF-8 becomes U+FFFD. -/
def unescape : Nat → List Char → List Char
  | n + 1, c :: cs => c :: unescape n cs
  | 0, '\\' :: 'u' :: a :: b :: c :: d :: '\\' :: 'u' :: e :: f :: g :: h :: cs =>
    let hi := hex4 a b c d
    let lo := hex4 e f g h
    if (0xd800 ≤ hi ∧ hi < 0xdc00) ∧ 0xdc00 ≤ lo ∧ lo < 0xe000 then
      runeOctets (0x10000 + (hi - 0xd800) * 0x400 + (lo - 0xdc00)) ++ unescape 0 cs
    else runeOctets hi ++ unescape 0 ('\\' :: 'u' :: e :: f :: g :: h :: cs)
  | 0, '\\' :: 'u' :: a :: b :: c :: d :: cs => runeOctets (hex4 a b c d) ++ unescape 0 cs
  | 0, '\\' :: c :: cs =>
    (if c = 'b' then '\x08' else if c = 'f' then '\x0c' else if c = 'n' then '\n'
      else if c = 'r' then '\r'
      else if c = 't' then '\t' else c) :: unescape 0 cs
  | 0, c :: cs =>
    match runeLength (c :: cs) with
    | 0 => runeOctets 0xfffd ++ unescape 0 cs
    | n + 1 => c :: unescape n cs
  | _, [] => []

/-- What a string literal stands for. -/
def unquote : List Char → Option (List Char)
  | '"' :: cs => some (unescape 0 cs.dropLast)
  | _ => none

example : unquote "\"a\\n\\u00e9\\ud83d\\ude00\"".toList =
      some (latin (Encoding.utf8 "a\né😀")) := by decide

end unquote

/-! An object whose members are texts that need no escapes. -/
section object

/-- A printable character of ASCII that stands in a string as it is. -/
def Plain (c : Char) : Prop := (32 ≤ c.toNat ∧ c.toNat < 127) ∧ c ≠ '"' ∧ c ≠ '\\'

instance (c : Char) : Decidable (Plain c) := inferInstanceAs (Decidable (_ ∧ _))

def quote (cs : List Char) : List Char := '"' :: (cs ++ ['"'])

def fieldText (f : List Char × List Char) : List Char := quote f.1 ++ ':' :: quote f.2

/-- The members, with commas between them, and the end of the object. -/
def fieldsText : List (List Char × List Char) → List Char
  | [] => ['}']
  | [f] => fieldText f ++ ['}']
  | f :: fs => fieldText f ++ ',' :: fieldsText fs

variable {cs rest : List Char} {open_ : List Nest} {fields : List (List Char × List Char)}
  {f : List Char × List Char}

theorem scan_append {s s' : State} {xs ys : List Char} (h : scan s xs = some s') :
    scan s (xs ++ ys) = scan s' ys := by
  induction xs generalizing s with
  | nil =>
    cases h
    rfl
  | cons x xs ih =>
    obtain ⟨t, ht, h⟩ := Option.bind_eq_some_iff.mp h
    rw [List.cons_append, scan, ht]
    exact ih h

theorem scan_plain (h : ∀ c ∈ cs, Plain c) :
    scan (.inString, open_) cs = some (.inString, open_) := by
  induction cs with
  | nil => rfl
  | cons c cs ih =>
    obtain ⟨⟨hlo, -⟩, hquote, hescape⟩ := h c (.head _)
    have hstep : step (.inString, open_) c = some (.inString, open_) := by
      simp [step, hquote, hescape, Nat.not_lt.mpr hlo]
    rw [scan, hstep]
    exact ih fun x hx => h x (.tail _ hx)

theorem scan_string (h : ∀ c ∈ cs, Plain c) :
    scan (.inString, open_) (cs ++ '"' :: rest) = scan (.endValue, open_) rest := by
  rw [scan_append (scan_plain h), scan]
  rfl

theorem scan_field {mode : Mode} (hmode : mode = .beginString ∨ mode = .beginStringOrEmpty)
    (hname : ∀ c ∈ f.1, Plain c) (hvalue : ∀ c ∈ f.2, Plain c) :
    scan (mode, [.objectKey]) (fieldText f ++ rest) = scan (.endValue, [.objectValue]) rest := by
  have hbegin : step (mode, [.objectKey]) '"' = some (.inString, [.objectKey]) := by
    rcases hmode with rfl | rfl <;> rfl
  have hcolon : step (.endValue, [.objectKey]) ':' = some (.beginValue, [.objectValue]) := rfl
  have hquote : step (.beginValue, [.objectValue]) '"' = some (.inString, [.objectValue]) := rfl
  simp only [fieldText, quote, List.cons_append, List.append_assoc, List.nil_append, scan,
    hbegin, Option.bind_eq_bind,
    Option.bind_some]
  rw [scan_string hname]
  simp only [scan, hcolon, hquote, Option.bind_eq_bind, Option.bind_some]
  rw [scan_string hvalue]

theorem scan_fieldsText {mode : Mode} (hmode : mode = .beginString ∨ mode = .beginStringOrEmpty)
    (hne : fields ≠ []) (h : ∀ f ∈ fields, (∀ c ∈ f.1, Plain c) ∧ ∀ c ∈ f.2, Plain c) :
    scan (mode, [.objectKey]) (fieldsText fields) = some (.endTop, []) := by
  induction fields generalizing mode with
  | nil => exact absurd rfl hne
  | cons f fs ih =>
    obtain ⟨hname, hvalue⟩ := h f (.head _)
    cases fs with
    | nil =>
      rw [fieldsText, scan_field hmode hname hvalue]
      rfl
    | cons g gs =>
      have hcomma : step (.endValue, [.objectValue]) ',' = some (.beginString, [.objectKey]) := rfl
      rw [fieldsText, scan_field hmode hname hvalue, scan, hcomma]
      · exact ih (.inl rfl) (by simp) fun x hx => h x (.tail _ hx)
      · simp

/-- The text of such an object is JSON. -/
theorem valid_object (hne : fields ≠ [])
    (h : ∀ f ∈ fields, (∀ c ∈ f.1, Plain c) ∧ ∀ c ∈ f.2, Plain c) :
    valid ('{' :: fieldsText fields) = true := by
  have hbegin : step (.beginValue, []) '{' = some (.beginStringOrEmpty, [.objectKey]) := rfl
  have hscan := scan_fieldsText (.inr rfl) hne h
  simp only [valid, scan, hbegin, Option.bind_eq_bind, Option.bind_some, hscan]
  rfl

/-- Put a text before the first of some pieces. -/
def prepend (xs : List Char) : List (List Char) → List (List Char)
  | [] => [xs]
  | piece :: more => (xs ++ piece) :: more

theorem prepend_prepend (xs ys : List Char) (ps : List (List Char)) :
    prepend xs (prepend ys ps) = prepend (xs ++ ys) ps := by
  cases ps <;> simp [prepend]

theorem pieces_cons {sep c : Char} {p : Place} (h : c ≠ sep ∨ p.inString = true) :
    pieces sep p (c :: rest) = prepend [c] (pieces sep (p.next c) rest) := by
  have hno : ¬(c = sep ∧ p.depth = 0 ∧ p.inString = false) := by
    rintro ⟨hc, -, hin⟩
    rcases h with h | h
    · exact h hc
    · rw [hin] at h
      cases h
  rw [pieces, if_neg hno]
  cases pieces sep (p.next c) rest <;> rfl

theorem pieces_sep (sep : Char) : pieces sep {} (sep :: rest) = [] :: pieces sep {} rest := by
  rw [pieces, if_pos ⟨rfl, rfl, rfl⟩]

/-- A string is no place for a separator. -/
theorem pieces_quote {sep : Char} (hsep : sep ≠ '"') (h : ∀ c ∈ cs, Plain c) :
    pieces sep {} (quote cs ++ rest) = prepend (quote cs) (pieces sep {} rest) := by
  have hinside : pieces sep { inString := true } (cs ++ '"' :: rest) = prepend (cs ++ ['"'])
      (pieces sep {} rest) := by
    induction cs with
    | nil =>
      rw [List.nil_append, pieces_cons (.inr rfl)]
      rfl
    | cons c cs ih =>
      obtain ⟨-, hquote, hescape⟩ := h c (.head _)
      have hnext : Place.next { inString := true } c = { inString := true } := by
        simp [Place.next, hquote, hescape]
      rw [List.cons_append, pieces_cons (.inr rfl), hnext, ih fun x hx =>
        h x (.tail _ hx), prepend_prepend]
      rfl
  have hnext : Place.next {} '"' = { inString := true } := rfl
  rw [quote, List.cons_append, List.append_assoc, pieces_cons (.inl hsep.symm), hnext,
    List.singleton_append, hinside,
    prepend_prepend]
  rfl

theorem pieces_field (hname : ∀ c ∈ f.1, Plain c) (hvalue : ∀ c ∈ f.2, Plain c) :
    pieces ':' {} (fieldText f) = [quote f.1, quote f.2] := by
  have hlast : pieces ':' {} (quote f.2 ++ []) = _ := pieces_quote (by decide) hvalue
  rw [List.append_nil] at hlast
  rw [fieldText, pieces_quote (by decide) hname, pieces_sep, hlast]
  simp [prepend, pieces]

theorem pieces_fields (hne : fields ≠ [])
    (h : ∀ f ∈ fields, (∀ c ∈ f.1, Plain c) ∧ ∀ c ∈ f.2, Plain c) :
    pieces ',' {} (fieldsText fields).dropLast = fields.map fieldText := by
  have hfield : ∀ f ∈ fields, ∀ rest, pieces ',' {} (fieldText f ++ rest) = prepend (fieldText f)
      (pieces ',' {} rest) := by
    intro f hf rest
    have hnext : Place.next {} ':' = {} := rfl
    rw [fieldText, List.append_assoc, pieces_quote (by decide) (h f hf).1, List.cons_append,
      pieces_cons (.inl (by decide)),
      hnext, pieces_quote (by decide) (h f hf).2, prepend_prepend, prepend_prepend]
    simp
  induction fields with
  | nil => exact absurd rfl hne
  | cons f fs ih =>
    cases fs with
    | nil =>
      have hlast := hfield f (.head _) []
      rw [List.append_nil] at hlast
      rw [fieldsText, List.dropLast_concat, hlast]
      simp [prepend, pieces]
    | cons g gs =>
      have hrest : fieldsText (g :: gs) ≠ [] := by
        cases gs <;> simp [fieldsText]
      rw [fieldsText, List.dropLast_append_of_ne_nil (by simp),
        List.dropLast_cons_of_ne_nil hrest, hfield f (.head _),
        pieces_sep, ih (by simp) (fun x hx => h x (.tail _ hx)) fun x hx => hfield x (.tail _ hx)]
      · simp [prepend]
      · simp

theorem trimSpace_quote (cs : List Char) : trimSpace (quote cs) = quote cs := by
  have hquote : isSpace '"' = false := by decide
  simp [trimSpace, quote, hquote]

theorem fieldsText_ends (fields : List (List Char × List Char)) :
    (fieldsText fields).dropLast ++ ['}'] = fieldsText fields := by
  induction fields with
  | nil => rfl
  | cons f fs ih =>
    cases fs with
    | nil => rw [fieldsText, List.dropLast_concat]
    | cons g gs =>
      have hrest : fieldsText (g :: gs) ≠ [] := by
        cases gs <;> simp [fieldsText]
      rw [fieldsText, List.dropLast_append_of_ne_nil (by simp),
        List.dropLast_cons_of_ne_nil hrest, List.append_assoc,
        List.cons_append, ih]
      simp

theorem trimSpace_ne_nil {c : Char} (h : isSpace c = false) : trimSpace (c :: rest) ≠ [] := by
  have hmem : c ∈ trimSpace (c :: rest) := by
    rw [trimSpace, List.dropWhile_cons_of_neg (by simp [h]), List.reverse_cons,
      List.dropWhile_append]
    split <;> simp [h]
  exact List.ne_nil_of_mem hmem

theorem trimSpace_object (fields : List (List Char × List Char)) :
    trimSpace ('{' :: fieldsText fields) = '{' :: fieldsText fields := by
  have hopen : isSpace '{' = false := by decide
  have hclose : isSpace '}' = false := by decide
  rw [← fieldsText_ends]
  simp [trimSpace, hopen, hclose]

/-- The members of such an object are those it was written from. -/
theorem members_object (hne : fields ≠ [])
    (h : ∀ f ∈ fields, (∀ c ∈ f.1, Plain c) ∧ ∀ c ∈ f.2, Plain c) :
    members ('{' :: fieldsText fields) = some (fields.map fun f => (quote f.1, quote f.2)) := by
  have hinside : trimSpace (fieldsText fields).dropLast ≠ [] := by
    obtain ⟨f, fs, rfl⟩ := List.exists_cons_of_ne_nil hne
    have hbegins : ∃ inside, (fieldsText (f :: fs)).dropLast = '"' :: inside := by
      cases fs <;> exact ⟨_, List.dropLast_cons_of_ne_nil (by simp)⟩
    obtain ⟨inside, hinside⟩ := hbegins
    rw [hinside]
    exact trimSpace_ne_nil (by decide)
  simp only [members, trimSpace_object]
  rw [if_neg hinside, pieces_fields hne h, List.mapM_map]
  clear hne hinside
  induction fields with
  | nil => rfl
  | cons f fs ih =>
    obtain ⟨hname, hvalue⟩ := h f (.head _)
    rw [List.mapM_cons, ih fun x hx => h x (.tail _ hx)]
    simp only [Function.comp_apply, pieces_field hname hvalue, trimSpace_quote]
    rfl

theorem unescape_plain (h : ∀ c ∈ cs, Plain c) : unescape 0 cs = cs := by
  induction cs with
  | nil => rfl
  | cons c cs ih =>
    obtain ⟨⟨-, hhi⟩, -, hescape⟩ := h c (.head _)
    have hlength : runeLength (c :: cs) = 1 := by
      have hascii : inRange 0 0x7f c = true := by
        simp only [inRange, Bool.and_eq_true, decide_eq_true_eq]
        omega
      rw [runeLength.eq_def]
      simp [hascii]
    have hrest := ih fun x hx => h x (.tail _ hx)
    rw [unescape]
    · simp only [hlength, hrest]
    · exact fun _ _ _ _ _ _ _ _ _ hc => absurd hc hescape
    · exact fun _ _ _ _ _ hc => absurd hc hescape
    · exact fun _ _ hc => absurd hc hescape

theorem unquote_quote (h : ∀ c ∈ cs, Plain c) : unquote (quote cs) = some cs := by
  rw [quote, unquote, List.dropLast_concat, unescape_plain h]

end object

end JsonScan
