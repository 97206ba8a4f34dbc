import Mathlib.Data.Bool.AllAny
import Tenancit.Adminauth.Sessions
import Tenancit.Httpapi.OperationalReports
import Tenancit.Lib.JsonOctets
import Tenancit.Lib.JsonScan
import Tenancit.Lib.TimeText
import Tenancit.Service.ETag

/-!
The cursors of the change feed and of the audit listing (`httpapi/{change_feed,audit_events}.go`).
Each holds the time and the identifier of a row in base64: in the feed as text, with a bar
between them, in the audit listing as JSON. A cursor that a page hands out reads back.
-/
namespace Tenancit.Httpapi

open Encoding Store JsonScan
open Adminauth (Nanoseconds rawURLEncode base64Digit)

section base64

/-- The place of a character in the alphabet of `base64.RawURLEncoding`. -/
def base64Value (c : Char) : Option Nat := (List.range 64).find? fun n => base64Digit n = c

/-- The octets of a run of six-bit values; what is left over of the last is dropped. -/
def decodeSextets : List Nat → Option Bytes
  | a :: b :: c :: d :: rest =>
    let n := a * 262144 + b * 4096 + c * 64 + d
    (decodeSextets rest).map fun bs => (n / 65536).toUInt8 :: (n / 256 % 256).toUInt8 ::
      (n % 256).toUInt8 :: bs
  | [a, b, c] =>
    let n := a * 4096 + b * 64 + c
    some [(n / 1024).toUInt8, (n / 4 % 256).toUInt8]
  | [a, b] => some [((a * 64 + b) / 16).toUInt8]
  | [_] => none
  | [] => some []

/-- `base64.RawURLEncoding.DecodeString`, which passes over line ends. -/
def rawURLDecode (s : List Char) : Option Bytes :=
  ((s.filter fun c => c ≠ '\r' && c ≠ '\n').mapM base64Value).bind decodeSextets

theorem base64Digit_value {n : Nat} (h : n < 64) :
    base64Value (base64Digit n) = some n ∧ base64Digit n ≠ '\r' ∧ base64Digit n ≠ '\n' := by
  revert n
  decide +kernel

/-- The six-bit values that are written for some octets. -/
def sextets : Bytes → List Nat
  | a :: b :: c :: rest =>
    let n := a.toNat * 65536 + b.toNat * 256 + c.toNat
    n / 262144 :: n / 4096 % 64 :: n / 64 % 64 :: n % 64 :: sextets rest
  | [a, b] =>
    let n := a.toNat * 1024 + b.toNat * 4
    [n / 4096, n / 64 % 64, n % 64]
  | [a] => [a.toNat / 4, a.toNat % 4 * 16]
  | [] => []

theorem rawURLEncode_eq (b : Bytes) : rawURLEncode b = (sextets b).map base64Digit := by
  induction b using sextets.induct with
  | case1 a b c rest ih => simp only [rawURLEncode, sextets, List.map_cons, ih]
  | case2 a b => rfl
  | case3 a => rfl
  | case4 => rfl

theorem sextets_lt (b : Bytes) : ∀ n ∈ sextets b, n < 64 := by
  induction b using sextets.induct with
  | case1 a b c rest ih =>
    have ha := a.toNat_lt
    have hb := b.toNat_lt
    have hc := c.toNat_lt
    simp only [sextets, List.forall_mem_cons]
    exact ⟨by omega, by omega, by omega, by omega, ih⟩
  | case2 a b =>
    have ha := a.toNat_lt
    have hb := b.toNat_lt
    simp only [sextets, List.forall_mem_cons]
    exact ⟨by omega, by omega, by omega, by simp⟩
  | case3 a =>
    have ha := a.toNat_lt
    simp only [sextets, List.forall_mem_cons]
    exact ⟨by omega, by omega, by simp⟩
  | case4 => simp [sextets]

theorem toUInt8_eq {n : Nat} {a : UInt8} (h : n = a.toNat) : n.toUInt8 = a := by
  rw [h, Nat.toUInt8, UInt8.ofNat_toNat]

theorem decodeSextets_sextets (b : Bytes) : decodeSextets (sextets b) = some b := by
  induction b using sextets.induct with
  | case1 a b c rest ih =>
    have ha := a.toNat_lt
    have hb := b.toNat_lt
    have hc := c.toNat_lt
    simp only [sextets, decodeSextets, ih, Option.map_some]
    rw [toUInt8_eq (a := a) (by omega), toUInt8_eq (a := b) (by omega),
      toUInt8_eq (a := c) (by omega)]
  | case2 a b =>
    have ha := a.toNat_lt
    have hb := b.toNat_lt
    simp only [sextets, decodeSextets]
    rw [toUInt8_eq (a := a) (by omega), toUInt8_eq (a := b) (by omega)]
  | case3 a =>
    have ha := a.toNat_lt
    simp only [sextets, decodeSextets]
    rw [toUInt8_eq (a := a) (by omega)]
  | case4 => rfl

/-- What was encoded decodes. -/
theorem rawURLDecode_encode (b : Bytes) : rawURLDecode (rawURLEncode b) = some b := by
  have hvalue : ∀ ns : List Nat, (∀ n ∈ ns, n < 64) → (ns.map base64Digit).filter (fun c =>
    c ≠ '\r' && c ≠ '\n') =
      ns.map base64Digit ∧ (ns.map base64Digit).mapM base64Value = some ns := by
    intro ns h
    induction ns with
    | nil => exact ⟨rfl, rfl⟩
    | cons n ns ih =>
      obtain ⟨hval, hr, hn⟩ := base64Digit_value (h n (.head _))
      obtain ⟨hfilter, hmap⟩ := ih fun m hm => h m (.tail _ hm)
      constructor
      · rw [List.map_cons, List.filter_cons_of_pos (by simp [hr, hn]), hfilter]
      · rw [List.map_cons, List.mapM_cons, hval, hmap]
        rfl
  obtain ⟨hfilter, hmap⟩ := hvalue _ (sextets_lt b)
  rw [rawURLDecode, rawURLEncode_eq, hfilter, hmap, Option.bind_some, decodeSextets_sextets]

theorem ofList_rawURLEncode_ne {b : Bytes} (h : b ≠ []) : String.ofList (rawURLEncode b) ≠ "" := by
  intro hempty
  have hback := rawURLDecode_encode b
  rw [String.ofList_eq_empty_iff.mp hempty] at hback
  exact h (Option.some.inj hback).symm

end base64

section uuid

/-- The identifier of thirty-two hexadecimal digits. -/
def unhexUUID (h : List Char) : Option UUID :=
  if h.all isHexDigit then some (Fin.ofNat _ (h.foldl (fun n c => n * 16 + hexValue c) 0)) else none

/-- `xxxxxxxx-xxxx-xxxx-xxxx-xxxxxxxxxxxx`, and perhaps more that is not looked at. -/
def parseDashed (s : List Char) : Option UUID :=
  if s[8]? = some '-' ∧ s[13]? = some '-' ∧ s[18]? = some '-' ∧ s[23]? = some '-' then
    unhexUUID (s.take 8 ++
      ((s.drop 9).take 4 ++ ((s.drop 14).take 4 ++ ((s.drop 19).take 4 ++ (s.drop 24).take 12))))
  else none

theorem hexValue_digitChar {d : Nat} (h : d < 16) :
    hexValue d.digitChar = d ∧ isHexDigit d.digitChar = true := by
  revert d
  decide

theorem foldl_hexDigits (width n : Nat) :
    (hexDigits width n).foldl (fun n c => n * 16 + hexValue c) 0 = n % 16 ^ width := by
  induction width generalizing n with
  | zero => simp [hexDigits, fixedDigits, Nat.mod_one]
  | succ w ih =>
    have hlast := (hexValue_digitChar (Nat.mod_lt n (by decide : 16 > 0))).1
    have hfirst := ih (n / 16)
    simp only [hexDigits] at hfirst
    rw [hexDigits, fixedDigits, List.map_append, List.foldl_append, hfirst,
      List.map_singleton, List.foldl_cons,
      List.foldl_nil, hlast, pow_succ', Nat.mod_mul]
    ring

theorem unhexUUID_hexDigits (u : UUID) : unhexUUID (hexDigits 32 u.val) = some u := by
  have hall : (hexDigits 32 u.val).all isHexDigit = true := by
    refine List.all_eq_true.mpr fun c hc => ?_
    obtain ⟨d, hd, rfl⟩ := List.mem_map.mp hc
    exact (hexValue_digitChar (fixedDigits_lt (by decide) d hd)).2
  have hbound : (16 : Nat) ^ 32 = 2 ^ 128 := by norm_num
  rw [unhexUUID, if_pos hall, foldl_hexDigits, hbound, Nat.mod_eq_of_lt u.isLt]
  exact congrArg some (Fin.ofNat_val_eq_self u)

theorem parseDashed_dashed {h : List Char} (hlen : h.length = 32) :
    parseDashed (UUID.dashed h) = unhexUUID h := by
  obtain ⟨p, q, r, s, t, ⟨hp, hq, hr, hs, ht⟩, hparts, rfl⟩ : ∃ p q r s t : List Char,
      (p.length = 8 ∧ q.length = 4 ∧ r.length = 4 ∧ s.length = 4 ∧ t.length = 12) ∧
      UUID.dashed h = p ++ '-' :: (q ++ '-' :: (r ++ '-' :: (s ++ '-' :: t))) ∧
      h = p ++ (q ++ (r ++ (s ++ t))) := by
    refine ⟨_, _, _, _, _, ?_, rfl, (Service.take_drop_parts h).symm⟩
    simp [hlen]
  rw [hparts, parseDashed, if_pos]
  · congr 1
    simp [List.drop_append, hp, hq, hr, hs, ht, List.take_of_length_le, List.drop_of_length_le]
  · simp [List.getElem?_append, hp, hq, hr, hs]

/-- `uuid.Parse` of `github.com/google/uuid`, of which the cursors rely on this: the text of an
identifier reads back. -/
structure UUIDReader where
  parse : List Char → Option UUID
  parse_text : ∀ id : UUID, parse id.text.toList = some id

/-- The reader of the usual form alone. -/
def UUIDReader.plain : UUIDReader where
  parse s := if s.length = 36 then parseDashed s else none
  parse_text u := by
    have hlen : (UUID.dashed (hexDigits 32 u.val)).length = 36 :=
      Service.length_dashed (length_hexDigits _ _)
    rw [UUID.text, String.toList_ofList, if_pos hlen,
      parseDashed_dashed (length_hexDigits _ _), unhexUUID_hexDigits]

end uuid

/-- Text of ASCII, octet by octet. -/
theorem latin_ascii {cs : List Char} (h : ∀ c ∈ cs, c.toNat < 128) :
    latin (cs.flatMap String.utf8EncodeChar) = cs := by
  induction cs with
  | nil => rfl
  | cons c cs ih =>
    have hc := h c (.head _)
    have hoctet : (octet c).toNat = c.toNat := by
      simp only [octet, Nat.toUInt8, UInt8.toNat_ofNat']
      omega
    have hrest := ih fun x hx => h x (.tail _ hx)
    rw [List.flatMap_cons, utf8EncodeChar_ascii hc]
    simp only [latin, List.map_append, List.map_singleton] at hrest ⊢
    rw [hrest, hoctet, Char.ofNat_toNat]
    rfl

section feed

/-- `time.Time.Format(time.RFC3339Nano)` in UTC. -/
def formatUTC (t : Timestamp) : String :=
  (if (civil (ZonedTime.dayAt 0 t)).1 < 0 then "-" else "") ++ (ZonedTime.ofMicros 0 t).text

def encodeFeedCursor (occurredAt : Timestamp) (id : String) : String :=
  String.ofList (rawURLEncode (utf8 (formatUTC occurredAt ++ "|" ++ id)))

/-- `decodeFeedCursor`: `none` for what is no cursor. -/
def decodeFeedCursor (uuids : UUIDReader) (value : String) : Option (Nanoseconds × UUID) :=
  if value = "" then some (zeroTime, UUID.nil)
  else do
    let decoded ← (rawURLDecode value.toList).map latin
    let parts := (decoded.takeWhile (· ≠ '|'), decoded.dropWhile (· ≠ '|'))
    match parts.2 with
    | [] => none
    | _ :: rest =>
      let when_ ← ZonedTime.parse parts.1
      let id ← uuids.parse rest
      some (when_.unixNano, id)

end feed

section audit

/-- The members of `auditCursor`; a time has an instant and is shown by the clock of a zone. -/
def auditCursorJson (occurredAt : ZonedTime) (id : UUID) : Json :=
  .obj [("occurred_at", .str occurredAt.text), ("id", id.json)]

/-- What `MarshalJSON` writes: a year of four digits, and an offset below a day. -/
def Marshalable (offset : Int) (t : Timestamp) : Prop :=
  FourDigitYear (ZonedTime.dayAt offset t) ∧ offset.natAbs < 1440

instance (offset : Int) (t : Timestamp) : Decidable (Marshalable offset t) :=
  inferInstanceAs (Decidable (_ ∧ _))

/-- `encodeAuditCursor`, where the time is shown in a zone with an offset from UTC in minutes. The
error of `json.Marshal` is dropped, and with it the text. -/
def encodeAuditCursor (offset : Int) (occurredAt : Timestamp) (id : UUID) : String :=
  if Marshalable offset occurredAt then
    String.ofList (rawURLEncode (auditCursorJson (ZonedTime.ofMicros offset occurredAt) id).marshal)
  else ""

/-- `time.Time.UnmarshalJSON` of a member as it stands in the text; `null` leaves the time alone. -/
def unmarshalTime (was : Nanoseconds) (value : List Char) : Option Nanoseconds :=
  if value = "null".toList then some was
  else match value with
    | '"' :: rest =>
      if rest.getLast? =
        some '"' then (ZonedTime.parse rest.dropLast).map ZonedTime.unixNano else none
    | _ => none

/-- A member for `uuid.UUID.UnmarshalText`, which is a string. -/
def unmarshalUUID (uuids : UUIDReader) (was : UUID) (value : List Char) : Option UUID :=
  if value = "null".toList then some was else unquote value >>= uuids.parse

/-- One member of the object, which may be of any case; others are passed over. -/
def unmarshalMember (uuids : UUIDReader) (cursor : Nanoseconds × UUID)
    (member : List Char × List Char) : Option (Nanoseconds × UUID) := do
  let name ← unquote member.1
  if name.map Char.toLower = "occurred_at".toList then
    (unmarshalTime cursor.1 member.2).map fun t => (t, cursor.2)
  else if name.map Char.toLower = "id".toList then
    (unmarshalUUID uuids cursor.2 member.2).map fun id => (cursor.1, id)
  else some cursor

/-- `json.Unmarshal` into an `auditCursor`. -/
def unmarshalCursor (uuids : UUIDReader) (data : List Char) : Option (Nanoseconds × UUID) :=
  if valid data = false then none
  else if trimSpace data = "null".toList then some (zeroTime, UUID.nil)
  else members data >>= fun ms => ms.foldlM (unmarshalMember uuids) (zeroTime, UUID.nil)

/-- `decodeAuditCursor`: `some none` where no cursor is given, `none` for what is no cursor. -/
def decodeAuditCursor (uuids : UUIDReader) (raw : String) : Option (Option (Nanoseconds × UUID)) :=
  if raw = "" then some none
  else do
    let data ← rawURLDecode raw.toList
    let cursor ← unmarshalCursor uuids (latin data)
    if cursor.2 = UUID.nil ∨ cursor.1 = zeroTime then none else some (some cursor)

end audit

section round

variable {uuids : UUIDReader} {t : Timestamp} {offset : Int} {id : UUID}

/-- The characters of times and identifiers. -/
def Wordlike (c : Char) : Prop :=
  (32 ≤ c.toNat ∧ c.toNat < 127) ∧ c ∉ ['"', '\\', '|', '<', '>', '&']

instance (c : Char) : Decidable (Wordlike c) := inferInstanceAs (Decidable (_ ∧ _))

theorem wordlike_isDigit {c : Char} (h : c.isDigit = true) : Wordlike c := by
  have hbounds : 48 ≤ c.toNat ∧ c.toNat ≤ 57 := by
    simpa [Char.isDigit, UInt32.le_iff_toNat_le] using h
  refine ⟨by omega, fun hmem => ?_⟩
  have hall : ∀ x ∈ ['"', '\\', '|', '<', '>', '&'], x.toNat < 48 ∨ 57 < x.toNat :=
    List.all_iff_forall_prop.mp (by decide)
  have hout := hall c hmem
  omega

theorem wordlike_chars (z : ZonedTime) : ∀ c ∈ z.chars, Wordlike c := by
  have hpadded : ∀ w n, ∀ c ∈ (padded w n).toList, Wordlike c :=
    fun w n c hc => wordlike_isDigit (padded_isDigit c hc)
  have hfraction : ∀ c ∈ z.fraction, Wordlike c := by
    intro c hc
    simp only [ZonedTime.fraction] at hc
    split at hc
    · cases hc
    rcases List.mem_cons.mp hc with rfl | hc
    · decide
    obtain ⟨d, hd, rfl⟩ :=
      List.mem_map.mp (List.mem_reverse.mp
        ((List.dropWhile_sublist _).subset (List.mem_reverse.mp hc)))
    have hten : ∀ k < 10, Wordlike k.digitChar := by decide
    exact hten d (fixedDigits_lt (by decide) d hd)
  have hzone : ∀ c ∈ z.zone, Wordlike c := by
    intro c hc
    simp only [ZonedTime.zone] at hc
    split at hc
    · obtain rfl : c = 'Z' := by simpa using hc
      decide
    rcases List.mem_cons.mp hc with rfl | hc
    · split <;> decide
    rcases List.mem_append.mp hc with hc | hc
    · exact hpadded _ _ c hc
    rcases List.mem_cons.mp hc with rfl | hc
    · decide
    · exact hpadded _ _ c hc
  intro c hc
  simp only [ZonedTime.chars, List.mem_append, List.mem_cons] at hc
  have hmarks : Wordlike '-' ∧ Wordlike 'T' ∧ Wordlike ':' := by decide
  rcases hc with hc | rfl | hc | rfl | hc | rfl | hc | rfl | hc | rfl | hc | hc | hc
  exacts [hpadded _ _ c hc, hmarks.1, hpadded _ _ c hc, hmarks.1, hpadded _ _ c hc,
    hmarks.2.1, hpadded _ _ c hc,
    hmarks.2.2, hpadded _ _ c hc, hmarks.2.2, hpadded _ _ c hc, hfraction c hc, hzone c hc]

theorem wordlike_uuid (id : UUID) : ∀ c ∈ id.text.toList, Wordlike c := by
  intro c hc
  rw [UUID.text, String.toList_ofList] at hc
  rcases Service.mem_dashed hc with hc | rfl
  · obtain ⟨d, hd, rfl⟩ := List.mem_map.mp hc
    have hall : ∀ k < 16, Wordlike k.digitChar := by decide
    exact hall d (fixedDigits_lt (by decide) d hd)
  · decide

theorem Wordlike.ascii {c : Char} (h : Wordlike c) : c.toNat < 128 := lt_trans h.1.2 (by decide)

/-- What the feed hands out for a row reads back as the time and the identifier of the row. -/
theorem decodeFeedCursor_encode (hyear : FourDigitYear (ZonedTime.dayAt 0 t)) :
    decodeFeedCursor uuids (encodeFeedCursor t id.text) = some (t * 1000, id) := by
  have hsign : ¬(civil (ZonedTime.dayAt 0 t)).1 < 0 := not_lt.mpr hyear.1
  have htext : (formatUTC t ++ "|" ++ id.text).toList = (ZonedTime.ofMicros 0 t).chars ++
      '|' :: id.text.toList := by
    simp [formatUTC, hsign, ZonedTime.text]
  have hlatin : latin (utf8 (formatUTC t ++ "|" ++ id.text)) = (ZonedTime.ofMicros 0 t).chars ++
      '|' :: id.text.toList := by
    rw [utf8, htext]
    refine latin_ascii fun c hc => ?_
    rcases List.mem_append.mp hc with hc | hc
    · exact (wordlike_chars _ c hc).ascii
    rcases List.mem_cons.mp hc with rfl | hc
    · decide
    · exact (wordlike_uuid _ c hc).ascii
  have hbar : ∀ c ∈ (ZonedTime.ofMicros 0 t).chars, (c ≠ '|' : Bool) = true := by
    intro c hc
    have hnot := (wordlike_chars _ c hc).2
    simp only [List.mem_cons, not_or] at hnot
    simpa using hnot.2.2.1
  have hne : encodeFeedCursor t id.text ≠ "" := by
    refine ofList_rawURLEncode_ne fun hnil => ?_
    rw [hnil] at hlatin
    simp [latin] at hlatin
  rw [decodeFeedCursor, if_neg hne, encodeFeedCursor, String.toList_ofList, rawURLDecode_encode]
  simp only [Option.map_some, Option.bind_eq_bind, Option.bind_some, hlatin]
  rw [List.takeWhile_append_of_pos hbar, List.dropWhile_append_of_pos hbar,
    List.takeWhile_cons_of_neg (by simp),
    List.dropWhile_cons_of_neg (by simp), List.append_nil]
  simp only [ZonedTime.parse_chars (ZonedTime.ofMicros_valid hyear (by decide)),
    uuids.parse_text, Option.bind_some,
    ZonedTime.unixNano_ofMicros hyear.1]

theorem quoted_wordlike {s : String} (h : ∀ c ∈ s.toList, Wordlike c) :
    Json.quoted Json.compact s = quote s.toList := by
  have hescape : s.toList.flatMap Json.compact.escape = s.toList := by
    refine (List.flatMap_congr fun c hc => ?_).trans (List.flatMap_singleton' _)
    obtain ⟨⟨hlo, hhi⟩, hmarks⟩ := h c hc
    simp only [List.mem_cons, List.not_mem_nil, or_false, not_or] at hmarks
    have hne : ∀ d : Char, c ≠ d → c.toNat ≠ d.toNat :=
      fun d hd he => hd (Char.ext (UInt32.toNat_inj.mp he))
    have hlt := hne _ hmarks.2.2.2.1
    have hgt := hne _ hmarks.2.2.2.2.1
    have hamp := hne _ hmarks.2.2.2.2.2
    simp only [Json.compact, Json.escapeHTML]
    split
    · exact absurd (by assumption) hlt
    · exact absurd (by assumption) hgt
    · exact absurd (by assumption) hamp
    · omega
    · omega
    · exact Json.escapeControl_plain ⟨hlo, by omega, hmarks.1, hmarks.2.1⟩
  rw [Json.quoted, hescape, quote]

/-- The JSON of a cursor is an object of two strings that need no escapes. -/
theorem auditCursorJson_marshal (z : ZonedTime) (id : UUID) : latin (auditCursorJson z id).marshal =
    '{' :: fieldsText [("occurred_at".toList, z.chars), ("id".toList, id.text.toList)] := by
  have hnames : (∀ c ∈ "occurred_at".toList, Wordlike c) ∧ ∀ c ∈ "id".toList, Wordlike c :=
    ⟨List.all_iff_forall_prop.mp (by decide), List.all_iff_forall_prop.mp (by decide)⟩
  have htime : ∀ c ∈ z.text.toList, Wordlike c := by
    rw [ZonedTime.text, String.toList_ofList]
    exact wordlike_chars z
  have hrender : (auditCursorJson z id).render Json.compact =
      '{' :: fieldsText [("occurred_at".toList, z.chars), ("id".toList, id.text.toList)] := by
    simp only [auditCursorJson, UUID.json, Json.render, Json.renderFields, Json.renderField,
      quoted_wordlike hnames.1,
      quoted_wordlike hnames.2, quoted_wordlike htime, quoted_wordlike (wordlike_uuid id),
      fieldsText, fieldText]
    simp [Json.compact, ZonedTime.text]
  rw [Json.marshal, hrender]
  refine latin_ascii fun c hc => ?_
  have hquote : ∀ cs : List Char, (∀ x ∈ cs, Wordlike x) → ∀ x ∈ quote cs, x.toNat < 128 := by
    intro cs hcs x hx
    rcases List.mem_cons.mp hx with rfl | hx
    · decide
    rcases List.mem_append.mp hx with hx | hx
    · exact (hcs x hx).ascii
    · obtain rfl := List.mem_singleton.mp hx
      decide
  have hfield : ∀ k v : List Char, (∀ x ∈ k, Wordlike x) → (∀ x ∈ v, Wordlike x) → ∀ x ∈
      fieldText (k, v), x.toNat < 128 := by
    intro k v hk hv x hx
    rcases List.mem_append.mp hx with hx | hx
    · exact hquote k hk x hx
    rcases List.mem_cons.mp hx with rfl | hx
    · decide
    · exact hquote v hv x hx
  simp only [fieldsText, List.mem_cons, List.mem_append, List.not_mem_nil, or_false] at hc
  rcases hc with rfl | hc | rfl | hc | rfl
  · decide
  · exact hfield _ _ hnames.1 (wordlike_chars z) c hc
  · decide
  · exact hfield _ _ hnames.2 (wordlike_uuid id) c hc
  · decide

theorem unmarshalTime_quote {z : ZonedTime} (hz : z.Valid) (was : Nanoseconds) :
    unmarshalTime was (quote z.chars) = some z.unixNano := by
  have hnull : '"' :: (z.chars ++ ['"']) ≠ "null".toList := by simp
  rw [quote, unmarshalTime, if_neg hnull, List.getLast?_concat, if_pos rfl, List.dropLast_concat,
    ZonedTime.parse_chars hz,
    Option.map_some]

theorem unmarshalUUID_quote (id was : UUID) :
    unmarshalUUID uuids was (quote id.text.toList) = some id := by
  have hnull : quote id.text.toList ≠ "null".toList := by simp [quote]
  have hplain : ∀ c ∈ id.text.toList, Plain c := by
    intro c hc
    obtain ⟨hbounds, hmarks⟩ := wordlike_uuid id c hc
    simp only [List.mem_cons, not_or] at hmarks
    exact ⟨hbounds, hmarks.1, hmarks.2.1⟩
  rw [unmarshalUUID, if_neg hnull, unquote_quote hplain, Option.bind_eq_bind,
    Option.bind_some, uuids.parse_text]

theorem unmarshalCursor_json {z : ZonedTime} (hz : z.Valid) (id : UUID) :
    unmarshalCursor uuids (latin (auditCursorJson z id).marshal) = some (z.unixNano, id) := by
  have hplain : ∀ c, Wordlike c → Plain c := by
    rintro c ⟨hbounds, hmarks⟩
    simp only [List.mem_cons, not_or] at hmarks
    exact ⟨hbounds, hmarks.1, hmarks.2.1⟩
  have hfields : ∀ f ∈ [("occurred_at".toList, z.chars), ("id".toList, id.text.toList)],
      (∀ c ∈ f.1, Plain c) ∧ ∀ c ∈ f.2, Plain c := by
    simp only [List.forall_mem_cons, List.not_mem_nil, false_imp_iff, implies_true, and_true]
    have hnames : (∀ c ∈ "occurred_at".toList, Plain c) ∧ ∀ c ∈ "id".toList, Plain c :=
      ⟨List.all_iff_forall_prop.mp (by decide), List.all_iff_forall_prop.mp (by decide)⟩
    exact ⟨⟨hnames.1, fun c hc => hplain c (wordlike_chars z c hc)⟩, hnames.2, fun c hc =>
      hplain c (wordlike_uuid id c hc)⟩
  have hnames : unquote (quote "occurred_at".toList) = some "occurred_at".toList ∧
      unquote (quote "id".toList) = some "id".toList := by decide
  have hnull : trimSpace ('{' :: fieldsText [("occurred_at".toList, z.chars),
    ("id".toList, id.text.toList)]) ≠
      "null".toList := by
    rw [trimSpace_object]
    simp
  rw [auditCursorJson_marshal, unmarshalCursor, valid_object (by simp) hfields,
    if_neg (by decide), if_neg hnull,
    members_object (by simp) hfields]
  simp only [List.map_cons, List.map_nil, Option.bind_eq_bind, Option.bind_some,
    List.foldlM_cons, List.foldlM_nil,
    unmarshalMember, hnames.1, hnames.2]
  rw [unmarshalTime_quote hz, if_pos (by decide), Option.map_some,
    Option.bind_some, if_neg (by decide),
    if_pos (by decide), unmarshalUUID_quote]
  rfl

theorem encodeAuditCursor_ne (hwrite : Marshalable offset t) :
    encodeAuditCursor offset t id ≠ "" := by
  rw [encodeAuditCursor, if_pos hwrite]
  refine ofList_rawURLEncode_ne fun hnil => ?_
  have hlatin := auditCursorJson_marshal (ZonedTime.ofMicros offset t) id
  rw [hnil] at hlatin
  cases hlatin

theorem ne_zeroTime (h : t ≠ Timestamp.zero) : t * 1000 ≠ zeroTime := by
  have hzeroTime : zeroTime = Timestamp.zero * 1000 := by decide
  rw [hzeroTime]
  exact fun heq => h (Int.eq_of_mul_eq_mul_right (by decide) heq)

/-- What the audit listing hands out for a row reads back as the time and the identifier of the
row. -/
theorem decodeAuditCursor_encode (hwrite : Marshalable offset t) (hzero : t ≠ Timestamp.zero)
    (hid : id ≠ UUID.nil) :
    decodeAuditCursor uuids (encodeAuditCursor offset t id) = some (some (t * 1000, id)) := by
  have hjson := @unmarshalCursor_json uuids _ (ZonedTime.ofMicros_valid hwrite.1 hwrite.2) id
  rw [ZonedTime.unixNano_ofMicros hwrite.1.1] at hjson
  rw [decodeAuditCursor, if_neg (encodeAuditCursor_ne hwrite), encodeAuditCursor, if_pos hwrite,
    String.toList_ofList, rawURLDecode_encode]
  simp only [Option.bind_eq_bind, Option.bind_some, hjson]
  rw [if_neg (not_or.mpr ⟨hid, ne_zeroTime hzero⟩)]

end round

end Tenancit.Httpapi
