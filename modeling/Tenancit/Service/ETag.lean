import Tenancit.Service.Resolve

/-!
The text that `computeETag` hashes determines what goes into it: the tenant's identifier,
slug and update time, and for each resource, in the order of identifiers, its status, its
own update time, that of its definition and that of its source.
-/
namespace Tenancit.Service

open Encoding Crypto Store Queries

theorem mem_dashed {h : List Char} {ch : Char} (hmem : ch ∈ UUID.dashed h) : ch ∈ h ∨ ch = '-' := by
  simp only [UUID.dashed, List.mem_append, List.mem_cons] at hmem
  rcases hmem with hc | hc | hc | hc | hc | hc | hc | hc | hc
  · exact .inl (List.mem_of_mem_take hc)
  · exact .inr hc
  · exact .inl (List.mem_of_mem_drop (List.mem_of_mem_take hc))
  · exact .inr hc
  · exact .inl (List.mem_of_mem_drop (List.mem_of_mem_take hc))
  · exact .inr hc
  · exact .inl (List.mem_of_mem_drop (List.mem_of_mem_take hc))
  · exact .inr hc
  · exact .inl (List.mem_of_mem_drop hc)

theorem length_dashed {h : List Char} (hlen : h.length = 32) : (UUID.dashed h).length = 36 := by
  simp [UUID.dashed, hlen]

theorem take_drop_parts (l : List Char) : l.take 8 ++ ((l.drop 8).take 4 ++ ((l.drop 12).take 4 ++
    ((l.drop 16).take 4 ++ l.drop 20))) = l := by
  have h₂ : (l.drop 16).take 4 ++ l.drop 20 = l.drop 16 := by
    rw [← List.drop_drop (i := 4) (j := 16), List.take_append_drop]
  have h₃ : (l.drop 12).take 4 ++ l.drop 16 = l.drop 12 := by
    rw [← List.drop_drop (i := 4) (j := 12), List.take_append_drop]
  have h₄ : (l.drop 8).take 4 ++ l.drop 12 = l.drop 8 := by
    rw [← List.drop_drop (i := 4) (j := 8), List.take_append_drop]
  rw [h₂, h₃, h₄, List.take_append_drop]

theorem dashed_inj {g h : List Char} (hlen : g.length = h.length)
    (heq : UUID.dashed g = UUID.dashed h) : g = h := by
  obtain ⟨h₁, heq⟩ := List.append_inj heq (by simp [hlen])
  obtain ⟨h₂, heq⟩ := List.append_inj (List.cons.inj heq).2 (by simp [hlen])
  obtain ⟨h₃, heq⟩ := List.append_inj (List.cons.inj heq).2 (by simp [hlen])
  obtain ⟨h₄, heq⟩ := List.append_inj (List.cons.inj heq).2 (by simp [hlen])
  rw [← take_drop_parts g, ← take_drop_parts h, h₁, h₂, h₃, h₄, (List.cons.inj heq).2]

theorem text_ascii (u : UUID) : ∀ ch ∈ (UUID.text u).toList, ch.toNat < 128 := by
  intro ch hc
  rw [UUID.text, String.toList_ofList] at hc
  rcases mem_dashed hc with hc | rfl
  · exact (mem_hexDigits hc).1
  · decide

theorem length_utf8_of_ascii {s : String} (h : ∀ ch ∈ s.toList, ch.toNat < 128) :
    (utf8 s).length = s.toList.length := by
  unfold utf8
  generalize s.toList = l at h ⊢
  induction l with
  | nil => rfl
  | cons ch cs ih =>
    simp only [List.mem_cons, forall_eq_or_imp] at h
    rw [List.flatMap_cons, utf8EncodeChar_ascii h.1, List.length_append, ih h.2]
    simp [Nat.add_comm]

theorem length_utf8_text (u : UUID) : (utf8 (UUID.text u)).length = 36 := by
  rw [length_utf8_of_ascii (text_ascii u), UUID.text, String.toList_ofList,
    length_dashed (length_hexDigits _ _)]

theorem text_injective : Function.Injective UUID.text := by
  intro u v h
  have hhex := dashed_inj (by simp) (String.ofList_injective h)
  have hbound : (2 : Nat) ^ 128 = 16 ^ 32 := by norm_num
  exact Fin.ext (hexDigits_inj (u.isLt.trans_eq hbound) (v.isLt.trans_eq hbound) hhex)

theorem length_octets (u : UUID) : (UUID.octets u).length = 16 := by simp [UUID.octets]

theorem map_toNat_octets (w : Nat) : ((fixedDigits 256 16 w).map Nat.toUInt8).map UInt8.toNat =
    fixedDigits 256 16 w := by
  rw [List.map_map]
  conv_rhs => rw [← List.map_id (fixedDigits 256 16 w)]
  refine List.map_congr_left fun d hd => ?_
  have hlt : d < 256 := fixedDigits_lt (by norm_num) d hd
  simp only [Function.comp_apply, Nat.toUInt8, UInt8.toNat_ofNat', id_eq]
  omega

theorem octets_injective : Function.Injective UUID.octets := by
  intro u v h
  have hmap := congrArg (List.map UInt8.toNat) h
  rw [UUID.octets, UUID.octets, map_toNat_octets, map_toNat_octets] at hmap
  have hbound : (2 : Nat) ^ 128 = 256 ^ 16 := by norm_num
  exact Fin.ext (fixedDigits_inj (u.isLt.trans_eq hbound) (v.isLt.trans_eq hbound) hmap)

theorem status_text_injective : Function.Injective Status.text := by
  intro a b h
  cases a <;> cases b <;> first | rfl | exact absurd h (by decide)

theorem colon_notMem_status (s : Status) : colon ∉ utf8 s.text := by
  cases s <;> decide

/-- What the lines of a header say of it. -/
structure HeaderTag where
  id : UUID
  status : Status
  updatedAt : Int
  definitionId : UUID
  definitionKey : String
  definitionUpdatedAt : Int
  source : Option (UUID × Int)

def headerTag (h : ResourceHeader) : HeaderTag where
  id := h.resource.id
  status := h.resource.status
  updatedAt := Timestamp.unixNano h.resource.updatedAt
  definitionId := h.resource.resourceDefinitionId
  definitionKey := h.definitionKey
  definitionUpdatedAt := Timestamp.unixNano h.definitionUpdatedAt
  source := h.resource.sourceResourceId.map fun id => (id, Timestamp.unixNano h.sourceUpdatedAt)

/-- A text that can stand between colons. -/
def Undelimited (s : String) : Prop := ∀ ch ∈ s.toList, ch.toNat < 128 ∧ ch ≠ ':'

theorem Undelimited.colon_notMem {s : String} (h : Undelimited s) : colon ∉ utf8 s :=
  octet_notMem_utf8 (d := ':') (by decide) h

theorem undelimited_tenantSlug {raw : String} (h : (normalizeTenantSlug raw).2 = true) :
    Undelimited (normalizeTenantSlug raw).1 :=
  tenantSlugPattern_ascii (Bool.and_eq_true_iff.mp h).2

theorem undelimited_definitionKey {raw : String} (h : (normalizeDefinitionKey raw).2 = true) :
    Undelimited (normalizeDefinitionKey raw).1 :=
  definitionKeyPattern_ascii h

theorem colon_notMem_decimal (n : Int) : colon ∉ decimal n := notMem_decimal (by decide)

theorem newline_notMem_decimal (n : Int) : newline ∉ decimal n := notMem_decimal (by decide)

/-- What follows the lines of a header: nothing, or those of another. -/
def Rest (b : Bytes) : Prop := ∀ x, b.head? = some x → x = 114

theorem rest_flatMap (hs : List ResourceHeader) : Rest (hs.flatMap headerLines) := by
  intro x hx
  cases hs with
  | nil => simp at hx
  | cons h hs =>
    have : (utf8 "r:") = [114, 58] := by decide
    simpa [headerLines, this, eq_comm] using hx

theorem sourceLine_append_inj {a b : Timestamp} {s s' : Option UUID} {rest rest' : Bytes}
    (hrest : Rest rest) (hrest' : Rest rest')
    (h : sourceLine a s ++ rest = sourceLine b s' ++ rest') :
    (s.map fun id => (id, Timestamp.unixNano a)) = (s'.map fun id => (id, Timestamp.unixNano b)) ∧
      rest = rest' := by
  have hs : utf8 "s:" = [115, 58] := by decide
  cases s with
  | none =>
    cases s' with
    | none => exact ⟨rfl, h⟩
    | some id =>
      have : (115 : UInt8) = 114 := hrest 115 (by rw [show rest = _ from h]; simp [sourceLine, hs])
      exact absurd this (by decide)
  | some id =>
    cases s' with
    | none =>
      have : (115 : UInt8) = 114 :=
        hrest' 115 (by rw [show rest' = _ from h.symm]; simp [sourceLine, hs])
      exact absurd this (by decide)
    | some id' =>
      simp only [sourceLine, List.append_assoc, List.cons_append, List.append_cancel_left_eq] at h
      obtain ⟨hid, h⟩ := List.append_inj h (by simp [length_octets])
      obtain ⟨hnano, h⟩ := append_delim_inj (newline_notMem_decimal _) (newline_notMem_decimal _)
        (List.cons.inj h).2
      rw [octets_injective hid, decimal_injective hnano]
      exact ⟨rfl, by simpa using h⟩

theorem headerLines_append_inj {h h' : ResourceHeader} {rest rest' : Bytes} (hrest : Rest rest)
    (hrest' : Rest rest') (hkey : Undelimited h.definitionKey)
    (hkey' : Undelimited h'.definitionKey) (heq : headerLines h ++ rest = headerLines h' ++ rest') :
    headerTag h = headerTag h' ∧ rest = rest' := by
  simp only [headerLines, List.append_assoc, List.cons_append, List.append_cancel_left_eq] at heq
  obtain ⟨hid, heq⟩ := List.append_inj heq (by simp [length_utf8_text])
  obtain ⟨hstatus, heq⟩ :=
    append_delim_inj (colon_notMem_status _) (colon_notMem_status _) (List.cons.inj heq).2
  have hdd : utf8 ":d:" = [58, 100, 58] := by decide
  simp only [hdd, List.cons_append, List.nil_append] at heq
  obtain ⟨hnano, heq⟩ := append_delim_inj (colon_notMem_decimal _) (colon_notMem_decimal _) heq
  obtain ⟨hdef, heq⟩ :=
    List.append_inj (List.cons.inj (List.cons.inj heq).2).2 (by simp [length_utf8_text])
  obtain ⟨hdkey, heq⟩ := append_delim_inj hkey.colon_notMem hkey'.colon_notMem (List.cons.inj heq).2
  obtain ⟨hdnano, heq⟩ := append_delim_inj (newline_notMem_decimal _) (newline_notMem_decimal _) heq
  obtain ⟨hsource, hrest⟩ := sourceLine_append_inj hrest hrest' heq
  refine ⟨?_, hrest⟩
  simp only [headerTag, HeaderTag.mk.injEq]
  exact ⟨text_injective (utf8_injective hid), status_text_injective (utf8_injective hstatus),
    decimal_injective hnano, text_injective (utf8_injective hdef), utf8_injective hdkey,
    decimal_injective hdnano, hsource⟩

theorem flatMap_headerLines_inj {hs hs' : List ResourceHeader}
    (hkeys : ∀ h ∈ hs, Undelimited h.definitionKey)
    (hkeys' : ∀ h ∈ hs', Undelimited h.definitionKey)
    (heq : hs.flatMap headerLines = hs'.flatMap headerLines) :
    hs.map headerTag = hs'.map headerTag := by
  have hne : ∀ h : ResourceHeader, headerLines h ≠ [] := by
    intro h
    have : (utf8 "r:") = [114, 58] := by decide
    simp [headerLines, this]
  induction hs generalizing hs' with
  | nil =>
    cases hs' with
    | nil => rfl
    | cons h' hs' =>
      rw [List.flatMap_nil, List.flatMap_cons, eq_comm, List.append_eq_nil_iff] at heq
      exact absurd heq.1 (hne h')
  | cons h hs ih =>
    cases hs' with
    | nil =>
      rw [List.flatMap_nil, List.flatMap_cons, List.append_eq_nil_iff] at heq
      exact absurd heq.1 (hne h)
    | cons h' hs' =>
      rw [List.flatMap_cons, List.flatMap_cons] at heq
      simp only [List.mem_cons, forall_eq_or_imp] at hkeys hkeys'
      obtain ⟨htag, hrest⟩ :=
        headerLines_append_inj (rest_flatMap hs) (rest_flatMap hs') hkeys.1 hkeys'.1 heq
      rw [List.map_cons, List.map_cons, htag, ih hkeys.2 hkeys'.2 hrest]

theorem mem_sortHeaders {hs : List ResourceHeader} {h : ResourceHeader} :
    h ∈ sortHeaders hs ↔ h ∈ hs :=
  List.mem_insertionSort _

/-- The preimage of the tag determines the tenant's columns and those of its resources. -/
theorem etagPreimage_inj {t t' : Tenant} {hs hs' : List ResourceHeader} (hslug : Undelimited t.slug)
    (hslug' : Undelimited t'.slug) (hkeys : ∀ h ∈ hs, Undelimited h.definitionKey)
    (hkeys' : ∀ h ∈ hs', Undelimited h.definitionKey)
    (heq : etagPreimage t hs = etagPreimage t' hs') :
    t.id = t'.id ∧ t.slug = t'.slug ∧ Timestamp.unixNano t.updatedAt =
      Timestamp.unixNano t'.updatedAt ∧
      (sortHeaders hs).map headerTag = (sortHeaders hs').map headerTag := by
  simp only [etagPreimage, tenantLine, List.append_assoc, List.cons_append,
    List.append_cancel_left_eq] at heq
  obtain ⟨hid, heq⟩ := List.append_inj heq (by simp [length_utf8_text])
  obtain ⟨hs, heq⟩ := append_delim_inj hslug.colon_notMem hslug'.colon_notMem (List.cons.inj heq).2
  obtain ⟨hnano, heq⟩ := append_delim_inj (colon_notMem_decimal _) (colon_notMem_decimal _) heq
  obtain ⟨-, heq⟩ := append_delim_inj (newline_notMem_decimal _) (newline_notMem_decimal _) heq
  refine ⟨text_injective (utf8_injective hid), utf8_injective hs, decimal_injective hnano,
    flatMap_headerLines_inj ?_ ?_ (by simpa using heq)⟩
  · exact fun h hh => hkeys h (mem_sortHeaders.mp hh)
  · exact fun h hh => hkeys' h (mem_sortHeaders.mp hh)

/-- With an injective hash equal tags have equal preimages. -/
theorem computeETag_inj {sha256 : Bytes → Bytes} (hsha : Function.Injective sha256) {t t' : Tenant}
    {hs hs' : List ResourceHeader} (h : computeETag sha256 t hs = computeETag sha256 t' hs') :
    etagPreimage t hs = etagPreimage t' hs' := by
  have h := congrArg String.toList h
  simp only [computeETag, String.toList_append, List.append_cancel_right_eq,
    List.append_cancel_left_eq] at h
  exact hsha (hexEncode_injective (String.toList_injective h))

end Tenancit.Service
