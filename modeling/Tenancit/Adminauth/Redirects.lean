import Tenancit.Adminauth.BasePath

/-!
`safeRedirectAfter` of `adminauth/oidc_flow.go`: where a browser may be sent after a login. What is
returned stays on the origin and below the base path, also after one decoding of its path and
without its dot segments.
-/
namespace Tenancit.Adminauth

open Encoding Paths

/-- The octets that no redirect may have: a backslash, CR and LF. -/
def unsafeChars : Bytes := utf8 "\\\r\n"

/-- `safeRedirectAfter`; `parseAuthority` is what `url.Parse` finds a host with. -/
def safeRedirectAfter (parseAuthority : Bytes → Bytes → Option Bytes) (value rawBasePath : Bytes) :
    Except String Bytes := do
  let basePath ← normalizeBasePath rawBasePath
  let value := trimSpace value
  if value = [] then
    if basePath = [slash] then .ok [slash] else .ok (basePath ++ [slash])
  else if ¬[slash] <+: value ∨ [slash, slash] <+: value ∨ containsAny unsafeChars value then
    .error "invalid post-login redirect"
  else
    match parse parseAuthority value with
    | none => .error "invalid post-login redirect"
    | some parsed =>
      if parsed.scheme ≠ [] ∨ parsed.host ≠ [] ∨ parsed.opaque_ ≠
        [] then .error "invalid post-login redirect"
      else if parsed.path = [] ∨ containsAny unsafeChars parsed.path
        then .error "invalid post-login redirect"
      else if ∃ segment ∈ parsed.path.splitOn slash, segment = dot ∨ segment = dotDot
        then .error "invalid post-login redirect"
      else if basePath ≠ [slash] ∧ parsed.path ≠ basePath ∧
        ¬(basePath ++ [slash]) <+: parsed.path then
        .error "post-login redirect escapes configured base path"
      else .ok value

/-- A path is the base, or lies below it. -/
def Under (base path : Bytes) : Prop :=
  path = base ∨ (if base = [slash] then [slash] else base ++ [slash]) <+: path

/-- Where a reference leads a browser to: to the same origin, and to the base path or below it. -/
structure StaysUnder (base value : Bytes) : Prop where
  oneSlash : [slash] <+: value ∧ ¬[slash, slash] <+: value
  plain : ∀ b ∈ value, b ∉ unsafeChars
  noControl : ∀ b ∈ (cut 35 value).1, isControl b = false
  path : ∃ path, unescape (rawPath value) = some path ∧ Under base (removeDotSegments path)

variable {parseAuthority : Bytes → Bytes → Option Bytes} {value rawBasePath base result : Bytes}

/-- A reference of which nothing has to be decoded. -/
theorem StaysUnder.of_chars (hone : [slash] <+: value ∧ ¬[slash, slash] <+: value)
    (hchars : ∀ b ∈ value, b = slash ∨ isBasePathChar b = true)
    (hdots : ∀ s ∈ value.tail.splitOn slash, s ≠ dot ∧ s ≠ dotDot) (hunder : Under base value) :
    StaysUnder base value := by
  have hplain : ∀ b ∈ value, b ∉ unsafeChars ∧ isControl b = false ∧ b ≠ 35 ∧ b ≠ 63 ∧ b ≠ 37 := by
    have hbyte : ∀ b, isBasePathChar b = true → b ∉ unsafeChars ∧ isControl b = false ∧ b ≠
        35 ∧ b ≠ 63 ∧ b ≠ 37 :=
      forall_octets (by decide +kernel)
    intro b hb
    rcases hchars b hb with rfl | hchar
    · decide
    · exact hbyte b hchar
  have hfragment : (cut 35 value).1 = value := cut_of_notMem fun hmem => (hplain 35 hmem).2.2.1 rfl
  have hraw : rawPath value = value := by
    rw [rawPath, hfragment, cut_of_notMem fun hmem => (hplain 63 hmem).2.2.2.1 rfl]
  have hroot : value.head? = some slash := by
    obtain ⟨rest, rfl⟩ := hone.1
    rfl
  refine ⟨hone, fun b hb => (hplain b hb).1, fun b hb => ?_, value, ?_, ?_⟩
  · exact (hplain b (hfragment ▸ hb)).2.1
  · rw [hraw]
    exact unescape_eq_self fun hmem => (hplain 37 hmem).2.2.2.2 rfl
  · rw [removeDotSegments_eq_self hroot hdots]
    exact hunder

/-- Without a value to go back to, the browser is sent to the base path itself. -/
theorem default_stays (h : normalizeBasePath rawBasePath = .ok base) :
    StaysUnder base (if base = [slash] then [slash] else base ++ [slash]) := by
  rcases normalizeBasePath_ok h with rfl | hplain
  · exact StaysUnder.of_chars (by decide) (List.forall_mem_singleton.mpr (.inl rfl))
      (by decide) (.inl rfl)
  · rw [if_neg hplain.ne_root]
    refine StaysUnder.of_chars ?_ ?_ ?_ (.inr ?_)
    · refine ⟨hplain.one_slash.1.trans (List.prefix_append _ _), fun hpre => ?_⟩
      obtain ⟨rest, hrest⟩ := hplain.one_slash.1
      obtain ⟨c, rest, rfl⟩ :=
        List.exists_cons_of_ne_nil fun hnil : rest = [] =>
          hplain.ne_root (by rw [← hrest, hnil]; rfl)
      rw [← hrest] at hpre
      refine (hplain.after_slash (show _ = [] ++ slash :: _ from hrest.symm)).2 ?_
      obtain ⟨-, hpre⟩ := List.cons_prefix_cons.mp hpre
      exact congrArg some (List.cons_prefix_cons.mp hpre).1.symm
    · intro b hb
      rcases List.mem_append.mp hb with hb | hb
      · exact hplain.chars b hb
      · exact .inl (List.mem_singleton.mp hb)
    · obtain ⟨⟨segments, hne, rfl, hsegments⟩, -⟩ := hplain
      rw [List.cons_append, List.tail_cons, List.splitOn_append_cons_self,
        List.splitOn_intercalate slash (fun s hs => (hsegments s hs).separate.2) hne]
      intro s hs
      rcases List.mem_append.mp hs with hs | hs
      · exact ⟨(hsegments s hs).dot, (hsegments s hs).dotDot⟩
      · obtain rfl : s = [] := by simpa using hs
        exact ⟨nofun, nofun⟩
    · rw [if_neg hplain.ne_root]

/-- What is returned stays on the origin and under the base path. -/
theorem safeRedirectAfter_stays (hbase : normalizeBasePath rawBasePath = .ok base)
    (h : safeRedirectAfter parseAuthority value rawBasePath = .ok result) :
    StaysUnder base result := by
  rw [safeRedirectAfter, hbase] at h
  change (if trimSpace value = [] then _ else _) = _ at h
  split at h
  · rw [← apply_ite Except.ok, Except.ok.injEq] at h
    exact h ▸ default_stays hbase
  next hvalue =>
    split at h
    · cases h
    next hrooted =>
      obtain ⟨hroot, hrooted⟩ := not_or.mp hrooted
      obtain ⟨hone, hsafe⟩ := not_or.mp hrooted
      have hroot := not_not.mp hroot
      have hhead : (trimSpace value).head? = some slash := by
        obtain ⟨rest, hrest⟩ := hroot
        rw [← hrest]
        rfl
      cases hparse : parse parseAuthority (trimSpace value) with
      | none =>
        rw [hparse] at h
        cases h
      | some parsed =>
        rw [hparse] at h
        obtain ⟨hcontrol, hpath, -, -, -⟩ := parse_rooted hhead hone hparse
        dsimp only at h
        split at h
        · cases h
        split at h
        · cases h
        split at h
        · cases h
        next hdots =>
          split at h
          · cases h
          next hunder =>
            obtain rfl := Except.ok.inj h
            have hpath_root := decoded_rooted hhead hpath
            have hunsafe := containsAny_eq_false.mp (Bool.eq_false_iff.mpr hsafe)
            refine ⟨⟨hroot, hone⟩, hunsafe, hcontrol, parsed.path, hpath, ?_⟩
            rw [removeDotSegments_eq_self hpath_root fun s hs => ?_]
            · by_cases hbase_root : base = [slash]
              · refine .inr ?_
                obtain ⟨rest, hrest⟩ := List.head?_eq_some_iff.mp hpath_root
                rw [if_pos hbase_root, hrest]
                exact List.prefix_append [slash] rest
              · rw [Under, if_neg hbase_root]
                by_contra hout
                obtain ⟨hne, hbelow⟩ := not_or.mp hout
                exact hunder ⟨hbase_root, hne, hbelow⟩
            · refine not_or.mp fun hdot => hdots ⟨s, ?_, hdot⟩
              obtain ⟨rest, hrest⟩ := List.head?_eq_some_iff.mp hpath_root
              rw [hrest, ← List.nil_append (slash :: rest), List.splitOn_append_cons_self]
              rw [hrest] at hs
              exact List.mem_append_right _ hs

section sample

/-- A page below the base path, with a dot in its query, and one that only looks like it. -/
theorem safeRedirectAfter_sample :
    StaysUnder (utf8 "/tenancit") (utf8 "/tenancit/tenants%2Fa?next=../b#..") ∧
      safeRedirectAfter (fun _ _ => none) (utf8 "/tenancit-other") (utf8 " /tenancit/ ") =
        .error "post-login redirect escapes configured base path" := by
  have hbase : normalizeBasePath (utf8 " /tenancit/ ") = .ok (utf8 "/tenancit") := by decide +kernel
  have haccepted : safeRedirectAfter (fun _ _ => none) (utf8 "/tenancit/tenants%2Fa?next=../b#..")
    (utf8 " /tenancit/ ") =
      .ok (utf8 "/tenancit/tenants%2Fa?next=../b#..") := by decide +kernel
  exact ⟨safeRedirectAfter_stays hbase haccepted, by decide +kernel⟩

end sample

end Tenancit.Adminauth
