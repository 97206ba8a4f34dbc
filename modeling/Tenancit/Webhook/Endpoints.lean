import Tenancit.Lib.Addresses
import Tenancit.Lib.Text

/-!
`webhook/security.go`: which endpoints a webhook may have. Every address that the host name
resolves to has to be public; what the filter takes for public is compared with the blocks that
the registries of special-purpose addresses mark as not globally reachable.
-/
namespace Tenancit.Webhook

open Net Text

section filter

def isPublicAddress : IP → Bool
  | none => false
  | some ip => !isUnspecified ip && !isLoopback ip && !isPrivate ip && !isLinkLocalUnicast ip &&
      !isLinkLocalMulticast ip && !isMulticast ip

/-- The blocks that the predicates of the filter are made of. -/
def filteredBlocks : List Block :=
  unspecifiedBlocks ++ loopbackBlocks ++ privateBlocks ++ linkLocalUnicastBlocks ++ multicastBlocks

/-- The filter lets an address pass if and only if it lies in none of its blocks. -/
theorem isPublicAddress_some (ip : List UInt8) :
    isPublicAddress (some ip) = true ↔ inAny filteredBlocks (unmap ip) = false := by
  have hlink : isLinkLocalMulticast ip = true → isMulticast ip = true := isMulticast_of_linkLocal
  have happend : ∀ bs cs u, inAny (bs ++ cs) u = (inAny bs u || inAny cs u) :=
    fun _ _ _ => List.any_append
  have hspec : ∀ {p : Bool} {bs : List Block}, (p = true ↔ inAny bs (unmap ip) = true) →
      inAny bs (unmap ip) = p :=
    fun h => Bool.eq_iff_iff.mpr h.symm
  rw [filteredBlocks, happend, happend, happend, happend, hspec (isUnspecified_iff ip),
    hspec (isLoopback_iff ip),
    hspec (isPrivate_iff ip), hspec (isLinkLocalUnicast_iff ip),
    hspec (isMulticast_iff ip), isPublicAddress]
  cases hmulticast : isMulticast ip with
  | true => simp
  | false =>
    have hnone : isLinkLocalMulticast ip = false :=
      Bool.eq_false_iff.mpr fun h => by simp [hlink h] at hmulticast
    simp [hnone]

end filter

section reachable

/-- The blocks that the registries mark as not globally reachable, and those of multicast;
blocks within others are left out. -/
def specialBlocks : List Block :=
  [⟨[0, 0, 0, 0], 8⟩, ⟨[10, 0, 0, 0], 8⟩, ⟨[100, 64, 0, 0], 10⟩, ⟨[127, 0, 0, 0], 8⟩,
   ⟨[169, 254, 0, 0], 16⟩,
    ⟨[172, 16, 0, 0], 12⟩, ⟨[192, 0, 0, 0], 24⟩, ⟨[192, 0, 2, 0], 24⟩, ⟨[192, 168, 0, 0], 16⟩,
    ⟨[198, 18, 0, 0], 15⟩,
    ⟨[198, 51, 100, 0], 24⟩, ⟨[203, 0, 113, 0], 24⟩, ⟨[224, 0, 0, 0], 4⟩, ⟨[240, 0, 0, 0], 4⟩,
    block6 [] 128, ⟨.replicate 15 0 ++ [1], 128⟩,
    block6 [0, 0x64, 0xff, 0x9b, 0, 1] 48, block6 [1] 64,
    block6 [1, 0, 0, 0, 0, 0, 0, 1] 64, block6 [0x20, 0x01] 23, block6 [0x20, 0x01, 0x0d, 0xb8] 32,
    block6 [0x3f, 0xff] 20,
    block6 [0x5f] 16, block6 [0xfc] 7, block6 [0xfe, 0x80] 10, block6 [0xff] 8]

/-- The IPv4 address that an address of `64:ff9b::/96` stands for. -/
def translated (ip : List UInt8) : Option (List UInt8) :=
  if ip.length = 16 ∧ ip.take 12 = [0, 0x64, 0xff, 0x9b] ++ .replicate 8 0
    then some (ip.drop 12) else none

/-- The address is one of the network that everyone shares, also where it stands for another. -/
def GloballyReachable (address : IP) : Prop :=
  ∃ ip, address = some ip ∧ inAny specialBlocks (unmap ip) = false ∧
    ∀ v ∈ translated (unmap ip), inAny specialBlocks v = false

/-- The blocks among them that the filter lets pass. -/
def missedBlocks : List Block :=
  [⟨[0, 0, 0, 0], 8⟩, ⟨[100, 64, 0, 0], 10⟩, ⟨[192, 0, 0, 0], 24⟩, ⟨[192, 0, 2, 0], 24⟩,
   ⟨[198, 18, 0, 0], 15⟩,
    ⟨[198, 51, 100, 0], 24⟩, ⟨[203, 0, 113, 0], 24⟩, ⟨[240, 0, 0, 0], 4⟩,
    block6 [0, 0x64, 0xff, 0x9b, 0, 1] 48,
    block6 [1] 64, block6 [1, 0, 0, 0, 0, 0, 0, 1] 64, block6 [0x20, 0x01] 23,
    block6 [0x20, 0x01, 0x0d, 0xb8] 32,
    block6 [0x3f, 0xff] 20, block6 [0x5f] 16]

/-- The address lies in a missed block, or stands for one in a special block. -/
def Missed (ip : List UInt8) : Prop :=
  inAny missedBlocks (unmap ip) = true ∨ ∃ v ∈ translated (unmap ip), inAny specialBlocks v = true

theorem inAny_iff {bs : List Block} {ip : List UInt8} :
    inAny bs ip = true ↔ ∃ b ∈ bs, b.contains ip = true :=
  List.any_eq_true

theorem inAny_mono {bs cs : List Block} {ip : List UInt8} (h : bs ⊆ cs) (hip : inAny bs ip = true) :
    inAny cs ip = true := by
  obtain ⟨b, hb, hcontains⟩ := inAny_iff.mp hip
  exact inAny_iff.mpr ⟨b, h hb, hcontains⟩

/-- Where the filter lets an address pass, the missed blocks are all that is left of the special
ones. -/
theorem special_iff_missed {ip : List UInt8} (h : inAny filteredBlocks ip = false) :
    inAny specialBlocks ip = true ↔ inAny missedBlocks ip = true := by
  refine ⟨fun hspecial => ?_, inAny_mono (by decide)⟩
  have hsplit : ∀ b ∈ specialBlocks, b ∈ filteredBlocks ∨ b ∈ missedBlocks := by decide
  obtain ⟨b, hb, hcontains⟩ := inAny_iff.mp hspecial
  rcases hsplit b hb with hfiltered | hmissed
  · rw [inAny_iff.mpr ⟨b, hfiltered, hcontains⟩] at h
    cases h
  · exact inAny_iff.mpr ⟨b, hmissed, hcontains⟩

theorem reachable_iff_not_missed {ip : List UInt8} (h : inAny filteredBlocks (unmap ip) = false) :
    GloballyReachable (some ip) ↔ ¬Missed ip := by
  rw [Missed, ← special_iff_missed h, not_or, Bool.not_eq_true]
  constructor
  · rintro ⟨_, ⟨⟩, hip, hv⟩
    refine ⟨hip, ?_⟩
    rintro ⟨v, hmem, hspecial⟩
    rw [hv v hmem] at hspecial
    cases hspecial
  · rintro ⟨hip, hv⟩
    exact ⟨ip, rfl, hip, fun v hmem => Bool.eq_false_iff.mpr fun hspecial => hv ⟨v, hmem, hspecial⟩⟩

end reachable

section endpoint

/-- `url.URL`, as far as the endpoint of a webhook is concerned. -/
structure URL where
  scheme : String
  hostname : String
  port : String
  user : Option String
  fragment : String
  deriving DecidableEq

structure ResolvedEndpoint where
  url : URL
  addresses : List IP
  deriving DecidableEq

inductive EndpointError where
  | invalidURL
  | notHTTPS
  | unresolved
  | nonPublic
  deriving DecidableEq

def EndpointError.text : EndpointError → String
  | invalidURL => "invalid webhook URL"
  | notHTTPS => "webhook URL must use HTTPS"
  | unresolved => "webhook hostname cannot be resolved"
  | nonPublic => "webhook hostname resolves to a non-public address"

/-- `ResolveEndpoint`: `parse` is `url.Parse`, and `lookupIP` the resolver, which may fail. -/
def resolveEndpoint (parse : String → Option URL) (rawURL : String) (allowLoopbackHTTP : Bool)
    (lookupIP : String → Option (List IP)) : Except EndpointError ResolvedEndpoint :=
  match parse (trimSpace rawURL) with
  | none => .error .invalidURL
  | some endpoint =>
    if endpoint.hostname = "" ∨ endpoint.user ≠ none ∨ endpoint.fragment ≠ ""
      then .error .invalidURL
    else if endpoint.scheme ≠ "https" ∧
      ¬(allowLoopbackHTTP ∧ endpoint.scheme = "http") then .error .notHTTPS
    else
      match lookupIP endpoint.hostname with
      | none | some [] => .error .unresolved
      | some addresses =>
        let exempt (address : IP) : Bool :=
          allowLoopbackHTTP && endpoint.scheme = "http" && isLoopback (address.getD [])
        if addresses.all fun address => exempt address || isPublicAddress address
          then .ok ⟨endpoint, addresses⟩
        else .error .nonPublic

/-- The part of the URL that matters for its acceptance. -/
def URL.Accepted (endpoint : URL) : Prop :=
  endpoint.hostname ≠ "" ∧ endpoint.user = none ∧ endpoint.fragment = "" ∧ endpoint.scheme = "https"

variable {parse : String → Option URL} {rawURL : String} {lookupIP : String → Option (List IP)}

/-- Without the exception for loopback, an endpoint is accepted if and only if its URL is and all
its addresses are public. -/
theorem resolveEndpoint_ok {resolved : ResolvedEndpoint} :
    resolveEndpoint parse rawURL false lookupIP = .ok resolved ↔
    parse (trimSpace rawURL) = some resolved.url ∧ resolved.url.Accepted ∧
      lookupIP resolved.url.hostname = some resolved.addresses ∧ resolved.addresses ≠ [] ∧
      ∀ address ∈ resolved.addresses, isPublicAddress address = true := by
  obtain ⟨url, addresses⟩ := resolved
  unfold resolveEndpoint
  cases hparse : parse (trimSpace rawURL) with
  | none => simp
  | some endpoint =>
    simp only [Bool.false_eq_true, false_and, not_false_eq_true, and_true,
      Bool.false_and, Bool.false_or]
    by_cases hurl : endpoint.hostname = "" ∨ endpoint.user ≠ none ∨ endpoint.fragment ≠ ""
    · rw [if_pos hurl]
      refine iff_of_false nofun ?_
      rintro ⟨⟨⟩, ⟨h1, h2, h3, -⟩, -⟩
      rcases hurl with h | h | h
      · exact h1 h
      · exact h h2
      · exact h h3
    rw [if_neg hurl]
    by_cases hscheme : endpoint.scheme ≠ "https"
    · rw [if_pos hscheme]
      refine iff_of_false nofun ?_
      rintro ⟨⟨⟩, ⟨-, -, -, h⟩, -⟩
      exact hscheme h
    rw [if_neg hscheme]
    obtain ⟨h1, h2⟩ := not_or.mp hurl
    obtain ⟨h2, h3⟩ := not_or.mp h2
    have haccepted : endpoint.Accepted := ⟨h1, not_not.mp h2, not_not.mp h3, not_not.mp hscheme⟩
    rcases hlookup : lookupIP endpoint.hostname with _ | ⟨_ | ⟨a, as⟩⟩
    · refine iff_of_false nofun ?_
      rintro ⟨⟨⟩, -, h, -⟩
      rw [hlookup] at h
      cases h
    · refine iff_of_false nofun ?_
      rintro ⟨⟨⟩, -, h, hne, -⟩
      rw [hlookup] at h
      cases h
      exact hne rfl
    · by_cases hall : (a :: as).all isPublicAddress = true
      · simp only [hall, if_true, Except.ok.injEq, ResolvedEndpoint.mk.injEq, Option.some.injEq]
        constructor
        · rintro ⟨rfl, rfl⟩
          exact ⟨rfl, haccepted, hlookup, List.cons_ne_nil a as, List.all_eq_true.mp hall⟩
        · rintro ⟨rfl, -, h, -⟩
          exact ⟨rfl, Option.some.inj (hlookup.symm.trans h)⟩
      · simp only [hall, Bool.false_eq_true, if_false]
        refine iff_of_false nofun ?_
        rintro ⟨⟨⟩, -, h, -, hpublic⟩
        obtain rfl := Option.some.inj (hlookup.symm.trans h)
        exact hall (List.all_eq_true.mpr hpublic)

/-- The addresses of an accepted endpoint are globally reachable if and only if no address that
the filter lets pass lies in a missed block. -/
theorem accepted_reachable_iff (parse : String → Option URL) (rawURL : String)
    (lookupIP : String → Option (List IP)) :
    (∀ resolved, resolveEndpoint parse rawURL false lookupIP = .ok resolved →
      ∀ address ∈ resolved.addresses, GloballyReachable address) ↔
    ∀ url addresses, parse (trimSpace rawURL) = some url → url.Accepted →
      lookupIP url.hostname = some addresses →
      (∀ address ∈ addresses, isPublicAddress address = true) → ∀ ip,
      some ip ∈ addresses → ¬Missed ip := by
  constructor
  · intro h url addresses hparse hurl hlookup hpublic ip hip
    have hne : addresses ≠ [] := List.ne_nil_of_mem hip
    have hreach :=
      h ⟨url, addresses⟩ (resolveEndpoint_ok.mpr ⟨hparse, hurl, hlookup, hne, hpublic⟩)
        (some ip) hip
    exact (reachable_iff_not_missed ((isPublicAddress_some ip).mp (hpublic _ hip))).mp hreach
  · intro h resolved hresolved address haddress
    obtain ⟨hparse, hurl, hlookup, -, hpublic⟩ := resolveEndpoint_ok.mp hresolved
    have haddress_public := hpublic address haddress
    cases address with
    | none => cases haddress_public
    | some ip =>
      refine (reachable_iff_not_missed ((isPublicAddress_some ip).mp haddress_public)).mpr ?_
      exact h resolved.url resolved.addresses hparse hurl hlookup hpublic ip haddress

/-- The port that `ClientFor` connects to. -/
def URL.portToConnect (url : URL) : String :=
  if url.port ≠ "" then url.port else if url.scheme = "https" then "443" else "80"

/-- `ClientFor`: the first of the addresses that answers is what the client connects to. It does not
ask the resolver again, and it follows no redirect. -/
def clientFor (resolved : ResolvedEndpoint) (answers : IP → String → Bool) : Option IP :=
  resolved.addresses.find? fun address => answers address resolved.url.portToConnect

theorem clientFor_mem {resolved : ResolvedEndpoint} {answers : IP → String → Bool} {address : IP}
    (h : clientFor resolved answers = some address) : address ∈ resolved.addresses :=
  List.mem_of_find?_eq_some h

/-- A delivery connects to public addresses only. -/
theorem clientFor_public {resolved : ResolvedEndpoint}
    (h : resolveEndpoint parse rawURL false lookupIP = .ok resolved) {answers : IP → String → Bool}
    {address : IP} (hconnect : clientFor resolved answers = some address) :
    isPublicAddress address = true :=
  (resolveEndpoint_ok.mp h).2.2.2.2 address (clientFor_mem hconnect)

end endpoint

section sample

def sampleURL : URL := ⟨"https", "hooks.example", "", none, ""⟩

def sampleParse (rawURL : String) : Option URL :=
  if rawURL = "https://hooks.example/tenancit" then some sampleURL else none

/-- A host name that resolves to an address of the space shared by the customers of a provider. -/
theorem shared_address_accepted :
    ¬∀ resolved, resolveEndpoint sampleParse "https://hooks.example/tenancit" false (fun _ =>
      some [some [100, 64, 0, 1]]) =
      .ok resolved → ∀ address ∈ resolved.addresses, GloballyReachable address := by
  intro h
  obtain ⟨_, ⟨⟩, hspecial, -⟩ :=
    h ⟨sampleURL, [some [100, 64, 0, 1]]⟩ (by decide +kernel) _ (.head _)
  revert hspecial
  decide

end sample

end Tenancit.Webhook
