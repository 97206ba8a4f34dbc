import Mathlib.Algebra.Group.Nat.Defs
import Mathlib.Data.List.Basic

/-!
Addresses of the Internet protocol, as Go's package `net` has them, and blocks of them: the
addresses of one length that begin with the same bits.
-/
namespace Net

section blocks

/-- The octet whose first bits are ones. -/
def ones (bits : Nat) : UInt8 := .ofNat (256 - 2 ^ (8 - bits))

/-- Whether two addresses have one length and begin with the same bits. -/
def samePrefix : Nat → List UInt8 → List UInt8 → Bool
  | _, [], [] => true
  | bits, x :: xs, y :: ys => y &&& ones bits == x &&& ones bits && samePrefix (bits - 8) xs ys
  | _, _, _ => false

structure Block where
  address : List UInt8
  bits : Nat
  deriving DecidableEq

def Block.contains (b : Block) (ip : List UInt8) : Bool := samePrefix b.bits b.address ip

variable {x y : UInt8} {xs ys : List UInt8} {bits : Nat}

@[simp] theorem ones_zero : ones 0 = 0 := rfl

theorem ones_of_le (h : 8 ≤ bits) : ones bits = 255 := by
  unfold ones
  rw [Nat.sub_eq_zero_of_le h]
  rfl

@[simp] theorem and_ones_eight (x : UInt8) : x &&& 255 = x := UInt8.and_neg_one

theorem samePrefix_length (h : samePrefix bits xs ys = true) : xs.length = ys.length := by
  induction xs generalizing ys bits with
  | nil =>
    cases ys with
    | nil => rfl
    | cons y ys => cases h
  | cons x xs ih =>
    cases ys with
    | nil => cases h
    | cons y ys =>
      have hrest := ih (Bool.and_eq_true_iff.mp h).2
      rw [List.length_cons, List.length_cons, hrest]

theorem samePrefix_zero : samePrefix 0 xs ys = true ↔ xs.length = ys.length := by
  refine ⟨samePrefix_length, fun h => ?_⟩
  induction xs generalizing ys with
  | nil =>
    obtain rfl := List.eq_nil_of_length_eq_zero h.symm
    rfl
  | cons x xs ih =>
    cases ys with
    | nil => cases h
    | cons y ys =>
      have hzero : ones 0 = 0 := rfl
      simpa [samePrefix, hzero] using ih (Nat.succ.inj h)

theorem samePrefix_cons :
    samePrefix (bits + 8) (x :: xs) (y :: ys) = true ↔ y = x ∧ samePrefix bits xs ys = true := by
  rw [samePrefix, ones_of_le (Nat.le_add_left 8 bits), Nat.add_sub_cancel,
    Bool.and_eq_true_iff, beq_iff_eq,
    and_ones_eight, and_ones_eight]

/-- The last octet that the block looks at. -/
theorem samePrefix_last (h : bits ≤ 8) :
    samePrefix bits (x :: xs) (y :: ys) = true ↔ y &&& ones bits = x &&& ones bits ∧
    xs.length = ys.length := by
  rw [samePrefix, Nat.sub_eq_zero_of_le h, Bool.and_eq_true_iff, beq_iff_eq, samePrefix_zero]

/-- A block that looks at every bit holds one address. -/
theorem samePrefix_all (h : 8 * xs.length ≤ bits) : samePrefix bits xs ys = true ↔ ys = xs := by
  induction xs generalizing ys bits with
  | nil => cases ys <;> simp [samePrefix]
  | cons x xs ih =>
    cases ys with
    | nil => simp [samePrefix]
    | cons y ys =>
      obtain ⟨k, rfl⟩ : ∃ k, bits = k + 8 := ⟨bits - 8, by rw [List.length_cons] at h; omega⟩
      rw [samePrefix_cons, ih (by rw [List.length_cons] at h; omega), List.cons.injEq]

end blocks

section ip

/-- `net.IP`: a slice of octets, or `nil`. -/
abbrev IP := Option (List UInt8)

/-- What stands before the four octets of an IPv4 address in the longer form. -/
def v4InV6Prefix : List UInt8 := .replicate 10 0 ++ [255, 255]

/-- `net.IP.To4`, on the octets -/
def to4 (ip : List UInt8) : Option (List UInt8) :=
  if ip.length = 4 then some ip
  else if ip.length = 16 ∧ ip.take 12 = v4InV6Prefix then some (ip.drop 12)
  else none

/-- The address without the embedding of IPv4 in IPv6. -/
def unmap (ip : List UInt8) : List UInt8 := (to4 ip).getD ip

/-- `net.IP.Equal` -/
def equal (ip x : List UInt8) : Bool :=
  if ip.length = x.length then ip = x
  else if ip.length = 4 ∧ x.length = 16 then x.take 12 = v4InV6Prefix ∧ ip = x.drop 12
  else if ip.length = 16 ∧ x.length = 4 then ip.take 12 = v4InV6Prefix ∧ ip.drop 12 = x
  else false

def ipv4zero : List UInt8 := v4InV6Prefix ++ .replicate 4 0

def ipv6unspecified : List UInt8 := .replicate 16 0

def ipv6loopback : List UInt8 := .replicate 15 0 ++ [1]

def isUnspecified (ip : List UInt8) : Bool := equal ip ipv4zero || equal ip ipv6unspecified

def isLoopback (ip : List UInt8) : Bool :=
  match to4 ip with
  | some ip4 => ip4.getD 0 0 = 127
  | none => equal ip ipv6loopback

def isPrivate (ip : List UInt8) : Bool :=
  match to4 ip with
  | some ip4 =>
    ip4.getD 0 0 = 10 ∨ ip4.getD 0 0 = 172 ∧ ip4.getD 1 0 &&& 0xf0 = 16 ∨
      ip4.getD 0 0 = 192 ∧ ip4.getD 1 0 = 168
  | none => ip.length = 16 ∧ ip.getD 0 0 &&& 0xfe = 0xfc

def isMulticast (ip : List UInt8) : Bool :=
  match to4 ip with
  | some ip4 => ip4.getD 0 0 &&& 0xf0 = 0xe0
  | none => ip.length = 16 ∧ ip.getD 0 0 = 0xff

def isLinkLocalMulticast (ip : List UInt8) : Bool :=
  match to4 ip with
  | some ip4 => ip4.getD 0 0 = 224 ∧ ip4.getD 1 0 = 0 ∧ ip4.getD 2 0 = 0
  | none => ip.length = 16 ∧ ip.getD 0 0 = 0xff ∧ ip.getD 1 0 &&& 0x0f = 0x02

def isLinkLocalUnicast (ip : List UInt8) : Bool :=
  match to4 ip with
  | some ip4 => ip4.getD 0 0 = 169 ∧ ip4.getD 1 0 = 254
  | none => ip.length = 16 ∧ ip.getD 0 0 = 0xfe ∧ ip.getD 1 0 &&& 0xc0 = 0x80

theorem to4_eq_some {ip v : List UInt8} :
    to4 ip = some v ↔ v.length = 4 ∧ (ip = v ∨ ip = v4InV6Prefix ++ v) := by
  have hprefix : v4InV6Prefix.length = 12 := rfl
  constructor
  · intro h
    unfold to4 at h
    split at h
    next hlen => exact Option.some.inj h ▸ ⟨hlen, .inl rfl⟩
    next =>
      split at h
      next hmapped =>
        obtain rfl := Option.some.inj h
        refine ⟨by rw [List.length_drop, hmapped.1], .inr ?_⟩
        rw [← hmapped.2, List.take_append_drop]
      next => cases h
  · rintro ⟨hv, rfl | rfl⟩
    · exact if_pos hv
    · simp [to4, hv, hprefix, List.take_left' hprefix, List.drop_left' hprefix]

theorem unmap_of_some {ip v : List UInt8} (h : to4 ip = some v) :
    unmap ip = v := by rw [unmap, h, Option.getD_some]

theorem unmap_of_none {ip : List UInt8} (h : to4 ip = none) :
    unmap ip = ip := by rw [unmap, h, Option.getD_none]

/-- An address is an IPv4 address in one of its forms, or it is not. -/
theorem to4_cases (ip : List UInt8) :
    (∃ a b c d, to4 ip = some [a, b, c, d] ∧ unmap ip = [a, b, c, d]) ∨
    (to4 ip = none ∧ unmap ip = ip ∧ ip.length ≠ 4) := by
  cases h : to4 ip with
  | none =>
    refine .inr ⟨rfl, unmap_of_none h, fun hlen => ?_⟩
    rw [to4, if_pos hlen] at h
    cases h
  | some v =>
    obtain ⟨a, b, c, d, rfl⟩ := List.length_eq_four.mp (to4_eq_some.mp h).1
    exact .inl ⟨a, b, c, d, rfl, unmap_of_some h⟩

/-- Addresses are equal if and only if they are without the embedding. -/
theorem equal_iff (ip x : List UInt8) : equal ip x = true ↔ unmap ip = unmap x := by
  have hprefix : v4InV6Prefix.length = 12 := rfl
  have hnone : ∀ {y : List UInt8}, to4 y = none → y.length ≠
      4 ∧ ¬(y.length = 16 ∧ y.take 12 = v4InV6Prefix) := by
    intro y hy
    unfold to4 at hy
    split at hy
    · cases hy
    · split at hy
      · cases hy
      · exact ⟨‹_›, ‹_›⟩
  cases hip : to4 ip with
  | none =>
    obtain ⟨hlen, hmapped⟩ := hnone hip
    rw [unmap_of_none hip]
    cases hx : to4 x with
    | none =>
      obtain ⟨hxlen, -⟩ := hnone hx
      rw [unmap_of_none hx]
      by_cases heq : ip.length = x.length
      · simp [equal, heq]
      · have hne : ip ≠ x := fun h => heq (congrArg _ h)
        simp [equal, heq, hlen, hxlen, hne]
    | some w =>
      obtain ⟨hw, hform⟩ := to4_eq_some.mp hx
      have hne : ip ≠ w := fun h => hlen (h ▸ hw)
      rw [unmap_of_some hx]
      rcases hform with rfl | rfl
      · have heq : ip.length ≠ x.length := fun h => hlen (h.trans hw)
        simpa [equal, heq, hlen, hw, hne] using fun h16 h12 => absurd ⟨h16, h12⟩ hmapped
      · have hne' : ip ≠ v4InV6Prefix ++ w := by
          rintro rfl
          exact hmapped ⟨by simp [hw, hprefix], List.take_left' hprefix⟩
        simp [equal, hlen, hw, hprefix, hne, hne']
  | some v =>
    obtain ⟨hv, hform⟩ := to4_eq_some.mp hip
    rw [unmap_of_some hip]
    cases hx : to4 x with
    | none =>
      obtain ⟨hxlen, hmapped⟩ := hnone hx
      have hne : v ≠ x := fun h => hxlen (h ▸ hv)
      rw [unmap_of_none hx]
      rcases hform with rfl | rfl
      · have heq : ip.length ≠ x.length := fun h => hxlen (h.symm.trans hv)
        simpa [equal, heq, hxlen, hv, hne] using fun _ h16 h12 => absurd ⟨h16, h12⟩ hmapped
      · have hne' : v4InV6Prefix ++ v ≠ x := by
          rintro rfl
          exact hmapped ⟨by simp [hv, hprefix], List.take_left' hprefix⟩
        simp [equal, hxlen, hv, hprefix, hne, hne']
    | some w =>
      obtain ⟨hw, hform'⟩ := to4_eq_some.mp hx
      rw [unmap_of_some hx]
      rcases hform with rfl | rfl <;> rcases hform' with rfl | rfl <;>
        simp [equal, hv, hw, hprefix, List.take_left' hprefix, List.drop_left' hprefix]

end ip

section classes

/-- A block of the longer addresses, by the octets that are not zero at its start. -/
def block6 (start : List UInt8) (bits : Nat) : Block :=
  ⟨start ++ .replicate (16 - start.length) 0, bits⟩

/-- The blocks that a class of addresses is made of. -/
def inAny (blocks : List Block) (ip : List UInt8) : Bool := blocks.any fun b => b.contains ip

def unspecifiedBlocks : List Block := [⟨[0, 0, 0, 0], 32⟩, block6 [] 128]

def loopbackBlocks : List Block := [⟨[127, 0, 0, 0], 8⟩, ⟨.replicate 15 0 ++ [1], 128⟩]

def privateBlocks : List Block :=
  [⟨[10, 0, 0, 0], 8⟩, ⟨[172, 16, 0, 0], 12⟩, ⟨[192, 168, 0, 0], 16⟩, block6 [0xfc] 7]

def multicastBlocks : List Block := [⟨[224, 0, 0, 0], 4⟩, block6 [0xff] 8]

def linkLocalUnicastBlocks : List Block := [⟨[169, 254, 0, 0], 16⟩, block6 [0xfe, 0x80] 10]

variable {b : Block} {ip : List UInt8} {o p : UInt8} {bits : Nat}

theorem contains_of_length_ne (h : b.address.length ≠ ip.length) : b.contains ip = false :=
  Bool.eq_false_iff.mpr fun hcontains => h (samePrefix_length hcontains)

theorem contains_one {os : List UInt8} (h : bits ≤ 8) : Block.contains ⟨o :: os, bits⟩ ip = true ↔
    ip.length = os.length + 1 ∧ ip.getD 0 0 &&& ones bits = o &&& ones bits := by
  cases ip with
  | nil => simp [Block.contains, samePrefix]
  | cons x ip =>
    refine (samePrefix_last h).trans ?_
    simp [and_comm, eq_comm (b := ip.length)]

theorem contains_two {os : List UInt8} (h : bits ≤ 8) :
    Block.contains ⟨o :: p :: os, bits + 8⟩ ip = true ↔
    ip.length = os.length + 2 ∧ ip.getD 0 0 = o ∧ ip.getD 1 0 &&& ones bits = p &&& ones bits := by
  rcases ip with _ | ⟨x, _ | ⟨y, ip⟩⟩
  · simp [Block.contains, samePrefix]
  · simp [Block.contains, samePrefix]
  · refine samePrefix_cons.trans ((and_congr_right fun _ => samePrefix_last h).trans ?_)
    simp [and_comm, and_left_comm, eq_comm (b := ip.length)]

theorem isUnspecified_iff (ip : List UInt8) :
    isUnspecified ip = true ↔ inAny unspecifiedBlocks (unmap ip) = true := by
  have h4 : unmap ipv4zero = [0, 0, 0, 0] := rfl
  have h6 : unmap ipv6unspecified = .replicate 16 0 := rfl
  have hone : Block.contains ⟨[0, 0, 0, 0], 32⟩ (unmap ip) = true ↔ unmap ip = [0, 0, 0, 0] :=
    samePrefix_all (by decide)
  have hall : (block6 [] 128).contains (unmap ip) = true ↔ unmap ip = .replicate 16 0 :=
    samePrefix_all (by decide)
  rw [isUnspecified, Bool.or_eq_true, equal_iff, equal_iff, h4, h6, inAny, unspecifiedBlocks,
    List.any_cons, List.any_cons,
    List.any_nil, Bool.or_false, Bool.or_eq_true, hone, hall]

theorem isLoopback_iff (ip : List UInt8) :
    isLoopback ip = true ↔ inAny loopbackBlocks (unmap ip) = true := by
  have h6 : unmap ipv6loopback = .replicate 15 0 ++ [1] := rfl
  have hall : Block.contains ⟨.replicate 15 0 ++ [1], 128⟩ (unmap ip) = true ↔
      unmap ip = .replicate 15 0 ++ [1] :=
    samePrefix_all (by decide)
  rw [inAny, loopbackBlocks, List.any_cons, List.any_cons, List.any_nil, Bool.or_false,
    Bool.or_eq_true, hall]
  obtain ⟨a, b, c, d, h4, hunmap⟩ | ⟨hnone, hunmap, hlen⟩ := to4_cases ip
  · simp [isLoopback, h4, hunmap, Block.contains, samePrefix, ones_of_le]
  · have hfour : Block.contains ⟨[127, 0, 0, 0], 8⟩ ip = false :=
      contains_of_length_ne (Ne.symm hlen)
    rw [isLoopback, hnone, equal_iff, h6, hunmap, hfour]
    simp

theorem isPrivate_iff (ip : List UInt8) :
    isPrivate ip = true ↔ inAny privateBlocks (unmap ip) = true := by
  have hten : Block.contains ⟨[10, 0, 0, 0], 8⟩ (unmap ip) = true ↔ _ := contains_one (by decide)
  have htwelve : Block.contains ⟨[172, 16, 0, 0], 12⟩ (unmap ip) = true ↔ _ :=
    contains_two (show 4 ≤ 8 by decide)
  have hsixteen : Block.contains ⟨[192, 168, 0, 0], 16⟩ (unmap ip) = true ↔ _ :=
    contains_two (show 8 ≤ 8 by decide)
  have hlong : (block6 [0xfc] 7).contains (unmap ip) = true ↔ _ := contains_one (by decide)
  simp only [inAny, privateBlocks, List.any_cons, List.any_nil, Bool.or_false, Bool.or_eq_true,
    hten, htwelve, hsixteen, hlong]
  obtain ⟨a, b, c, d, h4, hunmap⟩ | ⟨hnone, hunmap, hlen⟩ := to4_cases ip
  · have hmask : ones 4 = 0xf0 ∧ (16 : UInt8) &&& 0xf0 = 16 := ⟨rfl, rfl⟩
    simp [isPrivate, h4, hunmap, ones_of_le, hmask]
  · have hmask : ones 7 = 0xfe ∧ (0xfc : UInt8) &&& 0xfe = 0xfc := ⟨rfl, rfl⟩
    simp [isPrivate, hnone, hunmap, hlen, hmask]

theorem isMulticast_iff (ip : List UInt8) :
    isMulticast ip = true ↔ inAny multicastBlocks (unmap ip) = true := by
  have hshort : Block.contains ⟨[224, 0, 0, 0], 4⟩ (unmap ip) = true ↔ _ := contains_one (by decide)
  have hlong : (block6 [0xff] 8).contains (unmap ip) = true ↔ _ := contains_one (by decide)
  simp only [inAny, multicastBlocks, List.any_cons, List.any_nil, Bool.or_false,
    Bool.or_eq_true, hshort, hlong]
  obtain ⟨a, b, c, d, h4, hunmap⟩ | ⟨hnone, hunmap, hlen⟩ := to4_cases ip
  · have hmask : ones 4 = 0xf0 ∧ (224 : UInt8) &&& 0xf0 = 224 := ⟨rfl, rfl⟩
    simp [isMulticast, h4, hunmap, hmask]
  · simp [isMulticast, hnone, hunmap, hlen, ones_of_le]

theorem isLinkLocalUnicast_iff (ip : List UInt8) :
    isLinkLocalUnicast ip = true ↔ inAny linkLocalUnicastBlocks (unmap ip) = true := by
  have hshort : Block.contains ⟨[169, 254, 0, 0], 16⟩ (unmap ip) = true ↔ _ :=
    contains_two (show 8 ≤ 8 by decide)
  have hlong : (block6 [0xfe, 0x80] 10).contains (unmap ip) = true ↔ _ :=
    contains_two (show 2 ≤ 8 by decide)
  simp only [inAny, linkLocalUnicastBlocks, List.any_cons, List.any_nil, Bool.or_false,
    Bool.or_eq_true, hshort, hlong]
  obtain ⟨a, b, c, d, h4, hunmap⟩ | ⟨hnone, hunmap, hlen⟩ := to4_cases ip
  · simp [isLinkLocalUnicast, h4, hunmap, ones_of_le]
  · have hmask : ones 2 = 0xc0 ∧ (0x80 : UInt8) &&& 0xc0 = 0x80 := ⟨rfl, rfl⟩
    simp [isLinkLocalUnicast, hnone, hunmap, hlen, hmask]

/-- What is multicast on a link is multicast. -/
theorem isMulticast_of_linkLocal (h : isLinkLocalMulticast ip = true) : isMulticast ip = true := by
  unfold isLinkLocalMulticast at h
  unfold isMulticast
  cases hfour : to4 ip with
  | none =>
    simp only [hfour, decide_eq_true_eq] at h ⊢
    exact ⟨h.1, h.2.1⟩
  | some v =>
    simp only [hfour, decide_eq_true_eq] at h ⊢
    rw [h.1]
    rfl

end classes

end Net
