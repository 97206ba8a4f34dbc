import Tenancit.Lib.Encoding

/-!
Authenticated encryption with a nonce and no associated data. The laws are those a
caller relies on: what was sealed under a key opens under that key to what it was, and
the sealed text is longer than the plain one by a fixed overhead.
-/
namespace Encoding

structure Aead (Key : Type) where
  nonceSize : Nat
  overhead : Nat
  /-- Seal a plaintext under a key and a nonce. -/
  sealText : Key → Bytes → Bytes → Bytes
  /-- Open a sealed text under a key and a nonce, or fail. -/
  openText : Key → Bytes → Bytes → Option Bytes
  openText_sealText : ∀ k n p, n.length = nonceSize → openText k n (sealText k n p) = some p
  length_sealText : ∀ k n p, (sealText k n p).length = p.length + overhead

namespace Aead

/-- The cipher that appends sixteen octets of its one-octet key: a model of the laws. -/
def tagged : Aead UInt8 where
  nonceSize := 12
  overhead := 16
  sealText k _ p := p ++ List.replicate 16 k
  openText k n c :=
    if n.length = 12 ∧ c.drop (c.length - 16) = List.replicate 16 k then
      some (c.take (c.length - 16))
    else none
  openText_sealText k n p hn := by simp [hn]
  length_sealText k n p := by simp

end Aead

end Encoding
