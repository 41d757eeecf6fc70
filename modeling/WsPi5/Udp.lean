/-
# `WsPi5.Udp` — checksum and echo reply of `lib/udp.S`

`udp_checksum` and `udp_pseudo_csum` share a body with a mode flag, as their TCP siblings do; but
both leave through the one fold, which complements.  The echo reply is built in the buffer of
the request: addresses and ports change places, then the UDP checksum is computed again (a
computed 0 is sent as 0xFFFF) or, with `net_hw_csum_tx`, its seed is stored.

Fields are read as they are stored, so a halfword of the sum is `low + 256 * high`.
-/
import WsPi5.Tcp.Wire

namespace WsPi5

open Lib

namespace Wire

/-- `ldrh` of a field. -/
def halfAt (buf : Buf) (off : Nat) : Nat := (buf off).toNat + 256 * (buf (off + 1)).toNat

/-! ## `udp_checksum` and `udp_pseudo_csum` -/

/-- The pseudo-header: addresses, protocol, and the length field of the UDP header. -/
def udpPseudoSum (buf : Buf) : Nat := halfSum (slice buf 26 8) + 0x1100 + halfAt buf 38

/-- `udp_checksum` of a datagram of `n` bytes. -/
def udpChecksum (buf : Buf) (n : Nat) : Nat :=
  inetChecksum (udpPseudoSum buf + halfSum (slice buf 34 n))

/-- `udp_pseudo_csum`: through `.Ludp_cksum_fold`, so complemented. -/
def udpPseudoCsum (buf : Buf) : Nat := inetChecksum (udpPseudoSum buf)

/-! ## `udp_handle` -/

/-- `csinv`: 0 means "not computed". -/
def nonzeroCsum (v : Nat) : Nat := if v = 0 then 65535 else v

/-- "Recompute UDP checksum", over `n` bytes; `hw` is `net_hw_csum_tx`. -/
def putUdpChecksum (hw : Bool) (buf : Buf) (n : Nat) : Buf :=
  let zeroed := memWrite buf 40 (halfBytes 0)
  memWrite zeroed 40
    (halfBytes (if hw then udpPseudoCsum zeroed else nonzeroCsum (udpChecksum zeroed n)))

/-- `.Ludp_echo`: addresses and ports swapped, TTL 64. -/
def echoSwapped (buf : Buf) : Buf :=
  memWrites buf
    [(0, slice buf 6 6), (6, slice buf 0 6), (26, slice buf 30 4), (30, slice buf 26 4),
     (22, [64]), (34, slice buf 36 2), (36, slice buf 34 2)]

/-- The echo reply to a datagram of `n` bytes. -/
def udpEcho (hw : Bool) (buf : Buf) (n : Nat) : Buf :=
  putIpChecksum (putUdpChecksum hw (echoSwapped buf) n)

/-- The tests of `udp_handle`: long enough, the length field agrees, and a checksum, if there is
one, verifies. -/
def udpAccepts (buf : Buf) (len : Nat) : Bool :=
  8 ≤ len - 34 && readHalf buf 38 = len - 34 &&
    (halfAt buf 40 = 0 || udpChecksum buf (len - 34) = 0)

/-- `udp_handle` of a frame of `len` bytes for port 7.  (The other ports lead to other modules.) -/
def udpHandle (hw : Bool) (buf : Buf) (len : Nat) : Option (Buf × Nat) :=
  if udpAccepts buf len ∧ readHalf buf 36 = 7 then some (udpEcho hw buf (len - 34), len)
  else none

/-! ## What the reply is summed over -/

theorem halfAt_memWrite (buf : Buf) (off : Nat) {v : Nat} (h : v < 65536) :
    halfAt (memWrite buf off (halfBytes v)) off = v := by
  have hself : slice (memWrite buf off (halfBytes v)) off 2 = halfBytes v :=
    slice_memWrite_self buf off (halfBytes v)
  have h₀ : memWrite buf off (halfBytes v) off = UInt8.ofNat (v % 256) := (List.cons.inj hself).1
  have h₁ : memWrite buf off (halfBytes v) (off + 1) = UInt8.ofNat (v / 256) :=
    (List.cons.inj (List.cons.inj hself).2).1
  rw [halfAt, h₀, h₁, UInt8.toNat_ofNat', UInt8.toNat_ofNat']
  omega

theorem halfAt_of_slice {buf buf' : Buf} {off : Nat} (h : slice buf' off 2 = slice buf off 2) :
    halfAt buf' off = halfAt buf off := by
  have h₀ : buf' off = buf off := (List.cons.inj h).1
  have h₁ : buf' (off + 1) = buf (off + 1) := (List.cons.inj (List.cons.inj h).2).1
  rw [halfAt, halfAt, h₀, h₁]

end Wire

end WsPi5
