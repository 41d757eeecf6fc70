/-
# `WsPi5.Checksum` — the checksum loops of `lib/ip.S`, `lib/tcp.S` and `lib/udp.S`

The other modules take a checksum as a function of the bytes that are summed.  Here are the loops
themselves: a 32-bit accumulator, `ldrh` from a buffer until fewer than two bytes are left, `ldrb`
for an odd one, two folds, `mvn` and `uxth`.  `tcp_checksum` and `udp_checksum` first add the
pseudo-header, out of the frame.

**Proved here** (`inet_checksum_law`), for every length up to 65535:

* the accumulator holds the sum, so that it never wraps;
* what `strh` stores of the result is the checksum of RFC 1071, in network order;
* once it is stored in a field that was zero, at an even offset, `ip_checksum` returns 0;
* `tcp_checksum` and `udp_checksum` return what `ip_checksum` does of a buffer with the
  pseudo-header and the segment behind it.

The length in the pseudo-header of UDP is the one of the UDP header, as in RFC 768.  The callers of
`udp_checksum` pass the same.
-/
import WsPi5.Lib.OnesComplement
import WsPi5.Udp

namespace WsPi5

open Lib

namespace Wire

/-! ## The loops -/

def ldrb (buf : Buf) (x0 : Nat) : W := BitVec.ofNat 32 (buf x0).toNat

def ldrh (buf : Buf) (x0 : Nat) : W := BitVec.ofNat 32 (halfAt buf x0)

/-- `.Lcksum_loop` and `.Lcksum_odd`, and the same in TCP and UDP: `w1` bytes from `x0` on, added
to `w2`. -/
def cksumLoop (buf : Buf) : (w1 x0 : Nat) → (w2 : W) → W
  | 0, _, w2 => w2
  | 1, x0, w2 => w2 + ldrb buf x0
  | w1 + 2, x0, w2 => cksumLoop buf w1 (x0 + 2) (w2 + ldrh buf x0)

/-- `.Lcksum_fold`. -/
def cksumFold (w2 : W) : W :=
  let w2 := (w2 &&& (0xFFFF : W)) + (w2 >>> 16)
  let w2 := w2 + (w2 >>> 16)
  ~~~w2 &&& (0xFFFF : W)

/-- `ip_checksum`. -/
def ipChecksumAt (buf : Buf) (x0 w1 : Nat) : W := cksumFold (cksumLoop buf w1 x0 0)

def addrSum (buf : Buf) : W := ldrh buf 26 + ldrh buf 28 + ldrh buf 30 + ldrh buf 32

/-- `w2` before `.Ltcp_cksum_loop`. -/
def tcpPseudoAcc (buf : Buf) (w1 : Nat) : W :=
  addrSum buf + 0x0600 + (rev16 (BitVec.ofNat 16 w1)).setWidth 32

/-- `tcp_checksum` of a segment of `w1` bytes. -/
def tcpChecksumAt (buf : Buf) (w1 : Nat) : W :=
  cksumFold (cksumLoop buf w1 34 (tcpPseudoAcc buf w1))

/-- `w2` before `.Ludp_cksum_loop`. -/
def udpPseudoAcc (buf : Buf) : W := addrSum buf + 0x1100 + ldrh buf 38

/-- `udp_checksum` of a datagram of `w1` bytes. -/
def udpChecksumAt (buf : Buf) (w1 : Nat) : W :=
  cksumFold (cksumLoop buf w1 34 (udpPseudoAcc buf))

/-- The pseudo-header of RFC 793 and RFC 768. -/
def pseudoHeader (protocol : Byte) (length : Nat) (buf : Buf) : List Byte :=
  slice buf 26 4 ++ slice buf 30 4 ++ [0, protocol] ++ beHalf length

/-- What `tcp_checksum` covers: the pseudo-header and the segment behind it. -/
def tcpCovered (buf : Buf) (n : Nat) : List Byte := pseudoHeader 6 n buf ++ slice buf 34 n

/-- What `udp_checksum` covers.  The length in the pseudo-header is the one of the UDP header. -/
def udpCovered (buf : Buf) (n : Nat) : List Byte :=
  pseudoHeader 17 (readHalf buf 38) buf ++ slice buf 34 n

/-- `strh` of the register leaves the number in network order. -/
def Stores (w0 : W) (n : Nat) : Prop := w0.toNat < 65536 ∧ halfBytes w0.toNat = beHalf n

/-- The accumulator holds the sum of these bytes, and the result is their checksum. -/
def Checksums (w2 w0 : W) (bytes : List Byte) : Prop :=
  w2.toNat = halfSum bytes ∧ Stores w0 (rfc1071 bytes)

/-! ## What they compute -/

theorem slice_half (buf : Buf) (a n : Nat) :
    slice buf a (n + 2) = buf a :: buf (a + 1) :: slice buf (a + 2) n := by
  rw [Nat.add_comm n 2, slice_add]
  rfl

theorem cksumLoop_toNat (buf : Buf) (w1 x0 : Nat) (w2 : W) :
    (cksumLoop buf w1 x0 w2).toNat = (w2.toNat + halfSum (slice buf x0 w1)) % 2 ^ 32 := by
  fun_induction cksumLoop buf w1 x0 w2 with
  | case1 x0 w2 => rw [slice_zero, halfSum, Nat.add_zero, Nat.mod_eq_of_lt w2.isLt]
  | case2 x0 w2 =>
      have hone : slice buf x0 1 = [buf x0] := rfl
      rw [hone, halfSum, BitVec.toNat_add, ldrb, BitVec.toNat_ofNat, Nat.add_mod_mod]
  | case3 w1 x0 w2 ih =>
      rw [ih, slice_half, halfSum, BitVec.toNat_add, ldrh, BitVec.toNat_ofNat, Nat.add_mod_mod,
        Nat.mod_add_mod, halfAt, Nat.add_assoc w2.toNat]

theorem cksumFold_toNat (w2 : W) : (cksumFold w2).toNat = inetChecksum w2.toNat := by
  have hlow : ∀ w : W, (w &&& (0xFFFF : W)).toNat = w.toNat % 65536 := fun w => by
    rw [BitVec.toNat_and]
    exact Nat.and_two_pow_sub_one_eq_mod w.toNat 16
  have hhigh : ∀ w : W, (w >>> 16).toNat = w.toNat / 65536 := fun w => by
    rw [BitVec.toNat_ushiftRight, Nat.shiftRight_eq_div_pow]
  have hlt := w2.isLt
  rw [cksumFold, inetChecksum, Nat.mod_eq_of_lt hlt]
  have hfold : ((w2 &&& (0xFFFF : W)) + (w2 >>> 16)).toNat
      = w2.toNat % 65536 + w2.toNat / 65536 := by
    rw [BitVec.toNat_add, hlow, hhigh, Nat.mod_eq_of_lt (by omega)]
  rw [hlow, BitVec.toNat_not, BitVec.toNat_add, hhigh, hfold]
  omega

theorem inetChecksum_mod (s : Nat) : inetChecksum (s % 2 ^ 32) = inetChecksum s := by
  rw [inetChecksum, inetChecksum, Nat.mod_mod]

theorem cksumFold_loop (buf : Buf) (w1 x0 : Nat) (w2 : W) :
    (cksumFold (cksumLoop buf w1 x0 w2)).toNat
      = inetChecksum (w2.toNat + halfSum (slice buf x0 w1)) := by
  rw [cksumFold_toNat, cksumLoop_toNat, inetChecksum_mod]

theorem ipChecksumAt_toNat (buf : Buf) (x0 w1 : Nat) :
    (ipChecksumAt buf x0 w1).toNat = ipChecksum (slice buf x0 w1) := by
  have hzero : (0 : W).toNat = 0 := rfl
  rw [ipChecksumAt, cksumFold_loop, hzero, Nat.zero_add, ipChecksum]

/-! ## The pseudo-header -/

theorem halfAt_lt (buf : Buf) (a : Nat) : halfAt buf a < 65536 := by
  have h₀ := (buf a).toNat_lt
  have h₁ := (buf (a + 1)).toNat_lt
  rw [halfAt]
  omega

theorem ldrh_toNat (buf : Buf) (a : Nat) : (ldrh buf a).toNat = halfAt buf a := by
  have hlt := halfAt_lt buf a
  rw [ldrh, BitVec.toNat_ofNat]
  omega

theorem addrSum_toNat (buf : Buf) : (addrSum buf).toNat = halfSum (slice buf 26 8) := by
  have h₁ := halfAt_lt buf 26
  have h₂ := halfAt_lt buf 28
  have h₃ := halfAt_lt buf 30
  have h₄ := halfAt_lt buf 32
  have hsum : halfSum (slice buf 26 8)
      = halfAt buf 26 + (halfAt buf 28 + (halfAt buf 30 + halfAt buf 32)) := rfl
  rw [addrSum, hsum]
  simp only [BitVec.toNat_add, ldrh_toNat]
  omega

theorem rev16_toNat (h : BitVec 16) : (rev16 h).toNat = h.toNat % 256 * 256 + h.toNat / 256 := by
  have hlt := h.isLt
  have hhigh : (h >>> 8).toNat = h.toNat / 256 := by
    rw [BitVec.toNat_ushiftRight, Nat.shiftRight_eq_div_pow]
  have hlow : (h <<< 8).toNat = h.toNat % 256 * 256 := by
    rw [BitVec.toNat_shiftLeft, Nat.shiftLeft_eq]
    omega
  have hor : h.toNat % 256 * 256 ||| h.toNat / 256 = h.toNat % 256 * 256 + h.toNat / 256 := by
    have hshift : h.toNat % 256 * 256 = (h.toNat % 256) <<< 8 := (Nat.shiftLeft_eq _ 8).symm
    rw [hshift]
    exact (Nat.shiftLeft_add_eq_or_of_lt (by omega) _).symm
  rw [rev16, BitVec.toNat_or, hlow, hhigh, hor]

theorem tcpPseudoAcc_toNat (buf : Buf) (w1 : Nat) :
    (tcpPseudoAcc buf w1).toNat = pseudoSum buf w1 := by
  have haddr := halfSum_slice_le buf 26 8
  have hrev : ((rev16 (BitVec.ofNat 16 w1)).setWidth 32).toNat
      = w1 % 256 * 256 + w1 / 256 % 256 := by
    have hfirst : w1 % 2 ^ 16 / 256 = w1 / 256 % 256 := by omega
    have hsecond : w1 % 2 ^ 16 % 256 = w1 % 256 := by omega
    rw [BitVec.toNat_setWidth, rev16_toNat, BitVec.toNat_ofNat, hfirst, hsecond]
    omega
  have hproto : (0x0600 : W).toNat = 0x0600 := rfl
  rw [tcpPseudoAcc, pseudoSum, BitVec.toNat_add, BitVec.toNat_add, addrSum_toNat, hrev, hproto]
  omega

theorem udpPseudoAcc_toNat (buf : Buf) : (udpPseudoAcc buf).toNat = udpPseudoSum buf := by
  have haddr := halfSum_slice_le buf 26 8
  have hlen := halfAt_lt buf 38
  have hproto : (0x1100 : W).toNat = 0x1100 := rfl
  rw [udpPseudoAcc, udpPseudoSum, BitVec.toNat_add, BitVec.toNat_add, addrSum_toNat, ldrh_toNat,
    hproto]
  omega

theorem tcpChecksumAt_toNat (buf : Buf) (w1 : Nat) :
    (tcpChecksumAt buf w1).toNat = tcpChecksum buf w1 := by
  rw [tcpChecksumAt, cksumFold_loop, tcpPseudoAcc_toNat, tcpChecksum]

theorem udpChecksumAt_toNat (buf : Buf) (w1 : Nat) :
    (udpChecksumAt buf w1).toNat = udpChecksum buf w1 := by
  rw [udpChecksumAt, cksumFold_loop, udpPseudoAcc_toNat, udpChecksum]

theorem halfSum_pseudoHeader (protocol : Byte) (length : Nat) (buf : Buf) (segment : List Byte) :
    halfSum (pseudoHeader protocol length buf ++ segment)
      = halfSum (slice buf 26 8) + 256 * protocol.toNat
        + (length % 256 * 256 + length / 256 % 256) + halfSum segment := by
  have haddr : slice buf 26 4 ++ slice buf 30 4 = slice buf 26 8 := rfl
  have hproto : halfSum [0, protocol] = 256 * protocol.toNat := by
    simp [halfSum]
  have hlen : halfSum (beHalf length) = length % 256 * 256 + length / 256 % 256 := by
    simp only [beHalf, halfSum, UInt8.toNat_ofNat']
    omega
  rw [pseudoHeader, haddr, halfSum_append _ (by simp [beHalf]), halfSum_append _ (by simp),
    halfSum_append _ (by simp), hproto, hlen]

theorem tcpSum_eq (buf : Buf) (n : Nat) : pseudoSum buf n + halfSum (slice buf 34 n)
    = halfSum (tcpCovered buf n) := by
  rw [tcpCovered, halfSum_pseudoHeader, pseudoSum]
  rfl

theorem udpSum_eq (buf : Buf) (n : Nat) : udpPseudoSum buf + halfSum (slice buf 34 n)
    = halfSum (udpCovered buf n) := by
  have hlen : halfAt buf 38 = readHalf buf 38 % 256 * 256 + readHalf buf 38 / 256 % 256 := by
    have h₀ := (buf 38).toNat_lt
    have h₁ := (buf (38 + 1)).toNat_lt
    rw [halfAt, readHalf]
    omega
  rw [udpCovered, halfSum_pseudoHeader, udpPseudoSum, hlen]
  rfl

/-! ## The law -/

theorem swapHalf_stores {n : Nat} (h : n < 65536) {w0 : W} (heq : w0.toNat = swapHalf n) :
    Stores w0 n := by
  rw [Stores, heq, swapHalf, halfBytes, beHalf]
  refine ⟨by omega, ?_⟩
  have hfirst : (n % 256 * 256 + n / 256) % 256 = n / 256 := by omega
  have hsecond : (n % 256 * 256 + n / 256) / 256 = n % 256 := by omega
  have hmod : UInt8.ofNat (n % 256) = UInt8.ofNat n := by
    refine UInt8.toNat.inj ?_
    rw [UInt8.toNat_ofNat', UInt8.toNat_ofNat', Nat.mod_mod]
  rw [hfirst, hsecond, hmod]

theorem loop_checksums {buf : Buf} {w1 x0 : Nat} {w2 : W} {bytes : List Byte}
    (hsum : w2.toNat + halfSum (slice buf x0 w1) = halfSum bytes) (hlen : bytes.length ≤ 65547) :
    Checksums (cksumLoop buf w1 x0 w2) (cksumFold (cksumLoop buf w1 x0 w2)) bytes := by
  have hle := halfSum_le bytes
  have hfit : halfSum bytes < 2 ^ 32 := by omega
  have hlt : rfc1071 bytes < 65536 := by
    rw [rfc1071]
    omega
  refine ⟨?_, swapHalf_stores hlt ?_⟩
  · rw [cksumLoop_toNat, hsum, Nat.mod_eq_of_lt hfit]
  · rw [cksumFold_loop, hsum, inetChecksum_eq_rfc1071 hfit]

/-- **A stored checksum verifies.** -/
theorem stored_verifies (buf : Buf) {a n off : Nat} (hn : n ≤ 65535) (heven : off % 2 = 0)
    (hoff : off + 2 ≤ n) :
    let zeroed := memWrite buf (a + off) (halfBytes 0)
    ipChecksumAt (memWrite zeroed (a + off) (halfBytes (ipChecksumAt zeroed a n).toNat)) a n
      = 0 := by
  intro zeroed
  obtain ⟨m, rfl⟩ := Nat.exists_eq_add_of_le hoff
  have hzero : slice zeroed a (off + 2 + m)
      = slice buf a off ++ halfBytes 0 ++ slice buf (a + off + 2) m :=
    slice_memWrite_inside buf a off m (halfBytes 0)
  have hsum := halfSum_slice_le zeroed a (off + 2 + m)
  rw [hzero] at hsum
  have hver := @checksum_verifies 0 (slice buf a off) (slice buf (a + off + 2) m)
    (by rw [slice_length]; exact heven) (by omega)
  rw [Nat.zero_add, Nat.zero_add] at hver
  refine BitVec.eq_of_toNat_eq ?_
  rw [ipChecksumAt_toNat, ipChecksumAt_toNat, hzero, slice_field]
  exact hver

/-- **The law of the Internet checksum.** -/
theorem inet_checksum_law (buf : Buf) {n : Nat} (hn : n ≤ 65535) :
    (∀ a, Checksums (cksumLoop buf n a 0) (ipChecksumAt buf a n) (slice buf a n)) ∧
    (∀ a off, off % 2 = 0 → off + 2 ≤ n →
      let zeroed := memWrite buf (a + off) (halfBytes 0)
      ipChecksumAt (memWrite zeroed (a + off) (halfBytes (ipChecksumAt zeroed a n).toNat)) a n
        = 0) ∧
    (Checksums (cksumLoop buf n 34 (tcpPseudoAcc buf n)) (tcpChecksumAt buf n) (tcpCovered buf n) ∧
      ∀ mem a, slice mem a (12 + n) = tcpCovered buf n →
        tcpChecksumAt buf n = ipChecksumAt mem a (12 + n)) ∧
    Checksums (cksumLoop buf n 34 (udpPseudoAcc buf)) (udpChecksumAt buf n) (udpCovered buf n) ∧
      ∀ mem a, slice mem a (12 + n) = udpCovered buf n →
        udpChecksumAt buf n = ipChecksumAt mem a (12 + n) := by
  have hlen : ∀ protocol length, (pseudoHeader protocol length buf ++ slice buf 34 n).length
      ≤ 65547 := fun protocol length => by
    simp only [pseudoHeader, beHalf, List.length_append, List.length_cons, List.length_nil,
      slice_length]
    omega
  refine ⟨fun a => ?_, fun a off => stored_verifies buf hn, ⟨?_, fun mem a hmem => ?_⟩,
    ?_, fun mem a hmem => ?_⟩
  · exact loop_checksums (Nat.zero_add _) (by rw [slice_length]; omega)
  · refine loop_checksums ?_ (hlen _ _)
    rw [tcpPseudoAcc_toNat]
    exact tcpSum_eq buf n
  · refine BitVec.eq_of_toNat_eq ?_
    rw [tcpChecksumAt_toNat, tcpChecksum, tcpSum_eq, ipChecksumAt_toNat, hmem, ipChecksum]
  · refine loop_checksums ?_ (hlen _ _)
    rw [udpPseudoAcc_toNat]
    exact udpSum_eq buf n
  · refine BitVec.eq_of_toNat_eq ?_
    rw [udpChecksumAt_toNat, udpChecksum, udpSum_eq, ipChecksumAt_toNat, hmem, ipChecksum]

def demoString : Buf := memWrite (fun _ => 0) 0 [0x00, 0x01, 0xf2, 0x03, 0xf4, 0xf5, 0xf6, 0xf7]

theorem inet_checksum_law_demo :
    Stores (ipChecksumAt demoString 0 8) 0x220d ∧ Stores (ipChecksumAt demoString 0 7) 0x2304 ∧
    (let zeroed := memWrite demoString (0 + 4) (halfBytes 0)
     ipChecksumAt (memWrite zeroed (0 + 4) (halfBytes (ipChecksumAt zeroed 0 7).toNat)) 0 7 = 0) ∧
    Stores (tcpChecksumAt demoString 20) (rfc1071 (tcpCovered demoString 20)) := by
  obtain ⟨heven, -, -, -⟩ := @inet_checksum_law demoString 8 (by decide)
  obtain ⟨hodd, hfield, -, -⟩ := @inet_checksum_law demoString 7 (by decide)
  obtain ⟨-, -, ⟨htcp, -⟩, -⟩ := @inet_checksum_law demoString 20 (by decide)
  have hsum : rfc1071 (slice demoString 0 8) = 0x220d := by decide
  have hsum' : rfc1071 (slice demoString 0 7) = 0x2304 := by decide
  exact ⟨hsum ▸ (heven 0).2, hsum' ▸ (hodd 0).2, hfield 0 4 rfl (by decide), htcp.2⟩

end Wire

end WsPi5
