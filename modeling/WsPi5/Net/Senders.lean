/-
# `WsPi5.Net.Senders` — what the stack sends, at a receiver with this code

`IpFrame` says what a frame with an IPv4 packet has to be so that `net_recv_one` and `ip_handle`
look at its addresses and at nothing else: header, lengths, TTL, checksum.

    icmp_send_error              to the sender of the datagram that it quotes
    dhcp_wrap_broadcast          0.0.0.0 to everyone, from port 68 to port 67
    _mdns_wrap_multicast_frame   us to the group, from and to port 5353

The last two write the same headers with other addresses, ports and TTL (`wrapUdp`).

**Proved here.**  An `IpFrame` is dispatched by its protocol exactly if the receiver takes its
addresses (`IpFrame.received`); and these builders, like the two echoes, make one.
-/
import WsPi5.Net.Receive
import WsPi5.Mdns.Conflict
import WsPi5.Mdns.Probe

namespace WsPi5

open Lib

namespace Wire

/-! ## The wrappers -/

/-- Ethernet, IP and UDP headers around a payload of `n` bytes; the UDP checksum is 0. -/
def wrapUdp (dstMac srcMac : BitVec 48) (ttl : Byte) (src dst : W) (sport dport n : Nat) (buf : Buf) :
    Buf :=
  memWrites (putIpChecksum (memWrites buf
      [(0, macBytes dstMac), (6, macBytes srcMac), (12, beHalf 0x0800), (14, [0x45, 0]),
       (16, beHalf (n + 28)), (18, halfBytes 0), (20, halfBytes 0), (22, [ttl, 17]),
       (26, wordBytes src), (30, wordBytes dst)]))
    [(34, beHalf sport), (36, beHalf dport), (38, beHalf (n + 8)), (40, halfBytes 0)]

/-- `dhcp_wrap_broadcast`, around the payload at 42. -/
def dhcpWrapBroadcast (ourMac : BitVec 48) (n : Nat) (buf : Buf) : Buf :=
  wrapUdp broadcastMac ourMac 64 0 0xFFFFFFFF 68 67 n buf

def mdnsWrapMulticastFrame (v : NetVars) (n : Nat) (buf : Buf) : Buf :=
  wrapUdp mdnsMac v.ourMac 255 v.ourIp mdnsIp 5353 5353 n buf

/-! ## A well formed IP frame -/

/-- A packet of this protocol, with `n` bytes behind its header, and no fragment. -/
structure IpDatagram (proto : Byte) (n : Nat) (buf : Buf) : Prop where
  type : slice buf 12 2 = beHalf 0x0800
  version : buf 14 = 0x45
  totlen : readHalf buf 16 = n + 20
  whole : isFragment buf = false
  proto : buf 23 = proto
  fits : n ≤ 1480

/-- A frame for this MAC address with a packet between these IP addresses. -/
structure IpFrame (dstMac : BitVec 48) (proto : Byte) (src dst : W) (n : Nat) (f : Buf × Nat) :
    Prop extends IpDatagram proto n f.1 where
  mac : slice f.1 0 6 = macBytes dstMac
  ttl : f.1 22 ≠ 0
  checksum : ipChecksum (slice f.1 14 20) = 0
  src : ipAt f.1 26 = src
  dst : ipAt f.1 30 = dst
  len : f.2 = n + 34

/-- The receiver takes a frame with these addresses. -/
def NetVars.Accepts (v : NetVars) (dstMac : BitVec 48) (src dst : W) : Prop :=
  v.Takes dstMac ∧ ipSrcOk v.ourIp src = true ∧ ipDstOk v.ourIp dst = true

instance (v : NetVars) (dstMac : BitVec 48) (src dst : W) : Decidable (v.Accepts dstMac src dst) :=
  inferInstanceAs (Decidable (_ ∧ _ ∧ _))

section
variable {dstMac : BitVec 48} {proto : Byte} {src dst : W} {n : Nat} {f : Buf × Nat}

/-- **Only the addresses matter.** -/
theorem IpFrame.received {κ : Type} (h : IpFrame dstMac proto src dst n f) (env : ReasmEnv κ)
    (now : Tick) (v : NetVars) (r : Reasm κ) : netRecvOne env now v f.1 f.2 r =
      (v, r, if v.Accepts dstMac src dst then ipDispatch v f.1 f.2 else .dropped) := by
  have hlen := h.len
  have hfits := h.fits
  have htype := @netType_eq v f.1 f.2 dstMac 0x0800 h.mac h.type (by decide) (by omega)
  unfold netRecvOne
  rw [htype]
  by_cases htakes : v.Takes dstMac
  · have hheader : ipHeaderOk f.1 f.2 = true := by
      unfold ipHeaderOk
      simp only [Bool.and_eq_true, decide_eq_true_eq]
      exact ⟨⟨⟨⟨⟨by omega, h.version⟩, by rw [h.totlen]; omega⟩, by rw [h.totlen]; omega⟩,
        h.checksum⟩, h.ttl⟩
    have haccepts : ipAccepts v f.1 f.2 = true ↔ v.Accepts dstMac src dst := by
      rw [ipAccepts, hheader, h.src, h.dst, Bool.true_and, Bool.and_eq_true, NetVars.Accepts]
      exact ⟨fun hok => ⟨htakes, hok⟩, fun hok => hok.2⟩
    rw [if_pos htakes]
    dsimp only
    rw [ipHandle]
    by_cases hok : v.Accepts dstMac src dst
    · rw [if_pos (haccepts.mpr hok), if_pos hok, h.whole]
      rfl
    · rw [if_neg fun hb => hok (haccepts.mp hb), if_neg hok]
      rfl
  · have hnot : ¬ v.Accepts dstMac src dst := fun hok => htakes hok.1
    rw [if_neg htakes, if_neg hnot]

theorem IpFrame.congr {g : Buf × Nat} (h : IpFrame dstMac proto src dst n f)
    (hsame : AgreeTo 34 f.1 g.1) (hlen : g.2 = f.2) : IpFrame dstMac proto src dst n g := by
  have hfrag : isFragment g.1 = isFragment f.1 := by
    rw [isFragment, isFragment, readHalf_agree hsame (by decide)]
  refine ⟨⟨?_, ?_, ?_, hfrag.trans h.whole, ?_, h.fits⟩, ?_, ?_, ?_, ?_, ?_, hlen.trans h.len⟩
  · rw [← hsame.slice (by decide)]
    exact h.type
  · rw [← hsame 14 (by decide)]
    exact h.version
  · rw [← readHalf_agree hsame (by decide)]
    exact h.totlen
  · rw [← hsame 23 (by decide)]
    exact h.proto
  · rw [← hsame.slice (by decide)]
    exact h.mac
  · rw [← hsame 22 (by decide)]
    exact h.ttl
  · rw [← hsame.slice (by decide)]
    exact h.checksum
  · rw [← ipAt_agree hsame (by decide)]
    exact h.src
  · rw [← ipAt_agree hsame (by decide)]
    exact h.dst

/-! ## The builders -/

theorem putIpChecksum_frame {buf : Buf} {ws : List (Nat × List Byte)} (hws : ∀ w ∈ ws, 34 ≤ w.1)
    {a m : Nat} (hle : a + m ≤ 34) :
    slice (memWrites (putIpChecksum buf) ws) a m = slice (putIpChecksum buf) a m :=
  slice_memWrites_outside fun w hw => .inl (Nat.le_trans hle (hws w hw))

theorem cell_of_slice {buf : Buf} {a m : Nat} {x : Byte} {xs : List Byte}
    (h : slice buf a (m + 1) = x :: xs) : buf a = x := by
  rw [Nat.add_comm, slice_add] at h
  exact (List.cons.inj h).1

/-- From an IP header with its checksum to the frame: the rest is stored behind it. -/
theorem ipFrame_of_header {ip : Buf} {ws : List (Nat × List Byte)} {ttl : Byte}
    (hws : ∀ w ∈ ws, 34 ≤ w.1) (hmac : slice ip 0 6 = macBytes dstMac)
    (htype : slice ip 12 2 = beHalf 0x0800) (hver : slice ip 14 1 = [0x45])
    (htot : slice ip 16 2 = beHalf (n + 20)) (hfrag : slice ip 20 2 = [0, 0])
    (hproto : slice ip 22 2 = [ttl, proto]) (httl : ttl ≠ 0)
    (hsrc : slice ip 26 4 = wordBytes src) (hdst : slice ip 30 4 = wordBytes dst) (hn : n ≤ 1480) :
    IpFrame dstMac proto src dst n (memWrites (putIpChecksum ip) ws, n + 34) := by
  have hkeep : ∀ {a m}, a + m ≤ 24 ∨ 26 ≤ a → a + m ≤ 34 →
      slice (memWrites (putIpChecksum ip) ws) a m = slice ip a m := by
    intro a m hout hle
    rw [putIpChecksum_frame hws hle, putIpChecksum_keeps hout]
  have hcells := hkeep (.inl (by decide)) (by decide : 22 + 2 ≤ 34)
  have hcells' : slice (memWrites (putIpChecksum ip) ws) 22 2 = [ttl, proto] := hcells.trans hproto
  have hbits : readHalf (memWrites (putIpChecksum ip) ws) 20 = 0 := by
    refine beHalf_read ?_ (by decide)
    exact (hkeep (.inl (by decide)) (by decide)).trans hfrag
  have hcell : memWrites (putIpChecksum ip) ws 22 = ttl := (List.cons.inj hcells').1
  refine ⟨⟨?_, ?_, ?_, ?_, ?_, hn⟩, ?_, ?_, ?_, ?_, ?_, rfl⟩
  · exact (hkeep (.inl (by decide)) (by decide)).trans htype
  · exact cell_of_slice ((hkeep (.inl (by decide)) (by decide)).trans hver)
  · exact beHalf_read ((hkeep (.inl (by decide)) (by decide)).trans htot) (by omega)
  · dsimp only
    rw [isFragment, hbits]
    rfl
  · exact (List.cons.inj (List.cons.inj hcells').2).1
  · exact (hkeep (.inl (by decide)) (by decide)).trans hmac
  · show memWrites (putIpChecksum ip) ws 22 ≠ 0
    rw [hcell]
    exact httl
  · dsimp only
    rw [putIpChecksum_frame hws (by decide)]
    exact putIpChecksum_verifies ip
  · exact ipAt_eq ((hkeep (.inr (by decide)) (by decide)).trans hsrc)
  · exact ipAt_eq ((hkeep (.inr (by decide)) (by decide)).trans hdst)

/-- **The wrappers.** -/
theorem wrapUdp_frame {srcMac : BitVec 48} {ttl : Byte} {sport dport : Nat} {buf : Buf}
    (httl : ttl ≠ 0) (hn : n ≤ 1472) :
    IpFrame dstMac 17 src dst (n + 8)
      (wrapUdp dstMac srcMac ttl src dst sport dport n buf, n + 42) := by
  refine ipFrame_of_header ?_ (slice_stored rfl) (slice_stored rfl) (slice_stored rfl)
    (slice_stored rfl) (slice_stored rfl) (slice_stored rfl) httl (slice_stored rfl)
    (slice_stored rfl) (by omega)
  intro w hw
  simp only [List.mem_cons, List.not_mem_nil, or_false] at hw
  rcases hw with rfl | rfl | rfl | rfl
  all_goals dsimp only; omega

theorem slice_readHalf (buf : Buf) (off : Nat) : slice buf off 2 = beHalf (readHalf buf off) := by
  have h₀ := (buf off).toNat_lt
  have h₁ := (buf (off + 1)).toNat_lt
  have hfirst : UInt8.ofNat (readHalf buf off / 256) = buf off := by
    refine UInt8.toNat.inj ?_
    rw [UInt8.toNat_ofNat', readHalf]
    omega
  have hsecond : UInt8.ofNat (readHalf buf off) = buf (off + 1) := by
    refine UInt8.toNat.inj ?_
    rw [UInt8.toNat_ofNat', readHalf]
    omega
  rw [beHalf, hfirst, hsecond]
  rfl

theorem putUdpChecksum_keeps {hw : Bool} {buf : Buf} {m a k : Nat} (h : a + k ≤ 40 ∨ 42 ≤ a) :
    slice (putUdpChecksum hw buf m) a k = slice buf a k := by
  unfold putUdpChecksum
  dsimp only
  rw [slice_memWrite_outside h, slice_memWrite_outside h]

theorem ipFrame_turned {proto : Byte} {n : Nat} {buf turned : Buf} (h : IpDatagram proto n buf)
    (hkept : slice turned 12 10 = slice buf 12 10) (httl : slice turned 22 1 = [64])
    (hproto : slice turned 23 1 = slice buf 23 1)
    (hmac : slice turned 0 6 = slice buf 6 6) (hsrc : slice turned 26 4 = slice buf 30 4)
    (hdst : slice turned 30 4 = slice buf 26 4) :
    IpFrame (macAt buf 6) proto (ipAt buf 30) (ipAt buf 26) n (putIpChecksum turned, n + 34) := by
  have hbits : slice buf 20 2 = beHalf (readHalf buf 20) := slice_readHalf buf 20
  have htot : slice buf 16 2 = beHalf (readHalf buf 16) := slice_readHalf buf 16
  have hcell : slice buf 14 1 = [buf 14] := rfl
  rw [h.version] at hcell
  have hkeep : ∀ {a m}, 12 ≤ a → a + m ≤ 22 → slice (putIpChecksum turned) a m = slice buf a m := by
    intro a m hlo hhi
    obtain ⟨d, rfl⟩ := Nat.exists_eq_add_of_le hlo
    rw [putIpChecksum_keeps (.inl (by omega))]
    exact slice_part hkept (by omega)
  have httl' : slice (putIpChecksum turned) 22 1 = [64] :=
    (putIpChecksum_keeps (.inl (by decide))).trans httl
  have hproto' : slice (putIpChecksum turned) 23 1 = slice buf 23 1 :=
    (putIpChecksum_keeps (.inl (by decide))).trans hproto
  have hfrag : readHalf (putIpChecksum turned) 20 = readHalf buf 20 := by
    rw [readHalf_of_slice ((hkeep (by decide) (by decide)).trans hbits)]
    have h₀ := (buf 20).toNat_lt
    have h₁ := (buf (20 + 1)).toNat_lt
    unfold readHalf
    omega
  have hlen : readHalf (putIpChecksum turned) 16 = n + 20 := by
    rw [← h.totlen]
    refine beHalf_read ((hkeep (by decide) (by decide)).trans htot) ?_
    rw [h.totlen]
    have hfits := h.fits
    omega
  refine ⟨⟨?_, ?_, hlen, ?_, ?_, h.fits⟩, ?_, ?_, putIpChecksum_verifies turned, ?_, ?_, rfl⟩
  · exact (hkeep (by decide) (by decide)).trans h.type
  · exact cell_of_slice ((hkeep (by decide) (by decide)).trans hcell)
  · dsimp only
    rw [isFragment, hfrag]
    exact h.whole
  · exact (cell_of_slice hproto').trans h.proto
  · refine (putIpChecksum_keeps (.inl (by decide))).trans ?_
    rw [hmac, macBytes_macAt]
  · show putIpChecksum turned 22 ≠ 0
    rw [cell_of_slice httl']
    decide
  · refine ipAt_congr ?_
    exact (putIpChecksum_keeps (.inr (by decide))).trans hsrc
  · refine ipAt_congr ?_
    exact (putIpChecksum_keeps (.inr (by decide))).trans hdst

/-- **The UDP echo.** -/
theorem udpEcho_frame {hw : Bool} {n m : Nat} {buf : Buf} (h : IpDatagram 17 n buf) :
    IpFrame (macAt buf 6) 17 (ipAt buf 30) (ipAt buf 26) n (udpEcho hw buf m, n + 34) := by
  refine ipFrame_turned h ?_ ?_ ?_ ?_ ?_ ?_
  all_goals
    rw [putUdpChecksum_keeps (.inl (by decide))]
    unfold echoSwapped
  · exact slice_unstored rfl
  · exact slice_stored rfl
  · exact slice_unstored rfl
  · exact slice_stored rfl
  · exact slice_stored rfl
  · exact slice_stored rfl

end

end Wire

end WsPi5
