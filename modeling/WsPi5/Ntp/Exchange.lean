/-
# `WsPi5.Ntp.Exchange` — does the reply to a request reach `ntp_handle`?

    ntp_build_request     sport NTP_SPORT = 12345     dport NTP_PORT = 123
    the reply             sport 123                   dport 12345
    udp_handle            dport 123 goes to ntp_handle, dport 12345 to `icmp_send_error`

The two files agree on 123 and on nothing else.  So a server that answers to the port the request
came from, as every server does, gets a Port Unreachable, and the clock is never set.

**Proved here** (`ntp_exchange`).  For every request that `ntp_build_request` builds, with or
without authentication, and every reply to it that is well formed and that `ntp_handle` would
accept, `udp_handle` takes it for a datagram to an unknown port, and `ntp_state` stays as it was.
The authentication itself is right: with a key, a reply is accepted only with the digest of the key
and its first 48 bytes, and one with the key id and that digest is accepted as it would be without
a key.
-/
import WsPi5.Ntp.Client

namespace WsPi5

open Lib

namespace Wire

/-- A reply of `len` bytes to the request `req`: addresses and ports swapped, the UDP length and
a valid checksum or none, and a payload that `ntp_handle` accepts. -/
structure ServerReply (auth : NtpAuth) (s : NtpState) (req reply : Buf) (len : Nat) : Prop where
  whole : 42 ≤ len
  ipSrc : slice reply 26 4 = slice req 30 4
  ipDst : slice reply 30 4 = slice req 26 4
  sport : slice reply 34 2 = slice req 36 2
  dport : slice reply 36 2 = slice req 34 2
  udpLength : readHalf reply 38 = len - 34
  checksum : halfAt reply 40 = 0 ∨ udpChecksum reply (len - 34) = 0
  accepted : ntpAccepts auth s (slice reply 42 (len - 42)) = true

/-! ## The source port of a request -/

theorem putNtpChecksum_keeps {buf : Buf} {m a n : Nat} (h : a + n ≤ 40 ∨ 42 ≤ a) :
    slice (putNtpChecksum buf m) a n = slice buf a n := by
  unfold putNtpChecksum
  dsimp only
  rw [slice_memWrite_outside h, slice_memWrite_outside h]

theorem ntpPlain_sport (net : NtpNet) (gwMac : BitVec 48) (buf : Buf) :
    slice (ntpPlain net gwMac buf) 34 2 = beHalf ntpSport := by
  unfold ntpPlain
  dsimp only
  rw [putNtpChecksum_keeps (.inl (by decide))]
  refine @slice_memWrites_mem _ 34 (beHalf ntpSport) [] _ _ fun w hw => ?_
  simp only [List.mem_cons, List.not_mem_nil, or_false] at hw
  rcases hw with rfl | rfl | rfl | rfl <;> exact .inl (by decide)

theorem ntpBuildRequest_sport (net : NtpNet) (auth : NtpAuth) (gwMac : BitVec 48) (buf : Buf) :
    slice (ntpBuildRequest net auth gwMac buf).1 34 2 = beHalf ntpSport := by
  unfold ntpBuildRequest
  dsimp only
  split
  · exact ntpPlain_sport net gwMac buf
  · rw [putNtpChecksum_keeps (.inl (by decide)), putIpChecksum_keeps (.inr (by decide)),
      ← ntpPlain_sport net gwMac buf]
    refine slice_memWrites_outside fun w hw => ?_
    simp only [List.mem_cons, List.not_mem_nil, or_false] at hw
    rcases hw with rfl | rfl | rfl | rfl
    · exact .inl (by decide : 34 + 2 ≤ 90)
    · exact .inl (by decide : 34 + 2 ≤ 94)
    · exact .inr (by decide)
    · exact .inl (by decide)

/-! ## Where the reply goes -/

/-- **The reply's destination port is no port of `udp_handle`.** -/
theorem ServerReply.target {net : NtpNet} {auth : NtpAuth} {gwMac : BitVec 48} {buf : Buf}
    {s : NtpState} {reply : Buf} {len : Nat}
    (h : ServerReply auth s (ntpBuildRequest net auth gwMac buf).1 reply len) :
    udpTarget reply len = some .portUnreach := by
  have haccepts : udpAccepts reply len = true := by
    unfold udpAccepts
    rw [Bool.and_eq_true, Bool.and_eq_true, Bool.or_eq_true]
    have hwhole := h.whole
    exact ⟨⟨decide_eq_true (by omega), decide_eq_true h.udpLength⟩,
      h.checksum.imp (fun hc => decide_eq_true hc) fun hc => decide_eq_true hc⟩
  have hport : readHalf reply 36 = ntpSport % 65536 :=
    readHalf_of_slice (h.dport.trans (ntpBuildRequest_sport net auth gwMac buf))
  rw [udpTarget, if_pos haccepts, hport]
  rfl

/-! ## Authentication -/

theorem ntpAuthOk_iff {auth : NtpAuth} (hkey : auth.keyId ≠ 0) (pkt : List Byte) :
    ntpAuthOk auth pkt = true ↔
      68 ≤ pkt.length ∧ wordAt pkt 48 = auth.keyId ∧ ntpDigest auth pkt = (pkt.drop 52).take 16 := by
  unfold ntpAuthOk
  rw [Bool.or_eq_true, Bool.and_eq_true, Bool.and_eq_true]
  simp only [decide_eq_true_eq, hkey, false_or, and_assoc]

theorem ntpAccepts_authOk {auth : NtpAuth} {s : NtpState} {pkt : List Byte}
    (h : ntpAccepts auth s pkt = true) : ntpAuthOk auth pkt = true := by
  unfold ntpAccepts at h
  rw [Bool.and_eq_true, Bool.and_eq_true, Bool.and_eq_true] at h
  exact h.1.1.2

theorem ntpAccepts_of_authOk {auth : NtpAuth} {pkt : List Byte} (h : ntpAuthOk auth pkt = true)
    (s : NtpState) : ntpAccepts auth s pkt = ntpAccepts {} s pkt := by
  have hnone : ntpAuthOk {} pkt = true := rfl
  unfold ntpAccepts
  rw [h, hnone]

/-- **No reply to a request is ever delivered**; and what authentication asks for. -/
theorem ntp_exchange (net : NtpNet) (auth : NtpAuth) (gwMac : BitVec 48) (buf : Buf) :
    (∀ s reply len, ServerReply auth s (ntpBuildRequest net auth gwMac buf).1 reply len →
      udpTarget reply len = some .portUnreach ∧
        ∀ ticks, udpHandleNtp auth reply len ticks s = s) ∧
    (auth.keyId ≠ 0 → ∀ s pkt,
      (ntpAccepts auth s pkt = true → ntpDigest auth pkt = (pkt.drop 52).take 16) ∧
      (68 ≤ pkt.length → wordAt pkt 48 = auth.keyId → ntpDigest auth pkt = (pkt.drop 52).take 16 →
        ntpAccepts auth s pkt = ntpAccepts {} s pkt)) := by
  constructor
  · intro s reply len h
    have htarget := h.target
    refine ⟨htarget, fun ticks => ?_⟩
    rw [udpHandleNtp, htarget]
    rfl
  · intro hkey s pkt
    constructor
    · intro hacc
      exact ((ntpAuthOk_iff hkey pkt).mp (ntpAccepts_authOk hacc)).2.2
    · intro hlen hid hdigest
      exact ntpAccepts_of_authOk ((ntpAuthOk_iff hkey pkt).mpr ⟨hlen, hid, hdigest⟩) s

/-! ## A request and its reply -/

def demoNtpNet : NtpNet := ⟨0x010203040506, 0x0F02000A, 0x0100000A⟩

def demoNtpAuth : NtpAuth := ⟨1, List.replicate 16 7⟩

def demoGwMac : BitVec 48 := 0x020000000001

def demoNtpRequest : Buf := (ntpBuildRequest demoNtpNet demoNtpAuth demoGwMac fun _ => 0).1

/-- A stratum 1 server's header, and our key id and digest behind it. -/
def demoNtpSigned : List Byte :=
  let header := [0x24, 1] ++ List.replicate 38 0 ++ beBytes 0xE0000000 ++ List.replicate 4 0
  header ++ beBytes 1 ++ ntpDigest demoNtpAuth header

/-- The reply as the gateway forwards it: 110 bytes, without a UDP checksum. -/
def demoNtpAnswer : Buf :=
  putIpChecksum (memWrites (fun _ => 0)
    [(0, macBytes demoNtpNet.ourMac), (6, macBytes demoGwMac), (12, beHalf 0x0800), (14, [0x45, 0]),
     (16, beHalf 96), (20, [0x40, 0]), (22, [63, 17]),
     (26, slice demoNtpRequest 30 4), (30, slice demoNtpRequest 26 4),
     (34, slice demoNtpRequest 36 2), (36, slice demoNtpRequest 34 2), (38, beHalf 76),
     (42, demoNtpSigned)])

theorem demoNtpAnswer_reply : ServerReply demoNtpAuth {} demoNtpRequest demoNtpAnswer 110 := by
  refine ⟨by decide, ?_, ?_, ?_, ?_, ?_, .inl ?_, ?_⟩
  all_goals decide +kernel

theorem ntp_exchange_demo :
    udpTarget demoNtpAnswer 110 = some .portUnreach ∧
      ntpAccepts demoNtpAuth {} demoNtpSigned = ntpAccepts {} {} demoNtpSigned := by
  obtain ⟨hreply, hauth⟩ := ntp_exchange demoNtpNet demoNtpAuth demoGwMac fun _ => 0
  exact ⟨(hreply {} demoNtpAnswer 110 demoNtpAnswer_reply).1,
    (hauth (by decide) {} demoNtpSigned).2 (by decide) (by decide) (by decide +kernel)⟩

/-- **A reply that synchronises the clock does not reach it.** -/
theorem ntp_reply_lost :
    ServerReply demoNtpAuth {} demoNtpRequest demoNtpAnswer 110 ∧
      (ntpHandle demoNtpAuth (slice demoNtpAnswer 42 68) 5 {}).1.synced = true ∧
      udpTarget demoNtpAnswer 110 ≠ some .ntp ∧
      (udpHandleNtp demoNtpAuth demoNtpAnswer 110 5 {}).synced = false := by
  have htarget : udpTarget demoNtpAnswer 110 = some .portUnreach :=
    @ServerReply.target demoNtpNet demoNtpAuth demoGwMac (fun _ => 0) {} demoNtpAnswer 110
      demoNtpAnswer_reply
  refine ⟨demoNtpAnswer_reply, ?_, ?_, ?_⟩
  · rw [ntpHandle, if_pos demoNtpAnswer_reply.accepted]
    rfl
  · rw [htarget]
    decide
  · rw [udpHandleNtp, htarget]
    rfl

end Wire

end WsPi5
