/-
# `WsPi5.Net.Receive` — from a frame to its handler: `lib/net.S`, `lib/ip.S`, `lib/icmp.S`

`net_recv_one` goes by the EtherType, `ip_handle` by the protocol, `udp_handle` by the port.  What
is answered on the spot (ARP, the echoes of ICMP and UDP) is answered in the buffer that the frame
came in; the rest is handed on (`Outcome`), and two cases are reported to the sender by
`icmp_send_error`.

    ip_handle       length, 0x45, total length, checksum, TTL; source; destination
    a fragment      to `ip_reasm_input`, which rebuilds the datagram in the buffer of the last one
    icmp_handle     length, checksum; types 3 and 8
    udp_handle      length, checksum; ports 7, 68, 123 and 5353

**Proved here** (`netRecvOne_confined`): nothing but the bytes of the frame is read, and nothing but
the bytes of the answer is written.

`icmp_send_error` compares the number of bytes there are with 28 twice.  At the first comparison the
28 is not loaded yet: `w4` is the address of `net_our_mac`, out of `eth_build_hdr`.  The second makes
up for it as long as the address is 28 or more; it is a parameter here.
-/
import WsPi5.Net.Link
import WsPi5.Ntp.Client
import WsPi5.Ip.Fragments
import WsPi5.RateLimits

namespace WsPi5

open Lib

namespace Wire

/-! ## `lib/icmp.S` -/

/-- "Swap", TTL 64, type 0. -/
def icmpSwapped (buf : Buf) : Buf :=
  memWrites buf
    [(0, slice buf 6 6), (6, slice buf 0 6), (26, slice buf 30 4), (30, slice buf 26 4), (22, [64]),
     (34, [0])]

/-- "Recompute ICMP checksum", over `n` bytes; zero for the hardware. -/
def putIcmpChecksum (hw : Bool) (buf : Buf) (n : Nat) : Buf :=
  let zeroed := memWrite buf 36 (halfBytes 0)
  if hw then zeroed else memWrite zeroed 36 (halfBytes (ipChecksum (slice zeroed 34 n)))

/-- The echo reply to a message of `n` bytes. -/
def icmpEcho (hw : Bool) (buf : Buf) (n : Nat) : Buf :=
  putIpChecksum (putIcmpChecksum hw (icmpSwapped buf) n)

/-- Guards 0 and 1 of `icmp_send_error`: not for a broadcast or a multicast, and not for an ICMP
error. -/
def icmpMayReport (orig : Buf) : Bool :=
  ipAt orig 30 ≠ 0xFFFFFFFF && (ipAt orig 30 >>> 4) &&& 0xF ≠ 0xE &&
    !(orig 23 = 1 && (orig 34 = 3 || orig 34 = 5 || orig 34 = 11 || orig 34 = 12))

/-- How much of the datagram is quoted; `macPtr` is the address of `net_our_mac`. -/
def icmpQuoted (macPtr : W) (len : Nat) : Nat :=
  let w2 := if len - 14 < 28 then len - 14 else macPtr.toNat
  if w2 < 28 then w2 else 28

/-- "Build 70-byte ICMP error frame in tx_buf". -/
def icmpErrorFrame (v : NetVars) (macPtr : W) (ty code : Byte) (orig : Buf) (len : Nat) (tx : Buf) :
    Buf :=
  let ip := putIpChecksum (memWrites (ethBuildHdr v (macAt orig 6) 0x0800 tx)
    [(14, [0x45, 0]), (16, halfBytes 0x3800), (18, halfBytes 0), (20, halfBytes 0), (22, [64, 1]),
     (26, wordBytes v.ourIp), (30, wordBytes (ipAt orig 26))])
  let icmp := memWrites ip
    [(34, [ty, code]), (36, halfBytes 0), (38, wordBytes 0), (42, List.replicate 32 0),
     (42, slice orig 14 (icmpQuoted macPtr len))]
  if v.hwCsumTx then icmp else memWrite icmp 36 (halfBytes (ipChecksum (slice icmp 34 36)))

/-- What `icmp_send_error` depends on besides the variables. -/
structure IcmpEnv where
  freq : Tick
  macPtr : W
  hasSendFn : Bool

/-- `icmp_send_error`: the limiter after it, and the frame sent. -/
def icmpSendError (env : IcmpEnv) (now : Tick) (v : NetVars) (ty code : Byte) (orig : Buf)
    (len : Nat) (tx : Buf) (l : IcmpErrLimit) : IcmpErrLimit × Option (Buf × Nat) :=
  if icmpMayReport orig then
    let allowed := icmpErrAllow env.freq now l
    (allowed.1, if allowed.2 && env.hasSendFn then
      some (icmpErrorFrame v env.macPtr ty code orig len tx, 70) else none)
  else (l, none)

/-! ## Where a frame goes -/

/-- A frame is dropped or used up, answered, or handed on; `unreachable` is a call of
`icmp_send_error` with type 3. -/
inductive Outcome (φ : Type) where
  | dropped
  | answered (sent : φ)
  | tcp (frame : φ)
  | icmpErr (frame : φ)
  | ntp (frame : φ)
  | mdns (frame : φ)
  | dhcp (frame : φ)
  | perf (frame : φ)
  | unreachable (code : Byte) (frame : φ)

def Outcome.frame {φ : Type} : Outcome φ → Option φ
  | .dropped => none
  | .answered f | .tcp f | .icmpErr f | .ntp f | .mdns f | .dhcp f | .perf f => some f
  | .unreachable _ f => some f

/-- An outcome with another account of its frame. -/
def Outcome.map {φ ψ : Type} (g : φ → ψ) : Outcome φ → Outcome ψ
  | .dropped => .dropped
  | .answered f => .answered (g f)
  | .tcp f => .tcp (g f)
  | .icmpErr f => .icmpErr (g f)
  | .ntp f => .ntp (g f)
  | .mdns f => .mdns (g f)
  | .dhcp f => .dhcp (g f)
  | .perf f => .perf (g f)
  | .unreachable code f => .unreachable code (g f)

def Outcome.ofReply {φ : Type} : Option φ → Outcome φ
  | some sent => .answered sent
  | none => .dropped

@[simp] theorem Outcome.ofReply_map {φ ψ : Type} (g : φ → ψ) (reply : Option φ) :
    (Outcome.ofReply reply).map g = .ofReply (reply.map g) := by
  cases reply <;> rfl

@[simp] theorem Outcome.ofReply_frame {φ : Type} (reply : Option φ) :
    (Outcome.ofReply reply).frame = reply := by
  cases reply <;> rfl

def icmpHandle (hw : Bool) (buf : Buf) (len : Nat) : Outcome (Buf × Nat) :=
  if len - 34 < 8 then .dropped
  else if ipChecksum (slice buf 34 (len - 34)) ≠ 0 then .dropped
  else if buf 34 = 3 then .icmpErr (buf, len)
  else if buf 34 ≠ 8 then .dropped
  else .answered (icmpEcho hw buf (len - 34), len)

/-- `udp_handle`, for every port. -/
def udpReceive (hw : Bool) (buf : Buf) (len : Nat) : Outcome (Buf × Nat) :=
  match udpTarget buf len with
  | none => .dropped
  | some .echo => .answered (udpEcho hw buf (len - 34), len)
  | some .ntp => .ntp (buf, len)
  | some .mdns => .mdns (buf, len)
  | some .dhcp => .dhcp (buf, len)
  | some .portUnreach => .unreachable 3 (buf, len)

def portTarget (port : Nat) : UdpTarget :=
  if port = 7 then .echo else if port = ntpPort then .ntp else if port = 5353 then .mdns
  else if port = 68 then .dhcp else .portUnreach

theorem udpTarget_eq (buf : Buf) (len : Nat) : udpTarget buf len =
    if udpAccepts buf len then some (portTarget (readHalf buf 36)) else none := rfl

/-- Checks 1 to 6. -/
def ipHeaderOk (buf : Buf) (len : Nat) : Bool :=
  34 ≤ len && buf 14 = 0x45 && 20 ≤ readHalf buf 16 && readHalf buf 16 + 14 ≤ len &&
    ipChecksum (slice buf 14 20) = 0 && buf 22 ≠ 0

/-- Check 7: no martian. -/
def ipSrcOk (ourIp src : W) : Bool :=
  src ≠ 0 && src &&& 0xFF ≠ 127 && src ≠ ourIp && src ≠ 0xFFFFFFFF && src &&& 0xF0 ≠ 0xE0

/-- 224.0.0.251. -/
def mdnsIp : W := 0xFB0000E0

/-- Check 8: us, the mDNS group, everyone. -/
def ipDstOk (ourIp dst : W) : Bool := dst = ourIp || dst = mdnsIp || dst = 0xFFFFFFFF

def ipAccepts (v : NetVars) (buf : Buf) (len : Nat) : Bool :=
  ipHeaderOk buf len && ipSrcOk v.ourIp (ipAt buf 26) && ipDstOk v.ourIp (ipAt buf 30)

/-- "MF + frag offset". -/
def isFragment (buf : Buf) : Bool := readHalf buf 20 % 16384 ≠ 0

/-- The fragment that `ip_reasm_input` reads out of a frame. -/
def fragOf (buf : Buf) : IpFrag where
  ethSrc := macAt buf 6
  key := ⟨ipAt buf 26, ipAt buf 30, BitVec.ofNat 16 (loadLe buf 18 2), buf 23⟩
  ttl := buf 22
  mf := (readHalf buf 20).testBit 13
  off := BitVec.ofNat 13 (readHalf buf 20)
  payload := slice buf 34 (readHalf buf 16 - 20)

/-- "Build reassembled frame in-place". -/
def putPacket (p : IpPacket) (buf : Buf) : Buf := memWrites buf [(14, p.header), (34, p.payload)]

/-- `.Lip_dispatch`: the total length is that of the datagram, `len` that of the frame. -/
def ipDispatch (v : NetVars) (buf : Buf) (len : Nat) : Outcome (Buf × Nat) :=
  if buf 23 = 1 then icmpHandle v.hwCsumTx buf (readHalf buf 16 + 14)
  else if buf 23 = 17 then udpReceive v.hwCsumTx buf (readHalf buf 16 + 14)
  else if buf 23 = 6 then .tcp (buf, readHalf buf 16 + 14)
  else .unreachable 2 (buf, len)

section
variable {κ : Type} (env : ReasmEnv κ) (now : Tick)

def ipHandle (v : NetVars) (buf : Buf) (len : Nat) (r : Reasm κ) :
    Reasm κ × Outcome (Buf × Nat) :=
  if ipAccepts v buf len then
    if isFragment buf then
      match ipReasmInput env now (fragOf buf) r with
      | (r, some p) => (r, ipDispatch v (putPacket p buf) len)
      | (r, none) => (r, .dropped)
    else (r, ipDispatch v buf len)
  else (r, .dropped)

def netRecvOne (v : NetVars) (buf : Buf) (len : Nat) (r : Reasm κ) :
    NetVars × Reasm κ × Outcome (Buf × Nat) :=
  match netType v buf len with
  | some 0x0806 =>
      let learnt := arpHandle v buf len
      (learnt.1, r, .ofReply learnt.2)
  | some 0x0800 => (v, ipHandle env now v buf len r)
  | some 0x88B6 => (v, r, .perf (buf, len))
  | _ => (v, r, .dropped)

end

theorem ipDispatch_udp {v : NetVars} {buf : Buf} {len : Nat} (hproto : buf 23 = 17)
    (htotal : readHalf buf 16 + 14 = len) :
    ipDispatch v buf len = udpReceive v.hwCsumTx buf len := by
  subst htotal
  have hne : ¬(17 : Byte) = 1 := by decide
  unfold ipDispatch
  simp only [hproto, hne, if_false, if_true]

/-! ## Frames that agree -/

def frameBytes (f : Buf × Nat) : List Byte := slice f.1 0 f.2

section
variable {n len : Nat} {buf buf' : Buf} {hw : Bool} {v : NetVars}

theorem readHalf_agree (h : AgreeTo n buf buf') {off : Nat} (hle : off + 2 ≤ n) :
    readHalf buf off = readHalf buf' off := by
  rw [readHalf, readHalf, h off (by omega), h (off + 1) (by omega)]

theorem halfAt_agree (h : AgreeTo n buf buf') {off : Nat} (hle : off + 2 ≤ n) :
    halfAt buf off = halfAt buf' off := by
  rw [halfAt, halfAt, h off (by omega), h (off + 1) (by omega)]

theorem loadLe_agree (h : AgreeTo n buf buf') {off k : Nat} (hle : off + k ≤ n) :
    loadLe buf off k = loadLe buf' off k := loadLe_congr (h.slice hle)

theorem ipAt_agree (h : AgreeTo n buf buf') {off : Nat} (hle : off + 4 ≤ n) :
    ipAt buf off = ipAt buf' off := ipAt_congr (h.slice hle)

theorem macAt_agree (h : AgreeTo n buf buf') {off : Nat} (hle : off + 6 ≤ n) :
    macAt buf off = macAt buf' off := by
  rw [macAt, macAt, loadLe_agree h hle]

theorem putIpChecksum_agree (h : AgreeTo n buf buf') (hn : 34 ≤ n) :
    AgreeTo n (putIpChecksum buf) (putIpChecksum buf') := by
  have hzero := h.memWrite 24 (halfBytes 0)
  unfold putIpChecksum
  dsimp only
  rw [hzero.slice hn]
  exact hzero.memWrite _ _

theorem putIcmpChecksum_agree (h : AgreeTo n buf buf') {m : Nat} (hn : 34 + m ≤ n) :
    AgreeTo n (putIcmpChecksum hw buf m) (putIcmpChecksum hw buf' m) := by
  have hzero := h.memWrite 36 (halfBytes 0)
  unfold putIcmpChecksum
  dsimp only
  rw [hzero.slice hn]
  split
  · exact hzero
  · exact hzero.memWrite _ _

theorem udpPseudoSum_agree (h : AgreeTo n buf buf') (hn : 40 ≤ n) :
    udpPseudoSum buf = udpPseudoSum buf' := by
  rw [udpPseudoSum, udpPseudoSum, h.slice (by omega), halfAt_agree h (by omega)]

theorem udpChecksum_agree (h : AgreeTo n buf buf') {m : Nat} (hn : 34 + m ≤ n) (hm : 6 ≤ m) :
    udpChecksum buf m = udpChecksum buf' m := by
  rw [udpChecksum, udpChecksum, udpPseudoSum_agree h (by omega), h.slice hn]

theorem putUdpChecksum_agree (h : AgreeTo n buf buf') {m : Nat} (hn : 34 + m ≤ n) (hm : 6 ≤ m) :
    AgreeTo n (putUdpChecksum hw buf m) (putUdpChecksum hw buf' m) := by
  have hzero := h.memWrite 40 (halfBytes 0)
  unfold putUdpChecksum udpPseudoCsum
  dsimp only
  rw [udpPseudoSum_agree hzero (by omega), udpChecksum_agree hzero hn hm]
  exact hzero.memWrite _ _

theorem icmpEcho_agree (h : AgreeTo n buf buf') {m : Nat} (hn : 34 + m ≤ n) :
    AgreeTo n (icmpEcho hw buf m) (icmpEcho hw buf' m) := by
  refine putIpChecksum_agree (putIcmpChecksum_agree ?_ hn) (by omega)
  unfold icmpSwapped
  rw [h.slice (by omega), h.slice (a := 0) (by omega), h.slice (a := 30) (by omega),
    h.slice (a := 26) (by omega)]
  exact h.memWrites _

theorem udpEcho_agree (h : AgreeTo n buf buf') {m : Nat} (hn : 34 + m ≤ n) (hm : 6 ≤ m) :
    AgreeTo n (udpEcho hw buf m) (udpEcho hw buf' m) := by
  refine putIpChecksum_agree (putUdpChecksum_agree ?_ hn hm) (by omega)
  unfold echoSwapped
  rw [h.slice (by omega), h.slice (a := 0) (by omega), h.slice (a := 30) (by omega),
    h.slice (a := 26) (by omega), h.slice (a := 36) (by omega), h.slice (a := 34) (by omega)]
  exact h.memWrites _

theorem frameBytes_agree (h : AgreeTo n buf buf') (hlen : len ≤ n) :
    frameBytes (buf, len) = frameBytes (buf', len) := h.slice (by omega)

/-! ## What is read -/

theorem icmpHandle_agree (h : AgreeTo n buf buf') (hlen : len ≤ n) :
    (icmpHandle hw buf len).map frameBytes = (icmpHandle hw buf' len).map frameBytes := by
  unfold icmpHandle
  by_cases hshort : len - 34 < 8
  · rw [if_pos hshort, if_pos hshort]
  · have hsum : slice buf 34 (len - 34) = slice buf' 34 (len - 34) := h.slice (by omega)
    have htype : buf 34 = buf' 34 := h 34 (by omega)
    have hecho : frameBytes (icmpEcho hw buf (len - 34), len)
        = frameBytes (icmpEcho hw buf' (len - 34), len) :=
      frameBytes_agree (icmpEcho_agree h (by omega)) hlen
    have hsame : frameBytes (buf, len) = frameBytes (buf', len) := frameBytes_agree h hlen
    rw [if_neg hshort, if_neg hshort, hsum, htype]
    split_ifs
    · rfl
    · exact congrArg Outcome.icmpErr hsame
    · rfl
    · exact congrArg Outcome.answered hecho

theorem udpTarget_agree (h : AgreeTo n buf buf') (hlen : len ≤ n) :
    udpTarget buf len = udpTarget buf' len := by
  unfold udpTarget udpAccepts
  by_cases hshort : 8 ≤ len - 34
  · rw [readHalf_agree h (by omega), halfAt_agree h (by omega),
      udpChecksum_agree h (by omega) (by omega), @readHalf_agree _ _ _ h 36 (by omega)]
  · simp only [decide_eq_false hshort, Bool.false_and, if_neg Bool.false_ne_true]

theorem udpTarget_length {t : UdpTarget} (h : udpTarget buf len = some t) : 8 ≤ len - 34 := by
  unfold udpTarget udpAccepts at h
  split at h
  · rename_i hok
    rw [Bool.and_eq_true, Bool.and_eq_true, decide_eq_true_eq] at hok
    exact hok.1.1
  · cases h

theorem udpReceive_agree (h : AgreeTo n buf buf') (hlen : len ≤ n) :
    (udpReceive hw buf len).map frameBytes = (udpReceive hw buf' len).map frameBytes := by
  have htarget := udpTarget_agree h hlen
  have hsame : frameBytes (buf, len) = frameBytes (buf', len) := frameBytes_agree h hlen
  unfold udpReceive
  rw [← htarget]
  cases ht : udpTarget buf len with
  | none => rfl
  | some t =>
      have hlong := udpTarget_length ht
      have hecho : frameBytes (udpEcho hw buf (len - 34), len)
          = frameBytes (udpEcho hw buf' (len - 34), len) :=
        frameBytes_agree (udpEcho_agree h (by omega) (by omega)) hlen
      cases t with
      | echo => exact congrArg Outcome.answered hecho
      | ntp => exact congrArg Outcome.ntp hsame
      | mdns => exact congrArg Outcome.mdns hsame
      | dhcp => exact congrArg Outcome.dhcp hsame
      | portUnreach => exact congrArg (Outcome.unreachable 3) hsame

theorem ipDispatch_agree (h : AgreeTo n buf buf') (hn : 34 ≤ n) (htot : readHalf buf 16 + 14 ≤ n)
    (hlen : len ≤ n) :
    (ipDispatch v buf len).map frameBytes = (ipDispatch v buf' len).map frameBytes := by
  have hproto : buf 23 = buf' 23 := h 23 (by omega)
  have htotlen : readHalf buf 16 = readHalf buf' 16 := readHalf_agree h (by omega)
  unfold ipDispatch
  rw [← hproto, ← htotlen]
  split_ifs
  · exact icmpHandle_agree h htot
  · exact udpReceive_agree h htot
  · exact congrArg Outcome.tcp (frameBytes_agree h htot)
  · exact congrArg (Outcome.unreachable 2) (frameBytes_agree h hlen)

theorem ipAccepts_agree (h : AgreeTo len buf buf') : ipAccepts v buf len = ipAccepts v buf' len := by
  unfold ipAccepts ipHeaderOk
  by_cases hlong : 34 ≤ len
  · rw [h 14 (by omega), readHalf_agree h (by omega), h.slice (a := 14) (by omega), h 22 (by omega),
      ipAt_agree h (by omega), @ipAt_agree _ _ _ h 30 (by omega)]
  · simp only [decide_eq_false hlong, Bool.false_and]

theorem ipAccepts_lengths (h : ipAccepts v buf len = true) :
    34 ≤ len ∧ 20 ≤ readHalf buf 16 ∧ readHalf buf 16 + 14 ≤ len := by
  unfold ipAccepts ipHeaderOk at h
  simp only [Bool.and_eq_true, decide_eq_true_eq] at h
  exact ⟨h.1.1.1.1.1.1.1, h.1.1.1.1.1.2, h.1.1.1.1.2⟩

theorem fragOf_agree (h : AgreeTo n buf buf') (hn : 34 ≤ n) (htot : readHalf buf 16 + 14 ≤ n) :
    fragOf buf = fragOf buf' := by
  have htotlen : readHalf buf 16 = readHalf buf' 16 := readHalf_agree h (by omega)
  unfold fragOf
  rw [macAt_agree h (by omega), @ipAt_agree _ _ _ h 26 (by omega), @ipAt_agree _ _ _ h 30 (by omega),
    @loadLe_agree _ _ _ h 18 2 (by omega), h 23 (by omega), h 22 (by omega),
    @readHalf_agree _ _ _ h 20 (by omega), ← htotlen, h.slice (by omega)]

end

/-! ## A rebuilt datagram -/

theorem ipReasmInput_fits {κ : Type} {env : ReasmEnv κ} {now : Tick} {f : IpFrag} {r r' : Reasm κ}
    {p : IpPacket} (h : ipReasmInput env now f r = (r', some p)) :
    p.totlen = p.payload.length + 20 ∧ p.payload.length ≤ 1480 ∧ p.flagsFrag = 0 ∧
      p.verIhl = 0x45 := by
  rcases ipReasmInput_cases env now f r with ⟨-, hnone⟩ | ⟨k, r₁, -, hdeliver⟩
  · rw [hnone] at h
    cases h
  · rw [hdeliver, Reasm.deliver] at h
    split at h
    · split at h
      · cases h
      · rename_i hsize
        cases h
        have hfits : ((r₁.slot k).store f).totalLen + 34 ≤ 1514 := by
          unfold ReasmSlot.oversize ipFrameMax ethIpHdrLen at hsize
          simpa using hsize
        have hlen : ((r₁.slot k).store f).rebuilt.payload.length
            = ((r₁.slot k).store f).totalLen := by
          rw [rebuilt_payload, slice_length]
        exact ⟨by rw [hlen]; rfl, by omega, rfl, rfl⟩
    · cases h

section
variable {p : IpPacket} {buf : Buf}

theorem header_length (p : IpPacket) : p.header.length = 20 := rfl

theorem putPacket_totlen (hp : p.totlen < 65536) : readHalf (putPacket p buf) 16 = p.totlen := by
  have hfield : slice (putPacket p buf) 16 2
      = [UInt8.ofNat (p.totlen / 256), UInt8.ofNat (p.totlen % 256)] := by
    unfold putPacket
    exact slice_stored rfl
  have h₀ := (List.cons.inj hfield).1
  have h₁ := (List.cons.inj (List.cons.inj hfield).2).1
  rw [readHalf, show putPacket p buf 16 = _ from h₀, show putPacket p buf (16 + 1) = _ from h₁,
    UInt8.toNat_ofNat', UInt8.toNat_ofNat']
  omega

/-- A rebuilt frame has what was below the header out of the buffer, and the rest from the packet. -/
theorem putPacket_agree {n : Nat} {buf' : Buf} (h : AgreeTo n buf buf') (hn : 14 ≤ n) :
    AgreeTo (max n (34 + p.payload.length)) (putPacket p buf) (putPacket p buf') := by
  intro k hk
  by_cases hlow : k < n
  · exact (h.memWrites _) k hlow
  · have hin : k < 34 + p.payload.length := by omega
    have hall : ∀ b : Buf, slice (putPacket p b) 14 (20 + p.payload.length)
        = p.header ++ p.payload := by
      intro b
      have hblocks := slice_memWrites_blocks b 14 [p.header, p.payload]
      simp only [List.flatten_cons, List.flatten_nil, List.append_nil, List.length_append,
        header_length] at hblocks
      exact hblocks
    obtain ⟨d, rfl⟩ := Nat.exists_eq_add_of_le (show 14 ≤ k by omega)
    have hget : ∀ b : Buf, some (putPacket p b (14 + d)) = (p.header ++ p.payload)[d]? := by
      intro b
      rw [← hall b, slice_getElem? _ (by omega)]
    exact Option.some.inj ((hget buf).trans (hget buf').symm)

end

/-! ## The receive path -/

section
variable {κ : Type} {env : ReasmEnv κ} {now : Tick} {v : NetVars} {buf buf' : Buf} {len : Nat}
  {r : Reasm κ}

theorem ipHandle_agree (h : AgreeTo len buf buf') :
    (ipHandle env now v buf len r).1 = (ipHandle env now v buf' len r).1 ∧
      (ipHandle env now v buf len r).2.map frameBytes
        = (ipHandle env now v buf' len r).2.map frameBytes := by
  unfold ipHandle
  rw [← ipAccepts_agree h]
  by_cases hok : ipAccepts v buf len = true
  · obtain ⟨hlong, -, htot⟩ := ipAccepts_lengths hok
    have hfrag : isFragment buf = isFragment buf' := by
      rw [isFragment, isFragment, readHalf_agree h (by omega)]
    rw [if_pos hok, if_pos hok, ← hfrag, ← fragOf_agree h hlong htot]
    split
    · cases hin : ipReasmInput env now (fragOf buf) r with
      | mk r' res =>
          cases res with
          | none => exact ⟨rfl, rfl⟩
          | some p =>
              obtain ⟨hlens, hsize, -⟩ := ipReasmInput_fits hin
              refine ⟨rfl, ipDispatch_agree (putPacket_agree h (by omega)) (by omega) ?_ (by omega)⟩
              rw [putPacket_totlen (by omega)]
              omega
    · exact ⟨rfl, ipDispatch_agree h hlong htot (Nat.le_refl _)⟩
  · rw [if_neg hok, if_neg hok]
    exact ⟨rfl, rfl⟩

theorem arpHandle_agree (h : AgreeTo len buf buf') :
    (arpHandle v buf len).1 = (arpHandle v buf' len).1 ∧
      (arpHandle v buf len).2.map frameBytes = (arpHandle v buf' len).2.map frameBytes := by
  by_cases hlong : arpFrameLen ≤ len
  · rw [arpFrameLen] at hlong
    have hsane : arpSane buf len = arpSane buf' len := by
      rw [arpSane, arpSane, h.slice (by omega), h.slice (by omega), ipAt_agree h (by omega)]
    have hlearn : arpLearn v buf = arpLearn v buf' := by
      rw [arpLearn, arpLearn, ipAt_agree h (by omega), macAt_agree h (by omega)]
    have hreply : frameBytes (arpReply v buf, arpFrameLen)
        = frameBytes (arpReply v buf', arpFrameLen) := by
      refine frameBytes_agree ?_ hlong
      unfold arpReply
      rw [h.slice (by omega), h.slice (by omega)]
      exact h.memWrites _
    unfold arpHandle
    rw [← hsane, h.slice (by omega), @ipAt_agree _ _ _ h 38 (by omega), hlearn]
    split_ifs
    · exact ⟨rfl, congrArg some hreply⟩
    all_goals exact ⟨rfl, rfl⟩
  · have hshort : ∀ b : Buf, arpHandle v b len = (v, none) := by
      intro b
      rw [arpHandle, if_neg]
      unfold arpSane
      simp only [decide_eq_false hlong, Bool.false_and, Bool.false_eq_true, not_false_iff]
    rw [hshort, hshort]
    exact ⟨rfl, rfl⟩

theorem netType_agree (h : AgreeTo len buf buf') : netType v buf len = netType v buf' len := by
  unfold netType
  by_cases hshort : len < 14
  · rw [if_pos hshort, if_pos hshort]
  · have heq : ∀ mac, ethMacEq buf mac = ethMacEq buf' mac := by
      intro mac
      rw [ethMacEq, ethMacEq, @loadLe_agree _ _ _ h 0 4 (by omega),
        @loadLe_agree _ _ _ h 4 2 (by omega)]
    have hty : ethType buf len = ethType buf' len := by
      rw [ethType, ethType, readHalf_agree h (by omega)]
    rw [if_neg hshort, if_neg hshort, heq, heq, heq, hty]

theorem netRecvOne_agree (h : AgreeTo len buf buf') :
    (netRecvOne env now v buf len r).1 = (netRecvOne env now v buf' len r).1 ∧
    (netRecvOne env now v buf len r).2.1 = (netRecvOne env now v buf' len r).2.1 ∧
    (netRecvOne env now v buf len r).2.2.map frameBytes
      = (netRecvOne env now v buf' len r).2.2.map frameBytes := by
  unfold netRecvOne
  rw [← netType_agree h]
  split
  · obtain ⟨hvars, hreply⟩ := @arpHandle_agree v buf buf' len h
    refine ⟨hvars, rfl, ?_⟩
    dsimp only
    rw [Outcome.ofReply_map, Outcome.ofReply_map, hreply]
  · exact ⟨rfl, ipHandle_agree h⟩
  · exact ⟨rfl, rfl, congrArg Outcome.perf (frameBytes_agree h (Nat.le_refl _))⟩
  · exact ⟨rfl, rfl, rfl⟩

/-! ## What is written -/

/-- A frame of at most `n` bytes, in a buffer that is as it was from there on. -/
def Within (n : Nat) (buf : Buf) (f : Buf × Nat) : Prop := f.2 ≤ n ∧ ∀ k, n ≤ k → f.1 k = buf k

theorem Within.mono {m n : Nat} {f : Buf × Nat} (h : Within m buf f) (hle : m ≤ n) : Within n buf f :=
  ⟨h.1.trans hle, fun k hk => h.2 k (hle.trans hk)⟩

theorem Within.self {n : Nat} (h : len ≤ n) : Within n buf (buf, len) := ⟨h, fun _ _ => rfl⟩

theorem Within.of_outside {n : Nat} {f : Buf × Nat} (h : Within n buf' f)
    (hsame : ∀ k, n ≤ k → buf' k = buf k) : Within n buf f :=
  ⟨h.1, fun k hk => (h.2 k hk).trans (hsame k hk)⟩

theorem putIpChecksum_outside {k : Nat} (hk : 34 ≤ k) : putIpChecksum buf k = buf k := by
  unfold putIpChecksum
  rw [memWrite_of_ge _ (by rw [halfBytes_length]; omega),
    memWrite_of_ge _ (by rw [halfBytes_length]; omega)]

theorem icmpEcho_outside {hw : Bool} {m k : Nat} (hk : 42 ≤ k) : icmpEcho hw buf m k = buf k := by
  have hswapped : icmpSwapped buf k = buf k := by
    refine memWrites_of_outside fun w hw => .inr ?_
    simp only [List.mem_cons, List.not_mem_nil, or_false] at hw
    rcases hw with rfl | rfl | rfl | rfl | rfl | rfl
    all_goals simp only [slice_length, List.length_cons, List.length_nil]; omega
  have hput : putIcmpChecksum hw (icmpSwapped buf) m k = icmpSwapped buf k := by
    unfold putIcmpChecksum
    split
    · rw [memWrite_of_ge _ (by rw [halfBytes_length]; omega)]
    · rw [memWrite_of_ge _ (by rw [halfBytes_length]; omega),
        memWrite_of_ge _ (by rw [halfBytes_length]; omega)]
  rw [icmpEcho, putIpChecksum_outside (by omega), hput, hswapped]

theorem udpEcho_outside {hw : Bool} {m k : Nat} (hk : 42 ≤ k) : udpEcho hw buf m k = buf k := by
  have hswapped : echoSwapped buf k = buf k := by
    refine memWrites_of_outside fun w hw => .inr ?_
    simp only [List.mem_cons, List.not_mem_nil, or_false] at hw
    rcases hw with rfl | rfl | rfl | rfl | rfl | rfl | rfl
    all_goals simp only [slice_length, List.length_cons, List.length_nil]; omega
  have hput : putUdpChecksum hw (echoSwapped buf) m k = echoSwapped buf k := by
    unfold putUdpChecksum
    rw [memWrite_of_ge _ (by rw [halfBytes_length]; omega),
      memWrite_of_ge _ (by rw [halfBytes_length]; omega)]
  rw [udpEcho, putIpChecksum_outside (by omega), hput, hswapped]

theorem icmpHandle_within {hw : Bool} {n : Nat} (h : len ≤ n) :
    ∀ f ∈ (icmpHandle hw buf len).frame, Within n buf f := by
  unfold icmpHandle
  intro f hf
  split_ifs at hf
  · cases hf
  · cases hf
  · cases hf
    exact .self h
  · cases hf
  · cases hf
    exact ⟨h, fun k hk => icmpEcho_outside (by omega)⟩

theorem udpReceive_within {hw : Bool} {n : Nat} (h : len ≤ n) :
    ∀ f ∈ (udpReceive hw buf len).frame, Within n buf f := by
  unfold udpReceive
  intro f hf
  cases ht : udpTarget buf len with
  | none =>
      rw [ht] at hf
      cases hf
  | some t =>
      have hlong := udpTarget_length ht
      rw [ht] at hf
      cases t with
      | echo =>
          cases hf
          exact ⟨h, fun k hk => udpEcho_outside (by omega)⟩
      | ntp | mdns | dhcp | portUnreach =>
          cases hf
          exact .self h

theorem ipDispatch_within {n : Nat} (htot : readHalf buf 16 + 14 ≤ n) (hlen : len ≤ n) :
    ∀ f ∈ (ipDispatch v buf len).frame, Within n buf f := by
  unfold ipDispatch
  split_ifs
  · exact icmpHandle_within htot
  · exact udpReceive_within htot
  · intro f hf
    cases hf
    exact .self htot
  · intro f hf
    cases hf
    exact .self hlen

/-- The frame is a fragment that `ip_handle` looks at. -/
def IsIpFragment (v : NetVars) (buf : Buf) (len : Nat) : Prop :=
  netType v buf len = some 0x0800 ∧ isFragment buf = true

theorem ipHandle_within : (∀ f ∈ (ipHandle env now v buf len r).2.frame,
      Within (max len 1514) buf f) ∧
    (isFragment buf = false → ∀ f ∈ (ipHandle env now v buf len r).2.frame, Within len buf f) := by
  unfold ipHandle
  split
  · rename_i hok
    obtain ⟨hlong, -, htot⟩ := ipAccepts_lengths hok
    split
    · rename_i hfrag
      refine ⟨?_, fun h => absurd hfrag (by rw [h]; decide)⟩
      cases hin : ipReasmInput env now (fragOf buf) r with
      | mk r' res =>
          cases res with
          | none => exact fun f hf => by cases hf
          | some p =>
              obtain ⟨hlens, hsize, -⟩ := ipReasmInput_fits hin
              intro f hf
              refine Within.of_outside (ipDispatch_within ?_ (by omega) f hf) ?_
              · rw [putPacket_totlen (by omega)]
                omega
              · intro k hk
                refine memWrites_of_outside fun w hw => .inr ?_
                simp only [List.mem_cons, List.not_mem_nil, or_false] at hw
                rcases hw with rfl | rfl
                · rw [header_length]
                  omega
                · dsimp only
                  omega
    · have hin : ∀ f ∈ (ipDispatch v buf len).frame, Within len buf f :=
        ipDispatch_within htot (Nat.le_refl _)
      exact ⟨fun f hf => (hin f hf).mono (by omega), fun _ => hin⟩
  · exact ⟨fun f hf => (by cases hf), fun _ f hf => (by cases hf)⟩

theorem netRecvOne_within : (∀ f ∈ (netRecvOne env now v buf len r).2.2.frame,
      Within (max len 1514) buf f) ∧
    (¬ IsIpFragment v buf len → ∀ f ∈ (netRecvOne env now v buf len r).2.2.frame,
      Within len buf f) := by
  have hboth : ∀ {o : Outcome (Buf × Nat)}, (∀ f ∈ o.frame, Within len buf f) →
      (∀ f ∈ o.frame, Within (max len 1514) buf f) ∧
        (¬ IsIpFragment v buf len → ∀ f ∈ o.frame, Within len buf f) :=
    fun h => ⟨fun f hf => (h f hf).mono (by omega), fun _ => h⟩
  unfold netRecvOne
  split
  · refine hboth fun f hf => ?_
    rw [Outcome.ofReply_frame] at hf
    have hlong : 42 ≤ len := by
      by_contra hshort
      have hfalse : decide (arpFrameLen ≤ len) = false := decide_eq_false hshort
      unfold arpHandle arpSane at hf
      simp only [hfalse, Bool.false_and, if_neg Bool.false_ne_true] at hf
      cases hf
    obtain rfl := arpHandle_reply hf
    refine ⟨hlong, fun k hk => memWrites_of_outside fun w hw => .inr ?_⟩
    simp only [List.mem_cons, List.not_mem_nil, or_false] at hw
    rcases hw with rfl | rfl | rfl | rfl | rfl | rfl | rfl
    all_goals
      simp only [slice_length, macBytes_length, wordBytes_length, List.length_cons, List.length_nil]
      omega
  · rename_i hty
    obtain ⟨hmax, hlen⟩ := @ipHandle_within κ env now v buf len r
    refine ⟨hmax, fun hnot => hlen ?_⟩
    by_contra hfrag
    exact hnot ⟨hty, by simpa using hfrag⟩
  · refine hboth fun f hf => ?_
    cases hf
    exact .self (Nat.le_refl _)
  · exact hboth fun f hf => (by cases hf)

/-- **The receive path keeps to the frame**: what becomes of a frame depends on its bytes only, and
nothing is written behind it; a rebuilt datagram is written behind it, but not behind what the
largest frame takes. -/
theorem netRecvOne_confined (env : ReasmEnv κ) (now : Tick) (v : NetVars) (r : Reasm κ)
    (buf : Buf) (len : Nat) :
    (∀ buf', AgreeTo len buf buf' →
      (netRecvOne env now v buf len r).1 = (netRecvOne env now v buf' len r).1 ∧
      (netRecvOne env now v buf len r).2.1 = (netRecvOne env now v buf' len r).2.1 ∧
      (netRecvOne env now v buf len r).2.2.map frameBytes
        = (netRecvOne env now v buf' len r).2.2.map frameBytes) ∧
    (∀ f ∈ (netRecvOne env now v buf len r).2.2.frame, Within (max len 1514) buf f) ∧
    (¬ IsIpFragment v buf len → ∀ f ∈ (netRecvOne env now v buf len r).2.2.frame,
      Within len buf f) :=
  ⟨fun _ h => netRecvOne_agree h, netRecvOne_within⟩

end

/-- A request out of an empty buffer, and a host that it is for. -/
def arpDemo : Buf × Nat := arpBuildRequest (lanDemo false) fun _ => 0

def arpDemoOutcome (buf : Buf) : Outcome (Buf × Nat) :=
  (netRecvOne demoReasm 0 (lanDemo true) buf 42 (ipReasmInit (timerPoolInit RIndex 16))).2.2

theorem netRecvOne_confined_arp : (arpDemoOutcome arpDemo.1).map frameBytes
    = (arpDemoOutcome (memWrite arpDemo.1 42 [1])).map frameBytes := by
  refine ((netRecvOne_confined demoReasm 0 (lanDemo true) (ipReasmInit (timerPoolInit RIndex 16))
    arpDemo.1 42).1 _ fun k hk => ?_).2.2
  exact (memWrite_of_lt [1] hk).symm

end Wire

end WsPi5
