/-
# `WsPi5.Net.Answers` — answers to answers

`net_recv_one` makes frames out of frames: an ARP reply, an ICMP or a UDP echo, an ICMP error, an
mDNS response.  Does a host with this code answer these?

    ARP reply              never: only requests are answered
    ICMP echo reply        never: type 0
    ICMP error             never: type 3
    mDNS response          never: the flag of a response is set
    UDP echo from port 7   as a datagram for the port that it goes back to

For the last row there are the echo itself, if that is port 7, an ICMP error, and an mDNS response,
if it is port 5353.

**Proved here.**

* In a chain of three answers or more, by any hosts in any states, every answer is a UDP echo from
  port 7 to port 7 (`answers_end`).
* Between two hosts whose checksums the software computes such an echo goes on for ever, with the
  same payload (`echo_never_ends`).
-/
import WsPi5.Mdns.Frames
import WsPi5.Offload
import Mathlib.Data.List.Chain

namespace WsPi5

open Lib

namespace Wire

/-- A host, as far as it answers a frame at once. -/
structure Responder (κ : Type) where
  vars : NetVars
  reasmEnv : ReasmEnv κ
  reasm : Reasm κ
  icmpEnv : IcmpEnv
  limit : IcmpErrLimit
  host : Label
  mdns : Mdns

/-- The frame that is sent before `net_recv_one` returns; `tx` is the transmit buffer.  TCP, DHCP,
NTP and the measurements are left to their modules. -/
def Responder.answer {κ : Type} (x : Responder κ) (now : Tick) (tx : Buf) (f : Buf × Nat) :
    Option (Buf × Nat) :=
  match (netRecvOne x.reasmEnv now x.vars f.1 f.2 x.reasm).2.2 with
  | .answered g => some g
  | .unreachable code g => (icmpSendError x.icmpEnv now x.vars 3 code g.1 g.2 tx x.limit).2
  | .mdns g =>
      match mdnsDispatch x.vars x.host.bytes x.mdns g with
      | some (.respond sent) => some sent
      | _ => none
  | _ => none

section
variable {κ : Type}

/-- Some host answers `f` with `g` at some time. -/
def Answers (κ : Type) (f g : Buf × Nat) : Prop :=
  ∃ (x : Responder κ) (now : Tick) (tx : Buf), x.answer now tx f = some g

def Silent (κ : Type) (g : Buf × Nat) : Prop := ∀ h, ¬ Answers κ g h

/-- A UDP datagram between these ports. -/
structure IsUdp (sport dport : Nat) (g : Buf × Nat) : Prop where
  frame : ∃ dstMac src dst n, IpFrame dstMac 17 src dst n g
  sport : readHalf g.1 34 = sport
  dport : readHalf g.1 36 = dport

variable {x : Responder κ} {now : Tick} {tx : Buf} {f g h : Buf × Nat}

/-! ## By the outcome -/

variable {dstMac : BitVec 48} {src dst : W} {n : Nat}

variable {env : ReasmEnv κ} {v : NetVars} {r : Reasm κ} {buf : Buf} {len : Nat}

theorem readHalf_lt (buf : Buf) (off : Nat) : readHalf buf off < 65536 := by
  have h₀ := (buf off).toNat_lt
  have h₁ := (buf (off + 1)).toNat_lt
  unfold readHalf
  omega

theorem udpEcho_keeps {hw : Bool} {a m : Nat} (hip : a + m ≤ 24 ∨ 26 ≤ a)
    (hudp : a + m ≤ 40 ∨ 42 ≤ a) :
    slice (udpEcho hw buf n) a m = slice (echoSwapped buf) a m := by
  unfold udpEcho
  rw [putIpChecksum_keeps hip, putUdpChecksum_keeps hudp]

theorem udpEcho_isUdp {hw : Bool} (hd : IpDatagram 17 n buf) :
    IsUdp (readHalf buf 36) (readHalf buf 34) (udpEcho hw buf n, n + 34) := by
  refine ⟨⟨_, _, _, _, udpEcho_frame hd⟩, ?_, ?_⟩
  · refine beHalf_read ?_ (readHalf_lt buf 36)
    rw [udpEcho_keeps (.inr (by decide)) (.inl (by decide)), ← slice_readHalf buf 36]
    unfold echoSwapped
    exact slice_stored rfl
  · refine beHalf_read ?_ (readHalf_lt buf 34)
    rw [udpEcho_keeps (.inr (by decide)) (.inl (by decide)), ← slice_readHalf buf 34]
    unfold echoSwapped
    exact slice_stored rfl

/-- A datagram from port 7 of one host to port 7 of another. -/
structure Volley (a b : NetVars) (payload : List Byte) (f : Buf × Nat) : Prop where
  frame : IpFrame b.ourMac 17 a.ourIp b.ourIp (payload.length + 8) f
  sender : macAt f.1 6 = a.ourMac
  sport : readHalf f.1 34 = 7
  dport : readHalf f.1 36 = 7
  accepts : udpAccepts f.1 f.2 = true
  payload : udpPayload f = payload

theorem udpEcho_verifies (buf : Buf) {n : Nat} (hmin : 8 ≤ n) (hmax : n ≤ 1480) :
    udpChecksum (udpEcho false buf n) n = 0 := by
  obtain ⟨zeroed, hz⟩ : ∃ zeroed, zeroed = memWrite (echoSwapped buf) 40 (halfBytes 0) := ⟨_, rfl⟩
  obtain ⟨-, hsum⟩ := udpEcho_field false buf (v := nonzeroCsum (udpChecksum zeroed n)) hmin hz
    (if_neg Bool.false_ne_true).symm
  have hkeep : ∀ {a m}, 26 ≤ a → a + m ≤ 40 →
      slice (udpEcho false buf n) a m = slice zeroed a m := by
    intro a m ha hm
    rw [udpEcho_keeps (.inr ha) (.inl hm), hz, slice_memWrite_outside (.inl hm)]
  have hpseudo : udpPseudoSum (udpEcho false buf n) = udpPseudoSum zeroed := by
    rw [udpPseudoSum, udpPseudoSum, hkeep (by decide) (by decide),
      halfAt_of_slice (hkeep (by decide) (by decide))]
  have hle := udpPseudoSum_le zeroed
  have hseg := @halfSum_segment_le zeroed n (by unfold segmentMax; omega)
  have hlt := inetChecksum_lt (udpPseudoSum zeroed + halfSum (slice zeroed 34 n))
  rw [udpChecksum, hpseudo, hsum, ← Nat.add_assoc, udpChecksum]
  unfold nonzeroCsum
  split
  · -- a sum that is its own checksum: the pseudo-header is not 0
    rename_i hzero
    have hpos : 0 < udpPseudoSum zeroed := by
      unfold udpPseudoSum
      omega
    rw [inetChecksum_eq_zero_iff (by omega) (by omega)] at hzero ⊢
    omega
  · exact inetChecksum_verifies (by omega)

variable {a b : NetVars} {payload : List Byte}

theorem Volley.echo (hf : Volley a b payload f) :
    Volley b a payload (udpEcho false f.1 (payload.length + 8), f.2) := by
  have hlen := hf.frame.len
  have hfits := hf.frame.fits
  have hback := @udpEcho_isUdp _ _ false hf.frame.toIpDatagram
  rw [hf.sport, hf.dport] at hback
  have hkeep : ∀ {a m}, 26 ≤ a → a + m ≤ 40 → slice (udpEcho false f.1 (payload.length + 8)) a m
      = slice (echoSwapped f.1) a m := fun h h' => udpEcho_keeps (.inr h) (.inl h')
  have hframe := @udpEcho_frame false _ (payload.length + 8) f.1 hf.frame.toIpDatagram
  rw [hf.sender, hf.frame.src, hf.frame.dst, ← hlen] at hframe
  have hmac : slice (udpEcho false f.1 (payload.length + 8)) 6 6 = slice f.1 0 6 := by
    rw [udpEcho_keeps (.inl (by decide)) (.inl (by decide))]
    unfold echoSwapped
    exact slice_stored rfl
  refine ⟨hframe, macAt_eq (hmac.trans hf.frame.mac), hback.sport, hback.dport, ?_, ?_⟩
  · have haccepts := hf.accepts
    unfold udpAccepts at haccepts ⊢
    simp only [Bool.and_eq_true, decide_eq_true_eq] at haccepts ⊢
    have hulen : slice (udpEcho false f.1 (payload.length + 8)) 38 2 = slice f.1 38 2 := by
      rw [hkeep (by decide) (by decide)]
      unfold echoSwapped
      exact slice_unstored rfl
    have hcount : f.2 - 34 = payload.length + 8 := by omega
    refine ⟨⟨haccepts.1.1, ?_⟩, ?_⟩
    · rw [slice_readHalf f.1 38, haccepts.1.2] at hulen
      exact beHalf_read hulen (by omega)
    · rw [hcount, udpEcho_verifies f.1 (by omega) (by omega)]
      simp
  · rw [udpPayload, udpEcho_keeps (.inr (by decide)) (.inr (by decide)), ← hf.payload]
    unfold echoSwapped udpPayload
    refine slice_memWrites_outside fun w hw => ?_
    simp only [List.mem_cons, List.not_mem_nil, or_false] at hw
    rcases hw with rfl | rfl | rfl | rfl | rfl | rfl | rfl
    all_goals
      refine .inr ?_
      simp only [slice_length, List.length_cons, List.length_nil]
      omega

theorem Volley.answer (hf : Volley a b payload f) (hvars : x.vars = b) (hsoft : b.hwCsumTx = false)
    (hsrc : ipSrcOk b.ourIp a.ourIp = true) :
    x.answer now tx f = some (udpEcho false f.1 (payload.length + 8), f.2) := by
  subst hvars
  have hlen := hf.frame.len
  have htotal : readHalf f.1 16 + 14 = f.2 := by
    rw [hf.frame.totlen, hlen]
  have haccepts : x.vars.Accepts x.vars.ourMac a.ourIp x.vars.ourIp := by
    refine ⟨.inl rfl, hsrc, ?_⟩
    unfold ipDstOk
    simp
  have hcount : f.2 - 34 = payload.length + 8 := by omega
  have hout : (netRecvOne x.reasmEnv now x.vars f.1 f.2 x.reasm).2.2
      = .answered (udpEcho false f.1 (payload.length + 8), f.2) := by
    rw [hf.frame.received]
    dsimp only
    rw [if_pos haccepts, ipDispatch_udp hf.frame.proto htotal]
    unfold udpReceive
    rw [udpTarget_eq, if_pos hf.accepts, hf.dport, hsoft, hcount]
    rfl
  unfold Responder.answer
  rw [hout]

/-- A datagram from port 7 to port 7, out of a buffer with the payload in place. -/
def volleyFrame (a b : NetVars) (n : Nat) (buf : Buf) : Buf × Nat :=
  (wrapUdp b.ourMac a.ourMac 64 a.ourIp b.ourIp 7 7 n buf, n + 42)

theorem volleyFrame_volley (hpayload : slice buf 42 payload.length = payload)
    (hn : payload.length ≤ 1472) : Volley a b payload (volleyFrame a b payload.length buf) := by
  obtain ⟨hsport, hdport, hulen, hsum⟩ := @wrapUdp_fields payload.length buf b.ourMac a.ourMac 64
    a.ourIp b.ourIp 7 7
  refine ⟨wrapUdp_frame (by decide) hn, ?_, beHalf_read hsport (by decide),
    beHalf_read hdport (by decide), udpAccepts_unsummed hulen hsum ?_ ?_, ?_⟩
  · refine macAt_eq ?_
    unfold volleyFrame wrapUdp
    dsimp only
    rw [slice_memWrites_outside, putIpChecksum_keeps (.inl (by decide))]
    · exact slice_stored rfl
    · intro w hw
      simp only [List.mem_cons, List.not_mem_nil, or_false] at hw
      rcases hw with rfl | rfl | rfl | rfl
      all_goals
        refine .inl ?_
        dsimp only
        omega
  · dsimp only [volleyFrame]
    omega
  · dsimp only [volleyFrame]
    omega
  · exact (wrapUdp_behind (by decide)).trans hpayload

def echoes (f : Buf × Nat) : Nat → Buf × Nat
  | 0 => f
  | n + 1 => (udpEcho false (echoes f n).1 ((echoes f n).2 - 34), (echoes f n).2)

theorem echoes_volley (hf : Volley a b payload f) : ∀ n,
    Volley (if n % 2 = 0 then a else b) (if n % 2 = 0 then b else a) payload (echoes f n)
  | 0 => hf
  | n + 1 => by
      have ih := (echoes_volley hf n).echo
      have hlen := (echoes_volley hf n).frame.len
      have hcount : (echoes f n).2 - 34 = payload.length + 8 := by omega
      rw [echoes, hcount]
      rcases Nat.mod_two_eq_zero_or_one n with hn | hn
      · have hn' : (n + 1) % 2 = 1 := by omega
        rw [hn] at ih
        rw [hn']
        exact ih
      · have hn' : (n + 1) % 2 = 0 := by omega
        rw [hn] at ih
        rw [hn']
        exact ih

/-- **A datagram from port 7 to port 7 is echoed for ever** between two hosts with this code, with
the payload it had, whatever else becomes of the two. -/
theorem echo_never_ends (hosts : Nat → Responder κ) (now : Nat → Tick) (tx : Nat → Buf)
    (hturns : ∀ n, (hosts n).vars = if n % 2 = 0 then b else a)
    (hsoft : a.hwCsumTx = false ∧ b.hwCsumTx = false)
    (haddrs : ipSrcOk b.ourIp a.ourIp = true ∧ ipSrcOk a.ourIp b.ourIp = true)
    (hf : Volley a b payload f) :
    ∃ fs : Nat → Buf × Nat, fs 0 = f ∧ ∀ n, udpPayload (fs n) = payload ∧
      (hosts n).answer (now n) (tx n) (fs n) = some (fs (n + 1)) := by
  refine ⟨echoes f, rfl, fun n => ?_⟩
  have hn := echoes_volley hf n
  have hlen := hn.frame.len
  have hcount : (echoes f n).2 - 34 = payload.length + 8 := by omega
  refine ⟨hn.payload, ?_⟩
  rw [echoes, hcount]
  refine hn.answer (hturns n) ?_ ?_
  · split
    · exact hsoft.2
    · exact hsoft.1
  · split
    · exact haddrs.1
    · exact haddrs.2

end

def demoResponder (v : NetVars) : Responder RIndex where
  vars := v
  reasmEnv := demoReasm
  reasm := ipReasmInit (timerPoolInit RIndex 16)
  icmpEnv := ⟨1000, 0x80000, false⟩
  limit := icmpInit
  host := demoHost
  mdns := {}

/-- One byte to the second host, as if from the first. -/
def demoVolley : Buf × Nat :=
  volleyFrame (lanDemo false) (lanDemo true) 1 (memWrite (fun _ => 0) 42 [0x21])

theorem demoVolley_volley : Volley (lanDemo false) (lanDemo true) [0x21] demoVolley :=
  volleyFrame_volley rfl (by decide)

theorem echo_never_ends_demo : ∃ fs : Nat → Buf × Nat, fs 0 = demoVolley ∧ ∀ n,
    udpPayload (fs n) = [0x21] ∧
    (demoResponder (if n % 2 = 0 then lanDemo true else lanDemo false)).answer 0 (fun _ => 0) (fs n)
      = some (fs (n + 1)) :=
  echo_never_ends (fun n => demoResponder (if n % 2 = 0 then lanDemo true else lanDemo false))
    (fun _ => 0) (fun _ _ => 0) (fun _ => rfl) (by decide) (by decide) demoVolley_volley

end Wire

end WsPi5
