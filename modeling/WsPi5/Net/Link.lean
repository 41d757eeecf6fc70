/-
# `WsPi5.Net.Link` — Ethernet headers and ARP, `lib/eth.S` and `lib/arp.S`

The cache has one entry, for the gateway.  It is filled from the sender fields of a request or a
reply for our address; a request is answered in the buffer it came in.

    net_recv_one         takes a frame for our address, for everyone, or for the mDNS group
    arp_handle           checks the fixed fields and the sender's IP address, learns, answers
    arp_build_request    to the cached address if there is one, else to everyone

A MAC address is the word and the halfword that `ldr` and `ldrh` load of it, an IP address the word.

**Proved here.**

* Hosts with this code on a link, where any frame that was sent may be delivered to any host, any
  number of times or never: no host caches an address that is not that of its gateway
  (`lan_caches_honest`).
* A request to the gateway and its answer leave the gateway's address in the cache exactly if the
  request reaches it; with a cached address that is out of date it does not, then or at any later
  refresh (`arp_refresh_iff`).  A refresh is sent to the address that it is there to check.
-/
import WsPi5.Lib.Run
import WsPi5.Lib.Stores
import WsPi5.Lib.Mem
import WsPi5.Lib.Dns
import WsPi5.Ntp.Md5

namespace WsPi5

open Lib

namespace Wire

/-! ## Addresses in a frame -/

/-- `ldr` and `ldrh` of a MAC address. -/
def macAt (buf : Buf) (off : Nat) : BitVec 48 := BitVec.ofNat 48 (loadLe buf off 6)

/-- `ldr` of an IP address. -/
def ipAt (buf : Buf) (off : Nat) : W := BitVec.ofNat 32 (loadLe buf off 4)

/-- `net_broadcast_mac` and `mdns_mac`. -/
def broadcastMac : BitVec 48 := 0xFFFFFFFFFFFF
def mdnsMac : BitVec 48 := 0xFB00005E0001

/-! ## `lib/net_cfg.S` -/

/-- The variables that the receive path reads; the last two are the ones that it writes. -/
structure NetVars where
  ourMac : BitVec 48
  ourIp : W
  gwIp : W
  hwCsumTx : Bool := false
  gwMac : BitVec 48 := 0
  gwMacValid : Bool := false
  deriving DecidableEq

/-! ## `lib/eth.S` -/

/-- `eth_type`: `none` for -1. -/
def ethType (buf : Buf) (len : Nat) : Option Nat :=
  if len < 14 ∨ 1514 < len then none
  else if readHalf buf 12 < 0x0600 then none
  else some (readHalf buf 12)

def ethBuildHdr (v : NetVars) (dst : BitVec 48) (ty : Nat) (buf : Buf) : Buf :=
  memWrites buf [(0, macBytes dst), (6, macBytes v.ourMac), (12, beHalf ty)]

/-- `eth_mac_eq` of the destination: the words, then the halfwords. -/
def ethMacEq (buf : Buf) (mac : BitVec 48) : Bool :=
  loadLe buf 0 4 = mac.toNat % 2 ^ 32 && loadLe buf 4 2 = mac.toNat / 2 ^ 32

/-- `net_recv_one` up to its dispatch: the EtherType of a frame that is taken. -/
def netType (v : NetVars) (buf : Buf) (len : Nat) : Option Nat :=
  if len < 14 then none
  else if ethMacEq buf v.ourMac || ethMacEq buf broadcastMac || ethMacEq buf mdnsMac then
    ethType buf len
  else none

/-! ## `lib/arp.S` -/

def arpFrameLen : Nat := 42

/-- "SPA validation". -/
def arpSpaOk (ip : W) : Bool := ip ≠ 0 && ip ≠ 0xFFFFFFFF && ip &&& 0xF0 ≠ 0xE0

/-- `arp_handle` up to the branch on the operation. -/
def arpSane (buf : Buf) (len : Nat) : Bool :=
  arpFrameLen ≤ len && slice buf 14 4 = [0, 1, 8, 0] && slice buf 18 2 = [6, 4] &&
    arpSpaOk (ipAt buf 28)

/-- "Cache gateway MAC", on both branches. -/
def arpLearn (v : NetVars) (buf : Buf) : NetVars :=
  if v.gwIp = ipAt buf 28 then { v with gwMac := macAt buf 22, gwMacValid := true } else v

/-- "Build reply in-place", in the order of its steps. -/
def arpReply (v : NetVars) (buf : Buf) : Buf :=
  memWrites buf
    [(0, slice buf 22 6), (32, slice buf 22 6), (38, slice buf 28 4), (6, macBytes v.ourMac),
     (22, macBytes v.ourMac), (28, wordBytes v.ourIp), (20, [0, 2])]

/-- `arp_handle`: the variables after it, and the reply. -/
def arpHandle (v : NetVars) (buf : Buf) (len : Nat) : NetVars × Option (Buf × Nat) :=
  if arpSane buf len then
    if slice buf 20 2 = [0, 1] then
      if ipAt buf 38 = v.ourIp then (arpLearn v buf, some (arpReply v buf, arpFrameLen))
      else (v, none)
    else if slice buf 20 2 = [0, 2] then
      if ipAt buf 38 = v.ourIp then (arpLearn v buf, none) else (v, none)
    else (v, none)
  else (v, none)

def arpTarget (v : NetVars) : BitVec 48 := if v.gwMacValid then v.gwMac else broadcastMac

/-- `arp_build_request`: the buffer and the length returned. -/
def arpBuildRequest (v : NetVars) (buf : Buf) : Buf × Nat :=
  (memWrites (ethBuildHdr v (arpTarget v) 0x0806 buf)
    [(14, [0, 1, 8, 0]), (18, [6, 4]), (20, [0, 1]), (22, macBytes v.ourMac),
     (28, wordBytes v.ourIp), (32, List.replicate 6 0), (38, wordBytes v.gwIp)], arpFrameLen)

/-- `net_recv_one` of a frame that is taken as ARP. -/
def netRecvArp (v : NetVars) (buf : Buf) (len : Nat) : NetVars × Option (Buf × Nat) :=
  if netType v buf len = some 0x0806 then arpHandle v buf len else (v, none)

/-! ## Addresses, written and read back -/

theorem leNat_append (xs ys : List Byte) :
    leNat (xs ++ ys) = leNat xs + 256 ^ xs.length * leNat ys := by
  induction xs with
  | nil => simp [leNat]
  | cons x xs ih =>
      rw [List.cons_append, leNat, leNat, ih, List.length_cons, Nat.pow_succ', Nat.mul_add,
        Nat.add_assoc, Nat.mul_assoc]

theorem loadLe_add (buf : Buf) (a j k : Nat) :
    loadLe buf a (j + k) = loadLe buf a j + 256 ^ j * loadLe buf (a + j) k := by
  rw [loadLe, slice_add, leNat_append, slice_length]
  rfl

theorem macBytes_le (mac : BitVec 48) : macBytes mac = leBytes 6 mac.toNat := by
  have hlt := mac.isLt
  have hlow : (mac.setWidth 32).toNat = mac.toNat % 2 ^ 32 := BitVec.toNat_setWidth ..
  have hhigh : halfBytes (mac.toNat / 2 ^ 32) = leBytes 2 (mac.toNat / 256 ^ 4) := by
    have hmod : UInt8.ofNat (mac.toNat / 2 ^ 32 % 256) = UInt8.ofNat (mac.toNat / 2 ^ 32) := by
      refine UInt8.toNat.inj ?_
      rw [UInt8.toNat_ofNat', UInt8.toNat_ofNat', Nat.mod_mod]
    rw [halfBytes, hmod]
    rfl
  rw [macBytes, wordBytes_le, hlow, hhigh, show (6 : Nat) = 4 + 2 from rfl, leBytes_add]
  congr 1
  have hfour : ∀ n, leBytes 4 (n % 2 ^ 32) = leBytes 4 n := by
    intro n
    have hbytes := leBytes_leNat (leBytes 4 n)
    rwa [leBytes_length, leNat_leBytes] at hbytes
  exact hfour _

theorem loadLe_macBytes {buf : Buf} {off : Nat} {mac : BitVec 48}
    (h : slice buf off 6 = macBytes mac) : loadLe buf off 6 = mac.toNat := by
  rw [loadLe, h, macBytes_le, leNat_leBytes]
  exact Nat.mod_eq_of_lt mac.isLt

theorem macAt_eq {buf : Buf} {off : Nat} {mac : BitVec 48} (h : slice buf off 6 = macBytes mac) :
    macAt buf off = mac := by
  rw [macAt, loadLe_macBytes h, BitVec.ofNat_toNat, BitVec.setWidth_eq]

theorem macBytes_macAt (buf : Buf) (off : Nat) : macBytes (macAt buf off) = slice buf off 6 := by
  have hlt : loadLe buf off 6 < 2 ^ 48 := loadLe_lt buf off 6
  have hbytes := leBytes_leNat (slice buf off 6)
  rw [slice_length] at hbytes
  rw [macBytes_le, macAt, BitVec.toNat_ofNat, Nat.mod_eq_of_lt hlt]
  exact hbytes

theorem ipAt_eq {buf : Buf} {off : Nat} {ip : W} (h : slice buf off 4 = wordBytes ip) :
    ipAt buf off = ip := by
  have hload : loadLe buf off 4 = ip.toNat := by
    rw [loadLe, h, wordBytes_le, leNat_leBytes]
    exact Nat.mod_eq_of_lt ip.isLt
  rw [ipAt, hload, BitVec.ofNat_toNat, BitVec.setWidth_eq]

theorem ipAt_congr {buf buf' : Buf} {off off' : Nat} (h : slice buf off 4 = slice buf' off' 4) :
    ipAt buf off = ipAt buf' off' := by
  rw [ipAt, ipAt, loadLe_congr h]

theorem macBytes_length (mac : BitVec 48) : (macBytes mac).length = 6 := rfl

theorem beHalf_read {buf : Buf} {off n : Nat} (h : slice buf off 2 = beHalf n) (hn : n < 65536) :
    readHalf buf off = n := by
  rw [readHalf_of_slice h, Nat.mod_eq_of_lt hn]

theorem ethMacEq_iff {buf : Buf} {dst mac : BitVec 48} (h : slice buf 0 6 = macBytes dst) :
    ethMacEq buf mac = true ↔ dst = mac := by
  have hall : loadLe buf 0 6 = dst.toNat := loadLe_macBytes h
  have hsplit : loadLe buf 0 6 = loadLe buf 0 4 + 2 ^ 32 * loadLe buf 4 2 := loadLe_add buf 0 4 2
  have hlow : loadLe buf 0 4 < 2 ^ 32 := loadLe_lt buf 0 4
  unfold ethMacEq
  rw [Bool.and_eq_true, decide_eq_true_eq, decide_eq_true_eq]
  constructor
  · rintro ⟨h₁, h₂⟩
    refine BitVec.eq_of_toNat_eq ?_
    omega
  · rintro rfl
    constructor <;> omega

def NetVars.Takes (v : NetVars) (dst : BitVec 48) : Prop :=
  dst = v.ourMac ∨ dst = broadcastMac ∨ dst = mdnsMac

instance (v : NetVars) (dst : BitVec 48) : Decidable (v.Takes dst) :=
  inferInstanceAs (Decidable (_ ∨ _ ∨ _))

/-! ## The fields of the two frames -/

section
variable {v : NetVars} {buf : Buf} {len : Nat}

theorem netType_eq {dst : BitVec 48} {ty : Nat} (hdst : slice buf 0 6 = macBytes dst)
    (hty : slice buf 12 2 = beHalf ty) (htype : 0x0600 ≤ ty ∧ ty < 65536)
    (hlen : 14 ≤ len ∧ len ≤ 1514) :
    netType v buf len = if v.Takes dst then some ty else none := by
  have hread := beHalf_read hty htype.2
  have hethertype : ethType buf len = some ty := by
    unfold ethType
    rw [if_neg (by omega), hread, if_neg (by omega)]
  have htakes : (ethMacEq buf v.ourMac || ethMacEq buf broadcastMac || ethMacEq buf mdnsMac) = true
      ↔ v.Takes dst := by
    rw [Bool.or_eq_true, Bool.or_eq_true, ethMacEq_iff hdst, ethMacEq_iff hdst, ethMacEq_iff hdst,
      or_assoc, NetVars.Takes]
  rw [netType, if_neg (by omega), hethertype]
  by_cases h : v.Takes dst
  · rw [if_pos h, if_pos (htakes.mpr h)]
  · rw [if_neg h, if_neg fun hb => h (htakes.mp hb)]

theorem arpReply_fields : slice (arpReply v buf) 0 6 = slice buf 22 6 ∧
    slice (arpReply v buf) 6 6 = macBytes v.ourMac ∧
    slice (arpReply v buf) 12 8 = slice buf 12 8 ∧
    slice (arpReply v buf) 20 2 = [0, 2] ∧ slice (arpReply v buf) 22 6 = macBytes v.ourMac ∧
    slice (arpReply v buf) 28 4 = wordBytes v.ourIp ∧
    slice (arpReply v buf) 32 6 = slice buf 22 6 ∧
    slice (arpReply v buf) 38 4 = slice buf 28 4 := by
  unfold arpReply
  exact ⟨slice_stored rfl, slice_stored rfl, slice_unstored rfl, slice_stored rfl, slice_stored rfl,
    slice_stored rfl, slice_stored rfl, slice_stored rfl⟩

theorem arpBuildRequest_fields :
    slice (arpBuildRequest v buf).1 0 6 = macBytes (arpTarget v) ∧
    slice (arpBuildRequest v buf).1 12 2 = beHalf 0x0806 ∧
    slice (arpBuildRequest v buf).1 14 4 = [0, 1, 8, 0] ∧
    slice (arpBuildRequest v buf).1 18 2 = [6, 4] ∧
    slice (arpBuildRequest v buf).1 20 2 = [0, 1] ∧
    slice (arpBuildRequest v buf).1 22 6 = macBytes v.ourMac ∧
    slice (arpBuildRequest v buf).1 28 4 = wordBytes v.ourIp ∧
    slice (arpBuildRequest v buf).1 38 4 = wordBytes v.gwIp := by
  unfold arpBuildRequest ethBuildHdr
  dsimp only
  rw [← memWrites_append]
  exact ⟨slice_stored rfl, slice_stored rfl, slice_stored rfl, slice_stored rfl, slice_stored rfl,
    slice_stored rfl, slice_stored rfl, slice_stored rfl⟩

/-! ## What `arp_handle` does -/

/-- The sender of a frame is this host. -/
structure SentBy (v : NetVars) (buf : Buf) : Prop where
  sha : slice buf 22 6 = macBytes v.ourMac
  spa : slice buf 28 4 = wordBytes v.ourIp

/-- Nothing is written but the entry of the cache, and that from the sender fields of a frame that
names the gateway as its sender. -/
theorem arpHandle_vars (v : NetVars) (buf : Buf) (len : Nat) : (arpHandle v buf len).1 = v ∨
    (ipAt buf 28 = v.gwIp ∧
      (arpHandle v buf len).1 = { v with gwMac := macAt buf 22, gwMacValid := true }) := by
  have hlearn : arpLearn v buf = v ∨ (ipAt buf 28 = v.gwIp ∧
      arpLearn v buf = { v with gwMac := macAt buf 22, gwMacValid := true }) := by
    unfold arpLearn
    split
    · rename_i hgw
      exact .inr ⟨hgw.symm, rfl⟩
    · exact .inl rfl
  unfold arpHandle
  split
  · split
    · split
      · exact hlearn
      · exact .inl rfl
    · split
      · split
        · exact hlearn
        · exact .inl rfl
      · exact .inl rfl
  · exact .inl rfl

theorem arpHandle_reply {sent : Buf × Nat} (h : (arpHandle v buf len).2 = some sent) :
    sent = (arpReply v buf, arpFrameLen) := by
  unfold arpHandle at h
  split at h
  · split at h
    · split at h
      · exact (Option.some.inj h).symm
      · cases h
    · split at h
      · split at h <;> cases h
      · cases h
  · cases h

theorem arpReply_sentBy (v : NetVars) (buf : Buf) : SentBy v (arpReply v buf) :=
  ⟨arpReply_fields.2.2.2.2.1, arpReply_fields.2.2.2.2.2.1⟩

theorem arpBuildRequest_sentBy (v : NetVars) (buf : Buf) : SentBy v (arpBuildRequest v buf).1 :=
  ⟨arpBuildRequest_fields.2.2.2.2.2.1, arpBuildRequest_fields.2.2.2.2.2.2.1⟩

end

/-! ## A link of hosts with this code -/

/-- A host sends a request, whatever is in its transmit buffer; it is given a frame. -/
def arpParty : Party NetVars Buf (Buf × Nat) where
  act := fun v tx => some (v, [arpBuildRequest v tx])
  recv := fun v f => ((netRecvArp v f.1 f.2).1, (netRecvArp v f.1 f.2).2.toList)

/-- The addresses of a host are those of before, and the cached one is that of a host with the
gateway's IP address. -/
structure CacheHonest {ι : Type} (host : ι → NetVars) (i : ι) (v : NetVars) : Prop where
  ourMac : v.ourMac = (host i).ourMac
  ourIp : v.ourIp = (host i).ourIp
  gwIp : v.gwIp = (host i).gwIp
  cached : v.gwMacValid = true → ∃ j, (host j).ourIp = v.gwIp ∧ (host j).ourMac = v.gwMac

def FrameHonest {ι : Type} (host : ι → NetVars) (f : Buf × Nat) : Prop :=
  ∃ j, SentBy (host j) f.1

variable {ι : Type} {host : ι → NetVars} {i : ι} {v : NetVars}

theorem CacheHonest.sentBy (h : CacheHonest host i v) {buf : Buf} (hs : SentBy v buf) :
    SentBy (host i) buf := by
  refine ⟨?_, ?_⟩
  · rw [← h.ourMac]
    exact hs.sha
  · rw [← h.ourIp]
    exact hs.spa

theorem CacheHonest.recv (h : CacheHonest host i v) {f : Buf × Nat} (hf : FrameHonest host f) :
    CacheHonest host i (netRecvArp v f.1 f.2).1 ∧
      ∀ g ∈ (netRecvArp v f.1 f.2).2.toList, FrameHonest host g := by
  obtain ⟨j, hj⟩ := hf
  unfold netRecvArp
  split
  · constructor
    · rcases arpHandle_vars v f.1 f.2 with hsame | ⟨hgw, hlearnt⟩
      · rw [hsame]
        exact h
      · rw [hlearnt]
        refine ⟨h.ourMac, h.ourIp, h.gwIp, fun _ => ⟨j, ?_, ?_⟩⟩
        · rw [← ipAt_eq hj.spa]
          exact hgw
        · exact (macAt_eq hj.sha).symm
    · intro g hg
      rw [Option.mem_toList] at hg
      rw [arpHandle_reply hg]
      exact ⟨i, h.sentBy (arpReply_sentBy v f.1)⟩
  · exact ⟨h, fun g hg => by simp at hg⟩

/-- **No host caches an address that is not its gateway's**, whatever is lost, repeated or late. -/
theorem lan_caches_honest [DecidableEq ι] (host : ι → NetVars)
    (hfresh : ∀ i, (host i).gwMacValid = false) {s : Medium ι NetVars (Buf × Nat)}
    (hrun : Run (Medium.step arpParty) anyEvent ⟨host, []⟩ s) (i : ι)
    (hvalid : (s.host i).gwMacValid = true) :
    ∃ j, (host j).ourIp = (host i).gwIp ∧ (host j).ourMac = (s.host i).gwMac := by
  have hstart : ∀ i, CacheHonest host i (host i) := by
    intro i
    refine ⟨rfl, rfl, rfl, fun hv => ?_⟩
    rw [hfresh i] at hv
    cases hv
  have hask : ∀ {i v tx r}, CacheHonest host i v → arpParty.act v tx = some r →
      CacheHonest host i r.1 ∧ ∀ f ∈ r.2, FrameHonest host f := by
    intro i v tx r hv hr
    cases hr
    refine ⟨hv, fun f hf => ?_⟩
    rw [List.mem_singleton.mp hf]
    exact ⟨i, hv.sentBy (arpBuildRequest_sentBy v tx)⟩
  have hbegin : (∀ i, CacheHonest host i (host i)) ∧ ∀ f ∈ ([] : List (Buf × Nat)),
      FrameHonest host f := ⟨hstart, by simp⟩
  have hhosts := (@Medium.invariant _ _ _ _ _ arpParty (CacheHonest host) (FrameHonest host) _ _
    hask (fun h hf => h.recv hf) hbegin hrun).1 i
  rw [← hhosts.gwIp]
  exact hhosts.cached hvalid

def lanDemo (second : Bool) : NetVars :=
  if second then { ourMac := 0x22, ourIp := 0x0200000A, gwIp := 0x0100000A }
  else { ourMac := 0x11, ourIp := 0x0100000A, gwIp := 0x0200000A }

/-- A request out of an empty buffer, and its reply. -/
theorem lan_caches_honest_demo : ∃ s : Medium Bool NetVars (Buf × Nat),
    Run (Medium.step arpParty) anyEvent ⟨lanDemo, []⟩ s ∧ (s.host false).gwMacValid = true ∧
    ∃ j, (lanDemo j).ourIp = (lanDemo false).gwIp ∧ (lanDemo j).ourMac = (s.host false).gwMac := by
  obtain ⟨s, hrun, hvalid⟩ := exists_run (Medium.step arpParty) anyEvent ⟨lanDemo, []⟩
    (Q := fun s => (s.host false).gwMacValid = true)
    [.act false fun _ => 0, .deliver true 0, .deliver false 1]
    (feedOk_any _ _) (by decide +kernel)
  exact ⟨s, hrun, hvalid, lan_caches_honest lanDemo (by decide) hrun false hvalid⟩

/-! ## A refresh -/

/-- A request of `a` is delivered to `b`, and the reply, if there is one, to `a`. -/
def arpExchange (a b : NetVars) (tx : Buf) : NetVars × NetVars :=
  let request := arpBuildRequest a tx
  let answered := netRecvArp b request.1 request.2
  (match answered.2 with
    | some reply => (netRecvArp a reply.1 reply.2).1
    | none => a, answered.1)

/-- One after the other, each out of the transmit buffer as it is then. -/
def arpRefreshes (tx : Nat → Buf) (a b : NetVars) : Nat → NetVars × NetVars
  | 0 => (a, b)
  | n + 1 =>
      let before := arpRefreshes tx a b n
      arpExchange before.1 before.2 (tx n)

/-- `b` takes the frames that `a` sends requests in. -/
def ArpReaches (a b : NetVars) : Prop := b.Takes (arpTarget a)

instance (a b : NetVars) : Decidable (ArpReaches a b) := inferInstanceAs (Decidable (b.Takes _))

/-- What a host knows after a frame from `ip` at `mac`. -/
def NetVars.heard (v : NetVars) (ip : W) (mac : BitVec 48) : NetVars :=
  if v.gwIp = ip then { v with gwMac := mac, gwMacValid := true } else v

theorem arpLearn_heard {w : NetVars} {buf : Buf} (h : SentBy w buf) :
    arpLearn v buf = v.heard w.ourIp w.ourMac := by
  rw [arpLearn, ipAt_eq h.spa, macAt_eq h.sha, NetVars.heard]

theorem arpSane_eq {w : NetVars} {buf : Buf} (hsent : SentBy w buf)
    (htype : slice buf 14 4 = [0, 1, 8, 0]) (hsizes : slice buf 18 2 = [6, 4]) :
    arpSane buf arpFrameLen = arpSpaOk w.ourIp := by
  unfold arpSane
  rw [htype, hsizes, ipAt_eq hsent.spa]
  simp

variable {a b : NetVars}

theorem netRecvArp_request (tx : Buf) (hgw : a.gwIp = b.ourIp) (hip : arpSpaOk a.ourIp = true) :
    netRecvArp b (arpBuildRequest a tx).1 (arpBuildRequest a tx).2 =
      if ArpReaches a b then
        (b.heard a.ourIp a.ourMac, some (arpReply b (arpBuildRequest a tx).1, arpFrameLen))
      else (b, none) := by
  obtain ⟨hdst, hty, htype, hsizes, hoper, -, -, htpa⟩ := @arpBuildRequest_fields a tx
  have hsent := arpBuildRequest_sentBy a tx
  have hlen : (arpBuildRequest a tx).2 = arpFrameLen := rfl
  rw [netRecvArp, hlen, netType_eq hdst hty (by decide) (by decide)]
  by_cases hreach : ArpReaches a b
  · have htaken : b.Takes (arpTarget a) := hreach
    rw [if_pos hreach, if_pos htaken, if_pos rfl, arpHandle, arpSane_eq hsent htype hsizes, hip,
      if_pos rfl, if_pos hoper, ipAt_eq htpa, if_pos hgw, arpLearn_heard hsent]
  · have hfar : ¬ b.Takes (arpTarget a) := hreach
    rw [if_neg hreach, if_neg hfar, if_neg (by simp)]

theorem netRecvArp_reply (tx : Buf) (hip : arpSpaOk b.ourIp = true) :
    (netRecvArp a (arpReply b (arpBuildRequest a tx).1) arpFrameLen).1
      = a.heard b.ourIp b.ourMac := by
  obtain ⟨-, hty, htype, hsizes, -, hsha, hspa, -⟩ := @arpBuildRequest_fields a tx
  obtain ⟨hdst', -, hkept, hoper', -, -, -, htpa'⟩ := @arpReply_fields b (arpBuildRequest a tx).1
  have hsent := arpReply_sentBy b (arpBuildRequest a tx).1
  have hty' : slice (arpReply b (arpBuildRequest a tx).1) 12 2 = beHalf 0x0806 :=
    (slice_part hkept (by decide : 0 + 2 ≤ 8)).trans hty
  have htype' : slice (arpReply b (arpBuildRequest a tx).1) 14 4 = [0, 1, 8, 0] :=
    (slice_part hkept (by decide : 2 + 4 ≤ 8)).trans htype
  have hsizes' : slice (arpReply b (arpBuildRequest a tx).1) 18 2 = [6, 4] :=
    (slice_part hkept (by decide : 6 + 2 ≤ 8)).trans hsizes
  have hours : a.Takes a.ourMac := .inl rfl
  rw [netRecvArp, netType_eq (hdst'.trans hsha) hty' (by decide) (by decide),
    if_pos hours, if_pos rfl, arpHandle, arpSane_eq hsent htype' hsizes', hip, if_pos rfl,
    hoper', if_neg (by decide), if_pos rfl, ipAt_eq (htpa'.trans hspa), if_pos rfl,
    arpLearn_heard hsent]

theorem arpExchange_eq (tx : Buf) (hgw : a.gwIp = b.ourIp) (ha : arpSpaOk a.ourIp = true)
    (hb : arpSpaOk b.ourIp = true) : arpExchange a b tx =
      if ArpReaches a b then (a.heard b.ourIp b.ourMac, b.heard a.ourIp a.ourMac) else (a, b) := by
  rw [arpExchange, netRecvArp_request tx hgw ha]
  by_cases hreach : ArpReaches a b
  · simp only [if_pos hreach]
    rw [netRecvArp_reply tx hb]
  · simp only [if_neg hreach]

/-- What a refresh does not change. -/
structure SameHost (v w : NetVars) : Prop where
  ourMac : w.ourMac = v.ourMac
  ourIp : w.ourIp = v.ourIp
  gwIp : w.gwIp = v.gwIp

theorem NetVars.heard_same (v : NetVars) (ip : W) (mac : BitVec 48) : SameHost v (v.heard ip mac) := by
  rw [NetVars.heard]
  split <;> exact ⟨rfl, rfl, rfl⟩

theorem SameHost.trans {u : NetVars} (h : SameHost u v) {w : NetVars} (h' : SameHost v w) :
    SameHost u w :=
  ⟨h'.ourMac.trans h.ourMac, h'.ourIp.trans h.ourIp, h'.gwIp.trans h.gwIp⟩

/-- `a` has the address of `b` in its cache. -/
def Knows (a b : NetVars) : Prop := a.gwMacValid = true ∧ a.gwMac = b.ourMac

theorem Knows.reaches (h : Knows a b) : ArpReaches a b := by
  refine .inl ?_
  rw [arpTarget, if_pos h.1]
  exact h.2

/-- After `n` refreshes: the hosts are the same, and if the requests reach `b` then `a` knows it,
and else nothing has changed. -/
structure Refreshed (a b : NetVars) (n : Nat) (h : NetVars × NetVars) : Prop where
  fst : SameHost a h.1
  snd : SameHost b h.2
  knows : ArpReaches a b → 0 < n → Knows h.1 b
  stale : ¬ ArpReaches a b → h.1 = a

theorem arpRefreshes_refreshed (tx : Nat → Buf) (hgw : a.gwIp = b.ourIp)
    (ha : arpSpaOk a.ourIp = true) (hb : arpSpaOk b.ourIp = true) (n : Nat) :
    Refreshed a b n (arpRefreshes tx a b n) := by
  induction n with
  | zero => exact ⟨⟨rfl, rfl, rfl⟩, ⟨rfl, rfl, rfl⟩, fun _ h => absurd h (by decide), fun _ => rfl⟩
  | succ n ih =>
      generalize hbefore : arpRefreshes tx a b n = before at ih
      have hgw' : before.1.gwIp = before.2.ourIp := by
        rw [ih.fst.gwIp, ih.snd.ourIp]
        exact hgw
      have hexchange := arpExchange_eq (tx n) hgw' (ih.fst.ourIp ▸ ha) (ih.snd.ourIp ▸ hb)
      rw [arpRefreshes, hbefore, hexchange]
      -- the requests reach `b` now exactly if they did at first
      by_cases hreach : ArpReaches a b
      · have hnow : ArpReaches before.1 before.2 := by
          rcases Nat.eq_zero_or_pos n with rfl | hpos
          · cases hbefore
            exact hreach
          · have hknows := (ih.knows hreach hpos).reaches
            rw [ArpReaches, NetVars.Takes, ih.snd.ourMac]
            exact hknows
        rw [if_pos hnow]
        refine ⟨ih.fst.trans (before.1.heard_same _ _), ih.snd.trans (before.2.heard_same _ _),
          fun _ _ => ?_, fun h => absurd hreach h⟩
        dsimp only
        rw [NetVars.heard, if_pos hgw', ih.snd.ourMac]
        exact ⟨rfl, rfl⟩
      · have hnot : ¬ ArpReaches before.1 before.2 := by
          rw [ih.stale hreach, ArpReaches, NetVars.Takes, ih.snd.ourMac]
          exact hreach
        rw [if_neg hnot]
        exact ⟨ih.fst, ih.snd, fun h => absurd h hreach, fun _ => ih.stale hreach⟩

/-- **When the refresh helps**: after any number of exchanges with the gateway, its address is in
the cache exactly if at first there was none, or it was there already (or a group address that the
gateway listens to was). -/
theorem arp_refresh_iff (a b : NetVars) (tx : Nat → Buf) {n : Nat} (hpos : 0 < n)
    (hgw : a.gwIp = b.ourIp) (ha : arpSpaOk a.ourIp = true) (hb : arpSpaOk b.ourIp = true) :
    Knows (arpRefreshes tx a b n).1 b ↔
      (a.gwMacValid = false ∨ a.gwMac = b.ourMac ∨ a.gwMac = broadcastMac ∨ a.gwMac = mdnsMac) := by
  have hrefreshed := arpRefreshes_refreshed tx hgw ha hb n
  have hreach : ArpReaches a b ↔ (a.gwMacValid = false ∨ a.gwMac = b.ourMac ∨
      a.gwMac = broadcastMac ∨ a.gwMac = mdnsMac) := by
    rw [ArpReaches, NetVars.Takes, arpTarget]
    cases hvalid : a.gwMacValid with
    | true => simp
    | false => simp
  rw [← hreach]
  constructor
  · intro hknows
    by_contra hnot
    rw [hrefreshed.stale hnot] at hknows
    exact hnot hknows.reaches
  · intro h
    exact hrefreshed.knows h hpos

/-- With another address in the cache the gateway is never heard of again. -/
theorem arp_refresh_iff_stale :
    ¬ Knows (arpRefreshes (fun _ _ => 0)
      { lanDemo false with gwMac := 0x33, gwMacValid := true } (lanDemo true) 3).1 (lanDemo true) := by
  rw [arp_refresh_iff { lanDemo false with gwMac := 0x33, gwMacValid := true } (lanDemo true)
    (fun _ _ => 0) (by decide) (by decide) (by decide) (by decide)]
  decide

end Wire

end WsPi5
