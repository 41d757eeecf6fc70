/-
# `WsPi5.Offload` — checksums in hardware against checksums in software

With `net_hw_csum_tx` set, a frame leaves the stack with a seed in its checksum field.  For TCP
`genet_send` asks the hardware to sum the segment as it stands, seed included, and to store the
complement (`hwInsert`); so the seed should be the sum of the pseudo-header, folded and *not*
complemented.  For UDP it asks for nothing ("intentionally NOT offloaded"), and what the stack has
stored goes out (`genetSend`).

    builder                                   stored         the wire agrees with software
    tcp_build_reply, tcp_build_frame, saved   P              always
    tcp_persist_cb                            a checksum     where `probeCancels`
    echo reply of udp_handle                  ~P             where the datagram sums to 0

`P` is the pseudo-header's sum.  "Agrees" is equality as ones' complement values
(`sameOnes`): 0x0000 and 0xFFFF are one value.

`tcp_persist_cb` does not look at the flag: it stores what `tcp_checksum` returns, and the hardware
takes that for a seed.  `udp_handle` does look, and stores `udp_pseudo_csum` for an insertion that
does not come.
-/
import WsPi5.Lib.Stores
import WsPi5.Net.Receive

namespace WsPi5

open Lib

namespace Wire

def sameOnes (a b : Nat) : Prop := a % 65535 = b % 65535

/-- The hardware, for a segment of `n` bytes with its checksum at `field`: sum the segment with what
the field holds, store the complement. -/
def hwInsert (field n : Nat) (buf : Buf) : Buf :=
  memWrite buf field (halfBytes (inetChecksum (halfSum (slice buf 34 n))))

/-- `TX_CSUM_INFO_ICMP`, `TX_CSUM_INFO_TCP`: the field that `genet_send` lets the hardware fill in,
by EtherType and protocol. -/
def txCsumField (buf : Buf) (len : Nat) : Option Nat :=
  if len < 24 then none
  else if buf 12 = 0x08 ∧ buf 13 = 0 then
    if buf 23 = 1 then some 36 else if buf 23 = 6 then some 50 else none
  else none

/-- `genet_send`: the frame as it goes out.  (A frame over 1514 bytes, and any without a link, is
refused, whatever the flag.) -/
def genetSend (sent : Buf × Nat) : Buf :=
  match txCsumField sent.1 sent.2 with
  | some field => hwInsert field (sent.2 - 34) sent.1
  | none => sent.1

/-- A frame that left the stack with a seed has, on the wire, the checksum of the frame that
left it with a software checksum. -/
def WireAgrees (field : Nat) (seeded full : Buf × Nat) : Prop :=
  seeded.2 = full.2 ∧ sameOnes (halfAt (genetSend seeded) field) (halfAt full.1 field)

/-- The same, of a frame that the hardware inserts into. -/
def OffloadAgrees (field : Nat) (seeded full : Buf × Nat) : Prop :=
  seeded.2 = full.2 ∧
    sameOnes (halfAt (hwInsert field (seeded.2 - 34) seeded.1) field) (halfAt full.1 field)

/-- EtherType and protocol of a frame, which `net_recv_one` and `ip_handle` have looked at before
they hand it on. -/
structure IsIp (proto : Byte) (buf : Buf) : Prop where
  type : slice buf 12 2 = beHalf 0x0800
  proto : slice buf 23 1 = [proto]

/-! ## Residues -/

theorem inetChecksum_residue {s : Nat} (h : s < 2 ^ 32) : (s + inetChecksum s) % 65535 = 0 := by
  obtain ⟨m, _, heq⟩ := inetChecksum_complements h
  rw [heq]
  exact Nat.mul_mod_right 65535 m

theorem sameOnes_iff {p s seed : Nat} (h : s + seed < 2 ^ 32) (h' : p + s < 2 ^ 32) :
    sameOnes (inetChecksum (s + seed)) (inetChecksum (p + s)) ↔ sameOnes seed p := by
  have h₁ := inetChecksum_residue h
  have h₂ := inetChecksum_residue h'
  unfold sameOnes
  omega

theorem sameOnes_more {p s : Nat} (h : p + s < 2 ^ 32) :
    sameOnes (inetChecksum p) (inetChecksum (p + s)) ↔ s % 65535 = 0 := by
  have h₁ := inetChecksum_residue (s := p) (by omega)
  have h₂ := inetChecksum_residue h
  unfold sameOnes
  omega

theorem sameOnes_nonzero {a b : Nat} : sameOnes a (nonzeroCsum b) ↔ sameOnes a b := by
  unfold sameOnes nonzeroCsum
  split <;> omega

/-! ## What the driver asks for -/

theorem IsIp.bytes {proto : Byte} {buf : Buf} (h : IsIp proto buf) :
    (buf 12 = 0x08 ∧ buf 13 = 0) ∧ buf 23 = proto :=
  ⟨⟨(List.cons.inj h.type).1, (List.cons.inj (List.cons.inj h.type).2).1⟩,
    (List.cons.inj h.proto).1⟩

theorem wireAgrees_tcp {seeded full : Buf × Nat} (hlen : 24 ≤ seeded.2) (hip : IsIp 6 seeded.1) :
    WireAgrees 50 seeded full ↔ OffloadAgrees 50 seeded full := by
  obtain ⟨htype, hproto⟩ := hip.bytes
  have hfield : txCsumField seeded.1 seeded.2 = some 50 := by
    rw [txCsumField, if_neg (by omega), if_pos htype, hproto]
    rfl
  rw [WireAgrees, OffloadAgrees, genetSend, hfield]

theorem wireAgrees_udp {seeded full : Buf × Nat} (hip : IsIp 17 seeded.1) :
    WireAgrees 40 seeded full ↔
      seeded.2 = full.2 ∧ sameOnes (halfAt seeded.1 40) (halfAt full.1 40) := by
  obtain ⟨htype, hproto⟩ := hip.bytes
  have hfield : txCsumField seeded.1 seeded.2 = none := by
    rw [txCsumField]
    split
    · rfl
    · rw [hproto]
      rfl
  rw [WireAgrees, genetSend, hfield]

theorem IsIp.congr {proto : Byte} {buf buf' : Buf} (h : IsIp proto buf)
    (hsame : slice buf' 12 2 = slice buf 12 2) (hsame' : slice buf' 23 1 = slice buf 23 1) :
    IsIp proto buf' := ⟨hsame.trans h.type, hsame'.trans h.proto⟩

theorem IsIp.putTcpChecksum {proto : Byte} {buf : Buf} (h : IsIp proto buf) (hw : Bool) (n : Nat) :
    IsIp proto (putTcpChecksum hw buf n) :=
  h.congr (putTcpChecksum_keeps (.inl (by decide))) (putTcpChecksum_keeps (.inl (by decide)))

theorem IsIp.putIpChecksum {proto : Byte} {buf : Buf} (h : IsIp proto buf) :
    IsIp proto (putIpChecksum buf) :=
  h.congr (putIpChecksum_keeps (.inl (by decide))) (putIpChecksum_keeps (.inl (by decide)))

theorem IsIp.memWrites {proto : Byte} {buf : Buf} (h : IsIp proto buf)
    {ws : List (Nat × List Byte)} (hws : ∀ w ∈ ws,
      (14 ≤ w.1 ∨ w.1 + w.2.length ≤ 12) ∧ (24 ≤ w.1 ∨ w.1 + w.2.length ≤ 23)) :
    IsIp proto (memWrites buf ws) :=
  h.congr (slice_memWrites_outside fun w hw => (hws w hw).1)
    (slice_memWrites_outside fun w hw => (hws w hw).2)

/-! ## TCP -/

theorem halfAt_hwInsert (field n : Nat) (buf : Buf) :
    halfAt (hwInsert field n buf) field = inetChecksum (halfSum (slice buf 34 n)) :=
  halfAt_memWrite buf field (inetChecksum_lt _)

theorem halfSum_field_put (buf : Buf) (m k : Nat) {v : Nat} (hv : v < 65536) (hm : m % 2 = 0) :
    let zeroed := memWrite buf (34 + m) (halfBytes 0)
    halfSum (slice (memWrite zeroed (34 + m) (halfBytes v)) 34 (m + 2 + k))
      = halfSum (slice zeroed 34 (m + 2 + k)) + v := by
  intro zeroed
  have hput : slice (memWrite zeroed (34 + m) (halfBytes v)) 34 (m + 2 + k)
      = slice buf 34 m ++ halfBytes v ++ slice buf (34 + m + 2) k := slice_field buf 34 m k 0 v
  have hzero : slice zeroed 34 (m + 2 + k)
      = slice buf 34 m ++ halfBytes 0 ++ slice buf (34 + m + 2) k :=
    slice_memWrite_inside buf 34 m k (halfBytes 0)
  rw [hput, hzero]
  exact halfSum_field hv _ (by rw [slice_length]; exact hm)

theorem tcpPseudoCsum_lt (buf : Buf) (n : Nat) : tcpPseudoCsum buf n < 65536 := by
  have := inetChecksum_lt (pseudoSum buf n)
  unfold tcpPseudoCsum
  omega

theorem tcpPseudoCsum_sameOnes (buf : Buf) (n : Nat) :
    sameOnes (tcpPseudoCsum buf n) (pseudoSum buf n) := by
  have hle := pseudoSum_le buf n
  have hres := inetChecksum_residue (s := pseudoSum buf n) (by omega)
  have hlt := inetChecksum_lt (pseudoSum buf n)
  unfold sameOnes tcpPseudoCsum
  omega

/-- The segment lengths for which the 32-bit accumulator does not wrap. -/
def segmentMax : Nat := 130000

theorem halfSum_segment_le {buf : Buf} {n : Nat} (h : n ≤ segmentMax) :
    halfSum (slice buf 34 n) ≤ 2 ^ 32 - 2 ^ 25 := by
  have hle := halfSum_slice_le buf 34 n
  unfold segmentMax at h
  omega

/-- **A TCP checksum field**: the hardware makes of the seed what software would have stored. -/
theorem putTcpChecksum_offload (buf : Buf) {n : Nat} (hmin : 18 ≤ n) (hmax : n ≤ segmentMax) :
    sameOnes (halfAt (hwInsert 50 n (putTcpChecksum true buf n)) 50)
      (halfAt (putTcpChecksum false buf n) 50) := by
  obtain ⟨k, rfl⟩ := Nat.exists_eq_add_of_le hmin
  obtain ⟨zeroed, hz⟩ : ∃ zeroed, zeroed = memWrite buf 50 (halfBytes 0) := ⟨_, rfl⟩
  have hseed := tcpPseudoCsum_lt zeroed (18 + k)
  have hsum : halfSum (slice (putTcpChecksum true buf (18 + k)) 34 (18 + k))
      = halfSum (slice zeroed 34 (18 + k)) + tcpPseudoCsum zeroed (18 + k) := by
    rw [hz] at hseed ⊢
    exact halfSum_field_put buf 16 k hseed rfl
  have hfull : halfAt (putTcpChecksum false buf (18 + k)) 50 = tcpChecksum zeroed (18 + k) := by
    rw [hz]
    exact halfAt_memWrite _ 50 (inetChecksum_lt _)
  have hpre := pseudoSum_le zeroed (18 + k)
  have hle := @halfSum_segment_le zeroed _ hmax
  rw [halfAt_hwInsert, hsum, hfull, tcpChecksum, sameOnes_iff (by omega) (by omega)]
  exact tcpPseudoCsum_sameOnes zeroed (18 + k)

theorem offloadAgrees_put (buf : Buf) {n len : Nat} (hlen : len = n + 34) (hmin : 18 ≤ n)
    (hmax : n ≤ segmentMax) :
    OffloadAgrees 50 (putTcpChecksum true buf n, len) (putTcpChecksum false buf n, len) := by
  subst hlen
  refine ⟨rfl, ?_⟩
  show sameOnes (halfAt (hwInsert 50 (n + 34 - 34) _) 50) _
  rw [Nat.add_sub_cancel]
  exact putTcpChecksum_offload buf hmin hmax

section
variable {env : Env} {now : Tick} {c : Conn} {flags : BitVec 8} {payload : List Byte} {buf : Buf}

/-- **`tcp_build_reply`.** -/
theorem tcpBuildReply_offload {seq ack : W} {window : BitVec 16} {conn : Option Conn} :
    OffloadAgrees 50 (tcpBuildReply true now seq ack flags window conn buf)
      (tcpBuildReply false now seq ack flags window conn buf) := by
  unfold tcpBuildReply
  dsimp only
  cases replyTs conn with
  | some c => exact @offloadAgrees_put _ 32 66 rfl (by decide) (by decide)
  | none => exact @offloadAgrees_put _ 20 54 rfl (by decide) (by decide)

/-- **`tcp_build_frame`.** -/
theorem tcpBuildFrame_offload (h : payload.length ≤ 65535) :
    OffloadAgrees 50 (tcpBuildFrame true env now c flags payload buf)
      (tcpBuildFrame false env now c flags payload buf) := by
  have hopts := optOverhead_le c flags
  unfold tcpBuildFrame
  dsimp only
  exact offloadAgrees_put _ (by omega) (by omega) (by unfold segmentMax; omega)

theorem tcpBuildFrame_isIp (hw : Bool) :
    IsIp 6 (tcpBuildFrame hw env now c flags payload buf).1 := by
  unfold tcpBuildFrame
  dsimp only
  refine IsIp.putTcpChecksum (IsIp.memWrites (IsIp.putIpChecksum ?_) fun w hw => ?_) hw _
  · exact ⟨slice_stored rfl, slice_stored rfl⟩
  · simp only [List.mem_cons, List.not_mem_nil, or_false] at hw
    have hbehind : 34 ≤ w.1 := by
      rcases hw with rfl | rfl | rfl | rfl | rfl | rfl | rfl | rfl | rfl
      all_goals
        dsimp only
        omega
    exact ⟨.inl (by omega), .inl (by omega)⟩

theorem tcpBuildReply_isIp (hip : IsIp 6 buf) (hw : Bool) (seq ack : W) (window : BitVec 16)
    (conn : Option Conn) : IsIp 6 (tcpBuildReply hw now seq ack flags window conn buf).1 := by
  unfold tcpBuildReply
  dsimp only
  cases replyTs conn with
  | some c =>
      dsimp only
      rw [← memWrites_append]
      exact (hip.congr (slice_unstored rfl) (slice_unstored rfl)).putIpChecksum.putTcpChecksum hw _
  | none =>
      dsimp only
      rw [← memWrites_append]
      exact (hip.congr (slice_unstored rfl) (slice_unstored rfl)).putIpChecksum.putTcpChecksum hw _

theorem savedFrame_isIp (hw : Bool) {rtxbuf txbuf : Buf} :
    IsIp 6 (savedFrame hw env now c flags buf rtxbuf txbuf).1 := by
  have hlen : 54 ≤ (tcpBuildFrame hw env now c flags [] buf).2 := by
    show 54 ≤ 0 + 54 + optOverhead c flags
    omega
  have hsame : ∀ a n, a + n ≤ 54 → slice (savedFrame hw env now c flags buf rtxbuf txbuf).1 a n
      = slice (tcpBuildFrame hw env now c flags [] buf).1 a n := by
    intro a n hn
    refine slice_congr fun k hk => ?_
    calc copyFrame (copyFrame _ rtxbuf, _) txbuf (a + k)
        = copyFrame (tcpBuildFrame hw env now c flags [] buf) rtxbuf (a + k) :=
          copyFrame_apply (_, _) (Nat.lt_of_lt_of_le (by omega) hlen)
      _ = (tcpBuildFrame hw env now c flags [] buf).1 (a + k) :=
          copyFrame_apply _ (Nat.lt_of_lt_of_le (by omega) hlen)
  exact (tcpBuildFrame_isIp hw).congr (hsame 12 2 (by decide)) (hsame 23 1 (by decide))

theorem persistProbe_isIp (hw : Bool) : IsIp 6 (persistProbe hw env now c buf).1 := by
  have hframe : IsIp 6 (tcpBuildFrame hw env now c tcpAckFlag [] buf).1 := tcpBuildFrame_isIp hw
  exact (hframe.congr (slice_memWrite_outside (.inl (by decide)))
    (slice_memWrite_outside (.inl (by decide)))).putTcpChecksum false _

theorem OffloadAgrees.congr {seeded full seeded' full' : Buf × Nat} {field : Nat}
    (h : OffloadAgrees field seeded full) (hfield : field + 2 ≤ seeded.2) (hmin : 34 ≤ seeded.2)
    (hlen : seeded'.2 = seeded.2) (hlen' : full'.2 = full.2)
    (hsame : ∀ k < seeded.2, seeded'.1 k = seeded.1 k)
    (hsame' : ∀ k < full.2, full'.1 k = full.1 k) : OffloadAgrees field seeded' full' := by
  have hslice : slice seeded'.1 34 (seeded.2 - 34) = slice seeded.1 34 (seeded.2 - 34) :=
    slice_congr fun k hk => hsame (34 + k) (by omega)
  have hfull : full.2 = seeded.2 := h.1.symm
  refine ⟨by rw [hlen, hlen', hfull], ?_⟩
  have hagree := h.2
  rw [halfAt_hwInsert] at hagree ⊢
  rw [hlen, hslice]
  rw [halfAt, hsame' field (by omega), hsame' (field + 1) (by omega)]
  exact hagree

/-- **The saved frame.** -/
theorem savedFrame_offload {rtxbuf txbuf : Buf} :
    OffloadAgrees 50 (savedFrame true env now c flags buf rtxbuf txbuf)
      (savedFrame false env now c flags buf rtxbuf txbuf) := by
  have hbuilt : OffloadAgrees 50 (tcpBuildFrame true env now c flags [] buf)
      (tcpBuildFrame false env now c flags [] buf) := tcpBuildFrame_offload (by simp)
  have hlen : ∀ hw, (tcpBuildFrame hw env now c flags [] buf).2 = 54 + optOverhead c flags := by
    intro hw
    show 0 + 54 + optOverhead c flags = _
    omega
  refine hbuilt.congr (by rw [hlen]; omega) (by rw [hlen]; omega) rfl rfl ?_ ?_
  · intro k hk
    calc copyFrame (copyFrame _ rtxbuf, _) txbuf k
        = copyFrame (tcpBuildFrame true env now c flags [] buf) rtxbuf k :=
          copyFrame_apply (_, _) hk
      _ = (tcpBuildFrame true env now c flags [] buf).1 k := copyFrame_apply _ hk
  · intro k hk
    calc copyFrame (copyFrame _ rtxbuf, _) txbuf k
        = copyFrame (tcpBuildFrame false env now c flags [] buf) rtxbuf k :=
          copyFrame_apply (_, _) hk
      _ = (tcpBuildFrame false env now c flags [] buf).1 k := copyFrame_apply _ hk

end

/-! ## The window probe -/

/-- The probe's segment up to the checksum field. -/
def probeHeader (c : Conn) (seq : W) : List (List Byte) :=
  [halfBytes c.lport.toNat, halfBytes c.rport.toNat, beBytes seq, beBytes c.rcvNxt,
   [UInt8.ofNat ((tsOverhead c.tsEnabled / 4 + 5) * 16), UInt8.ofNat tcpAckFlag.toNat],
   beHalf c.rcvWindow.toNat]

/-- The probe's segment, with a zero checksum field. -/
def probeSegment (now : Tick) (c : Conn) : List Byte :=
  (probeHeader c (c.sndNxt - 1)).flatten ++ halfBytes 0 ++ (halfBytes 0 ++ c.tsOpts now)

def probePseudo (env : Env) (c : Conn) : Nat :=
  halfSum (wordBytes env.ourIp ++ wordBytes c.rip) + 0x0600 + (20 + tsOverhead c.tsEnabled) * 256

/-- The checksum stored in the probe is also a seed that gives it back: segment, and twice the
pseudo-header with what `tcp_checksum` sums beyond the segment, are 0 in ones' complement. -/
def probeCancels (env : Env) (now : Tick) (c : Conn) (buf : Buf) : Prop :=
  (halfSum (probeSegment now c) + 2 * (probePseudo env c + 34 * 256
    + halfSum (slice buf (54 + tsOverhead c.tsEnabled) 34))) % 65535 = 0

instance (env : Env) (now : Tick) (c : Conn) (buf : Buf) :
    Decidable (probeCancels env now c buf) := inferInstanceAs (Decidable (_ = _))

section
variable {env : Env} {now : Tick} {c : Conn} {buf : Buf} {hw : Bool}

theorem probe_built : ∃ ip : Buf, slice ip 26 8 = wordBytes env.ourIp ++ wordBytes c.rip ∧
    tcpBuildFrame hw env now c tcpAckFlag [] buf
      = (putTcpChecksum hw (memWrites (memWrites ip (blocks 34 (probeHeader c c.sndNxt)))
          (blocks 52 [halfBytes 0, c.tsOpts now])) (20 + tsOverhead c.tsEnabled),
        54 + tsOverhead c.tsEnabled) := by
  obtain ⟨front, hfront⟩ : ∃ front : List (Nat × List Byte), front =
      [(0, macBytes c.rmac), (6, macBytes env.ourMac), (12, beHalf 0x0800), (14, [0x45, 0]),
       (16, beHalf (0 + 40 + optOverhead c tcpAckFlag)), (18, halfBytes 0),
       (20, halfBytes 0x0040), (22, [64, 6])] := ⟨_, rfl⟩
  have haddr : slice (memWrites buf (front ++ blocks 26 [wordBytes env.ourIp, wordBytes c.rip]))
      26 8 = wordBytes env.ourIp ++ wordBytes c.rip := by
    rw [memWrites_append]
    exact slice_memWrites_blocks _ 26 [wordBytes env.ourIp, wordBytes c.rip]
  refine ⟨putIpChecksum (memWrites buf (front ++ blocks 26 [wordBytes env.ourIp, wordBytes c.rip])),
    by rw [putIpChecksum_keeps (.inr (by decide)), haddr], ?_⟩
  have hlen : (c.tsOpts now).length = tsOverhead c.tsEnabled := tsOpts_length c now
  have hopts : optOverhead c tcpAckFlag = tsOverhead c.tsEnabled := rfl
  have htail : (WsPi5.tcpBuildFrame env now c c.sndNxt tcpAckFlag []).opts = c.tsOpts now := by
    show c.tsOpts now ++ [] = _
    rw [List.append_nil]
  rw [← memWrites_append, hfront]
  unfold tcpBuildFrame
  dsimp only
  rw [htail, hopts]
  rw [List.length_nil, Nat.zero_add, Nat.zero_add]
  rfl

/-- The probe before `tcp_persist_cb` computes its checksum: patched, field zero. -/
def probeZeroed (hw : Bool) (env : Env) (now : Tick) (c : Conn) (buf : Buf) : Buf :=
  memWrite (memWrite (tcpBuildFrame hw env now c tcpAckFlag [] buf).1 38 (beBytes (c.sndNxt - 1)))
    50 (halfBytes 0)

theorem tsOverhead_cases (ts : Bool) : tsOverhead ts = 0 ∨ tsOverhead ts = 12 := by
  unfold tsOverhead
  split
  · exact .inr rfl
  · exact .inl rfl

/-- **What is summed for the probe**: its segment, and the addresses. -/
theorem probeZeroed_slices :
    slice (probeZeroed hw env now c buf) 34 (20 + tsOverhead c.tsEnabled) = probeSegment now c ∧
    slice (probeZeroed hw env now c buf) 26 8 = wordBytes env.ourIp ++ wordBytes c.rip := by
  obtain ⟨ip, haddr, hbuilt⟩ := @probe_built env now c buf hw
  obtain ⟨built, hb⟩ : ∃ built,
      built = (tcpBuildFrame hw env now c tcpAckFlag [] buf).1 := ⟨_, rfl⟩
  have htcp : built = putTcpChecksum hw (memWrites (memWrites ip
      (blocks 34 (probeHeader c c.sndNxt))) (blocks 52 [halfBytes 0, c.tsOpts now]))
      (20 + tsOverhead c.tsEnabled) := by rw [hb, hbuilt]
  have hlen : (c.tsOpts now).length = tsOverhead c.tsEnabled := tsOpts_length c now
  -- the stores of the header, up to the checksum field and behind it
  have hfront : slice built 34 16 = (probeHeader c c.sndNxt).flatten := by
    rw [htcp, putTcpChecksum_keeps (.inl (by decide)),
      slice_memWrites_outside fun w hw' => .inl (Nat.le_trans (by decide) (blocks_bounds hw').1)]
    exact slice_memWrites_blocks ip 34 (probeHeader c c.sndNxt)
  have hback : slice built 52 (2 + tsOverhead c.tsEnabled) = halfBytes 0 ++ c.tsOpts now := by
    rw [htcp, putTcpChecksum_keeps (.inr (by omega)), ← hlen]
    have hblocks := slice_memWrites_blocks (memWrites ip (blocks 34 (probeHeader c c.sndNxt))) 52
      [halfBytes 0, c.tsOpts now]
    have hflat : [halfBytes 0, c.tsOpts now].flatten = halfBytes 0 ++ c.tsOpts now := by simp
    rw [hflat, List.length_append, halfBytes_length] at hblocks
    exact hblocks
  -- the patch replaces the sequence number
  have hpatched : slice (memWrite built 38 (beBytes (c.sndNxt - 1))) 34 16
      = (probeHeader c (c.sndNxt - 1)).flatten := by
    have hsplit : slice (memWrite built 38 (beBytes (c.sndNxt - 1))) 34 16
        = slice built 34 4 ++ beBytes (c.sndNxt - 1) ++ slice built 42 8 :=
      slice_memWrite_inside built 34 4 8 (beBytes (c.sndNxt - 1))
    have hports : slice built 34 4 = (probeHeader c c.sndNxt).flatten.take 4 := by
      rw [← hfront, slice_take built 34 (by decide)]
    have hrest : slice built 42 8 = (probeHeader c c.sndNxt).flatten.drop 8 := by
      rw [← hfront, slice_drop built 34 (by decide)]
    rw [hsplit, hports, hrest]
    rfl
  have hpatchedBack : slice (memWrite built 38 (beBytes (c.sndNxt - 1))) 52
      (2 + tsOverhead c.tsEnabled) = halfBytes 0 ++ c.tsOpts now := by
    rw [slice_memWrite_outside (.inr (by simp [beBytes])), hback]
  refine ⟨?_, ?_⟩
  · have hsplit := slice_memWrite_inside (memWrite built 38 (beBytes (c.sndNxt - 1))) 34 16
      (2 + tsOverhead c.tsEnabled) (halfBytes 0)
    rw [halfBytes_length, hpatched, hpatchedBack] at hsplit
    rw [probeZeroed, ← hb, show 20 + tsOverhead c.tsEnabled
      = 16 + 2 + (2 + tsOverhead c.tsEnabled) by omega, hsplit]
    rfl
  · rw [probeZeroed, ← hb, slice_memWrite_outside (.inl (by decide)),
      slice_memWrite_outside (.inl (by decide)), htcp, putTcpChecksum_keeps (.inl (by decide)),
      slice_memWrites_outside fun w hw' => .inl (Nat.le_trans (by decide) (blocks_bounds hw').1),
      slice_memWrites_outside fun w hw' => .inl (Nat.le_trans (by decide) (blocks_bounds hw').1)]
    exact haddr

theorem probeZeroed_behind {n : Nat} :
    slice (probeZeroed hw env now c buf) (54 + tsOverhead c.tsEnabled) n
      = slice buf (54 + tsOverhead c.tsEnabled) n := by
  have hlen : (tcpBuildFrame hw env now c tcpAckFlag [] buf).2 = 54 + tsOverhead c.tsEnabled := by
    show 0 + 54 + (tsOverhead c.tsEnabled + 0) = _
    omega
  rw [probeZeroed, slice_memWrite_outside (.inr (by rw [halfBytes_length]; omega)),
    slice_memWrite_outside (.inr (by simp [beBytes]; omega)),
    tcpBuildFrame_behind (Nat.le_of_eq hlen)]

/-- The checksum that `tcp_persist_cb` stores. -/
def probeCsum (env : Env) (now : Tick) (c : Conn) (buf : Buf) : Nat :=
  inetChecksum (probePseudo env c + 34 * 256 + (halfSum (probeSegment now c)
    + halfSum (slice buf (54 + tsOverhead c.tsEnabled) 34)))

/-- `tcp_checksum` with the length of the frame: 34 more in the pseudo-header, and 34 bytes from
behind the segment. -/
theorem tcpChecksum_overlong (buf : Buf) {n : Nat} (heven : n % 2 = 0) (hmax : n + 34 < 256) :
    tcpChecksum buf (n + 34) = inetChecksum (halfSum (slice buf 26 8) + 0x0600 + n * 256 + 34 * 256
      + (halfSum (slice buf 34 n) + halfSum (slice buf (34 + n) 34))) := by
  have hsplit : halfSum (slice buf 34 (n + 34))
      = halfSum (slice buf 34 n) + halfSum (slice buf (34 + n) 34) := by
    rw [slice_add, halfSum_append _ (by rw [slice_length]; exact heven)]
  rw [tcpChecksum, hsplit]
  congr 2
  unfold pseudoSum
  omega

theorem probeZeroed_csum :
    tcpChecksum (probeZeroed hw env now c buf) (54 + tsOverhead c.tsEnabled)
      = probeCsum env now c buf := by
  obtain ⟨hseg, haddr⟩ := @probeZeroed_slices env now c buf hw
  have hbehind := @probeZeroed_behind env now c buf hw 34
  have hts := tsOverhead_cases c.tsEnabled
  rw [show 54 + tsOverhead c.tsEnabled = 20 + tsOverhead c.tsEnabled + 34 by omega,
    tcpChecksum_overlong _ (by omega) (by omega), haddr, hseg,
    show 34 + (20 + tsOverhead c.tsEnabled) = 54 + tsOverhead c.tsEnabled by omega, hbehind,
    probeCsum, probePseudo]

/-- **The window probe.** -/
theorem persistProbe_offload_iff :
    OffloadAgrees 50 (persistProbe true env now c buf) (persistProbe false env now c buf) ↔
      probeCancels env now c buf := by
  have hlen : ∀ hw, (tcpBuildFrame hw env now c tcpAckFlag [] buf).2
      = 54 + tsOverhead c.tsEnabled := by
    intro hw
    show 0 + 54 + (tsOverhead c.tsEnabled + 0) = _
    omega
  have hprobe : ∀ hw, persistProbe hw env now c buf
      = (memWrite (probeZeroed hw env now c buf) 50 (halfBytes (probeCsum env now c buf)),
          54 + tsOverhead c.tsEnabled) := by
    intro hw
    rw [← @probeZeroed_csum env now c buf hw, ← hlen hw]
    rfl
  have hcsum : probeCsum env now c buf < 65536 := inetChecksum_lt _
  obtain ⟨hseg, _⟩ := @probeZeroed_slices env now c buf true
  have hfull : halfAt (persistProbe false env now c buf).1 50 = probeCsum env now c buf := by
    rw [hprobe]
    exact halfAt_memWrite _ 50 hcsum
  have hwire : halfAt (hwInsert 50 (54 + tsOverhead c.tsEnabled - 34)
      (persistProbe true env now c buf).1) 50
      = inetChecksum (halfSum (probeSegment now c) + probeCsum env now c buf) := by
    rw [halfAt_hwInsert, hprobe, show 54 + tsOverhead c.tsEnabled - 34
      = 16 + 2 + (2 + tsOverhead c.tsEnabled) by omega]
    dsimp only
    rw [probeZeroed, halfSum_field_put _ 16 _ hcsum rfl, ← probeZeroed,
      show 16 + 2 + (2 + tsOverhead c.tsEnabled) = 20 + tsOverhead c.tsEnabled by omega, hseg]
  have hsegle : halfSum (probeSegment now c) ≤ 65535 * 17 := by
    have hle := halfSum_le (probeSegment now c)
    have hlen' : (probeSegment now c).length = 20 + tsOverhead c.tsEnabled := by
      rw [← hseg, slice_length]
    obtain hts | hts := tsOverhead_cases c.tsEnabled <;> omega
  have haddrle : halfSum (wordBytes env.ourIp ++ wordBytes c.rip) ≤ 65535 * 5 :=
    Nat.le_trans (halfSum_le _) (by simp [wordBytes, halfBytes])
  have hstale := halfSum_slice_le buf (54 + tsOverhead c.tsEnabled) 34
  have hpseudo : probePseudo env c ≤ 65535 * 5 + 0x0600 + 32 * 256 := by
    unfold probePseudo
    obtain hts | hts := tsOverhead_cases c.tsEnabled <;> omega
  have h₁ := inetChecksum_residue (s := probePseudo env c + 34 * 256
    + (halfSum (probeSegment now c) + halfSum (slice buf (54 + tsOverhead c.tsEnabled) 34)))
    (by omega)
  have h₂ := inetChecksum_residue (s := halfSum (probeSegment now c) + probeCsum env now c buf)
    (by omega)
  have hagree : OffloadAgrees 50 (persistProbe true env now c buf)
      (persistProbe false env now c buf) ↔
      sameOnes (inetChecksum (halfSum (probeSegment now c) + probeCsum env now c buf))
        (probeCsum env now c buf) := by
    have htwo : ∀ hw, (persistProbe hw env now c buf).2 = 54 + tsOverhead c.tsEnabled :=
      fun hw => by rw [hprobe]
    rw [OffloadAgrees, htwo, htwo, hwire, hfull]
    exact ⟨fun h => h.2, fun h => ⟨rfl, h⟩⟩
  rw [hagree]
  unfold sameOnes probeCancels
  rw [probeCsum] at h₂ ⊢
  omega

end

/-! ## The echo reply -/

theorem udpPseudoSum_le (buf : Buf) : udpPseudoSum buf ≤ 2 ^ 19 := by
  have hle := halfSum_slice_le buf 26 8
  have h₀ := (buf 38).toNat_lt
  have h₁ := (buf (38 + 1)).toNat_lt
  unfold udpPseudoSum halfAt
  omega

theorem udpEcho_stored_lt (hw : Bool) (buf : Buf) (n : Nat) :
    (if hw then udpPseudoCsum buf else nonzeroCsum (udpChecksum buf n)) < 65536 := by
  have h₁ : udpPseudoCsum buf < 65536 := inetChecksum_lt _
  have h₂ : udpChecksum buf n < 65536 := inetChecksum_lt _
  unfold nonzeroCsum
  split
  · exact h₁
  · split <;> omega

theorem udpEcho_field (hw : Bool) (buf : Buf) {n v : Nat} {zeroed : Buf} (hmin : 8 ≤ n)
    (hz : zeroed = memWrite (echoSwapped buf) 40 (halfBytes 0))
    (hv : v = if hw then udpPseudoCsum zeroed else nonzeroCsum (udpChecksum zeroed n)) :
    halfAt (udpEcho hw buf n) 40 = v ∧
      halfSum (slice (udpEcho hw buf n) 34 n) = halfSum (slice zeroed 34 n) + v := by
  have hlt : v < 65536 := hv ▸ udpEcho_stored_lt hw zeroed n
  have hecho : udpEcho hw buf n = putIpChecksum (memWrite zeroed 40 (halfBytes v)) := by
    rw [hv, hz, udpEcho, putUdpChecksum]
  -- the IP checksum stands elsewhere
  have hip : ∀ a k, 26 ≤ a →
      slice (udpEcho hw buf n) a k = slice (memWrite zeroed 40 (halfBytes v)) a k := by
    intro a k ha
    rw [hecho]
    exact putIpChecksum_keeps (.inr ha)
  refine ⟨?_, ?_⟩
  · rw [halfAt_of_slice (hip 40 2 (by decide))]
    exact halfAt_memWrite zeroed 40 hlt
  · obtain ⟨k, rfl⟩ := Nat.exists_eq_add_of_le hmin
    rw [hip 34 (8 + k) (by decide), hz]
    exact halfSum_field_put (echoSwapped buf) 6 k hlt rfl

/-- The sum of a datagram of `n` bytes, without its checksum: ports, length and data. -/
def udpDatagramSum (buf : Buf) (n : Nat) : Nat :=
  halfSum (slice buf 34 6) + halfSum (slice buf 42 (n - 8))

theorem halfSum_echoZeroed (buf : Buf) {n : Nat} (hmin : 8 ≤ n) :
    halfSum (slice (memWrite (echoSwapped buf) 40 (halfBytes 0)) 34 n) = udpDatagramSum buf n := by
  obtain ⟨k, rfl⟩ := Nat.exists_eq_add_of_le hmin
  have hsport : slice (echoSwapped buf) 34 2 = slice buf 36 2 := slice_stored rfl
  have hdport : slice (echoSwapped buf) 36 2 = slice buf 34 2 := slice_stored rfl
  have hlen : slice (echoSwapped buf) 38 2 = slice buf 38 2 := slice_unstored rfl
  have hdata : slice (echoSwapped buf) 42 k = slice buf 42 k := by
    refine slice_memWrites_outside fun w hw => .inr ?_
    simp only [List.mem_cons, List.not_mem_nil, or_false] at hw
    rcases hw with rfl | rfl | rfl | rfl | rfl | rfl | rfl <;> simp
  have hswapped : halfSum (slice (echoSwapped buf) 34 6) = halfSum (slice buf 34 6) := by
    rw [show (6 : Nat) = 2 + 2 + 2 from rfl, slice_add, slice_add, slice_add, slice_add,
      halfSum_append _ (by simp), halfSum_append _ (by simp), halfSum_append _ (by simp),
      halfSum_append _ (by simp), hsport, hdport, hlen, Nat.add_comm (halfSum (slice buf 36 2))]
  have hzeroed : slice (memWrite (echoSwapped buf) 40 (halfBytes 0)) 34 (8 + k)
      = slice (echoSwapped buf) 34 6 ++ halfBytes 0 ++ slice (echoSwapped buf) 42 k :=
    slice_memWrite_inside (echoSwapped buf) 34 6 k (halfBytes 0)
  rw [hzeroed, hdata, halfSum_append _ (by simp [halfBytes]), halfSum_append _ (by simp), hswapped,
    udpDatagramSum, Nat.add_sub_cancel_left]
  rfl

theorem udpEcho_isIp {buf : Buf} (hip : IsIp 17 buf) (hw : Bool) (n : Nat) :
    IsIp 17 (udpEcho hw buf n) := by
  refine IsIp.putIpChecksum (IsIp.congr hip ?_ ?_)
  · unfold putUdpChecksum
    dsimp only
    rw [slice_memWrite_outside (.inl (by decide)), slice_memWrite_outside (.inl (by decide))]
    exact slice_unstored rfl
  · unfold putUdpChecksum
    dsimp only
    rw [slice_memWrite_outside (.inl (by decide)), slice_memWrite_outside (.inl (by decide))]
    exact slice_unstored rfl

/-- **The echo reply**: what is stored goes out, and it is the checksum of the pseudo-header alone. -/
theorem udpEcho_wire_iff {buf : Buf} (hip : IsIp 17 buf) {n : Nat} (hmin : 8 ≤ n)
    (hmax : n < 65536) :
    WireAgrees 40 (udpEcho true buf n, n + 34) (udpEcho false buf n, n + 34) ↔
      udpDatagramSum buf n % 65535 = 0 := by
  obtain ⟨zeroed, hz⟩ : ∃ zeroed,
      zeroed = memWrite (echoSwapped buf) 40 (halfBytes 0) := ⟨_, rfl⟩
  obtain ⟨hseed, _⟩ := udpEcho_field true buf (v := udpPseudoCsum zeroed) hmin hz (if_pos rfl).symm
  obtain ⟨hfull, _⟩ :=
    udpEcho_field false buf (v := nonzeroCsum (udpChecksum zeroed n)) hmin hz
      (if_neg Bool.false_ne_true).symm
  have hle := udpPseudoSum_le zeroed
  have hseg := @halfSum_segment_le zeroed n (by unfold segmentMax; omega)
  have hsum : halfSum (slice zeroed 34 n) = udpDatagramSum buf n := by
    rw [hz]
    exact halfSum_echoZeroed buf hmin
  have hmore := @sameOnes_more (udpPseudoSum zeroed) (halfSum (slice zeroed 34 n)) (by omega)
  rw [wireAgrees_udp (udpEcho_isIp hip true n), hseed, hfull, sameOnes_nonzero, udpPseudoCsum,
    udpChecksum, hmore, hsum]
  exact and_iff_right rfl

/-! ## Every frame that leaves with a seed -/

/-- The builders of `WsPi5.Tcp.Wire` with the flag as it is set. -/
def Builder.transmit (hw : Bool) (env : Env) (now : Tick) (buf : Buf) :
    Builder → Option (Buf × Nat)
  | .reply seq ack flags window conn =>
      some (tcpBuildReply hw now seq ack flags window conn buf)
  | .frame c flags payload => some (tcpBuildFrame hw env now c flags payload buf)
  | .sndbuf c => tcpSndbufBuildFrame hw env now c buf
  | .sndbufAt c off => tcpSndbufBuildFrameAt hw env now c off buf
  | .saved c flags frameBuf rtxbuf => some (savedFrame hw env now c flags frameBuf rtxbuf buf)
  | .probe c => if probing env c then some (persistProbe hw env now c buf) else none

/-- What the stack transmits through `tcp_checksum` or its sibling, and through `udp_checksum` or
its sibling. -/
inductive TxFrame where
  | tcp (b : Builder)
  | echo (request : Buf) (len : Nat)

def TxFrame.send (hw : Bool) (env : Env) (now : Tick) (buf : Buf) : TxFrame → Option (Buf × Nat)
  | .tcp b => b.transmit hw env now buf
  | .echo request len => udpHandle hw request len

def TxFrame.field : TxFrame → Nat
  | .tcp _ => 50
  | .echo _ _ => 40

/-- What the callers see to: `tcp_send` passes at most one segment to `tcp_build_frame`, its other
callers nothing; a reply is built in the buffer of a TCP segment, an echo reply in that of a UDP
datagram. -/
def TxFrame.asCalled (buf : Buf) : TxFrame → Prop
  | .tcp (.frame c _ payload) => payload.length ≤ c.peerMss.toNat
  | .tcp (.reply ..) => IsIp 6 buf
  | .tcp _ => True
  | .echo request _ => IsIp 17 request

/-- Both ways to the wire agree, or nothing is sent either way. -/
def SentAgree (field : Nat) : Option (Buf × Nat) → Option (Buf × Nat) → Prop
  | some seeded, some full => WireAgrees field seeded full
  | none, none => True
  | _, _ => False

def TxFrame.Agrees (env : Env) (now : Tick) (buf : Buf) (x : TxFrame) : Prop :=
  SentAgree x.field (x.send true env now buf) (x.send false env now buf)

def TxFrame.seedServes (env : Env) (now : Tick) (buf : Buf) : TxFrame → Prop
  | .tcp (.probe c) => probing env c → probeCancels env now c buf
  | .tcp _ => True
  | .echo request len => udpAccepts request len = true → readHalf request 36 = 7 →
      udpDatagramSum request (len - 34) % 65535 = 0

theorem sentAgree_guard {field : Nat} {p : Prop} [Decidable p] {seeded full : Buf × Nat} :
    SentAgree field (if p then some seeded else none) (if p then some full else none) ↔
      (p → WireAgrees field seeded full) := by
  by_cases hp : p
  · rw [if_pos hp, if_pos hp]
    exact ⟨fun h _ => h, fun h => h hp⟩
  · rw [if_neg hp, if_neg hp]
    exact iff_of_true trivial fun h => absurd h hp

theorem sentAgree_unless {field : Nat} {p : Prop} [Decidable p] {seeded full : Buf × Nat}
    (h : WireAgrees field seeded full) :
    SentAgree field (if p then none else some seeded) (if p then none else some full) := by
  by_cases hp : p
  · rw [if_pos hp, if_pos hp]
    trivial
  · rw [if_neg hp, if_neg hp]
    exact h

theorem tcpBuildFrame_wire {env : Env} {now : Tick} {c : Conn} {flags : BitVec 8}
    {payload : List Byte} {buf : Buf} (h : payload.length ≤ 65535) :
    WireAgrees 50 (tcpBuildFrame true env now c flags payload buf)
      (tcpBuildFrame false env now c flags payload buf) := by
  refine (wireAgrees_tcp ?_ (tcpBuildFrame_isIp true)).mpr (tcpBuildFrame_offload h)
  show 24 ≤ payload.length + 54 + optOverhead c flags
  omega

theorem ringRead_wire {env : Env} {now : Tick} {c c' : Conn} {off : Nat} {avail : W}
    {buf : Buf} :
    WireAgrees 50
      (tcpBuildFrame true env now c' tcpPshAck
        (c.ringRead off (if avail < c.mss then avail else c.mss).toNat) buf)
      (tcpBuildFrame false env now c' tcpPshAck
        (c.ringRead off (if avail < c.mss then avail else c.mss).toNat) buf) := by
  have hmss := c.peerMss.isLt
  refine tcpBuildFrame_wire ?_
  rw [Conn.ringRead, List.length_map, List.length_range, segment_toNat]
  omega

theorem udpAccepts_len {buf : Buf} {len : Nat} (h : udpAccepts buf len = true) :
    8 ≤ len - 34 ∧ len - 34 < 65536 := by
  simp only [udpAccepts, Bool.and_eq_true, decide_eq_true_eq] at h
  obtain ⟨⟨hmin, hlen⟩, _⟩ := h
  have h₀ := (buf 38).toNat_lt
  have h₁ := (buf (38 + 1)).toNat_lt
  rw [readHalf] at hlen
  omega

theorem echo_wire_iff {request : Buf} {len : Nat} (hip : IsIp 17 request)
    (hacc : udpAccepts request len = true) :
    WireAgrees 40 (udpEcho true request (len - 34), len) (udpEcho false request (len - 34), len) ↔
      udpDatagramSum request (len - 34) % 65535 = 0 := by
  obtain ⟨hmin, hmax⟩ := udpAccepts_len hacc
  have hiff := udpEcho_wire_iff hip hmin hmax
  rw [Nat.sub_add_cancel (by omega)] at hiff
  exact hiff

theorem echo_agrees_iff {env : Env} {now : Tick} {buf request : Buf} {len : Nat}
    (hip : IsIp 17 request) (hacc : udpAccepts request len = true)
    (hport : readHalf request 36 = 7) :
    TxFrame.Agrees env now buf (.echo request len) ↔
      udpDatagramSum request (len - 34) % 65535 = 0 := by
  refine Iff.trans sentAgree_guard (Iff.trans ?_ (echo_wire_iff hip hacc))
  exact ⟨fun h => h ⟨hacc, hport⟩, fun h _ => h⟩

/-- **Checksum offload.**  For every frame: the wire with the seed has the checksum that software
computes if and only if the seed serves. -/
theorem offload_agrees_iff (env : Env) (now : Tick) (buf : Buf) {x : TxFrame}
    (hx : x.asCalled buf) : x.Agrees env now buf ↔ x.seedServes env now buf := by
  cases x with
  | tcp b =>
      cases b with
      | reply seq ack flags window conn =>
          have hip : IsIp 6 buf := hx
          refine iff_of_true ((wireAgrees_tcp ?_ (tcpBuildReply_isIp hip true _ _ _ _)).mpr
            tcpBuildReply_offload) trivial
          unfold tcpBuildReply
          dsimp only
          cases replyTs conn with
          | some c => exact (by decide : 24 ≤ 66)
          | none => exact (by decide : 24 ≤ 54)
      | frame c flags payload =>
          have hmss := c.peerMss.isLt
          have hlen : payload.length ≤ c.peerMss.toNat := hx
          exact iff_of_true (tcpBuildFrame_wire (by omega)) trivial
      | sndbuf c => exact iff_of_true (sentAgree_unless ringRead_wire) trivial
      | sndbufAt c off => exact iff_of_true (sentAgree_unless ringRead_wire) trivial
      | saved c flags frameBuf rtxbuf =>
          refine iff_of_true ((wireAgrees_tcp ?_ (savedFrame_isIp true)).mpr savedFrame_offload)
            trivial
          show 24 ≤ 0 + 54 + optOverhead c flags
          omega
      | probe c =>
          refine sentAgree_guard.trans (forall_congr' fun _ => ?_)
          refine (wireAgrees_tcp ?_ (persistProbe_isIp true)).trans persistProbe_offload_iff
          show 24 ≤ 0 + 54 + optOverhead c tcpAckFlag
          omega
  | echo request len =>
      have hip : IsIp 17 request := hx
      refine sentAgree_guard.trans (and_imp.trans ?_)
      refine forall_congr' fun hacc => forall_congr' fun _ => ?_
      exact echo_wire_iff hip hacc

/-- A segment of one byte. -/
theorem offload_agrees_demo : TxFrame.Agrees demoEnv 0 (fun _ => 0)
    (.tcp (.frame stalledConn tcpPshAck [65])) :=
  (offload_agrees_iff demoEnv 0 (fun _ => 0) (x := .tcp (.frame stalledConn tcpPshAck [65]))
    (by decide : ([65] : List Byte).length ≤ stalledConn.peerMss.toNat)).mpr trivial

/-- Us: 10.0.0.2, with the flag set. -/
def demoOffloadVars : NetVars :=
  { ourMac := 0x020000000002, ourIp := 0x0200000A, gwIp := 0x0100000A, hwCsumTx := true }

/-- A UDP datagram without data from 10.0.0.5, port 50000, to our echo port. -/
def demoEchoRequest : Buf :=
  putIpChecksum (memWrites (fun _ => 0)
    [(0, macBytes 0x020000000002), (6, macBytes 0x020000000005), (12, beHalf 0x0800),
     (14, [0x45, 0]), (16, beHalf 28), (20, halfBytes 0x0040), (22, [64, 17]),
     (26, wordBytes 0x0500000A), (30, wordBytes 0x0200000A), (34, beHalf 50000), (36, beHalf 7),
     (38, beHalf 8)])

theorem demoEchoRequest_isIp : IsIp 17 demoEchoRequest := ⟨by decide +kernel, by decide +kernel⟩

theorem netRecvOne_echo {κ : Type} {env : ReasmEnv κ} {now : Tick} {v : NetVars} {buf : Buf}
    {len : Nat} {r : Reasm κ} (htype : netType v buf len = some 0x0800)
    (haccepts : ipAccepts v buf len = true) (hwhole : isFragment buf = false)
    (hproto : buf 23 = 17) (hlen : readHalf buf 16 + 14 = len)
    (hport : udpTarget buf len = some .echo) :
    netRecvOne env now v buf len r
      = (v, r, .answered (udpEcho v.hwCsumTx buf (len - 34), len)) := by
  have hudp : udpReceive v.hwCsumTx buf len = .answered (udpEcho v.hwCsumTx buf (len - 34), len) := by
    unfold udpReceive
    rw [hport]
  have hip : ipHandle env now v buf len r
      = (r, .answered (udpEcho v.hwCsumTx buf (len - 34), len)) := by
    unfold ipHandle
    rw [if_pos haccepts, if_neg (by simp [hwhole]), ipDispatch_udp hproto hlen, hudp]
  unfold netRecvOne
  rw [htype, hip]
  rfl

/-- **The echo reply goes out with the complement of the pseudo-header's sum.**  The request is
answered and the driver asks for no insertion; with one, the wire would be wrong as well. -/
theorem echo_seed_disagrees :
    netRecvOne demoReasm 0 demoOffloadVars demoEchoRequest 42
        (ipReasmInit (timerPoolInit RIndex 16)) =
      (demoOffloadVars, ipReasmInit (timerPoolInit RIndex 16),
        .answered (udpEcho true demoEchoRequest 8, 42)) ∧
    txCsumField (udpEcho true demoEchoRequest 8) 42 = none ∧
    ¬ TxFrame.Agrees demoEnv 0 (fun _ => 0) (.echo demoEchoRequest 42) ∧
    ¬ OffloadAgrees 40 (udpEcho true demoEchoRequest 8, 42)
        (udpEcho false demoEchoRequest 8, 42) := by
  have hreceived := @netRecvOne_echo _ demoReasm 0 demoOffloadVars demoEchoRequest 42
    (ipReasmInit (timerPoolInit RIndex 16))
    (by decide +kernel) (by decide +kernel) (by decide +kernel) (by decide +kernel)
    (by decide +kernel) (by decide +kernel)
  refine ⟨hreceived, by decide +kernel, fun h => ?_, fun h => ?_⟩
  · have hacc : udpAccepts demoEchoRequest 42 = true ∧ readHalf demoEchoRequest 36 = 7 := by
      decide +kernel
    have hsum : ¬ udpDatagramSum demoEchoRequest 8 % 65535 = 0 := by decide +kernel
    exact hsum ((echo_agrees_iff demoEchoRequest_isIp hacc.1 hacc.2).mp h)
  · have hdiffer : ¬ sameOnes (halfAt (hwInsert 40 8 (udpEcho true demoEchoRequest 8)) 40)
        (halfAt (udpEcho false demoEchoRequest 8) 40) := by
      unfold sameOnes
      decide +kernel
    exact hdiffer h.2

end Wire

end WsPi5
