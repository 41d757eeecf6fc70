/-
# `WsPi5.Tcp.Wire` — the bytes of the frames that `lib/tcp.S` builds

Elsewhere a frame is a record.  Here it is what a builder leaves in the frame buffer: bytes at
offsets, two checksums and the length that is returned.  The builders are `tcp_build_reply`, which
patches a received frame in place, `tcp_build_frame`, and what is made of it: the retransmissions
out of the send ring, those out of the saved copy, and the window probe of `tcp_persist_cb`.

**Proved here** (`frames_verify_iff`), with checksums in software: for each builder, whatever the
connection, the flags, the payload and the contents of the buffers, exactly when the frame
verifies, that is (`Verifies`): IP total length is the number of bytes after the Ethernet header,
the IP header checksum is right, and `tcp_checksum` of the segment that the total length gives is 0.

* A reply and a saved frame always verify.
* A frame with payload verifies exactly when its total length fits into the sixteen bits that the
  field has.
* The probe is patched after it was built, and `tcp_persist_cb` computes the checksum again, with
  the length of the *frame* where `tcp_checksum` takes that of the segment.  It covers 34 bytes of
  the transmit buffer behind the frame and counts 34 in the pseudo-header.  The probe verifies
  exactly when these happen to cancel (`probe_verifies_iff`).

**Why the rest is simple.**  That a checksum verifies has nothing to do with what is summed
(`putIpChecksum_verifies`, `putTcpChecksum_verifies`); the lengths have to agree, and what is
stored afterwards has to stand elsewhere.

Addresses and ports are stored as they were loaded; the other fields are in host order and stored
with `rev`.
-/
import WsPi5.Tcp.FrameSize
import WsPi5.Ip.Reasm

namespace WsPi5

open Lib

namespace Wire

abbrev Buf := Nat → Byte

/-! ## Stores -/

/-- `str` and `strh` of a MAC address. -/
def macBytes (mac : BitVec 48) : List Byte :=
  wordBytes (mac.setWidth 32) ++ halfBytes (mac.toNat / 2 ^ 32)

/-- `rev16; uxth; strh`. -/
def beHalf (n : Nat) : List Byte := [UInt8.ofNat (n / 256), UInt8.ofNat n]

/-- `ldrh; rev16`. -/
def readHalf (buf : Buf) (off : Nat) : Nat := (buf off).toNat * 256 + (buf (off + 1)).toNat

theorem readHalf_of_slice {buf : Buf} {off n : Nat} (h : slice buf off 2 = beHalf n) :
    readHalf buf off = n % 65536 := by
  have h₀ : buf off = UInt8.ofNat (n / 256) := (List.cons.inj h).1
  have h₁ : buf (off + 1) = UInt8.ofNat n := (List.cons.inj (List.cons.inj h).2).1
  rw [readHalf, h₀, h₁, UInt8.toNat_ofNat', UInt8.toNat_ofNat']
  omega

/-! ## Checksums -/

/-- The pseudo-header: addresses, protocol (`TCP_PROTO_LE`) and length. -/
def pseudoSum (buf : Buf) (n : Nat) : Nat :=
  halfSum (slice buf 26 8) + 0x0600 + (n % 256 * 256 + n / 256 % 256)

/-- `tcp_checksum` of a segment of `n` bytes. -/
def tcpChecksum (buf : Buf) (n : Nat) : Nat :=
  inetChecksum (pseudoSum buf n + halfSum (slice buf 34 n))

/-- `tcp_pseudo_csum`: folded, not complemented. -/
def tcpPseudoCsum (buf : Buf) (n : Nat) : Nat := 65535 - inetChecksum (pseudoSum buf n)

/-- Zero the IP checksum field, then fill it in. -/
def putIpChecksum (buf : Buf) : Buf :=
  let zeroed := memWrite buf 24 (halfBytes 0)
  memWrite zeroed 24 (halfBytes (ipChecksum (slice zeroed 14 20)))

/-- The same for TCP and a segment of `n` bytes; `hw` is `net_hw_csum_tx`. -/
def putTcpChecksum (hw : Bool) (buf : Buf) (n : Nat) : Buf :=
  let zeroed := memWrite buf 50 (halfBytes 0)
  memWrite zeroed 50 (halfBytes (if hw then tcpPseudoCsum zeroed n else tcpChecksum zeroed n))

/-! ## `tcp_build_reply` -/

/-- "Decide timestamps". -/
def replyTs (conn : Option Conn) : Option Conn := conn.filter Conn.tsEnabled

/-- `tcp_build_reply`: the buffer and the length returned. -/
def tcpBuildReply (hw : Bool) (now : Tick) (seq ack : W) (flags : BitVec 8) (window : BitVec 16)
    (conn : Option Conn) (buf : Buf) : Buf × Nat :=
  let swapped := memWrites buf
    [(0, slice buf 6 6), (6, slice buf 0 6),
     (18, halfBytes 0), (20, halfBytes 0x0040), (22, [64]),
     (26, slice buf 30 4), (30, slice buf 26 4),
     (34, slice buf 36 2), (36, slice buf 34 2), (38, beBytes seq), (42, beBytes ack),
     (47, [UInt8.ofNat flags.toNat]), (48, beHalf window.toNat), (52, halfBytes 0)]
  match replyTs conn with
  | some c =>
      let filled := memWrites swapped
        [(46, [0x80]), (16, beHalf 52), (54, tsOption now c.tsRecent)]
      (putTcpChecksum hw (putIpChecksum filled) 32, 66)
  | none =>
      let filled := memWrites swapped [(46, [0x50]), (16, beHalf 40)]
      (putTcpChecksum hw (putIpChecksum filled) 20, 54)

/-! ## `tcp_build_frame` -/

/-- `w26`: the size of the SYN options. -/
def synOverhead (c : Conn) (flags : BitVec 8) : Nat :=
  if flags &&& tcpSyn != 0 then if c.sackEnabled then 12 else 8 else 0

/-- `w25 + w26`. -/
def optOverhead (c : Conn) (flags : BitVec 8) : Nat :=
  tsOverhead c.tsEnabled + synOverhead c flags

def tcpBuildFrame (hw : Bool) (env : Env) (now : Tick) (c : Conn) (flags : BitVec 8)
    (payload : List Byte) (buf : Buf) : Buf × Nat :=
  let f := WsPi5.tcpBuildFrame env now c c.sndNxt flags payload
  let opts := optOverhead c flags
  let ip := memWrites buf
    [(0, macBytes f.ethDst), (6, macBytes f.ethSrc), (12, beHalf 0x0800),
     (14, [0x45, 0]), (16, beHalf (payload.length + 40 + opts)), (18, halfBytes 0),
     (20, halfBytes 0x0040), (22, [64, 6]), (26, wordBytes f.ipSrc), (30, wordBytes f.ipDst)]
  let tcp := memWrites (putIpChecksum ip)
    [(34, halfBytes f.sport.toNat), (36, halfBytes f.dport.toNat), (38, beBytes f.seq),
     (42, beBytes f.ack), (46, [UInt8.ofNat ((opts / 4 + 5) * 16), UInt8.ofNat flags.toNat]),
     (48, beHalf f.window.toNat), (52, halfBytes 0), (54, f.opts), (54 + opts, payload)]
  (putTcpChecksum hw tcp (payload.length + 20 + opts), payload.length + 54 + opts)

/-! ## What is made of it -/

/-- `tcp_sndbuf_build_frame_at`, with `SND_NXT` overridden during the call. -/
def tcpSndbufBuildFrameAt (hw : Bool) (env : Env) (now : Tick) (c : Conn) (off : W) (buf : Buf) :
    Option (Buf × Nat) :=
  if c.inFlight ≤ off then none
  else
    let avail := c.inFlight - off
    let n := if avail < c.mss then avail else c.mss
    some (tcpBuildFrame hw env now { c with sndNxt := c.sndUna + off } tcpPshAck
      (c.ringRead off.toNat n.toNat) buf)

def tcpSndbufBuildFrame (hw : Bool) (env : Env) (now : Tick) (c : Conn) (buf : Buf) :
    Option (Buf × Nat) :=
  if c.inFlight = 0 then none
  else
    let n := if c.inFlight < c.mss then c.inFlight else c.mss
    some (tcpBuildFrame hw env now { c with sndNxt := c.sndUna } tcpPshAck
      (c.ringRead 0 n.toNat) buf)

/-- `.Lrtxs_copy` and `.Lrtxcb_rtxcopy`: a frame copied to the front of a buffer. -/
def copyFrame (sent : Buf × Nat) (buf : Buf) : Buf := memWrite buf 0 (slice sent.1 0 sent.2)

/-- A SYN-ACK or FIN built in one buffer, saved by `tcp_rtx_save` and sent again. -/
def savedFrame (hw : Bool) (env : Env) (now : Tick) (c : Conn) (flags : BitVec 8)
    (buf rtxbuf txbuf : Buf) : Buf × Nat :=
  let sent := tcpBuildFrame hw env now c flags [] buf
  (copyFrame (copyFrame sent rtxbuf, sent.2) txbuf, sent.2)

/-- The frame of `tcp_persist_cb`.  The second argument of its `tcp_checksum` is `w22`, the length
of the frame, and the hardware flag is not looked at. -/
def persistProbe (hw : Bool) (env : Env) (now : Tick) (c : Conn) (buf : Buf) : Buf × Nat :=
  let sent := tcpBuildFrame hw env now c tcpAckFlag [] buf
  (putTcpChecksum false (memWrite sent.1 38 (beBytes (c.sndNxt - 1))) sent.2, sent.2)

/-- `tcp_persist_cb` sends one in ESTABLISHED with a zero window, if there is a send function. -/
def probing (env : Env) (c : Conn) : Prop :=
  c.state = .established ∧ c.sndWnd = 0 ∧ env.hasSendFn = true

instance (env : Env) (c : Conn) : Decidable (probing env c) :=
  inferInstanceAs (Decidable (_ ∧ _))

/-! ## A checksum verifies, whatever is summed -/

theorem halfBytes_length (n : Nat) : (halfBytes n).length = 2 := rfl

theorem halfSum_slice_le (buf : Buf) (a n : Nat) :
    halfSum (slice buf a n) ≤ 65535 * ((n + 1) / 2) := by
  have hle := halfSum_le (slice buf a n)
  rw [slice_length] at hle
  exact hle

theorem slice_field (buf : Buf) (a m n v w : Nat) :
    slice (memWrite (memWrite buf (a + m) (halfBytes v)) (a + m) (halfBytes w)) a (m + 2 + n)
      = slice buf a m ++ halfBytes w ++ slice buf (a + m + 2) n := by
  have hbefore : slice (memWrite buf (a + m) (halfBytes v)) a m = slice buf a m :=
    slice_memWrite_outside (.inl (Nat.le_refl _))
  have hafter : slice (memWrite buf (a + m) (halfBytes v)) (a + m + 2) n
      = slice buf (a + m + 2) n :=
    slice_memWrite_outside (.inr (Nat.le_refl _))
  rw [← hbefore, ← hafter]
  exact slice_memWrite_inside _ a m n (halfBytes w)

theorem putIpChecksum_keeps {buf : Buf} {a n : Nat} (h : a + n ≤ 24 ∨ 26 ≤ a) :
    slice (putIpChecksum buf) a n = slice buf a n := by
  unfold putIpChecksum
  dsimp only
  rw [slice_memWrite_outside h, slice_memWrite_outside h]

theorem putTcpChecksum_keeps {hw : Bool} {buf : Buf} {m a n : Nat} (h : a + n ≤ 50 ∨ 52 ≤ a) :
    slice (putTcpChecksum hw buf m) a n = slice buf a n := by
  unfold putTcpChecksum
  dsimp only
  rw [slice_memWrite_outside h, slice_memWrite_outside h]

theorem putIpChecksum_verifies (buf : Buf) : ipChecksum (slice (putIpChecksum buf) 14 20) = 0 := by
  have hzero : slice (memWrite buf 24 (halfBytes 0)) 14 20
      = slice buf 14 10 ++ halfBytes 0 ++ slice buf 26 8 :=
    slice_memWrite_inside buf 14 10 8 (halfBytes 0)
  have hsum : halfSum (slice buf 14 10 ++ halfBytes 0 ++ slice buf 26 8) ≤ 65535 * 10 := by
    rw [← hzero]
    exact halfSum_slice_le _ 14 20
  have hfield : slice (putIpChecksum buf) 14 20 = slice buf 14 10
      ++ halfBytes (ipChecksum (slice buf 14 10 ++ halfBytes 0 ++ slice buf 26 8))
      ++ slice buf 26 8 := by
    rw [← hzero]
    exact slice_field buf 14 10 8 0 _
  have hver := @checksum_verifies 0 (slice buf 14 10) (slice buf 26 8) (by simp) (by omega)
  simp only [Nat.zero_add] at hver
  rw [hfield]
  exact hver

/-- What `tcp_checksum` sees of a segment whose checksum was computed with the length `m`. -/
theorem tcpChecksum_put (buf : Buf) (m n : Nat) :
    let zeroed := memWrite buf 50 (halfBytes 0)
    tcpChecksum (putTcpChecksum false buf m) (18 + n)
      = inetChecksum (pseudoSum zeroed (18 + n) + halfSum (slice zeroed 34 (18 + n))
          + tcpChecksum zeroed m) := by
  intro zeroed
  have hzero : slice zeroed 34 (18 + n) = slice buf 34 16 ++ halfBytes 0 ++ slice buf 52 n :=
    slice_memWrite_inside buf 34 16 n (halfBytes 0)
  have hput : slice (putTcpChecksum false buf m) 34 (18 + n)
      = slice buf 34 16 ++ halfBytes (tcpChecksum zeroed m) ++ slice buf 52 n :=
    slice_field buf 34 16 n 0 _
  have hpseudo : pseudoSum (putTcpChecksum false buf m) (18 + n) = pseudoSum zeroed (18 + n) := by
    have haddr : slice (putTcpChecksum false buf m) 26 8 = slice zeroed 26 8 :=
      slice_memWrite_outside (.inl (by decide))
    unfold pseudoSum
    rw [haddr]
  have hlt : tcpChecksum zeroed m < 65536 := inetChecksum_lt _
  have hfront : (slice buf 34 16).length % 2 = 0 := by simp
  have hsum := halfSum_field hlt (slice buf 52 n) hfront
  unfold tcpChecksum at hsum ⊢
  rw [hpseudo, hzero]
  congr 1
  rw [Nat.add_assoc, ← hsum]
  congr 1
  exact congrArg halfSum hput

theorem pseudoSum_le (buf : Buf) (n : Nat) : pseudoSum buf n ≤ 2 ^ 19 := by
  have hle := halfSum_slice_le buf 26 8
  unfold pseudoSum
  omega

theorem putTcpChecksum_verifies (buf : Buf) {n : Nat} (hmin : 18 ≤ n) (hmax : n < 65536) :
    tcpChecksum (putTcpChecksum false buf n) n = 0 := by
  obtain ⟨k, rfl⟩ := Nat.exists_eq_add_of_le hmin
  have hpseudo := pseudoSum_le (memWrite buf 50 (halfBytes 0)) (18 + k)
  have hsum := halfSum_slice_le (memWrite buf 50 (halfBytes 0)) 34 (18 + k)
  rw [tcpChecksum_put]
  exact inetChecksum_verifies (by omega)

/-- **The length of the frame for that of the segment**: 34 bytes too many, and 34 too many in the
pseudo-header. -/
theorem putTcpChecksum_overlong (buf : Buf) {n : Nat} (hmin : 18 ≤ n) (hmax : n + 34 < 256)
    (heven : n % 2 = 0) :
    tcpChecksum (putTcpChecksum false buf (n + 34)) n = 0 ↔
      (34 * 256 + halfSum (slice buf (34 + n) 34)) % 65535 = 0 := by
  obtain ⟨k, rfl⟩ := Nat.exists_eq_add_of_le hmin
  rw [tcpChecksum_put]
  have hbehind : slice (memWrite buf 50 (halfBytes 0)) (34 + (18 + k)) 34
      = slice buf (34 + (18 + k)) 34 :=
    slice_memWrite_outside (.inr (by rw [halfBytes_length]; omega))
  have hsplit : halfSum (slice (memWrite buf 50 (halfBytes 0)) 34 (18 + k + 34))
      = halfSum (slice (memWrite buf 50 (halfBytes 0)) 34 (18 + k))
        + halfSum (slice buf (34 + (18 + k)) 34) := by
    rw [slice_add, halfSum_append _ (by rw [slice_length]; exact heven), hbehind]
  have hlen : pseudoSum (memWrite buf 50 (halfBytes 0)) (18 + k + 34)
      = pseudoSum (memWrite buf 50 (halfBytes 0)) (18 + k) + 34 * 256 := by
    unfold pseudoSum
    omega
  have hpos : 0 < pseudoSum (memWrite buf 50 (halfBytes 0)) (18 + k) := by
    unfold pseudoSum
    omega
  have hpseudo := pseudoSum_le (memWrite buf 50 (halfBytes 0)) (18 + k)
  have hseg := halfSum_slice_le (memWrite buf 50 (halfBytes 0)) 34 (18 + k)
  have hstale := halfSum_slice_le buf (34 + (18 + k)) 34
  unfold tcpChecksum
  rw [hsplit, hlen]
  generalize pseudoSum (memWrite buf 50 (halfBytes 0)) (18 + k) = pre at *
  generalize halfSum (slice (memWrite buf 50 (halfBytes 0)) 34 (18 + k)) = seg at *
  generalize halfSum (slice buf (34 + (18 + k)) 34) = stale at *
  -- the stored checksum makes the longer sum a multiple of 65535
  obtain ⟨m, _, hm⟩ := inetChecksum_complements (s := pre + 34 * 256 + (seg + stale)) (by omega)
  have hlt := inetChecksum_lt (pre + 34 * 256 + (seg + stale))
  rw [inetChecksum_eq_zero_iff (by omega) (by omega)]
  omega

/-! ## Frames that verify -/

/-- A receiver takes the frame: lengths and checksums agree. -/
structure Verifies (sent : Buf × Nat) : Prop where
  totlen : readHalf sent.1 16 = sent.2 - 14
  ip : ipChecksum (slice sent.1 14 20) = 0
  tcp : tcpChecksum sent.1 (readHalf sent.1 16 - 20) = 0

theorem Verifies.congr {sent sent' : Buf × Nat} (h : Verifies sent) (hlen : sent'.2 = sent.2)
    (hmin : 54 ≤ sent.2) (hsame : ∀ k < sent.2, sent'.1 k = sent.1 k) : Verifies sent' := by
  have hslice : ∀ a n, a + n ≤ sent.2 → slice sent'.1 a n = slice sent.1 a n := by
    intro a n hn
    exact slice_congr fun k hk => hsame (a + k) (by omega)
  have hread : readHalf sent'.1 16 = readHalf sent.1 16 := by
    rw [readHalf, readHalf, hsame 16 (by omega), hsame (16 + 1) (by omega)]
  refine ⟨?_, ?_, ?_⟩
  · rw [hread, hlen]
    exact h.totlen
  · rw [hslice 14 20 (by omega)]
    exact h.ip
  · have htot := h.totlen
    have htcp := h.tcp
    unfold tcpChecksum pseudoSum at htcp ⊢
    rw [hread, hslice 26 8 (by omega), hslice 34 _ (by omega)]
    exact htcp

/-- From an IP header with its checksum to the frame: the TCP part is stored behind it. -/
theorem verifies_put {ip : Buf} {ws : List (Nat × List Byte)} {tot n : Nat}
    (hws : ∀ w ∈ ws, 34 ≤ w.1) (htot : slice ip 16 2 = beHalf tot) (hn : tot = n + 20)
    (hmin : 18 ≤ n) :
    Verifies (putTcpChecksum false (memWrites (putIpChecksum ip) ws) n, tot + 14) ↔
      tot < 65536 := by
  have hkeep : ∀ a k, a + k ≤ 34 →
      slice (putTcpChecksum false (memWrites (putIpChecksum ip) ws) n) a k
        = slice (putIpChecksum ip) a k := by
    intro a k hak
    rw [putTcpChecksum_keeps (.inl (by omega))]
    exact slice_memWrites_outside fun w hw => .inl (Nat.le_trans hak (hws w hw))
  have hread : readHalf (putTcpChecksum false (memWrites (putIpChecksum ip) ws) n) 16
      = tot % 65536 := by
    apply readHalf_of_slice
    rw [hkeep 16 2 (by decide), putIpChecksum_keeps (.inl (by decide))]
    exact htot
  constructor
  · intro h
    have hlen : tot % 65536 = tot + 14 - 14 := hread ▸ h.totlen
    omega
  · intro hlt
    have hmod : tot % 65536 = tot := Nat.mod_eq_of_lt hlt
    refine ⟨?_, ?_, ?_⟩
    · show readHalf _ 16 = tot + 14 - 14
      rw [hread]
      omega
    · show ipChecksum (slice _ 14 20) = 0
      rw [hkeep 14 20 (by decide)]
      exact putIpChecksum_verifies ip
    · show tcpChecksum _ (readHalf _ 16 - 20) = 0
      rw [hread, hmod, show tot - 20 = n by omega]
      exact putTcpChecksum_verifies _ hmin (by omega)

section
variable {env : Env} {now : Tick} {c : Conn} {flags : BitVec 8} {payload : List Byte} {buf : Buf}

/-- **`tcp_build_frame`.** -/
theorem tcpBuildFrame_verifies_iff :
    Verifies (tcpBuildFrame false env now c flags payload buf) ↔
      payload.length + 40 + optOverhead c flags < 65536 := by
  have hlen : payload.length + 54 + optOverhead c flags
      = payload.length + 40 + optOverhead c flags + 14 := by omega
  unfold tcpBuildFrame
  dsimp only
  rw [hlen]
  refine verifies_put ?_ ?_ (by omega) (by omega)
  · intro w hw
    simp only [List.mem_cons, List.not_mem_nil, or_false] at hw
    rcases hw with rfl | rfl | rfl | rfl | rfl | rfl | rfl | rfl | rfl
    all_goals dsimp only; omega
  · refine @slice_memWrites_mem _ 16 (beHalf _) [_, _, _, _] _ _ ?_
    intro w hw
    simp only [List.mem_cons, List.not_mem_nil, or_false] at hw
    rcases hw with rfl | rfl | rfl | rfl | rfl
    all_goals exact .inl (by simp [beHalf])

/-- **`tcp_build_reply`.** -/
theorem tcpBuildReply_verifies {seq ack : W} {window : BitVec 16} {conn : Option Conn} :
    Verifies (tcpBuildReply false now seq ack flags window conn buf) := by
  unfold tcpBuildReply
  dsimp only
  cases replyTs conn with
  | some c =>
      refine (@verifies_put _ [] 52 32 (by simp) ?_ rfl (by decide)).mpr (by decide)
      refine @slice_memWrites_mem _ 16 (beHalf 52) [_] _ _ ?_
      intro w hw
      rw [List.mem_singleton.mp hw]
      exact .inl (by simp [beHalf])
  | none =>
      refine (@verifies_put _ [] 40 20 (by simp) ?_ rfl (by decide)).mpr (by decide)
      exact @slice_memWrites_mem _ 16 (beHalf 40) [_] [] _ (by simp)

theorem optOverhead_le (c : Conn) (flags : BitVec 8) : optOverhead c flags ≤ 24 := by
  unfold optOverhead tsOverhead synOverhead
  split <;> split <;> try split
  all_goals omega

theorem opts_length : (WsPi5.tcpBuildFrame env now c c.sndNxt flags payload).opts.length
    = optOverhead c flags := by
  have hts := tsOpts_length c now
  unfold WsPi5.tcpBuildFrame optOverhead synOverhead
  dsimp only
  rw [List.length_append, hts]
  congr 1
  split
  · unfold Conn.synOpts
    split <;> rfl
  · rfl

theorem tcpBuildFrame_behind {hw : Bool} {a k : Nat}
    (h : (tcpBuildFrame hw env now c flags payload buf).2 ≤ a) :
    slice (tcpBuildFrame hw env now c flags payload buf).1 a k = slice buf a k := by
  have hopts := @opts_length env now c flags payload
  have hlen : payload.length + 54 + optOverhead c flags ≤ a := h
  unfold tcpBuildFrame
  dsimp only
  rw [putTcpChecksum_keeps (.inr (by omega)), slice_memWrites_outside,
    putIpChecksum_keeps (.inr (by omega)), slice_memWrites_outside]
  · intro w hw
    simp only [List.mem_cons, List.not_mem_nil, or_false] at hw
    rcases hw with rfl | rfl | rfl | rfl | rfl | rfl | rfl | rfl | rfl | rfl
    all_goals
      refine .inr ?_
      simp only [macBytes, wordBytes, halfBytes, beHalf, List.length_append, List.length_cons,
        List.length_nil]
      omega
  · intro w hw
    simp only [List.mem_cons, List.not_mem_nil, or_false] at hw
    rcases hw with rfl | rfl | rfl | rfl | rfl | rfl | rfl | rfl | rfl
    all_goals
      refine .inr ?_
      simp only [halfBytes, beHalf, beBytes, List.length_map, List.length_cons, List.length_nil]
      omega

theorem copyFrame_apply (sent : Buf × Nat) {k : Nat} (hk : k < sent.2) :
    copyFrame sent buf k = sent.1 k := by
  have hlt : k < (slice sent.1 0 sent.2).length := by rw [slice_length]; exact hk
  have hget : memWrite buf 0 (slice sent.1 0 sent.2) (0 + k) = (slice sent.1 0 sent.2)[k] :=
    memWrite_get _ hlt
  rw [slice_getElem, Nat.zero_add] at hget
  exact hget

/-- **The saved frame.** -/
theorem savedFrame_verifies {rtxbuf txbuf : Buf} :
    Verifies (savedFrame false env now c flags buf rtxbuf txbuf) := by
  have hopts := optOverhead_le c flags
  have hbuilt : Verifies (tcpBuildFrame false env now c flags [] buf) :=
    tcpBuildFrame_verifies_iff.mpr (by simp only [List.length_nil]; omega)
  have hlen : (tcpBuildFrame false env now c flags [] buf).2 = 54 + optOverhead c flags := by
    show 0 + 54 + optOverhead c flags = _
    omega
  refine hbuilt.congr rfl (by omega) ?_
  intro k hk
  calc copyFrame (copyFrame _ rtxbuf, _) txbuf k
      = copyFrame (tcpBuildFrame false env now c flags [] buf) rtxbuf k :=
        copyFrame_apply (_, _) hk
    _ = (tcpBuildFrame false env now c flags [] buf).1 k := copyFrame_apply _ hk

/-- **The window probe.** -/
theorem probe_verifies_iff : Verifies (persistProbe false env now c buf) ↔
    (34 * 256 + halfSum (slice buf (54 + tsOverhead c.tsEnabled) 34)) % 65535 = 0 := by
  obtain ⟨sent, hsent⟩ : ∃ sent, sent = tcpBuildFrame false env now c tcpAckFlag [] buf :=
    ⟨_, rfl⟩
  obtain ⟨n, hn⟩ : ∃ n, n = 20 + tsOverhead c.tsEnabled := ⟨_, rfl⟩
  have hts : n = 20 ∨ n = 32 := by
    rw [hn]
    unfold tsOverhead
    split
    · exact .inr rfl
    · exact .inl rfl
  have hlen : sent.2 = n + 34 := by
    rw [hsent]
    show 0 + 54 + (tsOverhead c.tsEnabled + 0) = _
    omega
  have hbuilt : Verifies sent := by
    have hopts := optOverhead_le c tcpAckFlag
    rw [hsent]
    exact tcpBuildFrame_verifies_iff.mpr (by simp only [List.length_nil]; omega)
  have hprobe : persistProbe false env now c buf
      = (putTcpChecksum false (memWrite sent.1 38 (beBytes (c.sndNxt - 1))) (n + 34), n + 34) := by
    rw [← hlen, hsent]
    rfl
  obtain ⟨out, hout⟩ : ∃ out,
      out = putTcpChecksum false (memWrite sent.1 38 (beBytes (c.sndNxt - 1))) (n + 34) := ⟨_, rfl⟩
  -- patching the sequence number and the checksum leaves the IP header alone
  have hkeep : ∀ a k, a + k ≤ 34 → slice out a k = slice sent.1 a k := by
    intro a k hak
    rw [hout, putTcpChecksum_keeps (.inl (by omega))]
    exact slice_memWrite_outside (.inl (by omega))
  have hread : readHalf out 16 = n + 20 := by
    have h16 : out 16 = sent.1 16 := (List.cons.inj (hkeep 16 1 (by decide))).1
    have h17 : out 17 = sent.1 17 := (List.cons.inj (hkeep 17 1 (by decide))).1
    have htot := hbuilt.totlen
    rw [readHalf] at htot ⊢
    rw [h16, h17, htot, hlen]
    omega
  have hbehind : slice (memWrite sent.1 38 (beBytes (c.sndNxt - 1))) (34 + n) 34
      = slice buf (54 + tsOverhead c.tsEnabled) 34 := by
    rw [slice_memWrite_outside (.inr (by simp [beBytes]; omega)), hsent,
      tcpBuildFrame_behind (by rw [← hsent, hlen]; omega)]
    congr 1
    omega
  rw [hprobe, ← hout, ← hbehind, ← putTcpChecksum_overlong _ (by omega) (by omega) (by omega),
    ← hout]
  constructor
  · intro h
    have htcp := h.tcp
    dsimp only at htcp
    rwa [hread, Nat.add_sub_cancel] at htcp
  · intro h
    refine ⟨?_, ?_, ?_⟩
    · dsimp only
      rw [hread]
      omega
    · dsimp only
      rw [hkeep 14 20 (by decide)]
      exact hbuilt.ip
    · dsimp only
      rwa [hread, Nat.add_sub_cancel]

end

/-! ## Every builder -/

/-- The builders, with what they are called with. -/
inductive Builder where
  | reply (seq ack : W) (flags : BitVec 8) (window : BitVec 16) (conn : Option Conn)
  | frame (c : Conn) (flags : BitVec 8) (payload : List Byte)
  | sndbuf (c : Conn)
  | sndbufAt (c : Conn) (off : W)
  | saved (c : Conn) (flags : BitVec 8) (buf rtxbuf : Buf)
  | probe (c : Conn)

/-- The frame that is built in `buf`, with checksums in software. -/
def Builder.build (env : Env) (now : Tick) (buf : Buf) : Builder → Option (Buf × Nat)
  | .reply seq ack flags window conn =>
      some (tcpBuildReply false now seq ack flags window conn buf)
  | .frame c flags payload => some (tcpBuildFrame false env now c flags payload buf)
  | .sndbuf c => tcpSndbufBuildFrame false env now c buf
  | .sndbufAt c off => tcpSndbufBuildFrameAt false env now c off buf
  | .saved c flags frameBuf rtxbuf => some (savedFrame false env now c flags frameBuf rtxbuf buf)
  | .probe c => if probing env c then some (persistProbe false env now c buf) else none

/-- The total length of a frame with payload fits its field. -/
def fitsTotlen (c : Conn) (flags : BitVec 8) (n : Nat) : Prop :=
  n + 40 + optOverhead c flags < 65536

/-- The 34 bytes in the transmit buffer behind the probe make up for the 34 too many in the length:
with `34 << 8` they add up to zero in ones' complement. -/
def staleCancels (c : Conn) (buf : Buf) : Prop :=
  (34 * 256 + halfSum (slice buf (54 + tsOverhead c.tsEnabled) 34)) % 65535 = 0

def Builder.agrees (env : Env) (buf : Buf) : Builder → Prop
  | .reply .. => True
  | .frame c flags payload => fitsTotlen c flags payload.length
  | .sndbuf c => c.inFlight ≠ 0 → fitsTotlen c tcpPshAck (min c.inFlight.toNat c.peerMss.toNat)
  | .sndbufAt c off => off < c.inFlight →
      fitsTotlen c tcpPshAck (min (c.inFlight - off).toNat c.peerMss.toNat)
  | .saved .. => True
  | .probe c => probing env c → staleCancels c buf

theorem segment_toNat (c : Conn) (avail : W) :
    (if avail < c.mss then avail else c.mss).toNat = min avail.toNat c.peerMss.toNat := by
  have hmss : c.mss.toNat = c.peerMss.toNat := by
    have := c.peerMss.isLt
    simp only [Conn.mss, BitVec.toNat_setWidth]
    omega
  split
  · rename_i hlt
    have := BitVec.lt_def.mp hlt
    omega
  · rename_i hge
    have := BitVec.lt_def.not.mp hge
    omega

/-- **When the frames verify.** -/
theorem frames_verify_iff (env : Env) (now : Tick) (buf : Buf) (b : Builder) :
    (∀ sent ∈ b.build env now buf, Verifies sent) ↔ b.agrees env buf := by
  have hsome : ∀ sent : Buf × Nat, (∀ x ∈ some sent, Verifies x) ↔ Verifies sent := by
    intro sent
    simp
  cases b with
  | reply seq ack flags window conn =>
      exact iff_of_true ((hsome _).mpr tcpBuildReply_verifies) trivial
  | frame c flags payload => exact (hsome _).trans tcpBuildFrame_verifies_iff
  | sndbuf c =>
      unfold Builder.build Builder.agrees tcpSndbufBuildFrame
      dsimp only
      split
      · rename_i hzero
        simp [hzero]
      · rename_i hne
        rw [hsome, tcpBuildFrame_verifies_iff, Conn.ringRead, List.length_map, List.length_range,
          segment_toNat]
        exact ⟨fun h _ => h, fun h => h hne⟩
  | sndbufAt c off =>
      unfold Builder.build Builder.agrees tcpSndbufBuildFrameAt
      dsimp only
      split
      · rename_i hle
        exact iff_of_true (by simp) fun hlt => absurd hle (BitVec.not_le.mpr hlt)
      · rename_i hgt
        rw [hsome, tcpBuildFrame_verifies_iff, Conn.ringRead, List.length_map, List.length_range,
          segment_toNat]
        exact ⟨fun h _ => h, fun h => h (BitVec.not_le.mp hgt)⟩
  | saved c flags frameBuf rtxbuf =>
      exact iff_of_true ((hsome _).mpr savedFrame_verifies) trivial
  | probe c =>
      unfold Builder.build Builder.agrees
      dsimp only
      split
      · rename_i hprobing
        rw [hsome, probe_verifies_iff]
        exact ⟨fun h _ => h, fun h => h hprobing⟩
      · rename_i hno
        exact iff_of_true (by simp) fun h => absurd h hno

/-- An established connection with a zero window and a byte in flight. -/
def stalledConn : Conn :=
  { state := .established, lport := rev16 80, rport := rev16 50000, rip := 0x0500000A,
    rmac := 0x020000000005, sndUna := 1000, sndNxt := 1001, rcvNxt := 501, peerMss := 1460 }

/-- A probe out of a transmit buffer of zeros does not verify. -/
theorem probe_does_not_verify : ∃ sent : Buf × Nat,
    (Builder.probe stalledConn).build demoEnv 0 (fun _ => 0) = some sent ∧ ¬ Verifies sent := by
  have hprobing : probing demoEnv stalledConn := by decide
  refine ⟨persistProbe false demoEnv 0 stalledConn fun _ => 0, ?_, ?_⟩
  · unfold Builder.build
    exact if_pos hprobing
  · rw [probe_verifies_iff]
    decide

end Wire

end WsPi5
