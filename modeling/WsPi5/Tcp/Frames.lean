/-
# `WsPi5.Tcp.Frames` — reading options, building frames

The option parsers of `tcp.S` (`tcp_parse_mss`, `tcp_parse_wscale`,
`tcp_parse_sack_permitted`, `tcp_parse_sack_blocks`, `tcp_parse_tsopt`) are one walk over
the kind/length list, `optWalk`, that stops at the first option it wants; each parser then
reads the bytes of that option.  The frame builders are `tcp_build_reply`, which answers a
received frame in place, and `tcp_build_frame`, which builds from the connection record;
`tcp_sndbuf_build_frame` and its `_at` variant take the payload from the send ring.

`tcp_sack_find_hole` may visit the same block for ever (two blocks that cover each other's
right edge).  It is a function of fuel; `sackFuel` is enough for every call that returns at
all, since the offsets it can visit are `0` and one per block.
-/
import WsPi5.Tcp.Types
import WsPi5.Lib.Mem

namespace WsPi5

/-! ## Bytes and words -/

def be16 (a b : Byte) : BitVec 16 := BitVec.ofNat 16 (a.toNat * 256 + b.toNat)

def be32 (a b c d : Byte) : W :=
  BitVec.ofNat 32 (((a.toNat * 256 + b.toNat) * 256 + c.toNat) * 256 + d.toNat)

def beBytes (w : W) : List Byte :=
  [24, 16, 8, 0].map fun s => UInt8.ofNat ((w.toNat >>> s) % 256)

theorem be32_beBytes (w : W) : ∃ a b c d, beBytes w = [a, b, c, d] ∧ be32 a b c d = w := by
  refine ⟨_, _, _, _, rfl, BitVec.eq_of_toNat_eq ?_⟩
  have hlt := w.isLt
  simp only [be32, UInt8.toNat_ofNat', Nat.shiftRight_eq_div_pow, BitVec.toNat_ofNat]
  omega

/-- `rev16; uxth`: swap the bytes of a halfword. -/
def rev16 (h : BitVec 16) : BitVec 16 := (h <<< 8) ||| (h >>> 8)

/-! ## Options -/

/-- Walk the options, one kind/length item per unit of fuel, to the first item that is
wanted; the bytes from there on.  End-of-list, a missing length byte and a length below 2
stop the walk. -/
def optWalk (want : Byte → Byte → Bool) : Nat → List Byte → Option (List Byte)
  | 0, _ => none
  | _ + 1, [] => none
  | n + 1, kind :: rest =>
      if kind = 0 then none
      else if kind = 1 then optWalk want n rest
      else
        match rest with
        | [] => none
        | len :: _ =>
            if len < 2 then none
            else if want kind len then some (kind :: rest)
            else optWalk want n ((kind :: rest).drop len.toNat)

theorem optWalk_nop (want : Byte → Byte → Bool) (n : Nat) (rest : List Byte) :
    optWalk want (n + 1) (1 :: rest) = optWalk want n rest := rfl

theorem optWalk_item {want : Byte → Byte → Bool} {n : Nat} {kind len : Byte} {body : List Byte}
    (h0 : kind ≠ 0) (h1 : kind ≠ 1) (hlen : ¬ len < 2) :
    optWalk want (n + 1) (kind :: len :: body) =
      if want kind len then some (kind :: len :: body)
      else optWalk want n ((kind :: len :: body).drop len.toNat) := by
  rw [optWalk, if_neg h0, if_neg h1, if_neg hlen]

/-- Every item takes at least one byte, so the number of bytes is enough fuel. -/
def findOpt (want : Byte → Byte → Bool) (opts : List Byte) : Option (List Byte) :=
  optWalk want opts.length opts

/-- `tcp_parse_mss`: 0 if there is no (complete) MSS option. -/
def tcpParseMss (opts : List Byte) : BitVec 16 :=
  match findOpt (fun k l => k = 2 && l = 4) opts with
  | some (_ :: _ :: a :: b :: _) => be16 a b
  | _ => 0

/-- `tcp_parse_wscale`: the shift, capped at 14, or `none` for `-1`. -/
def tcpParseWscale (opts : List Byte) : Option Nat :=
  match findOpt (fun k l => k = 3 && l = 3) opts with
  | some (_ :: _ :: s :: _) => some (min s.toNat 14)
  | _ => none

def tcpParseSackPermitted (opts : List Byte) : Bool :=
  (findOpt (fun k l => k = 4 && l = 2) opts).isSome

/-- `tcp_parse_tsopt`: TSval in host order, if the option is there. -/
def tcpParseTsopt (opts : List Byte) : Option W :=
  match findOpt (fun k l => k = 8 && l = 10) opts with
  | some (_ :: _ :: a :: b :: c :: d :: _ :: _ :: _ :: _ :: _) => some (be32 a b c d)
  | _ => none

/-- `.Lsb_extract`: `n` blocks of two words. -/
def sackExtract : Nat → List Byte → List (W × W)
  | n + 1, a :: b :: c :: d :: e :: f :: g :: h :: rest =>
      (be32 a b c d, be32 e f g h) :: sackExtract n rest
  | _, _ => []

/-- `tcp_parse_sack_blocks`: at most four `(left, right)` edges. -/
def tcpParseSackBlocks (opts : List Byte) : List (W × W) :=
  match findOpt (fun k _ => k = 5) opts with
  | some (k :: l :: rest) =>
      if l.toNat ≤ (k :: l :: rest).length then
        sackExtract (min ((l.toNat - 2) / 8) 4) rest
      else []
  | _ => []

/-- `tcp_classify_event`, priority RST > SYN > FIN > ACK; `none` for `-1`. -/
def tcpClassifyEvent (f : Frame) : Option TcpEvt :=
  if f.has tcpRst then some .rst
  else if f.has tcpSyn then
    if f.has tcpAckFlag then some .synack else some .syn
  else if f.has tcpFin then some .fin
  else if f.has tcpAckFlag then some .ack
  else none

/-! ## Building frames -/

/-- NOP NOP Kind=8 Len=10 TSval TSecr. -/
def tsOption (now : Tick) (tsRecent : W) : List Byte :=
  ([1, 1, 8, 10] : List Byte) ++ beBytes ((now >>> 16).setWidth 32) ++ beBytes tsRecent

def Conn.tsOpts (c : Conn) (now : Tick) : List Byte :=
  if c.tsEnabled then tsOption now c.tsRecent else []

/-- The SYN options: MSS, window scale and, if the peer permits it, SACK-permitted. -/
def Conn.synOpts (c : Conn) : List Byte :=
  [2, 4, UInt8.ofNat (tcpOurMss / 256), UInt8.ofNat (tcpOurMss % 256)]
    ++ [1, 3, 3, c.rcvWscale] ++ (if c.sackEnabled then [1, 1, 4, 2] else [])

/-- `tcp_build_reply`: answer `f` by swapping its addresses.  No connection, no timestamps. -/
def tcpBuildReply (f : Frame) (seq ack : W) (flags : BitVec 8) (window : BitVec 16)
    (opts : List Byte) : Frame where
  ethDst := f.ethSrc
  ethSrc := f.ethDst
  ipSrc := f.ipDst
  ipDst := f.ipSrc
  sport := f.dport
  dport := f.sport
  seq := seq
  ack := ack
  flags := flags
  window := window
  opts := opts

/-- The ACK that every handler builds from the record: `SEQ=SND_NXT`, `ACK=RCV_NXT`. -/
def Conn.ackReply (c : Conn) (now : Tick) (f : Frame) : Frame :=
  tcpBuildReply f c.sndNxt c.rcvNxt tcpAckFlag c.rcvWindow (c.tsOpts now)

/-- `tcp_build_frame` with the sequence number that `SND_NXT` holds during the call. -/
def tcpBuildFrame (env : Env) (now : Tick) (c : Conn) (seq : W) (flags : BitVec 8)
    (payload : List Byte) : Frame where
  ethDst := c.rmac
  ethSrc := env.ourMac
  ipSrc := env.ourIp
  ipDst := c.rip
  sport := c.lport
  dport := c.rport
  seq := seq
  ack := c.rcvNxt
  flags := flags
  window := c.rcvWindow
  opts := c.tsOpts now ++ (if flags &&& tcpSyn != 0 then c.synOpts else [])
  payload := payload

/-- `n` bytes of the send ring from `off` bytes past the tail. -/
def Conn.ringRead (c : Conn) (off n : Nat) : List Byte :=
  (List.range n).map fun k => c.sndbuf ((c.sndBufTail + off + k) % tcpSndbufSize)

/-- `tcp_sndbuf_build_frame_at`: up to one MSS of in-flight data from `off` past `SND_UNA`;
`none` for a returned length of 0.  The test is `subs; b.ls`: no borrow and not zero. -/
def tcpSndbufBuildFrameAt (env : Env) (now : Tick) (c : Conn) (off : W) : Option Frame :=
  if c.inFlight ≤ off then none
  else
    let avail := c.inFlight - off
    let n := if avail < c.mss then avail else c.mss
    some (tcpBuildFrame env now c (c.sndUna + off) tcpPshAck (c.ringRead off.toNat n.toNat))

/-- `tcp_sndbuf_build_frame`: the same from `SND_UNA` itself. -/
def tcpSndbufBuildFrame (env : Env) (now : Tick) (c : Conn) : Option Frame :=
  if c.inFlight = 0 then none
  else
    let n := if c.inFlight < c.mss then c.inFlight else c.mss
    some (tcpBuildFrame env now c c.sndUna tcpPshAck (c.ringRead 0 n.toNat))

theorem tcpSndbufBuildFrame_eq_at (env : Env) (now : Tick) (c : Conn) :
    tcpSndbufBuildFrame env now c = tcpSndbufBuildFrameAt env now c 0 := by
  unfold tcpSndbufBuildFrame tcpSndbufBuildFrameAt
  simp

/-- The block loop of `tcp_sack_find_hole`: the right edge of the first block that covers
the position. -/
def sackCovering (blocks : List (W × W)) (pos : W) : Option W :=
  (blocks.find? fun b => pos - b.1 < b.2 - b.1).map Prod.snd

/-- The outer loop from offset `off`: `none` when the fuel does not suffice. -/
def sackHoleFrom (c : Conn) (blocks : List (W × W)) : Nat → W → Option W
  | 0, _ => none
  | n + 1, off =>
      if c.inFlight ≤ off then some 0
      else
        match sackCovering blocks (c.sndUna + off) with
        | none => some off
        | some right => sackHoleFrom c blocks n (right - c.sndUna)

/-- Offset 0 and one offset per block can be visited; one more visit repeats one of them. -/
def sackFuel (blocks : List (W × W)) : Nat := blocks.length + 2

/-- `tcp_sack_find_hole`; `none` if it never returns. -/
def tcpSackFindHole (c : Conn) (blocks : List (W × W)) : Option W :=
  if blocks = [] then some 0 else sackHoleFrom c blocks (sackFuel blocks) 0

end WsPi5
