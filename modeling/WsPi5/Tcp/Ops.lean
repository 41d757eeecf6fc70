/-
# `WsPi5.Tcp.Ops` — the operations on one connection

What the application and the timers call: `tcp_send`, `tcp_close`, `tcp_rx_consume`,
`tcp_rx_flush`, `tcp_send_ready`, and the three per-connection callbacks, with the timer
and RTT helpers they use.  Each is a function of the connection's `Local` view, so that it
cannot touch another connection's record; `now` is the counter value the call reads.

Two behaviours of the source are easy to read over and matter later:

* `tcp_rtx_arm` stores the index that `timer_set` returns and never cancels the timer that
  the field named before;
* `tcp_retransmit_cb` asks `tcp_sndbuf_build_frame` first and uses the saved control frame
  only if nothing at all is in flight.
-/
import WsPi5.Tcp.Frames
import WsPi5.Lib.Ring

namespace WsPi5

open Lib

section
variable (env : Env) (now : Tick) (i : Slot)

/-! ## The retransmit timer -/

/-- `tcp_rtx_arm`.  An `RTO` of 0 becomes one second. -/
def tcpRtxArm (l : Local) : Local :=
  if env.hasPool then
    let rto := if l.conn.rto = 0 then env.freq.setWidth 32 else l.conn.rto
    let armed := timerSet l.pool (now + rto.setWidth 64) (.tcpRetransmitCb i)
    { l with
      conn := { l.conn with rto := rto, sendTick := now, timerSlot := armed.2 }
      pool := armed.1 }
  else l

/-- `tcp_rtx_clear`: cancel the timer the record names, and forget it. -/
def tcpRtxClear (l : Local) : Local :=
  { l with
    conn := { l.conn with rtxlen := 0, rtxcount := 0, timerSlot := none }
    pool := match l.conn.timerSlot with
      | some k => if env.hasPool then timerCancel l.pool k else l.pool
      | none => l.pool }

/-- `tcp_rtx_save`: keep a control frame and arm. -/
def tcpRtxSave (f : Frame) (l : Local) : Local :=
  tcpRtxArm env now i
    { l with conn := { l.conn with rtxbuf := f, rtxlen := f.len % 65536, rtxcount := 0 } }

/-- The 2MSL timer, 60 seconds. -/
def armTimewait (pool : Pool) : Pool × Option Nat :=
  timerSet pool (now + env.freq * 60) (.tcpTimewaitCb i)

/-! ## RTT (RFC 6298) -/

/-- `subs; cneg mi`: the difference, negated if its sign bit is set. -/
def absDiff (a b : W) : W := if (a - b).msb then -(a - b) else a - b

/-- `tcp_rtt_update`; the least RTO is one second. -/
def tcpRttUpdate (r : W) (c : Conn) : Conn :=
  let c : Conn := if c.srtt = 0 then { c with srtt := r, rttvar := r >>> 1 }
    else { c with
      rttvar := c.rttvar - (c.rttvar >>> 2) + (absDiff c.srtt r >>> 2)
      srtt := c.srtt - (c.srtt >>> 3) + (r >>> 3) }
  let rto : W := c.srtt + c.rttvar * 4
  { c with rto := if env.freq.setWidth 32 ≤ rto then rto else env.freq.setWidth 32 }

/-! ## Sending -/

/-- `min(SND_WND, CWND)`. -/
def Conn.window (c : Conn) : W := if c.sndWnd < c.cwnd then c.sndWnd else c.cwnd

/-- `tcp_send_ready`: what may be sent now, capped at the peer's MSS. -/
def tcpSendReady (c : Conn) : W :=
  if c.state = .established then
    if c.window ≤ c.inFlight then 0
    else if c.window - c.inFlight < c.mss then c.window - c.inFlight else c.mss
  else 0

/-- The tests of `tcp_send`: state, `1 ≤ len ≤ PEER_MSS`, and room in the window. -/
def tcpSendAccepts (c : Conn) (len : Nat) : Bool :=
  c.state = .established && len ≠ 0 && len ≤ c.mss.toNat &&
    !(c.window ≤ c.inFlight) && len ≤ (c.window - c.inFlight).toNat

/-- The frame `tcp_send` builds. -/
def tcpSendFrame (c : Conn) (payload : List Byte) : Frame :=
  tcpBuildFrame env now c c.sndNxt tcpPshAck payload

/-- The accepting path of `tcp_send`: payload into the ring, frame, `SND_NXT`, timer. -/
def tcpSendAccept (payload : List Byte) (l : Local) : Local :=
  let c := l.conn
  let len := BitVec.ofNat 32 payload.length
  tcpRtxArm env now i
    { l with
      conn := { c with
        sndbuf := ringWrite tcpSndbufSize c.sndbuf c.sndBufHead payload
        sndBufHead := (c.sndBufHead + payload.length) % tcpSndbufSize
        sndBufUsed := c.sndBufUsed + len
        sndNxt := c.sndNxt + len
        sndWnd := c.sndWnd - len }
      log := .accepted i (tcpSendFrame env now c payload) :: l.log }

/-- `tcp_send`: the new state, and the frame (`none` for a returned length of 0). -/
def tcpSend (payload : List Byte) (l : Local) : Local × Option Frame :=
  if tcpSendAccepts l.conn payload.length then
    (tcpSendAccept env now i payload l, some (tcpSendFrame env now l.conn payload))
  else (l, none)

/-- `tcp_close`: FIN from ESTABLISHED or CLOSE_WAIT. -/
def tcpClose (l : Local) : Local × Option Frame :=
  let next : Option TcpState :=
    match l.conn.state with
    | .established => some .finWait1
    | .closeWait => some .lastAck
    | _ => none
  match next with
  | none => (l, none)
  | some s =>
      let f := tcpBuildFrame env now l.conn l.conn.sndNxt tcpFinAck []
      (tcpRtxSave env now i f
        { l with
          conn := { l.conn with sndNxt := l.conn.sndNxt + 1, state := s }
          log := .finSent i f :: l.log }, some f)

/-! ## Receiving: the application's side -/

/-- `tcp_rx_consume`: drop `n` bytes from the front; the bytes up to `RXLEN` move down. -/
def tcpRxConsume (n : Nat) (l : Local) : Local :=
  let c := l.conn
  let taken := slice c.rxbuf 0 (min n c.rxlen)
  if c.rxlen ≤ n then
    { l with conn := { c with rxlen := 0 }, log := .consumed i taken :: l.log }
  else
    { l with
      conn := { c with
        rxbuf := memMoveDown c.rxbuf n 0 (c.rxlen - n)
        rxlen := c.rxlen - n }
      log := .consumed i taken :: l.log }

/-- `tcp_rx_flush`: drop everything, stored out-of-order segments included. -/
def tcpRxFlush (l : Local) : Local :=
  { l with
    conn := { l.conn with rxlen := 0, oooSlots := [] }
    log := .consumed i (slice l.conn.rxbuf 0 l.conn.rxlen) :: l.log }

/-! ## Timeouts and fast retransmit -/

/-- `ssthresh = max(cwnd/2, 2*MSS)`. -/
def Conn.halved (c : Conn) : W :=
  if c.mss <<< 1 ≤ c.cwnd >>> 1 then c.cwnd >>> 1 else c.mss <<< 1

/-- `min(w, 256 KB)`. -/
def capCwnd (w : W) : W := if w < cwndCap then w else cwndCap

/-- The congestion part of `tcp_retransmit_cb` and the doubling of the RTO, at most 60 s. -/
def rtxBackoff (c : Conn) : Conn :=
  let doubled := c.rto <<< 1
  let most : W := (env.freq * 60).setWidth 32
  { c with
    ssthresh := c.halved
    cwnd := c.mss
    dupAckCnt := 0
    rto := if doubled < most then doubled else most }

/-- What `tcp_retransmit_cb` puts on the wire: the ring first, else the saved frame. -/
def rtxFrame (c : Conn) : Option Frame :=
  match tcpSndbufBuildFrame env now c with
  | some f => some f
  | none => if c.rtxlen = 0 then none else some c.rtxbuf

def tcpRetransmitCb (l : Local) : Local :=
  if l.conn.state = .closed ∨ l.conn.state = .listen then l
  else if tcpMaxRetries ≤ l.conn.rtxcount then
    { l with conn := { l.conn with state := .closed, rtxlen := 0, timerSlot := none } }
  else
    let c := rtxBackoff env l.conn
    if env.hasSendFn then
      match rtxFrame env now c with
      | none => { l with conn := c }
      | some f =>
          tcpRtxArm env now i
            { l with
              conn := { c with rtxcount := (c.rtxcount + 1) % 256 }
              log := .resent i f :: l.log }
    else { l with conn := c }

/-- The offset `tcp_fast_retransmit` sends from: the first hole, if SACK was negotiated. -/
def fastRtxOffset (c : Conn) (f : Frame) : Option W :=
  if c.sackEnabled then tcpSackFindHole c (tcpParseSackBlocks f.opts) else some 0

/-- `tcp_fast_retransmit` for the ACK `f`; `none` if the hole search never returns. -/
def tcpFastRetransmit (f : Frame) (l : Local) : Option Local :=
  let c := { l.conn with
    sackRecover := l.conn.sndNxt
    ssthresh := l.conn.halved
    cwnd := capCwnd (l.conn.halved + l.conn.mss * 3) }
  if env.hasSendFn then
    (fastRtxOffset c f).map fun off =>
      match tcpSndbufBuildFrameAt env now c off with
      | none => { l with conn := c }
      | some g =>
          tcpRtxArm env now i
            { l with conn := { c with rtxcount := 0 }, log := .resent i g :: l.log }
  else some { l with conn := c }

/-! ## Zero-window probing -/

/-- `tcp_persist_arm`: `min(5 << (shift-1), 60)` seconds; the index is not kept. -/
def tcpPersistArm (l : Local) : Local :=
  if env.hasPool then
    let shifted := tcpPersistInitial <<< ((l.conn.persistShift + 31) % 32)
    let secs := if shifted < tcpPersistMax then shifted else tcpPersistMax
    { l with pool := (timerSet l.pool (now + env.freq * secs.setWidth 64)
        (.tcpPersistCb i)).1 }
  else l

/-- `tcp_persist_cb`: probe with `SEQ = SND_NXT - 1` and arm again. -/
def tcpPersistCb (l : Local) : Local :=
  if l.conn.state = .established ∧ l.conn.sndWnd = 0 ∧ env.hasSendFn then
    tcpPersistArm env now i
      { l with
        conn := { l.conn with persistShift := min (l.conn.persistShift + 1) 5 }
        log := .probed i (tcpBuildFrame env now l.conn (l.conn.sndNxt - 1) tcpAckFlag [])
          :: l.log }
  else l

/-- `tcp_timewait_cb`: whatever the state is. -/
def tcpTimewaitCb (l : Local) : Local :=
  { l with conn := { l.conn with state := .closed, timerSlot := none } }

end

end WsPi5
