/-
# `WsPi5.Tcp.Handlers` — the handlers of the TCP state machine

A handler gets the connection *after* the dispatcher has written the table's next state into
it, and the received frame.  It answers with a reply frame, with nothing, or with `-1`, on
which the dispatcher restores the state and sends a RST.

`tcp_estab_ack_handler` is cut where the source has its labels:

    eakWindow     .Leak_zero_window … .Leak_wnd_done   SND_WND and the persist timer
    eakAck        … .Leak_una_done                     SND_UNA, ring tail, RTT, cwnd
    eakData       … .Leak_ooo_done / .Leak_dup_data    in-order data, out-of-order data
    eakPureAck    .Leak_pure_ack                       duplicate ACKs, fast retransmit

Only the last can fail to return: `tcp_fast_retransmit` may search for a hole for ever.
-/
import WsPi5.Tcp.Ops

namespace WsPi5

open Lib

/-- What a handler returns: a frame, 0, or -1. -/
inductive HRes where
  | reply (f : Frame)
  | quiet
  | rst
  deriving DecidableEq, Repr

section
variable (env : Env) (now : Tick) (i : Slot) (f : Frame)

/-! ## `tcp_estab_ack_handler` -/

/-- The window field of a segment after the handshake, scaled. -/
def scaledWindow (c : Conn) : W := f.window.setWidth 32 <<< (c.sndWscale % 32)

/-- Store the peer's window; on 0 start probing, else forget the probing state. -/
def eakWindow (l : Local) : Local :=
  let w := scaledWindow f l.conn
  if w = 0 then
    if l.conn.persistShift = 0 then
      tcpPersistArm env now i
        { l with conn := { l.conn with sndWnd := 0, persistShift := 1 } }
    else { l with conn := { l.conn with sndWnd := 0 } }
  else { l with conn := { l.conn with sndWnd := w, persistShift := 0 } }

/-- `SND_UNA < SEG.ACK <= SND_NXT`, compared as plain unsigned numbers. -/
def ackAdvances (c : Conn) : Bool := c.sndUna < f.ack && f.ack ≤ c.sndNxt

/-- `SND_UNA` and the ring tail move by the acknowledged bytes. -/
def eakAdvance (c : Conn) : Conn :=
  { c with
    sndUna := f.ack
    sndBufTail := (c.sndBufTail + (f.ack - c.sndUna).toNat) % tcpSndbufSize
    sndBufUsed := c.sndBufUsed - (f.ack - c.sndUna) }

/-- The RTT sample (Karn: not after a retransmission). -/
def eakRtt (c : Conn) : Conn :=
  if c.rtxcount = 0 ∧ c.sendTick ≠ 0 then
    { tcpRttUpdate env ((now - c.sendTick).setWidth 32) c with sendTick := 0 }
  else c

/-- `cwnd += MSS` below the threshold, else `cwnd += max(MSS*MSS/cwnd, 1)`, capped. -/
def grownCwnd (c : Conn) : W :=
  let step := c.mss * c.mss / c.cwnd
  capCwnd (if c.cwnd < c.ssthresh then c.cwnd + c.mss
    else c.cwnd + (if step = 0 then 1 else step))

/-- Leave fast recovery, or grow the congestion window. -/
def eakCwnd (c : Conn) : Conn :=
  if c.sackRecover ≠ 0 ∧ c.sackRecover ≤ f.ack then
    { c with cwnd := c.ssthresh, sackRecover := 0, dupAckCnt := 0 }
  else { c with cwnd := grownCwnd c, dupAckCnt := 0 }

/-- The ACK processing. -/
def eakAck (l : Local) : Local :=
  if ackAdvances f l.conn then
    let l' := { l with conn := eakCwnd f (eakRtt env now (eakAdvance f l.conn)) }
    if f.ack = l'.conn.sndNxt then tcpRtxClear env l' else l'
  else l

/-- The segment's TSval, where timestamps were negotiated and the option is there. -/
def segTs (c : Conn) : Option W := if c.tsEnabled then tcpParseTsopt f.opts else none

/-- PAWS: the TSval is before `TS_RECENT`. -/
def pawsFails (c : Conn) : Bool :=
  match segTs f c with
  | some v => (v - c.tsRecent).msb
  | none => false

/-- The deferred `TS_RECENT` update (a TSval of 0 is no update). -/
def commitTs (c : Conn) : Conn :=
  match segTs f c with
  | some v => if v = 0 then c else { c with tsRecent := v }
  | none => c

/-- Copy last over `k`, then drop the last entry. -/
def swapRemove {α : Type} (xs : List α) (k : Nat) : List α :=
  match xs.getLast? with
  | some x => (xs.set k x).dropLast
  | none => []

/-- `.Leak_ooo_scan`: while a stored segment starts at `RCV_NXT`, take it. -/
def oooMerge : Nat → Conn → Conn
  | 0, c => c
  | n + 1, c =>
      match c.oooSlots.findIdx? fun s => s.seq = c.rcvNxt with
      | none => c
      | some k =>
          let len := (c.oooSlots[k]?.map OooSlot.len).getD 0
          oooMerge n { c with
            rcvNxt := c.rcvNxt + BitVec.ofNat 32 len
            rxlen := (c.rxlen + len) % 65536
            oooSlots := swapRemove c.oooSlots k }

/-- `.Leak_seq_ok` after the room check: store, advance, merge. -/
def acceptData (c : Conn) : Conn :=
  let c' := { c with
    rxbuf := memWrite c.rxbuf c.rxlen f.payload
    rxlen := c.rxlen + f.payload.length
    rcvNxt := c.rcvNxt + BitVec.ofNat 32 f.payload.length }
  oooMerge c'.oooSlots.length c'

/-- The tests before an out-of-order segment is stored: in the window, a free entry (of
four), and room in the buffer. -/
def oooFits (c : Conn) : Bool :=
  let gap := f.seq - c.rcvNxt
  gap < BitVec.ofNat 32 tcpRxbufSize - BitVec.ofNat 32 c.rxlen && c.oooSlots.length < 4 &&
    BitVec.ofNat 32 c.rxlen + gap + BitVec.ofNat 32 f.payload.length
      ≤ BitVec.ofNat 32 tcpRxbufSize

/-- Store an out-of-order segment at `RXLEN + gap`. -/
def storeOoo (c : Conn) : Conn :=
  { c with
    rxbuf := memWrite c.rxbuf (c.rxlen + (f.seq - c.rcvNxt).toNat) f.payload
    oooSlots := c.oooSlots ++ [⟨f.seq, f.payload.length⟩] }

/-- `.Leak_pure_ack`: count duplicate ACKs; the third retransmits, later ones inflate. -/
def eakPureAck (l : Local) : Option Local :=
  let c := commitTs f l.conn
  if f.ack = c.sndUna ∧ c.sndNxt ≠ c.sndUna then
    let n := c.dupAckCnt + 1
    let c' := { c with dupAckCnt := n % 256 }
    if n < tcpDupackThresh then some { l with conn := c' }
    else if tcpDupackThresh < n then
      some { l with conn := { c' with cwnd := capCwnd (c'.cwnd + c'.mss) } }
    else tcpFastRetransmit env now i f { l with conn := c' }
  else some { l with conn := c }

/-- Everything from `.Leak_paws_done` on, for a segment that passed PAWS. -/
def eakData (l : Local) : Option (Local × HRes) :=
  let c := l.conn
  if f.payload = [] then (eakPureAck env now i f l).map (·, .quiet)
  else if f.seq = c.rcvNxt then
    let c' := commitTs f c
    if c'.rxlen + f.payload.length ≤ tcpRxbufSize then
      let c'' := acceptData f c'
      some ({ l with conn := c'' }, .reply (c''.ackReply now f))
    else (eakPureAck env now i f { l with conn := c' }).map (·, .quiet)
  else if c.rcvNxt < f.seq ∧ oooFits f c then
    let c' := storeOoo f c
    some ({ l with conn := c' }, .reply (c'.ackReply now f))
  else some (l, .reply (c.ackReply now f))

def tcpEstabAckHandler (l : Local) : Option (Local × HRes) :=
  let l := eakAck env now f (eakWindow env now i f l)
  if pawsFails f l.conn then some (l, .reply (l.conn.ackReply now f))
  else eakData env now i f l

/-! ## The other handlers -/

def tcpSynrcvdAckHandler (l : Local) : Local × HRes :=
  if f.ack = l.conn.sndNxt then
    (tcpRtxClear env { l with conn := { l.conn with sndUna := l.conn.sndNxt } }, .quiet)
  else (l.withState .synRcvd, .rst)

def tcpConnCloseHandler (l : Local) : Local × HRes := (tcpRtxClear env l, .quiet)

def tcpDropHandler (l : Local) : Local × HRes := (l, .quiet)

/-- `tcp_estab_fin_handler`: data that fits is taken, and the FIN with it; a FIN behind data
that was not taken is not. -/
def tcpEstabFinHandler (l : Local) : Local × HRes :=
  let c := l.conn
  let c' :=
    if f.payload = [] then { c with rcvNxt := c.rcvNxt + 1 }
    else if f.seq = c.rcvNxt ∧ c.rxlen + f.payload.length ≤ tcpRxbufSize then
      { c with
        rxbuf := memWrite c.rxbuf c.rxlen f.payload
        rxlen := c.rxlen + f.payload.length
        rcvNxt := c.rcvNxt + BitVec.ofNat 32 f.payload.length + 1 }
    else { c with state := .established }
  ({ l with conn := c' }, .reply (c'.ackReply now f))

/-- The comparison shared by the three closing handlers: an ACK of something never sent goes
back to `stay` with a RST, an ACK of less than everything goes back quietly. -/
def closingAck (stay : TcpState) (acked : Local → Local) (l : Local) : Local × HRes :=
  if l.conn.sndNxt < f.ack then
    (l.withState stay, .rst)
  else if f.ack = l.conn.sndNxt then (acked l, .quiet)
  else (l.withState stay, .quiet)

/-- Arm the 2MSL timer, if there is a pool, and keep its index. -/
def startTimewait (l : Local) : Local :=
  if env.hasPool then
    let armed := armTimewait env now i l.pool
    { l with conn := { l.conn with timerSlot := armed.2 }, pool := armed.1 }
  else l

def tcpLastackAckHandler : Local → Local × HRes :=
  closingAck f .lastAck (tcpRtxClear env)

def tcpFinwait1AckHandler : Local → Local × HRes :=
  closingAck f .finWait1 (tcpRtxClear env)

def tcpClosingAckHandler : Local → Local × HRes :=
  closingAck f .closing (startTimewait env now i)

/-- `tcp_finwait1_fin_handler`: if the segment also acknowledges our FIN, go to TIME_WAIT
and arm the 2MSL timer — whose index is not kept. -/
def tcpFinwait1FinHandler (l : Local) : Local × HRes :=
  let c := { l.conn with rcvNxt := l.conn.rcvNxt + 1 }
  if f.has tcpAckFlag ∧ f.ack = c.sndNxt then
    let c' := { c with state := .timeWait }
    let pool := if env.hasPool then (armTimewait env now i l.pool).1 else l.pool
    ({ l with conn := c', pool := pool }, .reply (c'.ackReply now f))
  else ({ l with conn := c }, .reply (c.ackReply now f))

def tcpFinwait2FinHandler (l : Local) : Local × HRes :=
  let c := { l.conn with rcvNxt := l.conn.rcvNxt + 1 }
  (startTimewait env now i { l with conn := c }, .reply (c.ackReply now f))

/-- `tcp_timewait_fin_handler`: answer again; cancel the old 2MSL timer and arm a new one. -/
def tcpTimewaitFinHandler (l : Local) : Local × HRes :=
  let pool := match l.conn.timerSlot with
    | some k => if env.hasPool then timerCancel l.pool k else l.pool
    | none => l.pool
  (startTimewait env now i { l with pool := pool }, .reply (l.conn.ackReply now f))

end

/-! ## The table -/

/-- The handlers that `tcp_fsa_table` names for connected states. -/
inductive Handler where
  | connClose | drop | synrcvdAck | estabAck | estabFin | lastackAck
  | finwait1Ack | finwait1Fin | finwait2Fin | timewaitFin | closingAck
  deriving DecidableEq, Repr

/-- `tcp_fsa_table` for the connected states: next state and handler.  CLOSED has no
entries; the one entry of LISTEN (`tcp_listen_syn_handler`) is in `WsPi5.Tcp.Step`, since it
works on the whole table. -/
def tcpFsaTable : TcpState → TcpEvt → Option (TcpState × Handler)
  | .closed, _ | .listen, _ => none
  | _, .rst => some (.closed, .connClose)
  | .synRcvd, .ack => some (.established, .synrcvdAck)
  | .established, .fin => some (.closeWait, .estabFin)
  | .established, .ack => some (.established, .estabAck)
  | .closeWait, .ack => some (.closeWait, .drop)
  | .lastAck, .ack => some (.closed, .lastackAck)
  | .finWait1, .fin => some (.closing, .finwait1Fin)
  | .finWait1, .ack => some (.finWait2, .finwait1Ack)
  | .finWait2, .fin => some (.timeWait, .finwait2Fin)
  | .finWait2, .ack => some (.finWait2, .drop)
  | .timeWait, .fin => some (.timeWait, .timewaitFin)
  | .timeWait, .ack => some (.timeWait, .drop)
  | .closing, .ack => some (.timeWait, .closingAck)
  | _, _ => none

/-- Call a handler; `none` if it never returns. -/
def Handler.call (env : Env) (now : Tick) (i : Slot) (f : Frame) (l : Local) :
    Handler → Option (Local × HRes)
  | .connClose => some (tcpConnCloseHandler env l)
  | .drop => some (tcpDropHandler l)
  | .synrcvdAck => some (tcpSynrcvdAckHandler env f l)
  | .estabAck => tcpEstabAckHandler env now i f l
  | .estabFin => some (tcpEstabFinHandler now f l)
  | .lastackAck => some (tcpLastackAckHandler env f l)
  | .finwait1Ack => some (tcpFinwait1AckHandler env f l)
  | .finwait1Fin => some (tcpFinwait1FinHandler env now i f l)
  | .finwait2Fin => some (tcpFinwait2FinHandler env now i f l)
  | .timewaitFin => some (tcpTimewaitFinHandler env now i f l)
  | .closingAck => some (tcpClosingAckHandler env now i f l)

end WsPi5
