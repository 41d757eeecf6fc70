/-
# `WsPi5.Tcp.Types` — the data of `lib/tcp.S`

The connection record is `TCONN_*` of `include/tcp.inc` with the slot's three buffers
(`tcp_rxbuf_pool`, `tcp_sndbuf_pool`, `tcp_rtxbuf_pool`, each indexed by the slot number)
folded into it: every function that has the record has the buffers.

**Widths.**  A field that takes part in 32-bit arithmetic which may wrap (sequence numbers,
windows, `SND_BUF_USED`, the RTT state) is a `BitVec 32`; a clock value is a `BitVec 64`.
The small counters are `Nat`s and the places that store them say `% 256` where the store
truncates.  `SND_BUF_HEAD` and `SND_BUF_TAIL` are always stored masked.

**Frames.**  A frame is the record of the header fields that TCP reads or writes, the option
bytes and the payload; ports and addresses are the words as loaded (network order), which
the code only compares and copies.  `Frame.len` is the length on the wire.

**The log.**  `Obs` is what an observer of the connection table would write down: which
connection was opened with which sequence numbers, what `tcp_send` accepted, what was sent
again.  No definition of the model reads it; it is there so that a statement can say "the
byte that was first sent at this position of *this* connection".
-/
import WsPi5.TimerPool

namespace WsPi5

abbrev Byte := UInt8

/-- A 32-bit register or field. -/
abbrev W := BitVec 32

/-- The bytes of an ASCII text. -/
def ascii (text : String) : List Byte := text.toList.map fun c => UInt8.ofNat c.toNat

/-! ## Constants (`include/tcp.inc`) -/

abbrev tcpMaxConns : Nat := 128
def tcpRxbufSize : Nat := 2048
def tcpSndbufSize : Nat := 262144
def tcpMaxRetries : Nat := 8
def tcpDefaultMss : BitVec 16 := 536
def tcpOurMss : Nat := 1460
def tcpOurWscale : Byte := 0
def tcpDupackThresh : Nat := 3
def tcpRstBurst : Nat := 10
def tcpReaperInterval : Tick := 30
def tcpPersistInitial : W := 5
def tcpPersistMax : W := 60
/-- `mov w10, #0x40000`: the cap on the congestion window, 256 KB. -/
def cwndCap : W := 0x40000

/-- The size of the transmit buffers in `main.S` (`ETH_FRAME_MAX`). -/
def ethFrameMax : Nat := 1514

def tcpFin : BitVec 8 := 0x01
def tcpSyn : BitVec 8 := 0x02
def tcpRst : BitVec 8 := 0x04
def tcpAckFlag : BitVec 8 := 0x10
def tcpRstAck : BitVec 8 := 0x14
def tcpSynAck : BitVec 8 := 0x12
def tcpFinAck : BitVec 8 := 0x11
def tcpPshAck : BitVec 8 := 0x18

abbrev Slot := Fin tcpMaxConns

instance : NeZero tcpMaxConns := ⟨by decide⟩

/-! ## States, events, frames -/

/-- `TCPS_*`. -/
inductive TcpState where
  | closed | listen | synRcvd | established | closeWait
  | lastAck | finWait1 | finWait2 | timeWait | closing
  deriving DecidableEq, Repr, Inhabited

/-- `TCP_EVT_*`. -/
inductive TcpEvt where
  | rst | syn | synack | fin | ack
  deriving DecidableEq, Repr

/-- An Ethernet frame with an IPv4 header without options and a TCP segment. -/
structure Frame where
  ethDst : BitVec 48 := 0
  ethSrc : BitVec 48 := 0
  ipSrc : BitVec 32 := 0
  ipDst : BitVec 32 := 0
  sport : BitVec 16 := 0
  dport : BitVec 16 := 0
  seq : W := 0
  ack : W := 0
  flags : BitVec 8 := 0
  window : BitVec 16 := 0
  opts : List Byte := []
  payload : List Byte := []
  deriving DecidableEq, Repr, Inhabited

/-- ETH(14) + IP(20) + TCP(20), the options and the payload. -/
def Frame.len (f : Frame) : Nat := 54 + f.opts.length + f.payload.length

def Frame.has (f : Frame) (flag : BitVec 8) : Bool := f.flags &&& flag != 0

/-- The callbacks TCP arms, with their context, and those of other users of the pool. -/
inductive Callback where
  | tcpRetransmitCb (conn : Slot)
  | tcpTimewaitCb (conn : Slot)
  | tcpPersistCb (conn : Slot)
  | tcpIdleReaperCb
  | other (id : Nat)
  deriving DecidableEq, Repr

abbrev Pool := TimerPool Callback

/-! ## The connection record -/

/-- One entry of `TCONN_OOO_SLOTS`. -/
structure OooSlot where
  seq : W
  len : Nat
  deriving DecidableEq, Repr

/-- `TCONN_*`, with the slot's receive, send and retransmit buffers. -/
structure Conn where
  state : TcpState := .closed
  lport : BitVec 16 := 0
  rport : BitVec 16 := 0
  rip : BitVec 32 := 0
  rmac : BitVec 48 := 0
  sndUna : W := 0
  sndNxt : W := 0
  rcvNxt : W := 0
  sndWnd : W := 0
  rxlen : Nat := 0
  /-- `TIMER_SLOT`, `none` for `-1` (a zeroed record holds index 0). -/
  timerSlot : Option Nat := some 0
  rtxlen : Nat := 0
  rtxcount : Nat := 0
  tsEnabled : Bool := false
  tsRecent : W := 0
  peerMss : BitVec 16 := 0
  dupAckCnt : Nat := 0
  /-- The first `OOO_COUNT` entries of `OOO_SLOTS`. -/
  oooSlots : List OooSlot := []
  cwnd : W := 0
  ssthresh : W := 0
  lastActive : Tick := 0
  persistShift : Nat := 0
  sndWscale : Nat := 0
  rcvWscale : Byte := 0
  sackEnabled : Bool := false
  sndBufHead : Nat := 0
  sndBufTail : Nat := 0
  sndBufUsed : W := 0
  srtt : W := 0
  rttvar : W := 0
  rto : W := 0
  sendTick : Tick := 0
  sackRecover : W := 0
  rxbuf : Nat → Byte := fun _ => 0
  sndbuf : Nat → Byte := fun _ => 0
  rtxbuf : Frame := {}

/-- `ldrh w, [PEER_MSS]`: the segment size as a register value. -/
def Conn.mss (c : Conn) : W := c.peerMss.setWidth 32

/-- `SND_NXT - SND_UNA`. -/
def Conn.inFlight (c : Conn) : W := c.sndNxt - c.sndUna

/-- The advertised window: free space of the receive buffer, as a halfword. -/
def Conn.rcvWindow (c : Conn) : BitVec 16 :=
  BitVec.ofNat 16 tcpRxbufSize - BitVec.ofNat 16 c.rxlen

/-! ## Observations -/

/-- What happened on the connections, most recent first in a log. -/
inductive Obs where
  /-- `tcp_listen_syn_handler` put a new connection into slot `i`. -/
  | opened (i : Slot) (syn synAck : Frame)
  /-- `tcp_send` accepted the payload of this frame. -/
  | accepted (i : Slot) (frame : Frame)
  /-- `tcp_close` sent our FIN. -/
  | finSent (i : Slot) (frame : Frame)
  /-- `tcp_retransmit_cb` or `tcp_fast_retransmit` sent this frame. -/
  | resent (i : Slot) (frame : Frame)
  /-- `tcp_persist_cb` sent a window probe. -/
  | probed (i : Slot) (frame : Frame)
  /-- The application took these bytes from the front of the receive buffer. -/
  | consumed (i : Slot) (bytes : List Byte)
  deriving DecidableEq, Repr

def Obs.slot : Obs → Slot
  | .opened i _ _ | .accepted i _ | .finSent i _ | .resent i _ | .probed i _
  | .consumed i _ => i

/-! ## The state of the TCP module -/

/-- What does not change while the server runs: addresses, clock rate, the ISN secret, and
whether `tcp_set_timer_pool` and `tcp_set_send_ctx` have been called. -/
structure Env where
  freq : Tick
  ourIp : BitVec 32
  ourMac : BitVec 48
  isnSecret : BitVec 64
  hasPool : Bool
  hasSendFn : Bool
  deriving Repr

/-- The globals of `tcp.S`, with the timer pool they point to. -/
structure Tcp where
  conn : Slot → Conn
  pool : Pool
  rstTokens : Nat
  rstLastTick : Tick
  reaperSlot : Option Nat
  log : List Obs

/-- What the code of one connection may touch: its record, the shared pool, the log. -/
structure Local where
  conn : Conn
  pool : Pool
  log : List Obs

/-- Store `TCONN_STATE`. -/
def Local.withState (l : Local) (s : TcpState) : Local :=
  { l with conn := { l.conn with state := s } }

@[simp] theorem Local.withState_state (l : Local) (s : TcpState) :
    (l.withState s).conn.state = s := rfl
@[simp] theorem Local.withState_pool (l : Local) (s : TcpState) :
    (l.withState s).pool = l.pool := rfl
@[simp] theorem Local.withState_log (l : Local) (s : TcpState) :
    (l.withState s).log = l.log := rfl

/-- Store `TCONN_LAST_ACTIVE`. -/
def Local.stamp (l : Local) (now : Tick) : Local :=
  { l with conn := { l.conn with lastActive := now } }

@[simp] theorem Local.stamp_pool (l : Local) (now : Tick) : (l.stamp now).pool = l.pool := rfl
@[simp] theorem Local.stamp_log (l : Local) (now : Tick) : (l.stamp now).log = l.log := rfl

/-- The local view of slot `i`. -/
def Tcp.at (t : Tcp) (i : Slot) : Local := ⟨t.conn i, t.pool, t.log⟩

def Tcp.put (t : Tcp) (i : Slot) (l : Local) : Tcp :=
  { t with conn := Function.update t.conn i l.conn, pool := l.pool, log := l.log }

section
variable (t : Tcp) (i : Slot) (l : Local)

@[simp] theorem Tcp.at_conn : (t.at i).conn = t.conn i := rfl
@[simp] theorem Tcp.at_pool : (t.at i).pool = t.pool := rfl
@[simp] theorem Tcp.at_log : (t.at i).log = t.log := rfl
@[simp] theorem Tcp.put_conn_self : (t.put i l).conn i = l.conn := by simp [Tcp.put]
@[simp] theorem Tcp.put_pool : (t.put i l).pool = l.pool := rfl
@[simp] theorem Tcp.put_log : (t.put i l).log = l.log := rfl

@[simp] theorem Tcp.put_at_self : (t.put i l).at i = l := by simp [Tcp.at]

@[simp] theorem Tcp.put_conn_of_ne {j : Slot} (h : j ≠ i) : (t.put i l).conn j = t.conn j := by
  simp [Tcp.put, Function.update_of_ne h]

end

end WsPi5
