/-
# `WsPi5.Tcp.Step` — the TCP module as a machine

`tcp_handle` with its table scan and dispatch, `tcp_listen_syn_handler`, `tcp_icmp_err`, the
idle reaper, `tcp_listen`, one visit of `timer_check`, and then the machine: an event is one
call into the module at one counter value, and a step is what that call does to the globals.
The machine is open: the events may come in any order, with any frames, payloads and clock
values, so that what holds of all its runs holds of every program that calls the module.

`step` is `none` only where the call never returns (the hole search of a fast retransmit).
-/
import WsPi5.Tcp.Handlers
import WsPi5.Lib.Run

namespace WsPi5

open Lib

/-! ## Scans of the connection table -/

def slots : List Slot := List.finRange tcpMaxConns

/-- The record is neither CLOSED nor LISTEN and has this tuple. -/
def Conn.matches (c : Conn) (lport rport : BitVec 16) (rip : BitVec 32) : Bool :=
  c.state ≠ .closed && c.state ≠ .listen && c.lport = lport && c.rport = rport && c.rip = rip

def Tcp.exactMatch (t : Tcp) (f : Frame) : Option Slot :=
  slots.find? fun i => (t.conn i).matches f.dport f.sport f.ipSrc

/-- The LISTEN fallback: the scan keeps the last one it sees. -/
def Tcp.listenMatch (t : Tcp) (f : Frame) : Option Slot :=
  slots.reverse.find? fun i => (t.conn i).state = .listen && (t.conn i).lport = f.dport

def Tcp.firstIn (t : Tcp) (s : TcpState) : Option Slot :=
  slots.find? fun i => (t.conn i).state = s

/-! ## Opening a connection -/

/-- `tcp_isn`: hash of the 4-tuple and the secret, plus the clock. -/
def tcpIsn (env : Env) (now : Tick) (lport rport : BitVec 16) (lip rip : BitVec 32) : W :=
  let x := (lport.setWidth 64 ||| (rport.setWidth 64 <<< 16))
    ^^^ (lip.setWidth 64 ||| (rip.setWidth 64 <<< 32)) ^^^ env.isnSecret
  let y := x * 0x517cc1b727220a95#64
  (y ^^^ (y >>> 32)).setWidth 32 + (now >>> 2).setWidth 32

/-- The segment size from the SYN: the option's value, else 536. -/
def synMss (f : Frame) : BitVec 16 :=
  if tcpParseMss f.opts = 0 then tcpDefaultMss else tcpParseMss f.opts

/-- "Populate new connection": the fields that the SYN handler writes.  `SND_BUF_*`, the
RTT fields, `SACK_RECOVER` and the buffers keep what the slot's last user left. -/
def synConn (now : Tick) (f : Frame) (lport : BitVec 16) (isn : W) (c : Conn) : Conn :=
  { c with
    state := .synRcvd
    rxlen := 0
    rtxlen := 0
    rtxcount := 0
    timerSlot := none
    peerMss := synMss f
    cwnd := (synMss f).setWidth 32
    ssthresh := cwndCap
    dupAckCnt := 0
    oooSlots := []
    lport := lport
    rport := f.sport
    rip := f.ipSrc
    rmac := f.ethSrc
    sndWnd := f.window.setWidth 32
    sndUna := isn
    sndNxt := isn
    rcvNxt := f.seq + 1
    tsEnabled := (tcpParseTsopt f.opts).isSome
    tsRecent := (tcpParseTsopt f.opts).getD c.tsRecent
    sndWscale := (tcpParseWscale f.opts).getD 0
    rcvWscale := tcpOurWscale
    sackEnabled := tcpParseSackPermitted f.opts
    lastActive := now
    persistShift := 0 }

section
variable (env : Env) (now : Tick)

/-- The SYN-ACK. -/
def synAckFrame (f : Frame) (lport : BitVec 16) (isn : W) (c : Conn) : Frame :=
  tcpBuildFrame env now (synConn now f lport isn c) isn tcpSynAck []

/-- The new connection in slot `j`: SYN-ACK built at `SND_NXT = ISN`, then saved. -/
def openSlot (f : Frame) (lport : BitVec 16) (j : Slot) (l : Local) : Local :=
  let isn := tcpIsn env now lport f.sport f.ipDst f.ipSrc
  let sa := synAckFrame env now f lport isn l.conn
  tcpRtxSave env now j sa
    { l with
      conn := { synConn now f lport isn l.conn with sndNxt := isn + 1 }
      log := .opened j f sa :: l.log }

/-- The slot for a new connection: the first CLOSED one, else the first SYN_RCVD one, which
is evicted. -/
def Tcp.allocSlot (t : Tcp) : Option (Slot × Local) :=
  match t.firstIn .closed with
  | some j => some (j, t.at j)
  | none =>
      match t.firstIn .synRcvd with
      | some j => some (j, (tcpRtxClear env (t.at j)).withState .closed)
      | none => none

/-- `tcp_listen_syn_handler`; `none` for `-1`. -/
def tcpListenSynHandler (f : Frame) (listener : Slot) (t : Tcp) : Option (Tcp × Frame) :=
  match t.allocSlot env with
  | none => none
  | some (j, l) =>
      let lport := (t.conn listener).lport
      let isn := tcpIsn env now lport f.sport f.ipDst f.ipSrc
      some (t.put j (openSlot env now f lport j l), synAckFrame env now f lport isn l.conn)

/-! ## `tcp_handle` -/

/-- `tcp_rst_allow`: a token bucket refilled once per second. -/
def tcpRstAllow (t : Tcp) : Tcp × Bool :=
  let t' := if env.freq ≤ now - t.rstLastTick
    then { t with rstTokens := tcpRstBurst, rstLastTick := now } else t
  if t'.rstTokens = 0 then (t', false) else ({ t' with rstTokens := t'.rstTokens - 1 }, true)

/-- The RST that answers a segment without a connection. -/
def rstReply (f : Frame) : Frame :=
  if f.has tcpAckFlag then tcpBuildReply f f.ack 0 tcpRst 0 []
  else
    let segLen := BitVec.ofNat 32 f.payload.length
      + (if f.has tcpSyn then 1 else 0) + (if f.has tcpFin then 1 else 0)
    tcpBuildReply f 0 (f.seq + segLen) tcpRstAck 0 []

/-- `.Ltcp_no_conn`. -/
def Tcp.noConn (f : Frame) (t : Tcp) : Tcp × Option Frame :=
  if f.has tcpRst then (t, none)
  else
    match tcpRstAllow env now t with
    | (t', true) => (t', some (rstReply f))
    | (t', false) => (t', none)

/-- `TCONN_LAST_ACTIVE = now`. -/
def Tcp.touch (t : Tcp) (i : Slot) : Tcp :=
  t.put i ((t.at i).stamp now)

/-- RFC 5961: what a RST with this sequence number may do. -/
inductive RstCheck where
  | accept | challenge | discard
  deriving DecidableEq, Repr

/-- `.Ltcp_rst_seq_validate`. -/
def rstCheck (c : Conn) (f : Frame) : RstCheck :=
  if f.seq = c.rcvNxt then .accept
  else if f.seq - c.rcvNxt < BitVec.ofNat 32 tcpRxbufSize - BitVec.ofNat 32 c.rxlen
    then .challenge else .discard

/-- `.Ltcp_fsa_lookup`: write the next state, call the handler, on `-1` restore and RST. -/
def Tcp.dispatch (i : Slot) (evt : TcpEvt) (f : Frame) (t : Tcp) :
    Option (Tcp × Option Frame) :=
  match tcpFsaTable (t.conn i).state evt with
  | none => some (t.noConn env now f)
  | some (next, h) =>
      (h.call env now i f ((t.at i).withState next)).map fun
        | (l', .reply g) => ((t.put i l').touch now i, some g)
        | (l', .quiet) => ((t.put i l').touch now i, none)
        | (l', .rst) =>
            (t.put i (l'.withState (t.conn i).state)).noConn env now f

def Tcp.handleConn (i : Slot) (f : Frame) (t : Tcp) : Option (Tcp × Option Frame) :=
  match tcpClassifyEvent f with
  | none => some (t.noConn env now f)
  | some .rst =>
      match rstCheck (t.conn i) f with
      | .accept => t.dispatch env now i .rst f
      | .challenge => some (t, some ((t.conn i).ackReply now f))
      | .discard => some (t, none)
  | some evt => t.dispatch env now i evt f

/-- A segment for a listening port: RSTs are dropped, a SYN opens, the rest is refused. -/
def Tcp.handleListen (i : Slot) (f : Frame) (t : Tcp) : Tcp × Option Frame :=
  match tcpClassifyEvent f with
  | some .rst => (t, none)
  | some .syn =>
      match tcpListenSynHandler env now f i t with
      | some (t', g) => (t'.touch now i, some g)
      | none => t.noConn env now f
  | _ => t.noConn env now f

/-- `tcp_handle` on a segment that passed the length and checksum tests; the reply is the
frame it leaves in the buffer.  `none`: it never returns. -/
def tcpHandle (f : Frame) (t : Tcp) : Option (Tcp × Option Frame) :=
  match t.exactMatch f with
  | some i => t.handleConn env now i f
  | none =>
      match t.listenMatch f with
      | some i => some (t.handleListen env now i f)
      | none => some (t.noConn env now f)

/-! ## Everything else that changes the table -/

/-- `tcp_rtx_clear` and CLOSED, as several paths tear a connection down. -/
def Tcp.tearDown (i : Slot) (t : Tcp) : Tcp :=
  t.put i ((tcpRtxClear env (t.at i)).withState .closed)

/-- `tcp_icmp_err`: protocol and port unreachable always close, other codes close a
half-open connection. -/
def tcpIcmpErr (code : Nat) (lport rport : BitVec 16) (rip : BitVec 32) (t : Tcp) : Tcp :=
  match slots.find? fun i => (t.conn i).matches lport rport rip with
  | none => t
  | some i =>
      if code = 2 ∨ code = 3 ∨ (t.conn i).state = .synRcvd then t.tearDown env i else t

/-- The idle limit of a state, in seconds; CLOSED, LISTEN and TIME_WAIT are not reaped. -/
def idleLimit : TcpState → Option Tick
  | .closed | .listen | .timeWait => none
  | .established => some 120
  | _ => some 60

/-- One iteration of `.Lreap_loop`. -/
def reapOne (t : Tcp) (i : Slot) : Tcp :=
  match idleLimit (t.conn i).state with
  | none => t
  | some limit =>
      if limit ≤ (now - (t.conn i).lastActive) / env.freq then t.tearDown env i else t

/-- Arm the reaper (`tcp_start_reaper`, and the end of `tcp_idle_reaper_cb`). -/
def tcpStartReaper (t : Tcp) : Tcp :=
  if env.hasPool then
    let armed := timerSet t.pool (now + env.freq * tcpReaperInterval) .tcpIdleReaperCb
    { t with pool := armed.1, reaperSlot := armed.2 }
  else t

def tcpIdleReaperCb (t : Tcp) : Tcp :=
  tcpStartReaper env now (slots.foldl (reapOne env now) t)

/-- `tcp_listen` (a full table changes nothing). -/
def tcpListen (port : BitVec 16) (t : Tcp) : Tcp :=
  match t.firstIn .closed with
  | some i => t.put i { t.at i with
      conn := { t.conn i with state := .listen, lport := rev16 port } }
  | none => t

/-- Call what a pool entry holds.  The callbacks of other users do not touch TCP. -/
def runCallback (t : Tcp) : Callback → Tcp
  | .tcpRetransmitCb i => t.put i (tcpRetransmitCb env now i (t.at i))
  | .tcpTimewaitCb i => t.put i (tcpTimewaitCb (t.at i))
  | .tcpPersistCb i => t.put i (tcpPersistCb env now i (t.at i))
  | .tcpIdleReaperCb => tcpIdleReaperCb env now t
  | .other _ => t

/-- "Clear callback BEFORE calling". -/
def Tcp.freeEntry (t : Tcp) (k : Nat) : Tcp :=
  { t with pool := { t.pool with slot := Function.update t.pool.slot k none } }

/-- One visit of `timer_check`: a due entry is freed, then called. -/
def timerVisit (k : Nat) (t : Tcp) : Tcp :=
  match timerDue t.pool now k with
  | none => t
  | some e => runCallback env now (t.freeEntry k) e.callback

end

/-! ## The machine -/

/-- The calls into the module. -/
inductive Call where
  | rx (f : Frame)
  | send (i : Slot) (payload : List Byte)
  | close (i : Slot)
  | consume (i : Slot) (n : Nat)
  | flush (i : Slot)
  | icmpErr (code : Nat) (lport rport : BitVec 16) (rip : BitVec 32)
  | visit (k : Nat)
  | listen (port : BitVec 16)
  | startReaper
  /-- Another user of the pool arms a timer. -/
  | otherSet (expiry : Tick) (id : Nat)
  /-- Another user of the pool cancels by index. -/
  | otherCancel (k : Nat)
  deriving DecidableEq, Repr

/-- A call and the counter value it reads. -/
structure Event where
  now : Tick
  call : Call
  deriving DecidableEq, Repr

/-- What a call does; `none` if it never returns. -/
def step (env : Env) (t : Tcp) (e : Event) : Option Tcp :=
  match e.call with
  | .rx f => (tcpHandle env e.now f t).map Prod.fst
  | .send i p => some (t.put i (tcpSend env e.now i p (t.at i)).1)
  | .close i => some (t.put i (tcpClose env e.now i (t.at i)).1)
  | .consume i n => some (t.put i (tcpRxConsume i n (t.at i)))
  | .flush i => some (t.put i (tcpRxFlush i (t.at i)))
  | .icmpErr c lp rp rip => some (tcpIcmpErr env c lp rp rip t)
  | .visit k => some (timerVisit env e.now k t)
  | .listen port => some (tcpListen port t)
  | .startReaper => some (tcpStartReaper env e.now t)
  | .otherSet x id => some { t with pool := (timerSet t.pool x (.other id)).1 }
  | .otherCancel k => some { t with pool := timerCancel t.pool k }

/-- `tcp_init`, with a timer pool of `cap` slots. -/
def tcpInit (cap : PoolCap) : Tcp where
  conn := fun _ => {}
  pool := timerPoolInit Callback cap
  rstTokens := tcpRstBurst
  rstLastTick := 0
  reaperSlot := some 0
  log := []

/-! ## What a log says about the connection now in a slot -/

/-- What the application took on the connection now in slot `i`, in order. -/
def taken (i : Slot) : List Obs → List Byte
  | [] => []
  | .opened j _ _ :: log => if j = i then [] else taken i log
  | .consumed j bytes :: log => if j = i then taken i log ++ bytes else taken i log
  | .accepted _ _ :: log | .finSent _ _ :: log | .resent _ _ :: log | .probed _ _ :: log =>
      taken i log

/-- The bytes taken so far, followed by those in the buffer. -/
def received (i : Slot) (c : Conn) (log : List Obs) : List Byte :=
  taken i log ++ slice c.rxbuf 0 c.rxlen

end WsPi5
