/-
# `WsPi5.Http.OutputFsa` — the output side, `lib/http_output_fsa.S`

One engine drives all ways.  An event is posted for a way at most once at a time (the pending
bit), goes to one of two rings by its kind, and is dropped if the ring is full, in which case
the bit is taken back.  A step takes the oldest event of the upper ring, else of the lower
one, clears its bit, looks up the way's own state in the table, and runs the handler.

`h_send` hands one piece of the response to `tcp_send`: as much as may be sent, not beyond
the response, and not across the border between header and body.  Only an accepted piece moves
RESP_PTR.
-/
import WsPi5.Http.Poll

namespace WsPi5

open Lib

/-! ## Posting -/

/-- A ring of `HTTP_FSA_Q_CAP` slots holds one event less. -/
def fsaQueueRoom : Nat := 127

def Fsa.setPending (q : Fsa) (i : Slot) (e : OEvt) (b : Bool) : Fsa :=
  { q with pending := Function.update q.pending i (Function.update (q.pending i) e b) }

/-- `http_fsa_post`. -/
def Fsa.post (q : Fsa) (i : Slot) (e : OEvt) : Fsa :=
  if q.pending i e then q
  else if e.hi then
    if q.hi.length < fsaQueueRoom then { q.setPending i e true with hi := q.hi ++ [(i, e)] } else q
  else
    if q.lo.length < fsaQueueRoom then { q.setPending i e true with lo := q.lo ++ [(i, e)] } else q

/-- `vmio_dequeue_priority`, with the pending bit cleared as `http_fsa_step` does. -/
def Fsa.next (q : Fsa) : Option (Slot × OEvt × Fsa) :=
  match q.hi, q.lo with
  | (i, e) :: rest, _ => some (i, e, { q.setPending i e false with hi := rest })
  | [], (i, e) :: rest => some (i, e, { q.setPending i e false with lo := rest })
  | [], [] => none

def Fsa.setState (q : Fsa) (i : Slot) (o : OState) : Fsa :=
  { q with ostate := Function.update q.ostate i o }

def Server.post (s : Server) (i : Slot) (e : OEvt) : Server :=
  { s with fsa := s.fsa.post i e }

def Server.observe (s : Server) (o : HObs) : Server := { s with log := o :: s.log }

/-! ## The table -/

inductive OHandler where
  | install | send | noop | decide | reset | close | keepalive
  deriving DecidableEq, Repr

/-- `http_fsa_trans_table`; `none` for an entry without a handler. -/
def httpFsaTransTable : OState → OEvt → Option (OState × OHandler)
  | .idle, .respReady => some (.setup, .install)
  | .setup, .winOpen => some (.tx, .send)
  | .setup, .tcpClosed => some (.idle, .reset)
  | .tx, .winOpen | .tx, .chunkSent => some (.tx, .send)
  | .tx, .allQueued => some (.draining, .noop)
  | .tx, .tcpClosed => some (.idle, .reset)
  | .draining, .allDrained => some (.draining, .decide)
  | .draining, .tcpClosed => some (.idle, .reset)
  | .draining, .doClose => some (.idle, .close)
  | .draining, .doKeepalive => some (.idle, .keepalive)
  | _, _ => none

/-! ## The handlers -/

/-- `RESP_LEN - RESP_PTR`. -/
def Resp.remaining (r : Resp) : Nat := (r.respLen + 2 ^ 32 - r.respPtr) % 2 ^ 32

def Resp.piece (r : Resp) (ready : Nat) : Nat × Nat :=
  let chunk := min ready r.remaining
  if r.respPtr < r.hdrLen then (r.hdrSrc + r.respPtr, min chunk (r.hdrLen - r.respPtr))
  else (r.bodyPtr + (r.respPtr - r.hdrLen), chunk)

/-- RESP_PTR past the piece. -/
def Resp.advance (r : Resp) (n : Nat) : Resp := { r with respPtr := (r.respPtr + n) % 2 ^ 32 }

/-- `h_keepalive`: what is cleared for the next request. -/
def Req.keepalive (r : Req) : Req :=
  { r with
    state := .recvHdr
    flags := {}
    parser := { r.parser with
      state := .method, off := 0, hostFound := false, closeFound := false, verMinor := 0,
      clSeen := false, contentLen := 0 } }

section
variable (env : HttpEnv) (now : Tick) (i : Slot) (s : Server)

/-- Replace the request side of the way's record. -/
def Server.setReq (r : Req) : Server := s.setHttp i { s.http i with req := r }

/-- `tcp_close` and the FIN. -/
def Server.tcpClose : Server :=
  { s with tcp := s.tcp.put i (WsPi5.tcpClose env.tcp now i (s.tcp.at i)).1 }

def hInstall : Server := s.post i .winOpen

/-- An accepted piece: the connection after `tcp_send`, RESP_PTR, the follow-up event. -/
def hSent (l : Local) (ptr n : Nat) : Server :=
  let r := (s.http i).resp.advance n
  let s' := { s with tcp := s.tcp.put i l }.setHttp i { s.http i with resp := r }
  (s'.observe (.handed i (epoch i s.tcp.log) ptr (slice s.mem ptr n))).post i
    (if r.respPtr < r.respLen then .chunkSent else .allQueued)

def hSend : Server :=
  let c := s.tcp.conn i
  let r := (s.http i).resp
  if c.state = .established then
    if r.remaining = 0 then s.post i .allQueued
    else if tcpSendReady c = 0 then s
    else
      let (ptr, n) := r.piece (tcpSendReady c).toNat
      match tcpSend env.tcp now i (slice s.mem ptr n) (s.tcp.at i) with
      | (_, none) => s
      | (l, some _) => hSent i s l ptr n
  else s.post i .tcpClosed

def hDecide : Server :=
  let f := (s.http i).req.flags
  s.post i (if f.close || !f.http11 then .doClose else .doKeepalive)

def hReset : Server :=
  (s.setReq i (s.http i).req.reset).observe (.ended i .reset)

def hClose : Server :=
  let s' := s.tcpClose env now i
  (s'.setReq i (s'.http i).req.reset).observe (.ended i .close)

def hKeepalive : Server :=
  (s.setReq i (s.http i).req.keepalive).observe (.ended i .keepalive)

def OHandler.call : OHandler → Server
  | .install => hInstall i s
  | .send => hSend env now i s
  | .noop => s
  | .decide => hDecide i s
  | .reset => hReset i s
  | .close => hClose env now i s
  | .keepalive => hKeepalive i s

end

/-- `http_fsa_step`; `none` for STEP_IDLE.  The handler runs before the way's state is
written back, and none of them reads it. -/
def httpFsaStep (env : HttpEnv) (now : Tick) (s : Server) : Option Server :=
  match s.fsa.next with
  | none => none
  | some (i, e, q) =>
      let s := { s with fsa := q }
      match httpFsaTransTable (q.ostate i) e with
      | none => some s
      | some (o, h) =>
          let s' := h.call env now i s
          some { s' with fsa := s'.fsa.setState i o }

/-- One way of `http_fsa_poll_tcp_events`. -/
def httpFsaPollTcpEvents (i : Slot) (s : Server) : Server :=
  let c := s.tcp.conn i
  match s.fsa.ostate i with
  | .idle => s
  | o =>
      if c.state = .established then
        if o = .draining then
          if c.sndUna = c.sndNxt then s.post i .allDrained else s
        else if tcpSendReady c = 0 then s
        else s.post i .winOpen
      else s.post i .tcpClosed

end WsPi5
