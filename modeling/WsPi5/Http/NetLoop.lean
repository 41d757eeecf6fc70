/-
# `WsPi5.Http.NetLoop` — the server as a machine

`net_loop` of `platform/pi/main.S`, one input a step:

    recv         a frame for TCP, an ICMP error, a frame whose protocol uses the timer pool;
                 or the ring is empty
    timers k     `timer_check` at entry k, where other users' callbacks may arm and cancel;
                 behind the last entry `http_update_date`
    slots k      `http_poll` at slot k
    events k     `http_fsa_poll_tcp_events` at way k
    drain        one `http_fsa_step`; when there is none left, back to recv

Any number of frames may come between two polls, with any contents; each step has its own
clock values, and the bytes that a dynamic route's handler wrote are part of the input of the
slot's visit.  An input that does not belong to the phase is no step.  A frame, also one put
together from fragments, is no longer than `rx_buf`.

**The inversion lemma** (`serverStep_act`).  A step of the server is one of seven things.
-/
import WsPi5.Http.Date
import WsPi5.Http.OutputFsa
import WsPi5.Tcp.NetCalls

namespace WsPi5

open Lib

/-! ## Inputs -/

/-- What the handler of a dynamic route wrote; it is given room for this much. -/
structure HandlerOut where
  bytes : List Byte := []
  fits : bytes.length ≤ httpDynBodySize := by exact Nat.zero_le _

/-- A time that `ntp_time` returns: an NTP time has 32 bits, and counts for half an hour. -/
abbrev UnixTime := Fin (2 ^ 33)

/-- What happens next. -/
inductive Input where
  | frame (now : Tick) (f : Frame)
  | icmpErr (now : Tick) (code : Nat) (lport rport : BitVec 16) (rip : BitVec 32)
  /-- Another protocol arms or cancels a timer. -/
  | otherSet (expiry : Tick) (id : Nat)
  | otherCancel (k : Nat)
  /-- No frame left. -/
  | idle
  | timer (now : Tick)
  /-- `http_update_date`, with the time once it is known. -/
  | date (time : Option UnixTime)
  | slot (start now : Tick) (out : HandlerOut)
  | event
  | drain (now : Tick)

/-! ## One slot of the poll -/

section
variable (env : HttpEnv) (i : Slot) (s : Server)

/-- The page in memory, and the response record for it. -/
def setupPage (out : HandlerOut) (f : Flags) : Page → (Nat → Byte) × Resp
  | .static b => (s.mem, setupResp b.hdr b.hdrLen b.body b.bodyLen f)
  | .dynamic b =>
      let chunk := chunkBody out.bytes
      (memWrite s.mem (env.chunkBuf i) chunk,
        setupResp b.hdr b.hdrLen (env.chunkBuf i) chunk.length f)

/-- `.Lhp_setup_resp`: record, consume, hand over to the output FSA. -/
def answerSlot (out : HandlerOut) (r : Req) (page : Page) : Server :=
  let (mem, resp) := setupPage env i s out r.flags page
  let r := { r with state := .sending }
  let s' := { s with
    tcp := s.tcp.put i (tcpRxConsume i (r.parser.reqLen + r.parser.contentLen) (s.tcp.at i))
    mem := mem }.setHttp i ⟨r, resp⟩
  (s'.observe (.answered i (epoch i s.tcp.log) r resp)).post i .respReady

def Server.visit (start now : Tick) : Visit where
  tcp := (s.tcp.conn i).state
  buf := (s.tcp.conn i).rxbuf
  len := (s.tcp.conn i).rxlen
  start := start
  now := now

def Server.seen (start now : Tick) : Seen where
  tcp := (s.tcp.conn i).state
  got := received i (s.tcp.conn i) s.tcp.log
  start := start
  now := now

/-- A visit is noted where there is a connection to visit. -/
def Server.noteVisit (start now : Tick) : Server :=
  if (s.tcp.conn i).state = .closed ∨ (s.tcp.conn i).state = .listen then s
  else s.observe (.visited i (s.seen i start now))

/-- One iteration of `.Lhp_loop` on the server. -/
def visitSlot (start now : Tick) (out : HandlerOut) : Server :=
  let s' := s.noteVisit i start now
  match pollSlot env (s.visit i start now) (s.http i).req with
  | .stay r => s'.setReq i r
  | .close r => (s'.tcpClose env now i).setReq i r
  | .answer r page => answerSlot env i s' out r page

end

/-! ## The machine -/

def putDates (env : HttpEnv) (mem : Nat → Byte) (stamp : List Byte) : Nat → Byte :=
  env.dateFields.foldl (fun m a => memWrite m a stamp) mem

/-- `http_update_date`: `http_format_date` into every template. -/
def httpUpdateDate (env : HttpEnv) (mem : Nat → Byte) (time : Option UnixTime) : Nat → Byte :=
  (time.bind fun t => httpFormatDate t.val).elim mem (putDates env mem)

/-- The connections that a call took to ESTABLISHED. -/
def newlyEstablished (t t' : Tcp) : List Slot :=
  slots.filter fun i => (t.conn i).state ≠ .established && (t'.conn i).state = .established

/-- TCP after a call, with a note of the connection it established, if any. -/
def Server.withTcp (s : Server) (t : Tcp) : Server :=
  { s with tcp := t, log := (newlyEstablished s.tcp t).map .established ++ s.log }

/-- A call into TCP. -/
def Server.callTcp (env : HttpEnv) (s : Server) (e : Event) : Option Server :=
  (step env.tcp s.tcp e).map s.withTcp

/-- One step of `net_loop`. -/
def serverStep (env : HttpEnv) (s : Server) (inp : Input) : Option Server :=
  match s.phase, inp with
  | .recv, .frame now f => if f.len ≤ ethFrameMax then s.callTcp env ⟨now, .rx f⟩ else none
  | .recv, .icmpErr now code lp rp rip => s.callTcp env ⟨now, .icmpErr code lp rp rip⟩
  | .recv, .otherSet x id | .timers _, .otherSet x id => s.callTcp env ⟨0, .otherSet x id⟩
  | .recv, .otherCancel k | .timers _, .otherCancel k => s.callTcp env ⟨0, .otherCancel k⟩
  | .recv, .idle => some { s with phase := .timers 0 }
  | .timers k, .timer now =>
      if k < s.tcp.pool.cap then
        ({ s with phase := .timers (k + 1) } : Server).callTcp env ⟨now, .visit k⟩
      else none
  | .timers k, .date time =>
      if k < s.tcp.pool.cap then none
      else some { s with mem := httpUpdateDate env s.mem time, phase := .slots 0 }
  | .slots k, .slot start now out =>
      if h : k < tcpMaxConns then
        some { visitSlot env ⟨k, h⟩ s start now out with
          phase := if k + 1 < tcpMaxConns then .slots (k + 1) else .events 0 }
      else none
  | .events k, .event =>
      if h : k < tcpMaxConns then
        some { httpFsaPollTcpEvents ⟨k, h⟩ s with
          phase := if k + 1 < tcpMaxConns then .events (k + 1) else .drain }
      else none
  | .drain, .drain now =>
      match httpFsaStep env now s with
      | some s' => some s'
      | none => some { s with phase := .recv }
  | _, _ => none

/-- The state in which `net_loop` starts: `tcp_init`, `tcp_listen(80)`, the reaper,
`http_init`. -/
def serverInit (env : HttpEnv) (cap : PoolCap) (now : Tick) (mem : Nat → Byte) : Server where
  tcp := tcpStartReaper env.tcp now (tcpListen 80 (tcpInit cap))
  http := fun _ => {}
  fsa := ⟨fun _ => .idle, fun _ _ => false, [], []⟩
  mem := mem
  phase := .recv
  log := []

/-! ## The inversion lemma -/

/-- Frames and timers are worked on: `http_poll` is not running. -/
def Phase.between : Phase → Bool
  | .recv | .timers _ => true
  | _ => false

/-- What a step of the server can be. -/
inductive ServerAct (env : HttpEnv) (s : Server) : Input → Server → Prop where
  | net {inp : Input} {e : Event} {t : Tcp} {p : Phase} (hph : s.phase.between = true)
      (hp : p.between = true) (hnet : e.call.net = true)
      (hlen : ∀ f, e.call = .rx f → f.payload.length ≤ maxPayload)
      (hinp : ∀ f, e.call = .rx f → inp = .frame e.now f)
      (ht : step env.tcp s.tcp e = some t) :
      ServerAct env s inp { s.withTcp t with phase := p }
  | idle (hph : s.phase = .recv) : ServerAct env s .idle { s with phase := .timers 0 }
  | date {k : Nat} {time : Option UnixTime} (hph : s.phase = .timers k) :
      ServerAct env s (.date time)
        { s with mem := httpUpdateDate env s.mem time, phase := .slots 0 }
  | visit {i : Slot} {start now : Tick} {out : HandlerOut} (hph : s.phase = .slots i.val) :
      ServerAct env s (.slot start now out) { visitSlot env i s start now out with
        phase := if i.val + 1 < tcpMaxConns then .slots (i.val + 1) else .events 0 }
  | event {i : Slot} (hph : s.phase = .events i.val) :
      ServerAct env s .event { httpFsaPollTcpEvents i s with
        phase := if i.val + 1 < tcpMaxConns then .events (i.val + 1) else .drain }
  | fsa {now : Tick} {s' : Server} (hph : s.phase = .drain)
      (hstep : httpFsaStep env now s = some s') : ServerAct env s (.drain now) s'
  | drained {now : Tick} (hph : s.phase = .drain) (hidle : httpFsaStep env now s = none) :
      ServerAct env s (.drain now) { s with phase := .recv }

theorem callTcp_act {env : HttpEnv} {s s' s₀ : Server} {inp : Input} {e : Event}
    (h : s.callTcp env e = some s') (hs : s = { s₀ with phase := s.phase })
    (hph : s₀.phase.between = true) (hp : s.phase.between = true) (hnet : e.call.net = true)
    (hlen : ∀ f, e.call = .rx f → f.payload.length ≤ maxPayload)
    (hinp : ∀ f, e.call = .rx f → inp = .frame e.now f) : ServerAct env s₀ inp s' := by
  obtain ⟨t, ht, rfl⟩ := Option.map_eq_some_iff.mp h
  have htcp : s.tcp = s₀.tcp := by rw [hs]
  have hout : s.withTcp t = { s₀.withTcp t with phase := s.phase } := by rw [hs]; rfl
  rw [hout]
  exact .net hph hp hnet hlen hinp (htcp ▸ ht)

theorem serverStep_act {env : HttpEnv} {s s' : Server} {inp : Input}
    (h : serverStep env s inp = some s') : ServerAct env s inp s' := by
  unfold serverStep at h
  split at h
  · rename_i now f hph
    split at h
    next hlen =>
      refine callTcp_act h rfl (by rw [hph]; rfl) (by rw [hph]; rfl) rfl ?_ ?_
      · intro g hg
        cases hg
        simp only [Frame.len, ethFrameMax] at hlen
        simp only [maxPayload]
        omega
      · intro g hg
        cases hg
        rfl
    next => cases h
  · rename_i hph
    exact callTcp_act h rfl (by rw [hph]; rfl) (by rw [hph]; rfl) rfl (fun f hf => by cases hf)
      (fun f hf => by cases hf)
  · rename_i hph
    exact callTcp_act h rfl (by rw [hph]; rfl) (by rw [hph]; rfl) rfl (fun f hf => by cases hf)
      (fun f hf => by cases hf)
  · rename_i hph
    exact callTcp_act h rfl (by rw [hph]; rfl) (by rw [hph]; rfl) rfl (fun f hf => by cases hf)
      (fun f hf => by cases hf)
  · rename_i hph
    exact callTcp_act h rfl (by rw [hph]; rfl) (by rw [hph]; rfl) rfl (fun f hf => by cases hf)
      (fun f hf => by cases hf)
  · rename_i hph
    exact callTcp_act h rfl (by rw [hph]; rfl) (by rw [hph]; rfl) rfl (fun f hf => by cases hf)
      (fun f hf => by cases hf)
  · rename_i hph
    cases h
    exact .idle hph
  · rename_i k now hph
    split at h
    · exact callTcp_act h rfl (by rw [hph]; rfl) rfl rfl (fun f hf => by cases hf)
        (fun f hf => by cases hf)
    · cases h
  · rename_i k time hph
    split at h
    · cases h
    · cases h
      exact .date hph
  · rename_i k start now out hph
    split at h
    next hk =>
      cases h
      exact .visit (i := ⟨k, hk⟩) hph
    next => cases h
  · rename_i k hph
    split at h
    next hk =>
      cases h
      exact .event (i := ⟨k, hk⟩) hph
    next => cases h
  · rename_i now hph
    split at h
    next s'' hstep =>
      cases h
      exact .fsa hph hstep
    next hidle =>
      cases h
      exact .drained hph hidle
  · cases h

end WsPi5
