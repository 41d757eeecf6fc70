/-
# `WsPi5.Http.Types` — the data of `lib/http.S` and `lib/http_output_fsa.S`

**The record.**  `Req` is what `http_poll` and the parser keep of a request, `Resp` what the
output FSA needs of a response; together they are one 64-byte `HCONN` entry.  In the source
`HDR_SRC_PTR` lies over `HDR_NM_START` and the two query fields.  They are apart here: the
parser writes `HDR_NM_START` at the first byte of every header name and reads it at the colon
behind it, and `http_poll` stores the pointer only with the parser in S_DONE or S_ERROR, so
that no field is read after its bytes were reused.

**Memory.**  Headers and bodies are read through pointers when they are sent, so the server
has a memory, `mem`.  Two things write it: `http_update_date`, which formats the date into the
response templates, and a dynamic route, which writes its chunk into the way's own buffer.

**What is outside.**  The route table and the fixed pages are parameters (`HttpEnv`), as an
appliance image may replace them.  What a dynamic route's handler returns is an input of the
poll.  The copies of request bodies and the counters are left out: nothing here reads them.
-/
import WsPi5.Tcp.Step
import WsPi5.Http.Parse

namespace WsPi5

open Lib

/-! ## The request side -/

/-- `HTTPS_*`; DONE is never stored. -/
inductive HttpState where
  | idle | recvHdr | sending | recvBody
  deriving DecidableEq, Repr, Inhabited

/-- `HSTATUS_*`, those that are sent. -/
inductive Status where
  | ok200 | bad400 | notFound404 | method405 | length411 | large413
  deriving DecidableEq, Repr, Inhabited

/-- `HCONN_FLAGS` without CL_SEEN, which stands with the parser. -/
structure Flags where
  http11 : Bool := false
  head : Bool := false
  close : Bool := false
  post : Bool := false
  deriving DecidableEq, Repr, Inhabited

/-- The request side of a record. -/
structure Req where
  state : HttpState := .idle
  status : Status := .ok200
  flags : Flags := {}
  recvTick : W := 0
  parser : Parser := {}
  queryStart : Nat := 0
  queryLen : Nat := 0
  deriving DecidableEq, Repr, Inhabited

/-! ## The response side -/

/-- `RESP_PTR`, `RESP_LEN`, `HDR_LEN`, `HDR_SRC_PTR`, `BODY_PTR`, `BODY_LEN`. -/
structure Resp where
  respPtr : Nat := 0
  respLen : Nat := 0
  hdrLen : Nat := 0
  hdrSrc : Nat := 0
  bodyPtr : Nat := 0
  bodyLen : Nat := 0
  deriving DecidableEq, Repr, Inhabited

/-- An `HCONN` record. -/
structure Hconn where
  req : Req := {}
  resp : Resp := {}
  deriving DecidableEq, Repr, Inhabited

/-! ## Routes and pages -/

abbrev httpDynBodySize : Nat := 1024
abbrev httpDynChunkSize : Nat := 1088

/-- A header and a body in memory.  Their lengths, and that of a header with a chunk buffer
behind it, are sums of 32-bit words that do not wrap: an image is far smaller. -/
structure Blob where
  hdr : Nat
  hdrLen : Nat
  body : Nat
  bodyLen : Nat
  fits : hdrLen + bodyLen + httpDynChunkSize < 2 ^ 32

def hmGet : BitVec 8 := 1
def hmHead : BitVec 8 := 2
def hmPost : BitVec 8 := 4

/-- One `ROUTE_*` entry.  A dynamic route uses the header only. -/
structure Route where
  path : List Byte
  methods : BitVec 8
  dynamic : Bool
  blob : Blob

/-- What does not change while the server runs. -/
structure HttpEnv where
  tcp : Env
  routes : List Route
  notFound : Blob
  badRequest : Blob
  methodGhp : Blob
  methodGh : Blob
  methodP : Blob
  lengthRequired : Blob
  tooLarge : Blob
  /-- `http_dyn_chunk_bufs`. -/
  dynChunkBufs : Nat
  /-- The `http_*_date` fields that `http_update_date` formats into. -/
  dateFields : List Nat

def HttpEnv.chunkBuf (env : HttpEnv) (i : Slot) : Nat :=
  env.dynChunkBufs + i.val * httpDynChunkSize

/-! ## The output FSA -/

/-- `O_*`. -/
inductive OState where
  | idle | setup | tx | draining
  deriving DecidableEq, Repr, Inhabited

/-- `E_*`. -/
inductive OEvt where
  | respReady | winOpen | chunkSent | allQueued | allDrained | tcpClosed | doClose | doKeepalive
  deriving DecidableEq, Repr

/-- `HTTP_FSA_HI_MASK`. -/
def OEvt.hi : OEvt → Bool
  | .respReady | .tcpClosed | .doClose | .doKeepalive => true
  | .winOpen | .chunkSent | .allQueued | .allDrained => false

/-- `http_fsa_ostate`, `http_fsa_evt_pending` and the two queues, oldest event first. -/
structure Fsa where
  ostate : Slot → OState
  pending : Slot → OEvt → Bool
  hi : List (Slot × OEvt)
  lo : List (Slot × OEvt)

/-! ## The server -/

/-- Where `net_loop` is: draining frames, at timer entry `k`, at slot `k` of `http_poll`, at
way `k` of `http_fsa_poll_tcp_events`, pumping the FSA. -/
inductive Phase where
  | recv
  | timers (k : Nat)
  | slots (k : Nat)
  | events (k : Nat)
  | drain
  deriving DecidableEq, Repr

/-- What a visit of `http_poll` finds: the TCP state, the bytes received on the connection so
far, and the clock where it reads it. -/
structure Seen where
  tcp : TcpState
  got : List Byte
  start : Tick
  now : Tick
  deriving DecidableEq, Repr

/-- How the output FSA lets go of a record. -/
inductive Ending where
  | reset | close | keepalive
  deriving DecidableEq, Repr

/-- Observations of the HTTP layer, most recent first in a log.  No definition of the model
reads them. -/
inductive HObs where
  /-- A frame took the connection in slot `i` to ESTABLISHED. -/
  | established (i : Slot)
  /-- `http_poll` visited slot `i`. -/
  | visited (i : Slot) (seen : Seen)
  /-- It set up a response on the slot's `epoch`-th connection. -/
  | answered (i : Slot) (epoch : Nat) (req : Req) (resp : Resp)
  /-- `h_send` had these bytes, read at `ptr`, accepted on the slot's `epoch`-th connection. -/
  | handed (i : Slot) (epoch : Nat) (ptr : Nat) (bytes : List Byte)
  /-- The output FSA reset the record. -/
  | ended (i : Slot) (how : Ending)
  deriving DecidableEq, Repr

/-- The globals of the server. -/
structure Server where
  tcp : Tcp
  http : Slot → Hconn
  fsa : Fsa
  mem : Nat → Byte
  phase : Phase
  log : List HObs

/-- Which connection of the slot is the current one: how many SYNs opened one in it. -/
def epoch (i : Slot) : List Obs → Nat
  | [] => 0
  | .opened j _ _ :: log => if j = i then epoch i log + 1 else epoch i log
  | _ :: log => epoch i log

def Server.setHttp (s : Server) (i : Slot) (h : Hconn) : Server :=
  { s with http := Function.update s.http i h }

section
variable (s : Server) (i : Slot) (h : Hconn)

@[simp] theorem Server.setHttp_tcp : (s.setHttp i h).tcp = s.tcp := rfl
@[simp] theorem Server.setHttp_fsa : (s.setHttp i h).fsa = s.fsa := rfl
@[simp] theorem Server.setHttp_mem : (s.setHttp i h).mem = s.mem := rfl
@[simp] theorem Server.setHttp_phase : (s.setHttp i h).phase = s.phase := rfl
@[simp] theorem Server.setHttp_log : (s.setHttp i h).log = s.log := rfl
@[simp] theorem Server.setHttp_self : (s.setHttp i h).http i = h := by simp [setHttp]

@[simp] theorem Server.setHttp_of_ne {j : Slot} (hne : j ≠ i) :
    (s.setHttp i h).http j = s.http j := by
  simp [setHttp, Function.update_of_ne hne]

end

end WsPi5
