/-
# `WsPi5.Http.Poll` — one slot of `http_poll`

The body of `.Lhp_loop` for one connection, as a function of what the visit finds (`Visit`)
and of the request record.  Its result is one of three things to do (`Verdict`): keep the
record, close the connection, or answer with a page.

    not ESTABLISHED          close a half-closed one, else back to IDLE        `skipOrReset`
    IDLE                     start receiving, then as RECV_HDR
    RECV_HDR                 timeout, first byte, parse                        `tryParse`
      S_DONE                 version, method, host, connection, query, 411     `fsaDone`
      S_ERROR                400
    RECV_BODY                timeout, then the body check again                `resumeBody`
    body check               none: dispatch; too large: 413; wait; dispatch    `bodyCheck`
    dispatch                 route, allowed method, static or dynamic          `dispatchRoute`

Each test is made on the flags as the tests before it left them, as in the source.
-/
import WsPi5.Http.Types

namespace WsPi5

open Lib

/-- What the visit of a slot finds: the TCP state, the receive buffer, and the clock as
`.Lhp_start_recv` and the timeout test read it. -/
structure Visit where
  tcp : TcpState
  buf : Nat → Byte
  len : Nat
  start : Tick
  now : Tick

/-- What to answer with. -/
inductive Page where
  | static (blob : Blob)
  | dynamic (blob : Blob)

/-- What the visit leads to; the record is the one after the visit. -/
inductive Verdict where
  | stay (r : Req)
  | close (r : Req)
  | answer (r : Req) (page : Page)

/-- `.Lhp_reset_hconn`, `h_reset` and `h_close`: STATE, FLAGS and CONTENT_LEN. -/
def Req.reset (r : Req) : Req :=
  { r with
    state := .idle
    flags := {}
    parser := { r.parser with contentLen := 0, clSeen := false } }

section
variable (env : HttpEnv) (v : Visit)

/-! ## Tests on the bytes -/

/-- The bytes at `off` are exactly these. -/
def textAt (buf : Nat → Byte) (off : Nat) (text : List Byte) : Bool :=
  slice buf off text.length = text

inductive Method where
  | get | head | post
  deriving DecidableEq, Repr

/-- `GET `, `HEAD ` or `POST ` at the start of the buffer. -/
def methodOf (buf : Nat → Byte) : Option Method :=
  if textAt buf 0 (ascii "GET ") then some .get
  else if textAt buf 0 (ascii "HEAD ") then some .head
  else if textAt buf 0 (ascii "POST ") then some .post
  else none

/-- The scan for `?` over at most `n` bytes from `pos` on. -/
def findQuery (buf : Nat → Byte) : Nat → Nat → Option Nat
  | 0, _ => none
  | n + 1, pos => if buf pos = 0x3F then some pos else findQuery buf n (pos + 1)

/-- `.Lhp_qs_scan`: the path ends at the first `?`. -/
def splitQuery (buf : Nat → Byte) (r : Req) : Req :=
  match findQuery buf r.parser.uriLen r.parser.uriStart with
  | none => { r with queryStart := 0, queryLen := 0 }
  | some q =>
      { r with
        parser := { r.parser with uriLen := q - r.parser.uriStart }
        queryStart := q + 1
        queryLen := r.parser.uriLen - (q - r.parser.uriStart) - 1 }

/-! ## Answers -/

def respond (status : Status) (blob : Blob) (r : Req) : Verdict :=
  .answer { r with status := status } (.static blob)

/-- A fixed page, and force `Connection: close`. -/
def respondClose (status : Status) (blob : Blob) (r : Req) : Verdict :=
  respond status blob { r with flags := { r.flags with close := true } }

def respBadRequest : Req → Verdict := respond .bad400 env.badRequest
def respBadMethod : Req → Verdict := respond .method405 env.methodGhp
def resp404 : Req → Verdict := respond .notFound404 env.notFound
def resp411 : Req → Verdict := respondClose .length411 env.lengthRequired
def resp413 : Req → Verdict := respondClose .large413 env.tooLarge

/-- `.Lhp_bad_method_per_route`: the Allow line that fits the route. -/
def respMethodPerRoute (methods : BitVec 8) : Req → Verdict :=
  respond .method405 <|
    if methods = hmGet ||| hmHead then env.methodGh
    else if methods = hmPost then env.methodP
    else env.methodGhp

def Flags.methodBit (f : Flags) : BitVec 8 :=
  if f.post then hmPost else if f.head then hmHead else hmGet

def httpMatchUri (r : Req) : Option Route :=
  env.routes.find? fun rt =>
    rt.path.length = r.parser.uriLen && textAt v.buf r.parser.uriStart rt.path

/-- `.Lhp_body_done`: route, allowed methods, page. -/
def dispatchRoute (r : Req) : Verdict :=
  match httpMatchUri env v r with
  | none => resp404 env r
  | some rt =>
      if rt.methods &&& r.flags.methodBit = 0 then respMethodPerRoute env rt.methods r
      else
        .answer { r with status := .ok200 }
          (if rt.dynamic then .dynamic rt.blob else .static rt.blob)

/-- `.Lhp_body_check`. -/
def bodyCheck (r : Req) : Verdict :=
  if r.parser.contentLen = 0 then dispatchRoute env v r
  else if httpMaxRecvBody < r.parser.contentLen then resp413 env r
  else if v.len < r.parser.reqLen + r.parser.contentLen then .stay { r with state := .recvBody }
  else dispatchRoute env v r

/-! ## A complete header -/

/-- `.Lhp_host_ok` on: Connection, query, 411, body. -/
def hostOk (r : Req) : Verdict :=
  let r := { r with flags :=
    { r.flags with close := r.flags.close || r.parser.closeFound || !r.flags.http11 } }
  let r := splitQuery v.buf r
  if r.flags.post && !r.parser.clSeen then resp411 env r else bodyCheck env v r

/-- `.Lhp_method_done`: HTTP/1.1 needs a Host. -/
def methodDone (r : Req) : Verdict :=
  if r.flags.http11 && !r.parser.hostFound then respBadRequest env r else hostOk env v r

/-- `.Lhp_fsa_done`. -/
def fsaDone (r : Req) : Verdict :=
  if textAt v.buf (r.parser.uriStart + r.parser.uriLen + 1) (ascii "HTTP") then
    let r := { r with flags :=
      { r.flags with http11 := r.flags.http11 || r.parser.verMinor = 0x31 } }
    match methodOf v.buf with
    | none => respBadMethod env r
    | some .get => methodDone env v r
    | some .head => methodDone env v { r with flags := { r.flags with head := true } }
    | some .post => methodDone env v { r with flags := { r.flags with post := true } }
  else respBadRequest env r

/-! ## The visit -/

/-- Slowloris: 30 seconds since RECV_TICK, in 32-bit ticks. -/
def timedOut (r : Req) : Bool :=
  env.tcp.freq.setWidth 32 * 30 ≤ v.now.setWidth 32 - r.recvTick

def firstByteOk (r : Req) : Bool :=
  r.parser.off ≠ 0 || (0x41 ≤ v.buf 0 && v.buf 0 ≤ 0x5A)

/-- `.Lhp_try_parse`. -/
def tryParse (r : Req) : Verdict :=
  if timedOut env v r then .close r.reset
  else if v.len = 0 then .stay r
  else if firstByteOk v r then
    let r := { r with parser := httpParseRequest v.buf v.len r.parser }
    match r.parser.state with
    | .done => fsaDone env v r
    | .error => respBadRequest env r
    | _ => .stay r
  else .close r.reset

/-- `.Lhp_resume_body`. -/
def resumeBody (r : Req) : Verdict :=
  if timedOut env v r then .close r.reset
  else if v.len = 0 then .stay r
  else bodyCheck env v r

/-- `.Lhp_not_estab`. -/
def skipOrReset (r : Req) : Verdict :=
  if v.tcp = .closeWait then
    if r.state = .sending then .stay r else .close r.reset
  else .stay { r with state := .idle }

/-- One iteration of `.Lhp_loop`. -/
def pollSlot (r : Req) : Verdict :=
  if v.tcp = .established then
    match r.state with
    | .idle => tryParse env v { r with state := .recvHdr, recvTick := v.start.setWidth 32 }
    | .recvHdr => tryParse env v r
    | .sending => .stay r
    | .recvBody => resumeBody env v r
  else skipOrReset v r

end

/-! ## The response record -/

/-- `http_chunk_encode`: the size in hexadecimal, the data, each with CRLF. -/
def httpChunkEncode (data : List Byte) : List Byte :=
  let nibble (n : Nat) : Byte := UInt8.ofNat (if n < 10 then 0x30 + n else 0x57 + n)
  let n := data.length
  if n = 0 then []
  else
    (if 0x1000 ≤ n then [nibble (n / 0x1000 % 16)] else []) ++
    (if 0x100 ≤ n then [nibble (n / 0x100 % 16)] else []) ++
    (if 0x10 ≤ n then [nibble (n / 0x10 % 16)] else []) ++
    [nibble (n % 16)] ++ [0x0D, 0x0A] ++ data ++ [0x0D, 0x0A]

/-- What a dynamic route puts into its chunk buffer: the chunk and the last chunk. -/
def chunkBody (data : List Byte) : List Byte := httpChunkEncode data ++ ascii "0\r\n\r\n"

/-- `.Lhp_setup_resp`: a response of the header alone for HEAD. -/
def setupResp (hdr hdrLen body bodyLen : Nat) (f : Flags) : Resp where
  respPtr := 0
  respLen := if f.head then hdrLen else bodyLen + hdrLen
  hdrLen := hdrLen
  hdrSrc := hdr
  bodyPtr := body
  bodyLen := bodyLen

end WsPi5
