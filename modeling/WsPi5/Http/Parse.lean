/-
# `WsPi5.Http.Parse` — the request parser of `lib/http_parse.S`

A table-driven parser that takes one byte at a time and keeps its state in the connection's
HTTP record between calls.  `http_parse_request` runs it from `PARSE_OFF` to the end of the
buffered bytes, or to S_DONE or S_ERROR.

**The record.**  `Parser` holds bytes 32 to 63 of `HCONN` and the flag CL_SEEN, which the
parser alone sets.  Offsets are below 2^16 because `RXLEN` is; only the stored URI length is a
difference that could wrap, so it alone says so.

**The two header values.**  At the colon behind `Connection` or `Content-Length` the parser
does not wait for the value: it looks ahead, from the colon over the bytes that happen to be
buffered (`lookClose`, `lookCl`).  These are the only places where the length of the buffer
matters other than as the end of the loop.

The names are compared with `0x20` or-ed into each byte, as the source does, so a few bytes
that are no letters pass for letters.
-/
import WsPi5.Tcp.Types

namespace WsPi5

/-! ## States, classes, actions -/

/-- `S_METHOD` to `S_ERROR`. -/
inductive ParseState where
  | method | mSp | uri | uSp | vh | vt1 | vt2 | vp | vslash | vmaj | vdot | vmin | rlCr
  | hdrSt | hdrNm | hdrVl | hdrCr | endCr | done | error
  deriving DecidableEq, Repr, Inhabited

/-- `cmp w4, #S_DONE; b.hs`. -/
def ParseState.terminal : ParseState → Bool
  | .done | .error => true
  | _ => false

/-- `CC_*`. -/
inductive CharClass where
  | alpha | digit | sp | cr | lf | colon | slash | dot | other
  deriving DecidableEq, Repr

/-- `http_classify_char`: the 256-byte table, by ranges. -/
def httpClassifyChar (b : Byte) : CharClass :=
  if (0x41 ≤ b ∧ b ≤ 0x5A) ∨ (0x61 ≤ b ∧ b ≤ 0x7A) then .alpha
  else if 0x30 ≤ b ∧ b ≤ 0x39 then .digit
  else if b = 0x20 then .sp
  else if b = 0x0D then .cr
  else if b = 0x0A then .lf
  else if b = 0x3A then .colon
  else if b = 0x2F then .slash
  else if b = 0x2E then .dot
  else .other

/-- The action in the upper three bits of a table byte. -/
inductive Action where
  | none | uriStart | uriEnd | verMinor | hdrNameStart | hdrCheckHost | reqDone
  deriving DecidableEq, Repr

/-- `http_fsa_table`, decoded. -/
def httpFsaTable : ParseState → CharClass → Action × ParseState
  | .method, .alpha => (.none, .method)
  | .method, .sp => (.none, .mSp)
  | .mSp, .sp | .mSp, .cr | .mSp, .lf => (.none, .error)
  | .mSp, _ => (.uriStart, .uri)
  | .uri, .sp => (.uriEnd, .uSp)
  | .uri, .cr | .uri, .lf => (.none, .error)
  | .uri, _ => (.none, .uri)
  | .uSp, .alpha => (.none, .vh)
  | .vh, .alpha => (.none, .vt1)
  | .vt1, .alpha => (.none, .vt2)
  | .vt2, .alpha => (.none, .vp)
  | .vp, .slash => (.none, .vslash)
  | .vslash, .digit => (.none, .vmaj)
  | .vmaj, .dot => (.none, .vdot)
  | .vdot, .digit => (.verMinor, .vmin)
  | .vmin, .cr => (.none, .rlCr)
  | .rlCr, .lf => (.none, .hdrSt)
  | .hdrSt, .alpha => (.hdrNameStart, .hdrNm)
  | .hdrSt, .cr => (.none, .endCr)
  | .hdrNm, .sp | .hdrNm, .cr | .hdrNm, .lf => (.none, .error)
  | .hdrNm, .colon => (.hdrCheckHost, .hdrVl)
  | .hdrNm, _ => (.none, .hdrNm)
  | .hdrVl, .cr => (.none, .hdrCr)
  | .hdrVl, .lf => (.none, .error)
  | .hdrVl, _ => (.none, .hdrVl)
  | .hdrCr, .lf => (.none, .hdrSt)
  | .endCr, .lf => (.reqDone, .done)
  | .done, _ => (.none, .done)
  | _, _ => (.none, .error)

/-! ## Looking into the buffer -/

/-- The bytes from `start` on are this name, in either case. -/
def nameIs (buf : Nat → Byte) : Nat → List Byte → Bool
  | _, [] => true
  | start, c :: cs => (buf start ||| 0x20) = c && nameIs buf (start + 1) cs

def hostName : List Byte := ascii "host"
def connName : List Byte := ascii "connection"
def closeName : List Byte := ascii "close"
def contentLengthName : List Byte := ascii "content-length"

def httpMaxRecvBody : Nat := 1024

/-- Skip at most `n` spaces. -/
def skipSp (buf : Nat → Byte) : Nat → Nat → Nat
  | 0, pos => pos
  | n + 1, pos => if buf pos = 0x20 then skipSp buf n (pos + 1) else pos

/-- Where the value behind the colon at `off` starts, among `len` buffered bytes. -/
def valueStart (buf : Nat → Byte) (len off : Nat) : Nat :=
  skipSp buf (len - (off + 1)) (off + 1)

/-- `.Lhdr_conn_match`: the value starts with `close`, and at least one byte follows. -/
def lookClose (buf : Nat → Byte) (len off : Nat) : Bool :=
  valueStart buf len off + 5 < len && nameIs buf (valueStart buf len off) closeName

/-- `.Lhdr_cl_loop`: at most `n` digits; stop past the largest body. -/
def clDigits (buf : Nat → Byte) : Nat → Nat → Nat → Nat
  | 0, _, acc => acc
  | n + 1, pos, acc =>
      if 0x30 ≤ buf pos ∧ buf pos ≤ 0x39 then
        let acc' := acc * 10 + (buf pos - 0x30).toNat
        if httpMaxRecvBody < acc' then acc' else clDigits buf n (pos + 1) acc'
      else acc

/-- `.Lhdr_cl_skip_sp` on: the number, or `none` if nothing but spaces is buffered. -/
def lookCl (buf : Nat → Byte) (len off : Nat) : Option Nat :=
  if valueStart buf len off < len then
    some (clDigits buf (len - valueStart buf len off) (valueStart buf len off) 0)
  else none

/-! ## The parser -/

/-- The parser's part of the HTTP record. -/
structure Parser where
  state : ParseState := .method
  off : Nat := 0
  uriStart : Nat := 0
  uriLen : Nat := 0
  verMinor : Byte := 0
  hostFound : Bool := false
  closeFound : Bool := false
  reqLen : Nat := 0
  hdrNmStart : Nat := 0
  contentLen : Nat := 0
  /-- `HFLAG_CL_SEEN`. -/
  clSeen : Bool := false
  deriving DecidableEq, Repr, Inhabited

section
variable (buf : Nat → Byte) (len : Nat)

/-- The name in front of the colon at `off`. -/
def Parser.nameAtColon (p : Parser) (name : List Byte) : Bool :=
  p.off - p.hdrNmStart = name.length && nameIs buf p.hdrNmStart name

/-- `.Lhdr_cl_match`: a second Content-Length is an error. -/
def Parser.readCl (p : Parser) : Parser :=
  if p.clSeen then { p with state := .error }
  else
    match lookCl buf len p.off with
    | some v => { p with contentLen := v, clSeen := true }
    | none => p

/-- `.Lact_hdr_check_host`. -/
def Parser.checkName (p : Parser) : Parser :=
  if p.nameAtColon buf hostName then { p with hostFound := true }
  else if p.nameAtColon buf connName then
    { p with closeFound := p.closeFound || lookClose buf len p.off }
  else if p.nameAtColon buf contentLengthName then p.readCl buf len
  else p

/-- The action dispatch, at the byte at `off`. -/
def Parser.act (p : Parser) : Action → Parser
  | .none => p
  | .uriStart => { p with uriStart := p.off }
  | .uriEnd => { p with uriLen := (p.off + 65536 - p.uriStart) % 65536 }
  | .verMinor => { p with verMinor := buf p.off }
  | .hdrNameStart => { p with hdrNmStart := p.off }
  | .hdrCheckHost => p.checkName buf len
  | .reqDone => { p with reqLen := p.off + 1 }

/-- One iteration: next state, action, next byte. -/
def Parser.byte (p : Parser) : Parser :=
  let t := httpFsaTable p.state (httpClassifyChar (buf p.off))
  let p' := { p with state := t.2 }.act buf len t.1
  { p' with off := p'.off + 1 }

/-- `.Lparse_loop`, at most `n` bytes. -/
def parseLoop : Nat → Parser → Parser
  | 0, p => p
  | n + 1, p => if p.state.terminal then p else parseLoop n (p.byte buf len)

/-- `http_parse_request` on `len` buffered bytes; what it returns is the state. -/
def httpParseRequest (p : Parser) : Parser := parseLoop buf len (len - p.off) p

end

end WsPi5
