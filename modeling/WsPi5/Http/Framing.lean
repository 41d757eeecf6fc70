/-
# `WsPi5.Http.Framing` — where the next request starts

`http_poll` answers a request out of the bytes at the front of the receive buffer and then takes
REQ_LEN + CONTENT_LEN of them.  What is behind them is the next request, if the connection is
kept open.  That is right where CONTENT_LEN is the declared length and all of it is buffered.

**What can go wrong.**

    the length is read before its digits have arrived        `stands`
    the value is not read for what it is                     `readable`
    405 or 400 for want of a Host, before the body is here   `early`

`FramesSafely` excludes the three at one visit.  The last is a matter of order only:
`.Lhp_bad_method` and the Host check come before `.Lhp_body_check`, which would have waited.

**The invariant** (`Req.Awaits`).  Between visits the record is one of a request that starts at
the front of the buffer: read as far as PARSE_OFF, as if by one call (`Reading`), or complete and
waiting for its body (`Framed`).  A visit keeps it, and an answer that keeps the connection open is
one to a message at the front of the buffer (`pollSlot_framed`).
-/
import WsPi5.Http.Messages
import WsPi5.Http.Sessions

namespace WsPi5

open Lib

/-! ## A head in pieces -/

theorem header_congr {buf buf' : Nat → Byte} {len d : Nat} (h : ∀ k < len, buf k = buf' k)
    (hd : d < len) {name : List Byte} (hname : name ≠ []) :
    header buf name d ↔ header buf' name d := by
  have hpath := lexAt_congr h d (Nat.le_of_lt hd)
  unfold header
  rw [h d hd, ← hpath]
  refine and_congr_right fun hst => and_congr_right fun _ => ?_
  have hoff : (lexAt buf d).off = d := lexAt_off_of (by rw [hst]; rfl)
  rw [Parser.nameAtColon_congr h (by omega) name hname]

theorem firstCl_congr {buf buf' : Nat → Byte} {len d : Nat} (h : ∀ k < len, buf k = buf' k)
    (hd : d < len) : firstCl buf d ↔ firstCl buf' d := by
  have hname : contentLengthName ≠ [] := by decide
  unfold firstCl
  rw [header_congr h hd hname]
  refine and_congr_right fun _ => forall₂_congr fun d' hd' => not_congr ?_
  exact header_congr h (Nat.lt_trans hd' hd) hname

theorem parseArrivals_snoc (a : List Byte) : ∀ (as : List (List Byte)) (got : List Byte)
    (p : Parser), parseArrivals got p (as ++ [a]) =
      httpParseRequest (bytesOf (got ++ (as ++ [a]).flatten)) (got ++ (as ++ [a]).flatten).length
        (parseArrivals got p as)
  | [], got, p => by simp [parseArrivals]
  | b :: as, got, p => by
      rw [List.cons_append, parseArrivals, parseArrivals_snoc a as, parseArrivals,
        List.flatten_cons, List.append_assoc]

theorem cutAfter_snoc (a : List Byte) : ∀ {as : List (List Byte)} {got c : Nat}, got ≤ c →
    cutAfter got (as ++ [a]) c =
      if c < got + as.flatten.length then cutAfter got as c
      else got + as.flatten.length + a.length
  | [], got, c, hle => by
      rw [List.nil_append, List.flatten_nil, List.length_nil, Nat.add_zero,
        if_neg (Nat.not_lt.mpr hle), cutAfter, cutAfter]
      exact ite_self _
  | b :: as, got, c, hle => by
      rw [List.cons_append, cutAfter, cutAfter, List.flatten_cons, List.length_append]
      by_cases hb : c < got + b.length
      · rw [if_pos hb, if_pos hb, if_pos (by omega)]
      · rw [if_neg hb, if_neg hb, cutAfter_snoc a (Nat.not_lt.mp hb)]
        simp only [Nat.add_assoc]

theorem lt_cutAfter : ∀ {as : List (List Byte)} {got c : Nat}, c < got + as.flatten.length →
    c < cutAfter got as c
  | [], got, c, h => h
  | a :: as, got, c, h => by
      rw [cutAfter]
      split
      next hlt => exact hlt
      next =>
        refine lt_cutAfter ?_
        rw [List.flatten_cons, List.length_append] at h
        omega

theorem LengthsStand.snoc {as : List (List Byte)} {a : List Byte} (h : LengthsStand as)
    (hstand : ∀ d < as.flatten.length, firstCl (bytesOf (as ++ [a]).flatten) d →
      lookCl (bytesOf (as ++ [a]).flatten) as.flatten.length d
        = lookCl (bytesOf (as ++ [a]).flatten) (as ++ [a]).flatten.length d) :
    LengthsStand (as ++ [a]) := by
  intro d hd hf
  have hflat : (as ++ [a]).flatten = as.flatten ++ a := by simp
  have hsame : ∀ k < as.flatten.length, bytesOf (as ++ [a]).flatten k = bytesOf as.flatten k :=
    fun k hk => by rw [hflat, bytesOf_append hk]
  have hcut := @cutAfter_snoc a as 0 d (Nat.zero_le d)
  rw [Nat.zero_add] at hcut
  rw [hcut]
  split
  next hlt =>
    have hle := cutAfter_le as 0 d
    have hin := @lt_cutAfter as 0 d (by omega)
    calc lookCl (bytesOf (as ++ [a]).flatten) (cutAfter 0 as d) d
        = lookCl (bytesOf as.flatten) (cutAfter 0 as d) d :=
          lookCl_congr (fun k hk => hsame k (by omega)) hin
      _ = lookCl (bytesOf as.flatten) as.flatten.length d :=
          h d hlt ((firstCl_congr hsame hlt).mp hf)
      _ = lookCl (bytesOf (as ++ [a]).flatten) as.flatten.length d :=
          (lookCl_congr hsame hlt).symm
      _ = lookCl (bytesOf (as ++ [a]).flatten) (as ++ [a]).flatten.length d := hstand d hlt hf
  next =>
    rw [hflat, List.length_append]

/-- What the record holds of a head that was parsed to its end. -/
structure HeadRead (h : RequestHead) (p : Parser) : Prop extends Parsed h p where
  unread : p.clSeen = false → p.contentLen = 0

theorem HeadRead.of_like {h : RequestHead} {p q : Parser} (hr : HeadRead h q) (hl : p.Like q) :
    HeadRead h p := by
  have hst : p.state = .done := hl.state.symm.trans hr.state
  refine ⟨⟨hst, ?_, ?_, ?_, ?_, ?_, ?_, ?_, ?_⟩, ?_⟩
  · rw [← hl.off]
    exact hr.off
  · rw [← hl.reqLen hst]
    exact hr.reqLen
  · rw [← hl.uriStart (by rw [hst]; rfl)]
    exact hr.uriStart
  · rw [← hl.uriLen (by rw [hst]; rfl)]
    exact hr.uriLen
  · rw [← hl.verMinor]
    exact hr.verMinor
  · rw [← hl.hostFound]
    exact hr.host
  · rw [← hl.clSeen]
    exact hr.seen
  · rw [← hl.contentLen]
    exact hr.length
  · rw [← hl.clSeen, ← hl.contentLen]
    exact hr.unread

/-- **A head that came in pieces**, no length cut short, is read as it stands. -/
theorem LengthsStand.head {as : List (List Byte)} (hs : LengthsStand as)
    (hdone : (parseArrivals [] {} as).state = .done) :
    ∃ h : RequestHead, h.Valid ∧ h.bytes <+: as.flatten ∧ HeadRead h (parseArrivals [] {} as) := by
  have hpieces := hs.filled
  have hwhole := whole_filled as.flatten
  have hfresh : Fresh {} := ⟨rfl, rfl, rfl, rfl⟩
  have hstate := hpieces.field hwhole Parser.state fun _ _ _ _ => rfl
  obtain ⟨h, hv, hpre⟩ := (done_iff hfresh).mp (hstate.symm.trans hdone)
  have hparsed := parse_head hv hpre hfresh
  obtain ⟨hlen, hseen⟩ := hpieces.same_length hwhole hs.clRead
  refine ⟨h, hv, hpre, ⟨hdone, ?_, ?_, ?_, ?_, ?_, ?_, ?_, ?_⟩, hpieces.unread⟩
  · exact (hpieces.field hwhole Parser.off fun _ _ _ _ => rfl).trans hparsed.off
  · exact (hpieces.field hwhole Parser.reqLen fun _ _ _ _ => rfl).trans hparsed.reqLen
  · exact (hpieces.field hwhole Parser.uriStart fun _ _ _ _ => rfl).trans hparsed.uriStart
  · exact (hpieces.field hwhole Parser.uriLen fun _ _ _ _ => rfl).trans hparsed.uriLen
  · exact (hpieces.field hwhole Parser.verMinor fun _ _ _ _ => rfl).trans hparsed.verMinor
  · exact (hpieces.field hwhole Parser.hostFound fun _ _ _ _ => rfl).trans hparsed.host
  · rw [hseen]
    exact hparsed.seen
  · rw [hlen]
    exact hparsed.length

/-! ## The length of the body -/

section
variable {h : RequestHead} {p : Parser}

theorem mem_lengths {f : List Byte × List Byte} :
    f ∈ h.lengths ↔ f ∈ h.fields ∧ isName contentLengthName f.1 = true := by
  simp [RequestHead.lengths]

theorem HeadRead.cases (hr : HeadRead h p) : (h.lengths = [] ∧ p.contentLen = 0) ∨
    ∃ f ∈ h.lengths, p.contentLen = clValue f.2 := by
  cases hl : h.lengths with
  | nil =>
      have hno : h.fields.any (fun f => isName contentLengthName f.1) = false := by
        rw [List.any_eq_false]
        intro f hf hname
        have hmem := mem_lengths.mpr ⟨hf, hname⟩
        rw [hl] at hmem
        cases hmem
      exact .inl ⟨rfl, hr.unread (hr.seen.trans hno)⟩
  | cons f fs =>
      have hmem : f ∈ h.lengths := by rw [hl]; exact List.mem_cons_self ..
      obtain ⟨hf, hname⟩ := mem_lengths.mp hmem
      exact .inr ⟨f, List.mem_cons_self .., hr.length f hf hname⟩

theorem HeadRead.declares (hr : HeadRead h p) (hread : ∀ f ∈ h.lengths, LengthReadable f.2)
    (hsmall : p.contentLen ≤ httpMaxRecvBody) : h.Declares p.contentLen := by
  obtain ⟨hno, hzero⟩ | ⟨f, hf, hvalue⟩ := hr.cases
  · rw [hzero]
    exact .none hno
  · rw [hvalue] at hsmall ⊢
    obtain ⟨ws, ds, ws', hform, hstored⟩ := stored_declared (hread f hf) hsmall
    rw [hstored]
    exact .value hf hform

theorem HeadRead.declares_of_fits (hr : HeadRead h p)
    (hread : ∀ f ∈ h.lengths, LengthReadable f.2)
    (hfit : ∀ n, h.Declares n → n < 10 * (httpMaxRecvBody + 1)) : h.Declares p.contentLen := by
  obtain ⟨hno, hzero⟩ | ⟨f, hf, hvalue⟩ := hr.cases
  · rw [hzero]
    exact .none hno
  · obtain ⟨ws, ds, ws', hform, -⟩ := hread f hf
    have hdeclared : h.Declares (decimal ds) := .value hf hform
    rw [hvalue, declared_stored (hread f hf) hform (hfit _ hdeclared)]
    exact hdeclared

end

/-! ## The condition at a visit -/

/-- HTTP/x.1: the connection may be kept open behind the answer. -/
def RequestHead.Persists (h : RequestHead) : Prop := h.version = ascii "HTTP" ∧ h.minor = 0x31

/-- It is answered before its body is waited for: another method than GET, HEAD and POST, or no
Host. -/
def RequestHead.Early (h : RequestHead) : Prop :=
  (h.method ≠ ascii "GET" ∧ h.method ≠ ascii "HEAD" ∧ h.method ≠ ascii "POST") ∨
    ∀ f ∈ h.fields, isName hostName f.1 = false

/-- Its length is read for what it is, and an answer that does not wait for the body need not. -/
structure HeadSafe (rest : List Byte) (h : RequestHead) : Prop where
  readable : ∀ f ∈ h.lengths, LengthReadable f.2
  early : h.Early → ∀ n, h.Declares n → h.bytes.length + n ≤ rest.length

/-- What a visit must find, of which the first `off` bytes were parsed before. -/
structure FramesSafely (rest : List Byte) (off : Nat) : Prop where
  stands : ∀ d < off, firstCl (bytesOf rest) d →
    lookCl (bytesOf rest) off d = lookCl (bytesOf rest) rest.length d
  head : ∀ h : RequestHead, h.Valid → h.bytes <+: rest → h.Persists → HeadSafe rest h

/-! ## What the record says of the buffer -/

/-- Read as far as PARSE_OFF, and as by one call. -/
structure Reading (rest : List Byte) (p : Parser) : Prop where
  going : p.state.terminal = false
  off : p.off ≤ rest.length
  pieces : ∃ as : List (List Byte), as.flatten = rest.take p.off ∧ LengthsStand as ∧
    p.Like (parseArrivals [] {} as)

/-- The record of a head. -/
structure Measured (h : RequestHead) (p : Parser) : Prop where
  state : p.state = .done
  reqLen : p.reqLen = h.bytes.length
  uriStart : p.uriStart = h.method.length + 1
  verMinor : p.verMinor = h.minor

/-- The head at the front is measured, and a body that is waited for is as long as declared. -/
def Framed (rest : List Byte) (p : Parser) : Prop :=
  ∃ h : RequestHead, h.Valid ∧ h.bytes <+: rest ∧ Measured h p ∧
    (p.contentLen ≤ httpMaxRecvBody → h.Declares p.contentLen)

/-- The request was this message. -/
structure Parser.Reads (p : Parser) (m : Message) : Prop where
  head : Measured m.head p
  contentLen : p.contentLen = m.body.length

/-- It is what REQ_LEN + CONTENT_LEN bytes from the front are. -/
def Parser.Takes (p : Parser) (rest : List Byte) : Prop :=
  ∃ m : Message, p.Reads m ∧ m.bytes = rest.take (p.reqLen + p.contentLen)

def Req.Awaits (rest : List Byte) (r : Req) : Prop :=
  match r.state with
  | .idle | .recvHdr => Reading rest r.parser
  | .recvBody => r.keeps = true → Framed rest r.parser
  | .sending => False

/-- What a visit leads to: an answer that keeps the connection open is one to the message that
is taken from the buffer. -/
def Verdict.Framed (rest : List Byte) : Verdict → Prop
  | .stay r => r.Awaits rest
  | .close _ => True
  | .answer r _ => r.keeps = true → r.parser.Takes rest

/-! ## A visit -/

section
variable {env : HttpEnv} {v : Visit} {rest : List Byte} {r : Req}

theorem BufHolds.slice {buf : Nat → Byte} {off : Nat} {bs : List Byte} (h : BufHolds buf off bs) :
    slice buf off bs.length = bs := by
  refine List.ext_getElem (slice_length ..) fun k hk hk' => ?_
  rw [slice_getElem]
  exact Option.some.inj (h k hk')

theorem Framed.takes {p : Parser} (hf : Framed rest p) (hsmall : p.contentLen ≤ httpMaxRecvBody)
    (hfit : p.contentLen = 0 ∨ p.reqLen + p.contentLen ≤ rest.length) : p.Takes rest := by
  obtain ⟨h, hv, hpre, hm, hdeclares⟩ := hf
  have hfit' : h.bytes.length + p.contentLen ≤ rest.length := by
    rcases hfit with hzero | hfit
    · rw [hzero]
      exact hpre.length_le
    · rwa [hm.reqLen] at hfit
  obtain ⟨m, rfl, hbody, hbytes⟩ := exists_message hv (hdeclares hsmall) hpre hfit'
  exact ⟨m, ⟨hm, hbody.symm⟩, by rw [hbytes, hm.reqLen]⟩

theorem dispatchRoute_framed (h : r.keeps = true → r.parser.Takes rest) :
    (dispatchRoute env v r).Framed rest := by
  unfold dispatchRoute
  split
  · exact h
  split
  · exact h
  · exact h

/-- `.Lhp_body_check` waits for the body, and answers it by closing if it is too large. -/
theorem bodyCheck_framed (hlen : v.len = rest.length)
    (h : r.keeps = true → Framed rest r.parser) : (bodyCheck env v r).Framed rest := by
  unfold bodyCheck
  split
  next hzero =>
    refine dispatchRoute_framed fun hk => (h hk).takes ?_ (.inl hzero)
    rw [hzero]
    exact Nat.zero_le _
  split
  next => exact fun hk => absurd hk (by simp [Req.keeps])
  next hsmall =>
  split
  next => exact h
  next hfit =>
    refine dispatchRoute_framed fun hk => (h hk).takes (Nat.not_lt.mp hsmall) (.inr ?_)
    rw [← hlen]
    exact Nat.not_lt.mp hfit

/-! ### A complete head -/

theorem HeadRead.measured {h : RequestHead} {p : Parser} (hr : HeadRead h p) : Measured h p :=
  ⟨hr.state, hr.reqLen, hr.uriStart, hr.verMinor⟩

theorem splitQuery_keeps (buf : Nat → Byte) (r : Req) : ∃ n,
    (splitQuery buf r).parser = { r.parser with uriLen := n } ∧
      (splitQuery buf r).flags = r.flags := by
  unfold splitQuery
  split
  · exact ⟨r.parser.uriLen, rfl, rfl⟩
  · exact ⟨_, rfl, rfl⟩

theorem method_text {h : RequestHead} {buf : Nat → Byte} {text : List Byte}
    (hbuf : BufHolds buf 0 h.bytes) (ht : h.method ++ [0x20] = text) :
    textAt buf 0 text = true := by
  have hbytes : ∃ more, h.bytes = text ++ more := by
    refine ⟨h.uri ++ 0x20 :: (h.version ++ [0x2F, h.major, 0x2E, h.minor, 0x0D, 0x0A] ++
      h.fields.flatMap fieldBytes ++ [0x0D, 0x0A]), ?_⟩
    simp [← ht, RequestHead.bytes, RequestHead.lines, RequestHead.line, RequestHead.upTo]
  obtain ⟨more, hmore⟩ := hbytes
  rw [hmore] at hbuf
  exact decide_eq_true hbuf.left.slice

theorem methodOf_none {h : RequestHead} {buf : Nat → Byte} (hbuf : BufHolds buf 0 h.bytes)
    (hno : methodOf buf = none) :
    h.method ≠ ascii "GET" ∧ h.method ≠ ascii "HEAD" ∧ h.method ≠ ascii "POST" := by
  unfold methodOf at hno
  split at hno
  · cases hno
  next hget =>
  split at hno
  · cases hno
  next hhead =>
  split at hno
  · cases hno
  next hpost =>
  refine ⟨fun hm => hget ?_, fun hm => hhead ?_, fun hm => hpost ?_⟩
  · exact method_text hbuf (by rw [hm]; rfl)
  · exact method_text hbuf (by rw [hm]; rfl)
  · exact method_text hbuf (by rw [hm]; rfl)

theorem version_text {h : RequestHead} {buf : Nat → Byte} (hv : h.Valid)
    (hbuf : BufHolds buf 0 h.bytes)
    (ht : textAt buf (h.method.length + 1 + h.uri.length + 1) (ascii "HTTP") = true) :
    h.version = ascii "HTTP" := by
  have hsplit : ∃ more,
      h.bytes = (h.method ++ 0x20 :: (h.uri ++ [0x20])) ++ (h.version ++ more) := by
    refine ⟨[0x2F, h.major, 0x2E, h.minor, 0x0D, 0x0A] ++ h.fields.flatMap fieldBytes ++
      [0x0D, 0x0A], ?_⟩
    simp [RequestHead.bytes, RequestHead.lines, RequestHead.line, RequestHead.upTo]
  obtain ⟨more, hmore⟩ := hsplit
  rw [hmore] at hbuf
  have hversion := hbuf.right.left.slice
  have hoff : 0 + (h.method ++ 0x20 :: (h.uri ++ [0x20])).length
      = h.method.length + 1 + h.uri.length + 1 := by
    simp only [List.length_append, List.length_cons, List.length_nil]
    omega
  have hfour : h.version.length = (ascii "HTTP").length := hv.version.1
  rw [hoff, hfour] at hversion
  exact hversion.symm.trans (of_decide_eq_true ht)

section
variable {h : RequestHead}

/-- An answer that does not wait for the body takes it from the buffer all the same. -/
theorem HeadRead.takes_early {p : Parser} (hr : HeadRead h p) (hv : h.Valid)
    (hpre : h.bytes <+: rest) (hbound : rest.length ≤ tcpRxbufSize + 4 * maxPayload)
    (hs : HeadSafe rest h) (hearly : h.Early) : p.Takes rest := by
  have hfit := hs.early hearly
  have hdeclares : h.Declares p.contentLen := by
    refine hr.declares_of_fits hs.readable fun n hn => ?_
    have hle := hfit n hn
    simp only [tcpRxbufSize, maxPayload] at hbound
    simp only [httpMaxRecvBody]
    omega
  obtain ⟨m, rfl, hbody, hbytes⟩ := exists_message hv hdeclares hpre (hfit _ hdeclares)
  exact ⟨m, ⟨hr.measured, hbody.symm⟩, by rw [hbytes, hr.reqLen]⟩

theorem methodDone_framed (hr : HeadRead h r.parser) (hv : h.Valid) (hpre : h.bytes <+: rest)
    (hlen : v.len = rest.length) (hbound : rest.length ≤ tcpRxbufSize + 4 * maxPayload)
    (hs : r.flags.http11 = true → HeadSafe rest h) : (methodDone env v r).Framed rest := by
  unfold methodDone
  split
  next hhost =>
    -- no Host: answered at once
    rw [Bool.and_eq_true, Bool.not_eq_true'] at hhost
    have hearly : h.Early := .inr fun f hf => by
      have hnone := hr.host.symm.trans hhost.2
      rw [List.any_eq_false] at hnone
      simpa using hnone f hf
    exact fun _ => hr.takes_early hv hpre hbound (hs hhost.1) hearly
  next =>
    unfold hostOk
    dsimp only
    obtain ⟨n, hparser, hflags⟩ := splitQuery_keeps v.buf { r with flags := { r.flags with
      close := r.flags.close || r.parser.closeFound || !r.flags.http11 } }
    split
    next => exact fun hk => absurd hk (by simp [Req.keeps])
    next =>
      refine bodyCheck_framed hlen fun hk => ?_
      have h11 : r.flags.http11 = true := by
        rw [Req.keeps, hflags, Bool.and_eq_true] at hk
        exact hk.2
      rw [hparser]
      exact ⟨h, hv, hpre, ⟨hr.state, hr.reqLen, hr.uriStart, hr.verMinor⟩,
        hr.declares (hs h11).readable⟩

theorem fsaDone_framed (hr : HeadRead h r.parser) (hv : h.Valid) (hpre : h.bytes <+: rest)
    (hbuf : BufHolds v.buf 0 rest) (hlen : v.len = rest.length)
    (hbound : rest.length ≤ tcpRxbufSize + 4 * maxPayload) (h11 : r.flags.http11 = false)
    (hs : h.Persists → HeadSafe rest h) : (fsaDone env v r).Framed rest := by
  have hbytes : BufHolds v.buf 0 h.bytes := by
    obtain ⟨more, rfl⟩ := hpre
    exact hbuf.left
  have huri : r.parser.uriLen = h.uri.length := by
    rw [hr.uriLen]
    refine Nat.mod_eq_of_lt ?_
    have hle := hpre.length_le
    have hcount : h.uri.length ≤ h.bytes.length := by
      simp only [RequestHead.bytes, RequestHead.lines, RequestHead.line, RequestHead.upTo,
        List.length_append, List.length_cons]
      omega
    simp only [tcpRxbufSize, maxPayload] at hbound
    omega
  unfold fsaDone
  split
  next htext =>
    rw [hr.uriStart, huri] at htext
    have hversion := version_text hv hbytes htext
    have hsafe : (r.flags.http11 || decide (r.parser.verMinor = 0x31)) = true →
        HeadSafe rest h := by
      intro hk
      rw [h11, Bool.false_or, decide_eq_true_eq, hr.verMinor] at hk
      exact hs ⟨hversion, hk⟩
    dsimp only
    split
    next hmethod =>
      -- another method: answered at once
      intro hk
      rw [Req.keeps, Bool.and_eq_true] at hk
      exact hr.takes_early hv hpre hbound (hsafe hk.2)
        (.inl (methodOf_none hbytes hmethod))
    next => exact methodDone_framed hr hv hpre hlen hbound hsafe
    next => exact methodDone_framed hr hv hpre hlen hbound hsafe
    next => exact methodDone_framed hr hv hpre hlen hbound hsafe
  next =>
    intro hk
    rw [Req.keeps, Bool.and_eq_true] at hk
    exact absurd (hk.2.symm.trans h11) (by decide)

end

/-! ### A head that is still arriving -/

theorem Reading.fresh {p : Parser} (h : p.Like {}) (rest : List Byte) : Reading rest p := by
  have hoff : p.off = 0 := h.off.symm
  refine ⟨by rw [← h.state]; rfl, by rw [hoff]; exact Nat.zero_le _, [], ?_, ?_, h⟩
  · rw [hoff]
    rfl
  · intro d hd
    cases hd

theorem Reading.grow {p : Parser} {rest' : List Byte} (h : Reading rest p) (hpre : rest <+: rest') :
    Reading rest' p := by
  obtain ⟨as, hflat, hstand, hlike⟩ := h.pieces
  refine ⟨h.going, Nat.le_trans h.off hpre.length_le, as, ?_, hstand, hlike⟩
  obtain ⟨more, rfl⟩ := hpre
  rw [hflat, List.take_append_of_le_length h.off]

/-- **One call more.**  The parser is on its way, or at the end of a head, or in error. -/
theorem Reading.parse {p : Parser} (h : Reading rest p)
    (hstands : ∀ d < p.off, firstCl (bytesOf rest) d →
      lookCl (bytesOf rest) p.off d = lookCl (bytesOf rest) rest.length d) :
    let q := httpParseRequest (bytesOf rest) rest.length p
    (q.state.terminal = false → Reading rest q) ∧
      (q.state = .done → ∃ h : RequestHead, h.Valid ∧ h.bytes <+: rest ∧ HeadRead h q) := by
  obtain ⟨as, hflat, hstand, hlike⟩ := h.pieces
  have hall : (as ++ [rest.drop p.off]).flatten = rest := by
    rw [List.flatten_append, hflat, List.flatten_singleton, List.take_append_drop]
  have hlen : as.flatten.length = p.off := by
    rw [hflat]
    exact List.length_take_of_le h.off
  have hnext : LengthsStand (as ++ [rest.drop p.off]) := by
    refine hstand.snoc ?_
    rw [hall, hlen]
    exact hstands
  have hparse : (httpParseRequest (bytesOf rest) rest.length p).Like
      (parseArrivals [] {} (as ++ [rest.drop p.off])) := by
    rw [parseArrivals_snoc, List.nil_append, hall]
    exact httpParseRequest_like hlike
  dsimp only
  refine ⟨fun hgoing => ?_, fun hdone => ?_⟩
  · have hoff : (httpParseRequest (bytesOf rest) rest.length p).off = rest.length := by
      have hfilled := hnext.filled
      rw [hall] at hfilled
      have hstate := hfilled.state
      rw [← hparse.off, hfilled.path]
      refine lexAt_off_of ?_
      rw [← hstate, hparse.state]
      exact hgoing
    refine ⟨hgoing, Nat.le_of_eq hoff, _, ?_, hnext, hparse⟩
    rw [hall, hoff, List.take_length]
  · obtain ⟨hd, hv, hpre, hr⟩ := hnext.head (hparse.state.trans hdone)
    rw [hall] at hpre
    exact ⟨hd, hv, hpre, hr.of_like hparse⟩

/-! ### The whole visit -/

theorem tryParse_framed (hread : Reading rest r.parser) (hst : r.state = .recvHdr)
    (h11 : r.flags.http11 = false) (hbuf : BufHolds v.buf 0 rest) (hlen : v.len = rest.length)
    (hbound : rest.length ≤ tcpRxbufSize + 4 * maxPayload)
    (hs : FramesSafely rest r.parser.off) : (tryParse env v r).Framed rest := by
  have hwaits : ∀ p, Reading rest p → ({ r with parser := p } : Req).Awaits rest := by
    intro p hp
    unfold Req.Awaits
    rw [hst]
    exact hp
  have hbytes : ∀ k < rest.length, v.buf k = bytesOf rest k := by
    intro k hk
    have hat := (hbuf k hk).trans (bytesOf_holds rest k hk).symm
    rw [Nat.zero_add] at hat
    exact Option.some.inj hat
  obtain ⟨hgoing, hdone⟩ := hread.parse hs.stands
  unfold tryParse
  split
  · trivial
  split
  · exact hwaits _ hread
  split
  · rw [hlen, httpParseRequest_congr hbytes]
    dsimp only
    split
    next hq =>
      obtain ⟨h, hv, hpre, hr⟩ := hdone hq
      exact fsaDone_framed hr hv hpre hbuf hlen hbound h11 (hs.head h hv hpre)
    next =>
      intro hk
      rw [Req.keeps, Bool.and_eq_true] at hk
      exact absurd (hk.2.symm.trans h11) (by decide)
    next hnot hne =>
      refine hwaits _ (hgoing ?_)
      generalize (httpParseRequest (bytesOf rest) rest.length r.parser).state = q at hnot hne
      cases q <;> first | rfl | exact absurd rfl hnot | exact absurd rfl hne
  · trivial

/-- **A visit keeps the framing**: what stays in the record is a request that starts at the front
of the buffer, and an answer that keeps the connection open is one to a message that starts there
and is taken from it as a whole. -/
theorem pollSlot_framed (h : r.Awaits rest) (hest : v.tcp = .established)
    (h11 : r.state ≠ .recvBody → r.flags.http11 = false) (hbuf : BufHolds v.buf 0 rest)
    (hlen : v.len = rest.length) (hbound : rest.length ≤ tcpRxbufSize + 4 * maxPayload)
    (hs : r.state = .idle ∨ r.state = .recvHdr → FramesSafely rest r.parser.off) :
    (pollSlot env v r).Framed rest := by
  unfold Req.Awaits at h
  unfold pollSlot
  rw [if_pos hest]
  cases hst : r.state with
  | idle =>
      rw [hst] at h
      exact tryParse_framed h rfl (h11 (by rw [hst]; decide)) hbuf hlen hbound (hs (.inl hst))
  | recvHdr =>
      rw [hst] at h
      exact tryParse_framed h hst (h11 (by rw [hst]; decide)) hbuf hlen hbound (hs (.inr hst))
  | sending =>
      rw [hst] at h
      exact h.elim
  | recvBody =>
      rw [hst] at h
      dsimp only
      unfold resumeBody
      split
      · trivial
      split
      · show r.Awaits rest
        unfold Req.Awaits
        rw [hst]
        exact h
      · exact bodyCheck_framed hlen h

end

end WsPi5
