/-
# `WsPi5.Http.ConnHeader` — does the Connection line say what the server does?

The Connection line stands in the template of each status; whether the connection is closed is
decided by `h_decide` from HFLAG_CLOSE and HFLAG_HTTP11, which `http_poll` sets on its way
through a request.  The header is honest (`HonestAt`) if

    it promises a close                        ⟹  `h_decide` closes
    `h_decide` closes, the request was 1.1     ⟹  it promises, or the request had asked

Only two of the branches that answer with a promise also set the flag, 411 and 413.  For every
branch `honestWhen` is what the flags have to be like on the way in, so that the header is honest
all the same (`conn_header_honest_iff`).

What the request asked for is read off its bytes, by a parser that starts afresh
(`Visit.request`): the record may hold flags and parser state that an earlier connection left.
-/
import WsPi5.Http.Headers
import WsPi5.Http.FsaEvents

namespace WsPi5

open Lib

/-! ## What is claimed -/

/-- The decision of `h_decide`. -/
def Flags.closes (f : Flags) : Bool := f.close || !f.http11

/-- The request at the front of the receive buffer. -/
def Visit.request (v : Visit) : Parser := httpParseRequest v.buf v.len {}

/-- An HTTP/1.1 request that does not ask for a close. -/
def Visit.keeps (v : Visit) : Bool := v.request.verMinor = 0x31 && !v.request.closeFound

/-- The header of the response that is being sent. -/
def Server.header (s : Server) (i : Slot) : List Byte :=
  slice s.mem (s.http i).resp.hdrSrc (s.http i).resp.hdrLen

/-- The header fits the decision, for the request that visit `v` found. -/
structure HonestAt (v : Visit) (i : Slot) (s : Server) : Prop where
  kept : promisesClose (s.header i) → (s.http i).req.flags.closes = true
  asked : (s.http i).req.flags.closes = true → v.keeps = true → promisesClose (s.header i)

/-- The record is SENDING. -/
def sendsOn (i : Slot) (s : Server) (_ : Input) : Prop := (s.http i).req.state = .sending

/-- The pump is about to call this handler for the way. -/
def Server.calls (s : Server) (i : Slot) (hd : OHandler) : Prop :=
  ∃ e q o, s.fsa.next = some (i, e, q) ∧ httpFsaTransTable (s.fsa.ostate i) e = some (o, hd)

/-! ## The condition

The branches of `http_poll`, with what each needs of the flags as they are there. -/

section
variable (env : HttpEnv) (routeHdr : Route → List HdrLine) (v : Visit)

/-- `h_decide` must close with a promise, and must not close without one on a request that did
not ask for it. -/
def fits (promise : Bool) (f : Flags) : Bool :=
  if promise then f.closes else !(f.closes && v.keeps)

/-- A page's header is the image's; 404 promises nothing, 405 does. -/
def dispatchWhen (r : Req) : Bool :=
  match httpMatchUri env v r with
  | none => fits v false r.flags
  | some rt =>
      if rt.methods &&& r.flags.methodBit = 0 then fits v true r.flags
      else fits v (saysClose (routeHdr rt)) r.flags

/-- 413 sets the flag. -/
def bodyWhen (r : Req) : Bool :=
  (r.parser.contentLen ≠ 0 && httpMaxRecvBody < r.parser.contentLen) ||
    dispatchWhen env routeHdr v r

/-- 411 sets the flag. -/
def hostWhen (r : Req) : Bool :=
  let r := { r with flags :=
    { r.flags with close := r.flags.close || r.parser.closeFound || !r.flags.http11 } }
  let r := splitQuery v.buf r
  (r.flags.post && !r.parser.clSeen) || bodyWhen env routeHdr v r

/-- An HTTP/1.1 request without Host: 400, and no flag is set. -/
def methodWhen (r : Req) : Bool :=
  if r.flags.http11 && !r.parser.hostFound then r.flags.close else hostWhen env routeHdr v r

/-- An unknown method: 405, and no flag but HTTP11 is set. -/
def doneWhen (r : Req) : Bool :=
  if textAt v.buf (r.parser.uriStart + r.parser.uriLen + 1) (ascii "HTTP") then
    let r := { r with flags :=
      { r.flags with http11 := r.flags.http11 || r.parser.verMinor = 0x31 } }
    match methodOf v.buf with
    | none => r.flags.close || !r.flags.http11
    | some .get => methodWhen env routeHdr v r
    | some .head => methodWhen env routeHdr v { r with flags := { r.flags with head := true } }
    | some .post => methodWhen env routeHdr v { r with flags := { r.flags with post := true } }
  else r.flags.close || !r.flags.http11

/-- A request that cannot be parsed: 400, with the flags as they were found. -/
def parseWhen (r : Req) : Bool :=
  let r := { r with parser := httpParseRequest v.buf v.len r.parser }
  match r.parser.state with
  | .done => doneWhen env routeHdr v r
  | _ => r.flags.close || !r.flags.http11

/-- The visit of an ESTABLISHED connection. -/
def honestWhen (r : Req) : Bool :=
  match r.state with
  | .idle => parseWhen env routeHdr v
      { r with state := .recvHdr, recvTick := v.start.setWidth 32 }
  | .recvHdr => parseWhen env routeHdr v r
  | .sending => true
  | .recvBody => bodyWhen env routeHdr v r

end

/-! ## One lemma for each function -/

def Page.blob : Page → Blob
  | .static b | .dynamic b => b

/-- If this is an answer, then the page has a header, and it fits the flags if and only if `cond`
holds. -/
def Verdict.fitsIff (env : HttpEnv) (routeHdr : Route → List HdrLine) (v : Visit) (cond : Bool) :
    Verdict → Prop
  | .answer r page => ∃ t, (page.blob, t) ∈ env.headers routeHdr ∧
      fits v (saysClose t) r.flags = cond
  | _ => True

section
variable {env : HttpEnv} {routeHdr : Route → List HdrLine} {v : Visit}

theorem fitsIff_page {r : Req} {page : Page} (t : List HdrLine) (promise : Bool)
    (h : (page.blob, t) ∈ env.headers routeHdr) (ht : saysClose t = promise) :
    (Verdict.answer r page).fitsIff env routeHdr v (fits v promise r.flags) :=
  ⟨t, h, by rw [ht]⟩

theorem respBadRequest_fits (r : Req) :
    (respBadRequest env r).fitsIff env routeHdr v r.flags.closes :=
  fitsIff_page http400Hdr true
    (by simp [HttpEnv.headers, Page.blob]) (by decide)

theorem respBadMethod_fits (r : Req) :
    (respBadMethod env r).fitsIff env routeHdr v r.flags.closes :=
  fitsIff_page http405HdrGhp true
    (by simp [HttpEnv.headers, Page.blob]) (by decide)

theorem resp404_fits (r : Req) :
    (resp404 env r).fitsIff env routeHdr v (fits v false r.flags) :=
  fitsIff_page http404Hdr _ (by simp [HttpEnv.headers, Page.blob]) (by decide)

theorem resp411_fits (r : Req) : (resp411 env r).fitsIff env routeHdr v true :=
  fitsIff_page http411Hdr true
    (by simp [HttpEnv.headers, Page.blob]) (by decide)

theorem resp413_fits (r : Req) : (resp413 env r).fitsIff env routeHdr v true :=
  fitsIff_page http413Hdr true
    (by simp [HttpEnv.headers, Page.blob]) (by decide)

theorem respMethodPerRoute_fits (methods : BitVec 8) (r : Req) :
    (respMethodPerRoute env methods r).fitsIff env routeHdr v (fits v true r.flags) := by
  unfold respMethodPerRoute
  split
  · exact fitsIff_page http405HdrGh _ (by simp [HttpEnv.headers, Page.blob]) (by decide)
  split
  · exact fitsIff_page http405HdrP _ (by simp [HttpEnv.headers, Page.blob]) (by decide)
  · exact fitsIff_page http405HdrGhp _ (by simp [HttpEnv.headers, Page.blob]) (by decide)

theorem dispatchRoute_fits (r : Req) :
    (dispatchRoute env v r).fitsIff env routeHdr v (dispatchWhen env routeHdr v r) := by
  unfold dispatchRoute dispatchWhen
  cases hmatch : httpMatchUri env v r with
  | none => exact resp404_fits r
  | some rt =>
      have hrt : (rt.blob, routeHdr rt) ∈ env.headers routeHdr := by
        have hmem : rt ∈ env.routes := List.mem_of_find?_eq_some hmatch
        exact List.mem_append_right _ (List.mem_map.mpr ⟨rt, hmem, rfl⟩)
      dsimp only
      split
      · exact respMethodPerRoute_fits rt.methods r
      · split
        · exact fitsIff_page _ _ hrt rfl
        · exact fitsIff_page _ _ hrt rfl

theorem bodyCheck_fits (r : Req) :
    (bodyCheck env v r).fitsIff env routeHdr v (bodyWhen env routeHdr v r) := by
  unfold bodyCheck bodyWhen
  split
  next h0 => simpa [h0] using @dispatchRoute_fits env routeHdr v r
  next h0 =>
    split
    next hbig => simpa [h0, hbig] using @resp413_fits env routeHdr v r
    next hbig =>
      split
      · trivial
      · simpa [h0, hbig] using @dispatchRoute_fits env routeHdr v r

theorem hostOk_fits (r : Req) :
    (hostOk env v r).fitsIff env routeHdr v (hostWhen env routeHdr v r) := by
  unfold hostOk hostWhen
  dsimp only
  split
  next h411 => simpa [h411] using @resp411_fits env routeHdr v _
  next h411 => simpa [h411] using @bodyCheck_fits env routeHdr v _

theorem methodDone_fits (r : Req) :
    (methodDone env v r).fitsIff env routeHdr v (methodWhen env routeHdr v r) := by
  unfold methodDone methodWhen
  split
  next hno =>
    have hcloses : r.flags.closes = r.flags.close := by
      obtain ⟨h11, _⟩ := Bool.and_eq_true_iff.mp hno
      simp [Flags.closes, h11]
    rw [← hcloses]
    exact respBadRequest_fits r
  next => exact hostOk_fits r

theorem fsaDone_fits (r : Req) :
    (fsaDone env v r).fitsIff env routeHdr v (doneWhen env routeHdr v r) := by
  unfold fsaDone doneWhen
  split
  · dsimp only
    cases methodOf v.buf with
    | none => exact respBadMethod_fits _
    | some m =>
        cases m with
        | get => exact methodDone_fits _
        | head => exact methodDone_fits _
        | post => exact methodDone_fits _
  · exact respBadRequest_fits r

theorem tryParse_fits (r : Req) :
    (tryParse env v r).fitsIff env routeHdr v (parseWhen env routeHdr v r) := by
  unfold tryParse
  split
  · trivial
  split
  · trivial
  split
  · unfold parseWhen
    dsimp only
    cases (httpParseRequest v.buf v.len r.parser).state with
    | done => exact fsaDone_fits _
    | error => exact respBadRequest_fits { r with parser := httpParseRequest v.buf v.len r.parser }
    | _ => trivial
  · trivial

theorem skipOrReset_fits (r : Req) (cond : Bool) :
    (skipOrReset v r).fitsIff env routeHdr v cond := by
  unfold skipOrReset
  split
  · split <;> trivial
  · trivial

/-- **What a visit answers fits the flags exactly under the condition.** -/
theorem pollSlot_fits (r : Req) :
    (pollSlot env v r).fitsIff env routeHdr v (honestWhen env routeHdr v r) := by
  unfold pollSlot honestWhen
  by_cases hest : v.tcp = .established
  · rw [if_pos hest]
    cases r.state with
    | idle => exact tryParse_fits _
    | recvHdr => exact tryParse_fits r
    | sending => trivial
    | recvBody =>
        show (resumeBody env v r).fitsIff env routeHdr v (bodyWhen env routeHdr v r)
        unfold resumeBody
        split
        · trivial
        split
        · trivial
        · exact bodyCheck_fits r
  · rw [if_neg hest]
    exact skipOrReset_fits r _

end

/-! ## While it is sent -/

section
variable {env : HttpEnv} {routeHdr : Route → List HdrLine} {i : Slot} {s s' : Server}

theorem honestAt_iff {v : Visit} {b : Blob} {t : List HdrLine} (hl : HttpLayout env routeHdr)
    (hin : HeadersIn env routeHdr s.mem) (ht : (b, t) ∈ env.headers routeHdr)
    (hsrc : (s.http i).resp.hdrSrc = b.hdr) (hlen : (s.http i).resp.hdrLen = b.hdrLen) :
    HonestAt v i s ↔ fits v (saysClose t) (s.http i).req.flags = true := by
  obtain ⟨stamp, hs, hslice⟩ := hin (b, t) ht
  have hpromise : promisesClose (s.header i) ↔ saysClose t = true := by
    unfold Server.header
    rw [hsrc, hlen, hslice]
    exact promisesClose_hdrText hs.line (hl.plain (b, t) ht)
  constructor
  · intro h
    have hkept := h.kept
    have hasked := h.asked
    rw [hpromise] at hkept hasked
    unfold fits
    split
    next hsays => exact hkept hsays
    next hsays =>
      rw [Bool.not_eq_true', Bool.and_eq_false_iff]
      by_contra hboth
      obtain ⟨hcloses, hkeeps⟩ := not_or.mp hboth
      exact hsays (hasked (by simpa using hcloses) (by simpa using hkeeps))
  · intro h
    unfold fits at h
    refine ⟨fun hp => ?_, fun hcloses hkeeps => ?_⟩
    · rw [if_pos (hpromise.mp hp)] at h
      exact h
    · rw [hpromise]
      by_contra hsays
      rw [if_neg hsays, hcloses, hkeeps] at h
      cases h

def Resp.extent (r : Resp) : (Nat × Nat × Nat × Nat) × Nat := (r.source, r.respLen)

theorem OHandler.call_extent (env : HttpEnv) (now : Tick) (i : Slot) (s : Server) (hd : OHandler) :
    ((hd.call env now i s).http i).resp.extent = (s.http i).resp.extent := by
  cases hd with
  | install | decide | noop => rfl
  | send =>
      simp only [OHandler.call, hSend]
      split
      · split
        · rfl
        split
        · rfl
        split
        · rfl
        · simp [hSent, Resp.extent, Resp.source, Resp.advance]
      · rfl
  | reset => simp [OHandler.call, hReset]
  | close => simp [OHandler.call, hClose, Server.tcpClose]
  | keepalive => simp [OHandler.call, hKeepalive]

theorem OHandler.call_sending (env : HttpEnv) (now : Tick) (i : Slot) (s : Server) {hd : OHandler}
    (h : ((hd.call env now i s).http i).req.state = .sending) :
    hd ≠ .reset ∧ hd ≠ .close ∧ hd ≠ .keepalive := by
  refine ⟨?_, ?_, ?_⟩
  · rintro rfl
    exact OHandler.call_letsGo env now i s (.inl rfl) h
  · rintro rfl
    exact OHandler.call_letsGo env now i s (.inr (.inl rfl)) h
  · rintro rfl
    exact OHandler.call_letsGo env now i s (.inr (.inr rfl)) h

/-- The record is SENDING the same response to the same request. -/
structure KeepsSending (i : Slot) (s s' : Server) : Prop where
  sending : (s.http i).req.state = .sending
  req : (s'.http i).req = (s.http i).req
  extent : (s'.http i).resp.extent = (s.http i).resp.extent

/-- **A record that is SENDING after a step** was so before, or the step is the visit that
answered. -/
theorem record_step {inp : Input} (hst : serverStep env s inp = some s')
    (hsend' : (s'.http i).req.state = .sending) :
    KeepsSending i s s' ∨
    ∃ start now out r page, inp = .slot start now out ∧ s.phase = .slots i.val ∧
      pollSlot env (s.visit i start now) (s.http i).req = .answer r page := by
  have same : s'.http i = s.http i → KeepsSending i s s' := fun heq =>
    ⟨by rw [← heq]; exact hsend', by rw [heq], by rw [heq]⟩
  cases serverStep_act hst with
  | net _ _ _ _ _ _ => exact .inl (same rfl)
  | idle _ => exact .inl (same rfl)
  | date _ => exact .inl (same rfl)
  | @visit j start now out hph =>
      by_cases hij : i = j
      · subst hij
        have hnh := (noteVisit_fields s i start now).2.1
        replace hsend' : ((visitSlot env i s start now out).http i).req.state = .sending := hsend'
        by_cases hsend : (s.http i).req.state = .sending
        · left
          obtain hpoll | ⟨_, hpoll⟩ := pollSlot_sending env (s.visit i start now) hsend
          · refine same ?_
            show (visitSlot env i s start now out).http i = s.http i
            simp [visitSlot, hpoll, hnh]
          · simp [visitSlot, hpoll] at hsend'
        · right
          have hns := @pollSlot_notSending env (s.visit i start now) _ hsend
          cases hpoll : pollSlot env (s.visit i start now) (s.http i).req with
          | answer r page => exact ⟨start, now, out, r, page, rfl, hph, hpoll⟩
          | stay r | close r =>
              rw [hpoll] at hns
              simp only [visitSlot, hpoll, Server.setReq_self] at hsend'
              exact absurd hsend' hns
      · exact .inl (same (Beside.visitSlot hij env s start now out).http)
  | @event j _ =>
      obtain heq | ⟨_, e, _, heq⟩ | ⟨_, _, heq⟩ := pollEvent_cases j s
      · exact .inl (same (by rw [heq]))
      · exact .inl (same (by rw [heq]; rfl))
      · exact .inl (same (by rw [heq]; rfl))
  | @fsa now _ _ hstep =>
      obtain ⟨j, e, q, hnext, hcase⟩ := httpFsaStep_cases hstep
      by_cases hij : i = j
      · subst hij
        obtain ⟨_, rfl⟩ | ⟨o, hd, _, rfl⟩ := hcase
        · exact .inl (same rfl)
        · have hstay := OHandler.call_sending env now i { s with fsa := q } hsend'
          have hreq := OHandler.call_req env now i { s with fsa := q } hstay
          refine .inl ⟨?_, hreq, OHandler.call_extent env now i { s with fsa := q } hd⟩
          rw [← hreq]
          exact hsend'
      · exact .inl (same (Beside.fsaStep hij hstep hnext).http)
  | drained _ _ => exact .inl (same rfl)

/-! ## The decision is carried out -/

/-- What is queued of a decision is that of the flags. -/
def Decided (i : Slot) (s : Server) : Prop :=
  (s.http i).req.state = .sending → ∀ e, (i, e) ∈ s.fsa.hi →
    (e = .doClose → (s.http i).req.flags.closes = true) ∧
    (e = .doKeepalive → (s.http i).req.flags.closes = false)

theorem table_decision {st o : OState} {e : OEvt} {hd : OHandler}
    (h : httpFsaTransTable st e = some (o, hd)) :
    (hd = .close → e = .doClose) ∧ (hd = .keepalive → e = .doKeepalive) := by
  cases st <;> cases e <;> simp only [httpFsaTransTable, Option.some.injEq, Prod.mk.injEq,
    reduceCtorEq] at h <;> obtain ⟨_, rfl⟩ := h <;> simp

theorem OHandler.posts_plain {now : Tick} {hd : OHandler} {e : OEvt} (hne : hd ≠ .decide)
    (h : hd.posts env now i s = some e) : e ≠ .doClose ∧ e ≠ .doKeepalive := by
  cases hd with
  | decide => exact absurd rfl hne
  | install =>
      cases h
      simp
  | send =>
      simp only [OHandler.posts, hSendPosts] at h
      split at h
      · split at h
        · cases h
          simp
        split at h
        · cases h
        split at h
        · cases h
        · cases h
          split <;> simp
      · cases h
        simp
  | _ => cases h

theorem Decided.keep (h : Decided i s) (hreq : (s'.http i).req = (s.http i).req)
    (hhi : ∀ e, (i, e) ∈ s'.fsa.hi → (i, e) ∈ s.fsa.hi ∨ (e ≠ .doClose ∧ e ≠ .doKeepalive)) :
    Decided i s' := by
  intro hsend e hmem
  rw [hreq] at hsend ⊢
  rcases hhi e hmem with hold | ⟨hc, hk⟩
  · exact h hsend e hold
  · exact ⟨fun he => absurd he hc, fun he => absurd he hk⟩

theorem Decided.call {now : Tick} {e : OEvt} {q : Fsa} (h : Decided i s)
    (hnext : s.fsa.next = some (i, e, q)) (hd : OHandler) :
    Decided i (hd.call env now i { s with fsa := q }) := by
  have hm : Decided i { s with fsa := q } :=
    h.keep rfl fun e' hmem => .inl ((Fsa.next_hi hnext).1 hmem)
  intro hsend
  have hstay := OHandler.call_sending env now i _ hsend
  have hreq := OHandler.call_req env now i { s with fsa := q } hstay
  refine (?_ : Decided i _) hsend
  by_cases hdec : hd = .decide
  · subst hdec
    intro hsend' e' hmem
    replace hmem : (i, e') ∈ (q.post i
        (if (s.http i).req.flags.closes then .doClose else .doKeepalive)).hi := hmem
    rcases Fsa.mem_post_hi hmem with hold | ⟨_, rfl, _⟩
    · exact hm hsend' e' hold
    · show (_ → (s.http i).req.flags.closes = true) ∧ (_ → (s.http i).req.flags.closes = false)
      cases (s.http i).req.flags.closes <;> simp
  · refine hm.keep hreq fun e' hmem => ?_
    rw [OHandler.call_posts] at hmem
    cases hposts : hd.posts env now i { s with fsa := q } with
    | none =>
        rw [hposts] at hmem
        exact .inl hmem
    | some e'' =>
        rw [hposts] at hmem
        rcases Fsa.mem_post_hi hmem with hold | ⟨_, rfl, _⟩
        · exact .inl hold
        · exact .inr (OHandler.posts_plain hdec hposts)

theorem decided_step {inp : Input} (hw : WaysOk s) (h : Decided i s)
    (hst : serverStep env s inp = some s') : Decided i s' := by
  cases serverStep_act hst with
  | net _ _ _ _ _ _ => exact h
  | idle _ => exact h
  | date _ => exact h
  | @visit j start now out hph =>
      by_cases hij : i = j
      · subst hij
        -- before its visit nothing is queued for a way
        have hnone := (hw.ways i).unqueued hph
        intro _ e hmem
        have hready : e = .respReady := by
          obtain hsame | hpost := visitSlot_fsa env i s start now out
          · exact absurd (hsame ▸ hmem) (hnone e)
          · rcases Fsa.mem_post_hi (hpost ▸ hmem) with hold | ⟨_, hnew, _⟩
            · exact absurd hold (hnone e)
            · exact hnew
        subst hready
        simp
      · have hb := Beside.visitSlot hij env s start now out
        exact h.keep (by rw [← hb.http]) fun e hmem => .inl ((hb.hi e).mp hmem)
  | @event j _ =>
      have hplain : ∀ e, tcpEventPosts j s = some e → e ≠ .doClose ∧ e ≠ .doKeepalive := by
        intro e he
        unfold tcpEventPosts at he
        dsimp only at he
        split at he
        · cases he
        split at he
        · split at he
          · split at he <;> cases he
            simp
          · split at he <;> cases he
            simp
        · cases he
          simp
      rw [tcpEvent_posts]
      refine h.keep rfl fun e hmem => ?_
      cases hposts : tcpEventPosts j s with
      | none =>
          rw [hposts] at hmem
          exact .inl hmem
      | some e' =>
          rw [hposts] at hmem
          rcases Fsa.mem_post_hi hmem with hold | ⟨_, rfl, _⟩
          · exact .inl hold
          · exact .inr (hplain _ hposts)
  | fsa _ hstep =>
      obtain ⟨j, e, q, hnext, hcase⟩ := httpFsaStep_cases hstep
      by_cases hij : i = j
      · subst hij
        obtain ⟨_, rfl⟩ | ⟨o, hd, _, rfl⟩ := hcase
        · exact h.keep rfl fun e' hmem => .inl ((Fsa.next_hi hnext).1 hmem)
        · exact (h.call hnext hd).keep rfl fun e' hmem => .inl hmem
      · have hb := Beside.fsaStep hij hstep hnext
        exact h.keep (by rw [hb.http]) fun e' hmem => .inl ((hb.hi e').mp hmem)
  | drained _ _ => exact h

/-- **`h_close` is called if the flags say so, `h_keepalive` if they do not.** -/
theorem Decided.calls (h : Decided i s) (hq : s.fsa.Ok) (hsend : (s.http i).req.state = .sending)
    {hd : OHandler} (hcalls : s.calls i hd) :
    (hd = .close → (s.http i).req.flags.closes = true) ∧
    (hd = .keepalive → (s.http i).req.flags.closes = false) := by
  obtain ⟨e, q, o, hnext, htab⟩ := hcalls
  have hmem : e.hi = true → (i, e) ∈ s.fsa.hi := by
    intro he
    rcases (Fsa.next_some hnext).2 with ⟨hhi, _⟩ | ⟨_, _, hlo⟩
    · rw [hhi]
      exact List.mem_cons_self
    · have hlow := hq.lower (i, e) (by rw [hlo]; exact List.mem_cons_self)
      rw [he] at hlow
      cases hlow
  refine ⟨fun hclose => ?_, fun hkeep => ?_⟩
  · obtain rfl := (table_decision htab).1 hclose
    exact (h hsend _ (hmem rfl)).1 rfl
  · obtain rfl := (table_decision htab).2 hkeep
    exact (h hsend _ (hmem rfl)).2 rfl

/-! ## Every run -/

/-- The way is sending the response that was set up with these flags at this place. -/
structure Sends (i : Slot) (f : Flags) (hdr hdrLen : Nat) (s : Server) : Prop where
  flags : (s.http i).req.flags = f
  hdrSrc : (s.http i).resp.hdrSrc = hdr
  hdrLen : (s.http i).resp.hdrLen = hdrLen

theorem answered_sends {start now : Tick} {out : HandlerOut} {r : Req} {page : Page}
    (hph : s.phase = .slots i.val)
    (hpoll : pollSlot env (s.visit i start now) (s.http i).req = .answer r page)
    (hst : serverStep env s (.slot start now out) = some s') :
    (s'.http i).req.state = .sending ∧ Sends i r.flags page.blob.hdr page.blob.hdrLen s' := by
  have hi : i.val < tcpMaxConns := i.isLt
  have hs' : s' = { answerSlot env i (s.noteVisit i start now) out r page with
      phase := .slotsFrom (i.val + 1) } := by
    simp only [serverStep, hph, hi, dif_pos, Fin.eta, visitSlot, hpoll, Option.some.injEq] at hst
    rw [← hst]
    rfl
  have hhttp : s'.http i = ⟨{ r with state := .sending },
      (setupPage env i (s.noteVisit i start now) out r.flags page).2⟩ := by
    rw [hs']
    simp [answerSlot]
  rw [hhttp]
  refine ⟨rfl, ?_⟩
  cases page with
  | static b => exact ⟨by rw [hhttp], by rw [hhttp]; rfl, by rw [hhttp]; rfl⟩
  | dynamic b => exact ⟨by rw [hhttp], by rw [hhttp]; rfl, by rw [hhttp]; rfl⟩

theorem Sends.step {inp : Input} {f : Flags} {hdr hdrLen : Nat} (h : Sends i f hdr hdrLen s)
    (hsend : (s.http i).req.state = .sending) (hst : serverStep env s inp = some s')
    (hsend' : (s'.http i).req.state = .sending) : Sends i f hdr hdrLen s' := by
  obtain hkeep | ⟨_, _, _, _, _, _, _, hpoll⟩ := record_step hst hsend'
  · have hext := hkeep.extent
    simp only [Resp.extent, Resp.source, Prod.mk.injEq] at hext
    exact ⟨by rw [hkeep.req]; exact h.flags, hext.1.1.trans h.hdrSrc, hext.1.2.1.trans h.hdrLen⟩
  · exact absurd hsend (pollSlot_answer hpoll).2

/-- **The Connection line is honest exactly under the condition.**  `s₀` is any reachable state
in which a visit answers on way `i`, and `s₁` the state after it.  In every state in which that
response is still being sent its header fits the decision, if and only if `honestWhen` held
before the visit; and the decision is what is carried out: `h_close` is called with HFLAG_CLOSE
or without HFLAG_HTTP11, `h_keepalive` otherwise. -/
theorem conn_header_honest_iff {routeHdr : Route → List HdrLine} {cap : PoolCap} {t₀ start now : Tick}
    {mem : Nat → Byte} {out : HandlerOut} {r : Req} {page : Page} {s₀ s₁ : Server}
    (hl : HttpLayout env routeHdr) (hmem : HeadersIn env routeHdr mem)
    (hreach : Run (serverStep env) anyEvent (serverInit env cap t₀ mem) s₀)
    (hph : s₀.phase = .slots i.val)
    (hpoll : pollSlot env (s₀.visit i start now) (s₀.http i).req = .answer r page)
    (hst : serverStep env s₀ (.slot start now out) = some s₁) :
    ((∀ s₂, Run (serverStep env) (sendsOn i) s₁ s₂ → (s₂.http i).req.state = .sending →
        HonestAt (s₀.visit i start now) i s₂) ↔
      honestWhen env routeHdr (s₀.visit i start now) (s₀.http i).req = true) ∧
    ∀ s₂, Run (serverStep env) (sendsOn i) s₁ s₂ → (s₂.http i).req.state = .sending →
      ∀ hd, s₂.calls i hd →
        (hd = .close → (s₂.http i).req.flags.closes = true) ∧
        (hd = .keepalive → (s₂.http i).req.flags.closes = false) := by
  have hbefore : WaysOk s₀ ∧ HeadersIn env routeHdr s₀.mem ∧ Decided i s₀ := by
    refine hreach.invariant (P := fun s => WaysOk s ∧ HeadersIn env routeHdr s.mem ∧ Decided i s)
      ⟨waysOk_init env cap t₀ mem, hmem, fun hs => by cases hs⟩ ?_
    intro t u e ht _ hstep
    exact ⟨waysOk_step ht.1 hstep, headersIn_step ht.2.1 hl hstep,
      decided_step ht.1 ht.2.2 hstep⟩
  obtain ⟨hsend₁, hsends⟩ := answered_sends hph hpoll hst
  have hfirst : WaysOk s₁ ∧ HeadersIn env routeHdr s₁.mem ∧ Decided i s₁ :=
    ⟨waysOk_step hbefore.1 hst, headersIn_step hbefore.2.1 hl hst,
      decided_step hbefore.1 hbefore.2.2 hst⟩
  -- while the record is SENDING it is the same response
  have hafter : ∀ s₂, Run (serverStep env) (sendsOn i) s₁ s₂ →
      (WaysOk s₂ ∧ HeadersIn env routeHdr s₂.mem ∧ Decided i s₂) ∧
      ((s₂.http i).req.state = .sending → Sends i r.flags page.blob.hdr page.blob.hdrLen s₂) := by
    intro s₂ hrun
    refine hrun.invariant (P := fun s =>
      (WaysOk s ∧ HeadersIn env routeHdr s.mem ∧ Decided i s) ∧
      ((s.http i).req.state = .sending → Sends i r.flags page.blob.hdr page.blob.hdrLen s))
      ⟨hfirst, fun _ => hsends⟩ ?_
    intro t u e ht hok hstep
    obtain ⟨⟨hw, hin, hdec⟩, hsame⟩ := ht
    exact ⟨⟨waysOk_step hw hstep, headersIn_step hin hl hstep, decided_step hw hdec hstep⟩,
      fun hsend' => (hsame hok).step hok hstep hsend'⟩
  obtain ⟨t, ht, hfits⟩ : ∃ t, (page.blob, t) ∈ env.headers routeHdr ∧
      fits (s₀.visit i start now) (saysClose t) r.flags
        = honestWhen env routeHdr (s₀.visit i start now) (s₀.http i).req := by
    have hspec := @pollSlot_fits env routeHdr (s₀.visit i start now) (s₀.http i).req
    rw [hpoll] at hspec
    exact hspec
  have hhonest : ∀ s₂, Run (serverStep env) (sendsOn i) s₁ s₂ →
      (s₂.http i).req.state = .sending → (HonestAt (s₀.visit i start now) i s₂ ↔
        honestWhen env routeHdr (s₀.visit i start now) (s₀.http i).req = true) := by
    intro s₂ hrun hsend
    obtain ⟨⟨_, hin, _⟩, hsame⟩ := hafter s₂ hrun
    have hat := hsame hsend
    rw [honestAt_iff hl hin ht hat.hdrSrc hat.hdrLen, hat.flags, hfits]
  refine ⟨⟨fun h => ?_, fun hwhen s₂ hrun hsend => ?_⟩, fun s₂ hrun hsend hd hcalls => ?_⟩
  · exact (hhonest s₁ .refl hsend₁).mp (h s₁ .refl hsend₁)
  · exact (hhonest s₂ hrun hsend).mpr hwhen
  · obtain ⟨⟨hw, _, hdec⟩, _⟩ := hafter s₂ hrun
    exact hdec.calls hw.queues.ok hsend hcalls

end

/-! An image with the headers of the source, one every 1000 bytes, and the page at `/`. -/

def demoHdrs : List (List HdrLine) :=
  [http404Hdr, http400Hdr, http405HdrGhp, http405HdrGh, http405HdrP, http411Hdr, http413Hdr,
    http200Hdr]

def demoStamp : List Byte := ascii "Thu, 01 Jan 1970 00:00:00 GMT"

/-- The text of the header at `1000 * k`. -/
def demoText (k : Nat) : List Byte := hdrText demoStamp (demoHdrs.getD k [])

def demoImageMem (a : Nat) : Byte := (demoText (a / 1000)).getD (a % 1000) 0

/-- A page with a body of 50 bytes. -/
def demoPage (k hdrLen : Nat) (h : hdrLen + 50 + httpDynChunkSize < 2 ^ 32 := by decide) : Blob :=
  ⟨1000 * k, hdrLen, 20000, 50, h⟩

def demoImage : HttpEnv where
  tcp := demoEnv
  routes := [⟨ascii "/", hmGet ||| hmHead, false, demoPage 7 133⟩]
  notFound := demoPage 0 139
  badRequest := demoPage 1 160
  methodGhp := demoPage 2 192
  methodGh := demoPage 3 186
  methodP := demoPage 4 181
  lengthRequired := demoPage 5 165
  tooLarge := demoPage 6 167
  dynChunkBufs := 30000
  dateFields := [2055]

def demoHome : Server := serverInit demoImage 16 1 demoImageMem

def demoRouteHdr (_ : Route) : List HdrLine := http200Hdr

theorem demoImage_layout : HttpLayout demoImage demoRouteHdr where
  plain := by decide +kernel
  dates := by
    intro a ha p hp
    obtain rfl := List.mem_singleton.mp ha
    simp only [HttpEnv.headers, demoImage, List.map_cons, List.map_nil, List.cons_append,
      List.nil_append, List.mem_cons, List.not_mem_nil, or_false] at hp
    rcases hp with rfl | rfl | rfl | rfl | rfl | rfl | rfl | rfl
    · exact .inl (by decide)
    · exact .inl (by decide)
    · exact .inr ⟨[.text "HTTP/1.1 405 Method Not Allowed", .text "Server: ws_pi5"], _, rfl,
        by decide, by decide, by decide +kernel⟩
    · exact .inl (by decide)
    · exact .inl (by decide)
    · exact .inl (by decide)
    · exact .inl (by decide)
    · exact .inl (by decide)
  chunks := by decide +kernel

theorem demoImageMem_slice {k n : Nat} (hlen : (demoText k).length = n) (hn : n ≤ 1000) :
    slice demoImageMem (1000 * k) n = demoText k := by
  apply List.ext_getElem
  · simp [hlen]
  · intro a ha ha'
    rw [slice_length] at ha
    have hk : (1000 * k + a) / 1000 = k := by omega
    have hmod : (1000 * k + a) % 1000 = a := by omega
    rw [slice_getElem, demoImageMem, hk, hmod]
    simp [ha']

theorem demoImage_headers : HeadersIn demoImage demoRouteHdr demoImageMem := by
  obtain ⟨h₀, h₁, h₂, h₃, h₄, h₅, h₆, h₇⟩ : (demoText 0).length = 139 ∧
      (demoText 1).length = 160 ∧ (demoText 2).length = 192 ∧ (demoText 3).length = 186 ∧
      (demoText 4).length = 181 ∧ (demoText 5).length = 165 ∧ (demoText 6).length = 167 ∧
      (demoText 7).length = 133 := by
    decide +kernel
  intro p hp
  refine ⟨demoStamp, ⟨by decide, by decide⟩, ?_⟩
  simp only [HttpEnv.headers, demoImage, List.map_cons, List.map_nil, List.cons_append,
    List.nil_append, List.mem_cons, List.not_mem_nil, or_false] at hp
  rcases hp with rfl | rfl | rfl | rfl | rfl | rfl | rfl | rfl
  · exact demoImageMem_slice h₀ (by decide)
  · exact demoImageMem_slice h₁ (by decide)
  · exact demoImageMem_slice h₂ (by decide)
  · exact demoImageMem_slice h₃ (by decide)
  · exact demoImageMem_slice h₄ (by decide)
  · exact demoImageMem_slice h₅ (by decide)
  · exact demoImageMem_slice h₆ (by decide)
  · exact demoImageMem_slice h₇ (by decide)

/-- A segment of a peer with a window of 1000 bytes. -/
def demoWide (f : Frame) : Input := .frame 1 { f with window := 1000 }

def demoAsks (request : List Byte) : List Input :=
  [demoWide { demoSyn with sport := 1000 }, demoWide (demoFrom 1000 0 []),
    demoWide (demoFrom 1000 0 request)]

/-- Up to the visit of the peer's way, with a date formatted before. -/
def demoToVisit : List Input :=
  demoAsks demoGet ++ .idle :: List.replicate 16 (.timer 1) ++
    [.date (some 0), .slot 1 1 {}]

/-- The header of the page is honest. -/
theorem conn_header_honest_demo : ∃ s₀ s₁ : Server, s₀.phase = .slots 1 ∧
    (s₁.http 1).req.state = .sending ∧ HonestAt (s₀.visit 1 1 1) 1 s₁ := by
  obtain ⟨s₀, hrun, hph, hans, hwhen⟩ := exists_run (serverStep demoImage) anyEvent demoHome
    (Q := fun s => s.phase = .slots 1 ∧
      (pollSlot demoImage (s.visit 1 1 1) (s.http 1).req).answersFull = true ∧
      honestWhen demoImage demoRouteHdr (s.visit 1 1 1) (s.http 1).req = true)
    demoToVisit (feedOk_any _ _) (by decide +kernel)
  cases hpoll : pollSlot demoImage (s₀.visit 1 1 1) (s₀.http 1).req with
  | stay _ | close _ =>
      rw [hpoll] at hans
      cases hans
  | answer r page =>
      obtain ⟨s₁, hst⟩ : ∃ s₁, serverStep demoImage s₀ (.slot 1 1 {}) = some s₁ := by
        simp [serverStep, hph, tcpMaxConns]
      have hsend := (answered_sends (i := 1) hph hpoll hst).1
      have hiff := (conn_header_honest_iff demoImage_layout demoImage_headers hrun hph hpoll hst).1
      exact ⟨s₀, s₁, hph, hsend, hiff.mpr hwhen s₁ .refl hsend⟩

def demoPut : List Byte := ascii "PUT / HTTP/1.1\r\nHost: a\r\n\r\n"

/-- A PUT is answered, and the peer acknowledges the answer. -/
def demoPutRun : List Leg :=
  [.inputs (demoAsks demoPut), .pass 1 1 {} [1, 1, 1, 1, 1],
    .inputs [demoWide { demoFrom 1000 demoPut.length [] with
      ack := (demoFrom 1000 demoPut.length []).ack + 242 }],
    .pass 1 1 {} [1, 1, 1]]

/-- The 405 header promised a close; `h_keepalive` let go of the record, and the server is
reading requests on the same connection. -/
theorem put_promise_broken : ∃ s : Server,
    Run (serverStep demoImage) anyEvent demoHome s ∧
    (∃ body, sentBytes 1 s.tcp.log = hdrText demoStamp http405HdrGhp ++ body) ∧
    promisesClose (hdrText demoStamp http405HdrGhp) ∧
    s.log.head? = some (.ended 1 .keepalive) ∧
    (s.http 1).req.state = .recvHdr ∧ (s.tcp.conn 1).state = .established := by
  obtain ⟨s, hrun, hsent, hlog, hreq, htcp⟩ := exists_legs demoImage anyEvent 1 (allowsQuiet_any 1)
    (s := demoHome) (Q := fun s =>
      sentBytes 1 s.tcp.log = hdrText demoStamp http405HdrGhp ++ slice demoImageMem 20000 50 ∧
      s.log.head? = some (.ended 1 .keepalive) ∧
      (s.http 1).req.state = .recvHdr ∧ (s.tcp.conn 1).state = .established)
    demoPutRun (by decide +kernel) (by decide +kernel)
  have hpromise := (@promisesClose_hdrText demoStamp http405HdrGhp (by decide)
    (by decide)).mpr (by decide)
  exact ⟨s, hrun, ⟨_, hsent⟩, hpromise, hlog, hreq, htcp⟩

end WsPi5
