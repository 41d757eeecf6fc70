/-
# `WsPi5.Http.Stream` — the requests and the responses of a connection

The bytes that come in on a connection are a stream of messages, and so are those that go out.  A
visit of `http_poll` takes one message from the first and sets up a response for the second, the
output FSA sends it, and behind it the record is free for the next one.

    taken from the receive buffer     message 1, message 2, …, message n
    handed to `tcp_send`              response 1, response 2, …, a front of response n

**What is claimed** (`responsesInOrder`).  On an ESTABLISHED connection what was sent are the bytes
of the pages that were set up, one behind the other and none twice, all of them when no response is
under way.  While the connection is kept open, what was taken is divided into messages, and the
pages are those that `HttpEnv.reply` has for their heads.

**The condition** (`steadily`).  That of `WsPi5.Http.Persistent`, and nobody writes to header or
body of a response while it is being sent.

`Served` puts down what was set up, beside the server and without a part in what it does.
-/
import WsPi5.Http.Reply
import WsPi5.Http.Output

namespace WsPi5

open Lib

/-! ## What was set up -/

/-- The bytes of a page, in a memory with the chunk of a dynamic route in place. -/
def Page.bytes (mem : Nat → Byte) (out : List Byte) (head : Bool) : Page → List Byte
  | .static b => slice mem b.hdr b.hdrLen ++ if head then [] else slice mem b.body b.bodyLen
  | .dynamic b => slice mem b.hdr b.hdrLen ++ if head then [] else chunkBody out

/-- A response: the record of its request, the page, and the bytes. -/
structure Response where
  req : Req
  page : Page
  bytes : List Byte

/-- The server, what had been sent in the slot when its connection was established, and the
responses that were set up on it, latest first. -/
structure Served where
  server : Server
  before : List Byte := []
  responses : List Response := []

/-- The answer that a step sets up in slot `i`. -/
def Server.answers (env : HttpEnv) (i : Slot) (s : Server) : Input → Option (Req × Page × List Byte)
  | .slot start now out =>
      if s.phase = .slots i.val then
        match pollSlot env (s.visit i start now) (s.http i).req with
        | .answer r page => some ({ r with state := .sending }, page, out.bytes)
        | _ => none
      else none
  | _ => none

def Served.step (env : HttpEnv) (i : Slot) (w : Served) (inp : Input) : Option Served :=
  (serverStep env w.server inp).map fun s =>
    if (w.server.tcp.conn i).state ≠ .established ∧ (s.tcp.conn i).state = .established then
      ⟨s, sentBytes i s.tcp.log, []⟩
    else match w.server.answers env i inp with
      | some (r, page, out) =>
          { w with
            server := s
            responses := ⟨r, page, page.bytes s.mem out r.flags.head⟩ :: w.responses }
      | none => { w with server := s }

/-! ## What is claimed -/

/-- The response to a message. -/
structure Response.RespondsTo (env : HttpEnv) (x : Response) (m : Message) : Prop where
  reads : x.req.parser.Reads m
  reply : (x.req.status, x.page) = env.reply m.head
  head : x.req.flags.head = decide (m.head.method = ascii "HEAD")

/-- These responses, latest first, are those to the messages that these bytes are. -/
inductive Responds (env : HttpEnv) : List Response → List Byte → Prop
  | none : Responds env [] []
  | next {x : Response} {xs : List Response} {bs : List Byte} {m : Message}
      (h : Responds env xs bs) (hm : x.RespondsTo env m) : Responds env (x :: xs) (bs ++ m.bytes)

/-- What is on the wire with these responses, latest first. -/
def streamed (before : List Byte) (xs : List Response) : List Byte :=
  before ++ xs.reverse.flatMap Response.bytes

/-- All that was set up was sent, or all but a rear part of the latest. -/
def Served.sends (i : Slot) (w : Served) : Prop :=
  if (session i w.server.log).busy = true then
    ∃ x xs, w.responses = x :: xs ∧ sentBytes i w.server.tcp.log
      = streamed w.before xs ++ x.bytes.take (w.server.http i).resp.respPtr
  else sentBytes i w.server.tcp.log = streamed w.before w.responses

def responsesInOrder (env : HttpEnv) (i : Slot) (w : Served) : Prop :=
  (w.server.tcp.conn i).state = .established → w.sends i ∧
    ((session i w.server.log).keptOpen → Responds env w.responses (taken i w.server.tcp.log))

/-- Requests are framed, and a response that is being sent is not rewritten. -/
def steadily (env : HttpEnv) (i : Slot) (s : Server) (inp : Input) : Prop :=
  framesSafely env i s inp ∧ ((s.http i).req.state = .sending →
    ∀ s' ∈ serverStep env s inp, (s.http i).resp.sameBytes s.mem s'.mem)

/-! ## The invariant -/

structure Streaming (env : HttpEnv) (i : Slot) (w : Served) : Prop where
  free : (w.server.tcp.conn i).state = .established → (session i w.server.log).busy = false →
    sentBytes i w.server.tcp.log = streamed w.before w.responses ∧
      Responds env w.responses (taken i w.server.tcp.log) ∧
      (w.server.http i).req.Serves (w.server.tcp.conn i).buffered
  busy : (w.server.tcp.conn i).state = .established → (session i w.server.log).busy = true →
    ∃ x xs, w.responses = x :: xs ∧ x.req = (w.server.http i).req ∧
      Exact i (streamed w.before xs) x.bytes x.req.flags.head w.server ∧
      (x.req.keeps = true → Responds env w.responses (taken i w.server.tcp.log))

section
variable {env : HttpEnv} {i : Slot} {w w' : Served} {s s' : Server}

theorem Streaming.of_ended (h : (w.server.tcp.conn i).state ≠ .established) : Streaming env i w :=
  ⟨fun he => absurd he h, fun he => absurd he h⟩

theorem Req.Serves.grow {rest rest' : List Byte} {r : Req} (h : r.Serves rest)
    (hpre : rest <+: rest') : r.Serves rest' := by
  unfold Req.Serves at h ⊢
  cases hst : r.state with
  | idle | recvHdr =>
      rw [hst] at h
      exact h
  | recvBody =>
      rw [hst] at h
      intro hk
      obtain ⟨hd, hv, hfront, hu⟩ := h hk
      exact ⟨hd, hv, hfront.trans hpre, hu⟩
  | sending =>
      rw [hst] at h
      exact h

theorem Streaming.keep (h : Streaming env i w) (hu : LeftAlone i w.server s')
    (hsent : sentBytes i s'.tcp.log = sentBytes i w.server.tcp.log)
    (hexact : ∀ {base whole head}, (w.server.tcp.conn i).state = .established →
      (session i w.server.log).busy = true → Exact i base whole head w.server →
        Exact i base whole head s') :
    Streaming env i { w with server := s' } := by
  constructor
  · simp only [hu.state, hu.session, hu.taken, hu.req, hu.buffered, hsent]
    exact h.free
  · simp only [hu.state, hu.session, hu.taken, hu.req]
    intro hest hb
    obtain ⟨x, xs, hxs, hreq, hex, hresp⟩ := h.busy hest hb
    exact ⟨x, xs, hxs, hreq, hexact hest hb hex, hresp⟩

/-! ### Frames and timers -/

theorem Streaming.net {e : Event} {t : Tcp} {p : Phase} (h : Streaming env i w)
    (hk : Tracked env i w.server) (hnet : e.call.net = true)
    (hlen : ∀ f, e.call = .rx f → f.payload.length ≤ maxPayload)
    (ht : step env.tcp w.server.tcp e = some t)
    (hold : ¬ ((w.server.tcp.conn i).state ≠ .established ∧ (t.conn i).state = .established)) :
    Streaming env i { w with server := { w.server.withTcp t with phase := p } } := by
  have hsess := @session_withTcp i w.server t
  rw [if_neg hold] at hsess
  rcases net_step ht hnet hlen i with hkeep | hopen
  · obtain ⟨-, hpre⟩ := hkeep.bytes hk.bounded
    have hback : (t.conn i).state = .established →
        (w.server.tcp.conn i).state = .established := by
      intro hest
      by_contra hne
      exact hold ⟨hne, hest⟩
    have htaken : taken i (w.server.withTcp t).tcp.log = taken i w.server.tcp.log :=
      hkeep.log.taken
    have hsent : sentBytes i (w.server.withTcp t).tcp.log = sentBytes i w.server.tcp.log :=
      hkeep.log.sentBytes
    constructor
    · simp only [hsess, htaken, hsent]
      intro hest hb
      obtain ⟨h₁, h₂, h₃⟩ := h.free (hback hest) hb
      exact ⟨h₁, h₂, h₃.grow hpre⟩
    · simp only [hsess, htaken]
      intro hest hb
      obtain ⟨x, xs, hxs, hreq, hex, hresp⟩ := h.busy (hback hest) hb
      exact ⟨x, xs, hxs, hreq, hex.net hnet hlen ht hest, hresp⟩
  · refine .of_ended ?_
    show (t.conn i).state ≠ .established
    rw [hopen.after]
    decide

/-- The handshake is completed: nothing is set up, and nothing has been taken. -/
theorem Streaming.opened {e : Event} {t : Tcp} {p : Phase} (hk : Tracked env i s)
    (hnet : e.call.net = true) (hlen : ∀ f, e.call = .rx f → f.payload.length ≤ maxPayload)
    (ht : step env.tcp s.tcp e = some t)
    (hok : ∀ f, e.call = .rx f → s.tcp.establishes env.tcp e i = true → (s.http i).req.blank)
    (hnew : (s.tcp.conn i).state ≠ .established ∧ (t.conn i).state = .established) :
    Streaming env i ⟨{ s.withTcp t with phase := p }, sentBytes i t.log, []⟩ := by
  have hsess := @session_withTcp i s t
  rw [if_pos hnew] at hsess
  rcases net_step ht hnet hlen i with hkeep | hopen
  · obtain hold | ⟨hsyn, f, hf⟩ := hkeep.established hnew.2
    · exact absurd hold hnew.1
    · have hblank := hok f hf (by simp [Tcp.establishes, ht, hnew])
      have hempty : taken i t.log = [] := hkeep.log.taken.trans (hk.opened hsyn)
      constructor
      · intro _ _
        refine ⟨?_, ?_, ?_⟩
        · exact (List.append_nil _).symm
        · show Responds env [] (taken i t.log)
          rw [hempty]
          exact .none
        · obtain ⟨hst, hfl, -, -, -⟩ := Req.of_view (show (s.http i).req.view = ({} : Req).view
            from hblank)
          show (s.http i).req.Serves _
          unfold Req.Serves
          rw [← hst]
          exact hfl.symm
      · intro _ hb
        have hb' : (session i (s.withTcp t).log).busy = true := hb
        rw [hsess] at hb'
        cases hb'
  · refine .of_ended ?_
    show (t.conn i).state ≠ .established
    rw [hopen.after]
    decide

/-! ### The visit -/

theorem visitSlot_ended (hne : (s.tcp.conn i).state ≠ .established) (start now : Tick)
    (out : HandlerOut) : ((visitSlot env i s start now out).tcp.conn i).state ≠ .established := by
  obtain ⟨-, -, hnt, -⟩ := noteVisit_fields s i start now
  unfold visitSlot
  cases hpoll : pollSlot env (s.visit i start now) (s.http i).req with
  | stay r =>
      simp only [Server.setReq_tcp, hnt]
      exact hne
  | close r =>
      simp only [Server.setReq_tcp, Server.tcpClose, hnt, Tcp.put_conn_self]
      exact tcpClose_state env.tcp now i (s.tcp.at i)
  | answer r page => exact absurd (pollSlot_answer hpoll).1 hne

theorem setupPage_bytes (env : HttpEnv) (i : Slot) (s : Server) (out : HandlerOut) (f : Flags)
    (page : Page) : (setupPage env i s out f page).2.whole f.head (setupPage env i s out f page).1
      = page.bytes (setupPage env i s out f page).1 out.bytes f.head := by
  cases page with
  | static b => rfl
  | dynamic b =>
      have hself := slice_memWrite_self s.mem (env.chunkBuf i) (chunkBody out.bytes)
      simp only [setupPage, setupResp, Resp.whole, Page.bytes, hself]

/-- What is taken by an answer that keeps the connection open is a message, and it is responded
to. -/
theorem responds_next {rest : List Byte} {r : Req} {page : Page}
    (htakes : r.parser.Takes rest) {h : RequestHead} (hserves : AnswersHead env rest r page h)
    (bytes : List Byte) : ∃ m : Message,
      (⟨{ r with state := .sending }, page, bytes⟩ : Response).RespondsTo env m ∧
        m.bytes = rest.take (r.parser.reqLen + r.parser.contentLen) := by
  obtain ⟨m, hreads, hbytes⟩ := htakes
  have hfront : m.head.bytes <+: rest := by
    have hm : m.bytes <+: rest := by
      rw [hbytes]
      exact List.take_prefix _ _
    exact (List.prefix_append _ _).trans hm
  have hhead : m.head = h := head_unique m.valid hserves.valid hfront hserves.front
  refine ⟨m, ⟨hreads, ?_, ?_⟩, hbytes⟩
  · rw [hhead]
    exact hserves.reply
  · rw [hhead]
    exact hserves.head

theorem Streaming.visit_answer {start now : Tick} {out : HandlerOut} {r : Req} {page : Page}
    {p : Phase} (h : Streaming env i w) (hw : WaysOk w.server)
    (hest : (w.server.tcp.conn i).state = .established)
    (hb : (session i w.server.log).busy = false) (hph : w.server.phase = .slots i.val)
    (hV : pollSlot env (w.server.visit i start now) (w.server.http i).req = .answer r page)
    (hframed : (Verdict.answer r page).Framed (w.server.tcp.conn i).buffered)
    (hserved : (Verdict.answer r page).Serves env (w.server.tcp.conn i).buffered)
    (hs' : serverStep env w.server (.slot start now out) = some s')
    (hvisit : s' = { answerSlot env i (w.server.noteVisit i start now) out r page with phase := p }) :
    Streaming env i { w with
      server := s'
      responses := ⟨{ r with state := .sending }, page, page.bytes s'.mem out.bytes r.flags.head⟩
        :: w.responses } := by
  obtain ⟨-, -, hnt, -⟩ := noteVisit_fields w.server i start now
  obtain ⟨hsent, hresp, -⟩ := h.free hest hb
  obtain ⟨-, -, hexact⟩ := answered_exact hw hph hV hs'
  obtain ⟨-, htcp, hhttp, -⟩ :=
    answerSlot_fields env i (w.server.noteVisit i start now) out r page
  have hbusy : (session i s'.log).busy = true := by
    rw [hvisit]
    exact congrArg Session.busy (session_answered hest hb start now out r)
  have hlogs : s'.tcp.log = (tcpRxConsume i (r.parser.reqLen + r.parser.contentLen)
      (w.server.tcp.at i)).log := by
    rw [hvisit]
    show (answerSlot env i _ out r page).tcp.log = _
    rw [htcp, hnt]
    rfl
  have hsame : sentBytes i s'.tcp.log = sentBytes i w.server.tcp.log := by
    rw [hlogs, tcpRxConsume_log]
    rfl
  have hrecord : (s'.http i).req = { r with state := .sending } := by
    rw [hvisit]
    exact hhttp
  have hwhole : (s'.http i).resp.whole r.flags.head s'.mem
      = page.bytes s'.mem out.bytes r.flags.head := by
    have hpage := setupPage_bytes env i (w.server.noteVisit i start now) out r.flags page
    rw [hvisit]
    simpa [answerSlot] using hpage
  rw [hsame, hsent, hwhole] at hexact
  constructor
  · intro _ hfree
    exact absurd (hfree.symm.trans hbusy) Bool.false_ne_true
  · intro _ _
    refine ⟨_, _, rfl, hrecord.symm, hexact, fun hkeeps => ?_⟩
    obtain ⟨hd, hanswers⟩ := hserved hkeeps
    obtain ⟨m, hresponds, hbytes⟩ := responds_next (hframed hkeeps) hanswers
      (page.bytes s'.mem out.bytes r.flags.head)
    have htaken : taken i s'.tcp.log = taken i w.server.tcp.log ++ m.bytes := by
      rw [hlogs, tcpRxConsume_log, hbytes, buffered_take]
      simp [taken]
    show Responds env (_ :: w.responses) (taken i s'.tcp.log)
    rw [htaken]
    exact hresp.next hresponds

theorem Streaming.visit_free (h : Streaming env i w) (hw : WaysOk w.server)
    (hk : Tracked env i w.server) (hf : Framing i w.server)
    (hest : (w.server.tcp.conn i).state = .established)
    (hb : (session i w.server.log).busy = false) (hph : w.server.phase = .slots i.val)
    {start now : Tick} {out : HandlerOut}
    (hs : (w.server.http i).req.state = .idle ∨ (w.server.http i).req.state = .recvHdr →
      FramesSafely (w.server.tcp.conn i).buffered (w.server.http i).req.parser.off)
    (hst : w.step env i (.slot start now out) = some w') : Streaming env i w' := by
  obtain ⟨-, -, hnt, -⟩ := noteVisit_fields w.server i start now
  obtain ⟨hsent, hresp, hserves⟩ := h.free hest hb
  obtain ⟨hdiv, hawaits⟩ := hf.free hest hb
  obtain ⟨-, hwithin, -⟩ := hk.free hest hb
  have hlen : (w.server.tcp.conn i).buffered.length = (w.server.tcp.conn i).rxlen :=
    slice_length ..
  have hframed : (pollSlot env (w.server.visit i start now) (w.server.http i).req).Framed
      (w.server.tcp.conn i).buffered :=
    pollSlot_framed hawaits hest hwithin.version (slice_holds _ _) hlen.symm
      (hlen ▸ hk.bounded.rxlen) hs
  have hserved : (pollSlot env (w.server.visit i start now) (w.server.http i).req).Serves env
      (w.server.tcp.conn i).buffered :=
    pollSlot_served hawaits hserves hest (slice_holds _ _) hlen.symm (hlen ▸ hk.bounded.rxlen) hs
  obtain ⟨s', hs', hw'⟩ := Option.map_eq_some_iff.mp hst
  rw [if_neg fun hnew => hnew.1 hest] at hw'
  have hi : i.val < tcpMaxConns := i.isLt
  have hstep : s' = { visitSlot env i w.server start now out with
      phase := if i.val + 1 < tcpMaxConns then .slots (i.val + 1) else .events 0 } := by
    simp only [serverStep, hph, hi, dif_pos, Fin.eta, Option.some.injEq] at hs'
    exact hs'.symm
  unfold Server.answers at hw'
  dsimp only at hw'
  rw [if_pos hph] at hw'
  unfold visitSlot at hstep
  cases hV : pollSlot env (w.server.visit i start now) (w.server.http i).req with
  | stay r =>
      rw [hV] at hw' hserved hstep
      subst hw'
      subst hstep
      constructor
      · intro _ _
        simp only [Server.setReq_tcp, Server.setReq_self, hnt]
        exact ⟨hsent, hresp, hserved⟩
      · simp only [Server.setReq_log, session_visited hest hb, hb, reduceCtorEq, false_implies,
          implies_true]
  | close r =>
      rw [hV] at hw' hstep
      subst hw'
      subst hstep
      refine .of_ended ?_
      simp only [Server.setReq_tcp, Server.tcpClose, hnt, Tcp.put_conn_self]
      exact tcpClose_state env.tcp now i (w.server.tcp.at i)
  | answer r page =>
      rw [hV] at hw' hframed hserved hstep
      subst hw'
      exact h.visit_answer hw hest hb hph hV hframed hserved hs' hstep

theorem Streaming.visit_busy (h : Streaming env i w) (hk : Tracked env i w.server)
    (hest : (w.server.tcp.conn i).state = .established)
    (hb : (session i w.server.log).busy = true) (start now : Tick) (out : HandlerOut) :
    Streaming env i { w with server := visitSlot env i w.server start now out } := by
  obtain ⟨-, -, hnt, -⟩ := noteVisit_fields w.server i start now
  have hpoll : pollSlot env (w.server.visit i start now) (w.server.http i).req
      = .stay (w.server.http i).req := by
    obtain hstay | ⟨hne, _⟩ := pollSlot_sending env (w.server.visit i start now)
      (hk.busy hest hb).2.1
    · exact hstay
    · exact absurd hest hne
  have htcp : (visitSlot env i w.server start now out).tcp = w.server.tcp := by
    unfold visitSlot
    rw [hpoll]
    simp only [Server.setReq_tcp, hnt]
  refine h.keep (hk.visit_idle hest hb start now out).1 (by rw [htcp]) ?_
  exact fun _ _ hex => hex.visit hest env start now out

/-! ### The output side -/

theorem Exact.took {base whole : List Byte} {head : Bool} {e : OEvt} {q : Fsa}
    (h : Exact i base whole head s) (hnext : s.fsa.next = some (i, e, q)) :
    Exact i base whole head { s with fsa := q } := by
  obtain ⟨host, hdeq⟩ := Fsa.next_some hnext
  refine h.keep rfl (Resp.sameBytes_refl _ _) rfl ?_ ?_ (by simpa [host] using h.drained)
  · exact fun hmem => h.held ((Fsa.next_hi hnext).1 hmem)
  · intro hmem
    refine h.queued ?_
    rcases hdeq with ⟨_, hlo⟩ | ⟨_, _, hlo⟩
    · rw [← hlo]
      exact hmem
    · rw [hlo]
      exact List.mem_cons_of_mem _ hmem

/-- A handler of the way's own that does not let go of the record. -/
theorem Exact.fsa_kept {base whole : List Byte} {head : Bool} {now : Tick} {e : OEvt} {q : Fsa}
    {o : OState} {hd : OHandler} (h : Exact i base whole head s) (hq : s.fsa.Ok)
    (hest : (s.tcp.conn i).state = .established) (hstep : httpFsaStep env now s = some s')
    (hnext : s.fsa.next = some (i, e, q))
    (htab : httpFsaTransTable (s.fsa.ostate i) e = some (o, hd))
    (hkept : hd ≠ .reset ∧ hd ≠ .close ∧ hd ≠ .keepalive) : Exact i base whole head s' := by
  by_cases hdr : s.fsa.ostate i = .draining
  · obtain ⟨hnone, -⟩ | ⟨o', hd', htab', rfl⟩ := httpFsaStep_taken hstep hnext
    · rw [htab] at hnone
      cases hnone
    · rw [htab] at htab'
      cases htab'
      have hend := h.drained hdr
      have hm := h.took hnext
      -- in O_DRAINING there is `h_decide` besides the three
      rw [hdr] at htab
      cases e <;> cases htab
      · have hpost : Exact i base whole head (hDecide i { s with fsa := q }) := by
          unfold hDecide
          refine hm.post ?_ ?_
          all_goals split <;> simp
        exact hpost.keep rfl (Resp.sameBytes_refl _ _) rfl hpost.held hpost.queued fun _ => hend
      · exact absurd rfl hkept.1
      · exact absurd rfl hkept.2.1
      · exact absurd rfl hkept.2.2
  · exact h.fsa_own hq hdr hest hstep hnext

theorem call_leaves (env : HttpEnv) (now : Tick) (i : Slot) (s : Server) {hd : OHandler}
    (hkept : hd ≠ .reset ∧ hd ≠ .close ∧ hd ≠ .keepalive) :
    LeftAlone i s (hd.call env now i s) := by
  cases hd with
  | install | decide => exact ⟨rfl, rfl, rfl, rfl, rfl⟩
  | noop => exact .refl i s
  | send =>
      obtain ⟨u, hu, -, heq | ⟨e, -, -, heq⟩⟩ := hSend_acts env now i s
      · show LeftAlone i s (WsPi5.hSend env now i s)
        rw [heq]
        exact hu
      · show LeftAlone i s (WsPi5.hSend env now i s)
        rw [heq]
        exact ⟨hu.session, hu.state, hu.stored, hu.taken, hu.req⟩
  | reset => exact absurd rfl hkept.1
  | close => exact absurd rfl hkept.2.1
  | keepalive => exact absurd rfl hkept.2.2

theorem call_ended (env : HttpEnv) (now : Tick) (i : Slot) {s : Server}
    (hne : (s.tcp.conn i).state ≠ .established) (hd : OHandler) :
    ((hd.call env now i s).tcp.conn i).state ≠ .established := by
  cases hd with
  | install | decide | noop | reset | keepalive => exact hne
  | send =>
      rw [(call_leaves env now i s ⟨by decide, by decide, by decide⟩).state]
      exact hne
  | close =>
      simp only [OHandler.call, hClose, Server.observe_tcp, Server.setReq_tcp, Server.tcpClose,
        Tcp.put_conn_self]
      exact tcpClose_state env.tcp now i (s.tcp.at i)

theorem Streaming.of_kept {x : Response} (hreq : x.req = (w.server.http i).req)
    (hsent : sentBytes i w.server.tcp.log = streamed w.before w.responses)
    (hresp : x.req.keeps = true → Responds env w.responses (taken i w.server.tcp.log))
    (hkeeps : (w.server.http i).req.keeps = true) :
    Streaming env i { w with server := hKeepalive i w.server } := by
  unfold hKeepalive
  constructor <;>
    simp only [Server.observe_log, Server.setReq_log, session_ended, Server.observe_tcp,
      Server.setReq_tcp, Server.observe_http, Server.setReq_self]
  · intro _ _
    exact ⟨hsent, hresp (hreq ▸ hkeeps), rfl⟩
  · intro _ hb
    cases hb

theorem Streaming.fsa_own {now : Tick} {e : OEvt} {q : Fsa} (h : Streaming env i w)
    (hk : Tracked env i w.server) (hw : WayInv i w.server) (hq : w.server.fsa.Ok)
    (hph : w.server.phase = .drain) (hstep : httpFsaStep env now w.server = some s')
    (hnext : w.server.fsa.next = some (i, e, q)) : Streaming env i { w with server := s' } := by
  have hm : Streaming env i { w with server := { w.server with fsa := q } } :=
    h.keep ⟨rfl, rfl, rfl, rfl, rfl⟩ rfl fun _ _ hex => hex.took hnext
  have hcases := httpFsaStep_taken hstep hnext
  by_cases hest : (w.server.tcp.conn i).state = .established
  swap
  · obtain ⟨-, rfl⟩ | ⟨o, hd, -, rfl⟩ := hcases
    · exact hm
    · exact .of_ended (@call_ended env now i { w.server with fsa := q } hest hd)
  obtain ⟨-, rfl⟩ | ⟨o, hd, htab, heq⟩ := hcases
  · exact hm
  cases hb : (session i w.server.log).busy with
  | false =>
      -- the way is idle, and only E_RESP_READY has a handler then
      have hidle : w.server.fsa.ostate i = .idle := by
        by_contra ho
        exact absurd (hb.symm.trans (hk.busy_of_way hw hph ho hest)) Bool.false_ne_true
      rw [hidle] at htab
      cases e <;> cases htab
      subst heq
      refine hm.keep ⟨rfl, rfl, rfl, rfl, rfl⟩ rfl fun _ hbusy => ?_
      exact absurd (hb.symm.trans hbusy) Bool.false_ne_true
  | true =>
      obtain ⟨x, xs, hxs, hreq, hex, hresp⟩ := h.busy hest hb
      have hdue := hk.handlerDue hw hq hph hnext htab
      by_cases hkept : hd ≠ .reset ∧ hd ≠ .close ∧ hd ≠ .keepalive
      · have hexact := hex.fsa_kept hq hest hstep hnext htab hkept
        have hleft := call_leaves env now i { w.server with fsa := q } hkept
        subst heq
        constructor
        · intro _ hfree
          exact absurd (hfree.symm.trans (congrArg Session.busy hleft.session |>.trans hb))
            Bool.false_ne_true
        · intro _ _
          refine ⟨x, xs, hxs, hreq.trans hleft.req.symm, hexact, fun hkeeps => ?_⟩
          have htaken := hleft.taken
          dsimp only
          rw [htaken]
          exact hresp hkeeps
      · cases hd with
        | install | send | noop | decide => exact absurd (by decide) hkept
        | reset => exact absurd hest (hdue.reset rfl)
        | close =>
            subst heq
            refine .of_ended ?_
            simp only [OHandler.call, hClose, Server.observe_tcp, Server.setReq_tcp,
              Server.tcpClose, Tcp.put_conn_self]
            exact tcpClose_state env.tcp now i (w.server.tcp.at i)
        | keepalive =>
            have hdr : w.server.fsa.ostate i = .draining := by
              cases ho : w.server.fsa.ostate i <;> rw [ho] at htab <;> cases e <;> cases htab
            have hsent : sentBytes i w.server.tcp.log = streamed w.before w.responses := by
              rw [hex.sent, hex.drained hdr, List.take_length, hxs, streamed, streamed,
                List.reverse_cons, List.flatMap_append, List.append_assoc]
              simp
            have hkeeps := (hdue.keepalive rfl hest).2
            subst heq
            have hfree : Streaming env i
                { w with server := hKeepalive i { w.server with fsa := q } } :=
              .of_kept (w := { w with server := { w.server with fsa := q } }) hreq hsent hresp hkeeps
            refine hfree.keep ⟨rfl, rfl, rfl, rfl, rfl⟩ rfl fun _ hbusy => ?_
            simp [hKeepalive, session_ended] at hbusy

/-! ### Every run -/

/-- Nothing is put down at a step that neither establishes the connection nor visits its slot. -/
theorem Served.step_plain {inp : Input} (hst : w.step env i inp = some w')
    (hs : serverStep env w.server inp = some s')
    (hold : (s'.tcp.conn i).state = .established → (w.server.tcp.conn i).state = .established)
    (hnone : w.server.answers env i inp = none) : w' = { w with server := s' } := by
  unfold Served.step at hst
  rw [hs, Option.map_some, hnone, if_neg fun hnew => hnew.1 (hold hnew.2)] at hst
  exact (Option.some.inj hst).symm

theorem Served.step_opened {inp : Input} (hst : w.step env i inp = some w')
    (hs : serverStep env w.server inp = some s')
    (hnew : (w.server.tcp.conn i).state ≠ .established ∧ (s'.tcp.conn i).state = .established) :
    w' = ⟨s', sentBytes i s'.tcp.log, []⟩ := by
  unfold Served.step at hst
  rw [hs, Option.map_some, if_pos hnew] at hst
  exact (Option.some.inj hst).symm

theorem answers_other {inp : Input} (hph : s.phase ≠ .slots i.val) :
    s.answers env i inp = none := by
  cases inp with
  | slot start now out => exact if_neg hph
  | _ => rfl

theorem Streaming.step_beside {inp : Input} (h : Streaming env i w)
    (hst : w.step env i inp = some w') (hs : serverStep env w.server inp = some s')
    (hb : Beside i w.server s') (hnone : w.server.answers env i inp = none)
    (hmem : ∀ {base whole head}, Exact i base whole head w.server →
      (w.server.http i).resp.sameBytes w.server.mem s'.mem) : Streaming env i w' := by
  have hback : (s'.tcp.conn i).state = .established →
      (w.server.tcp.conn i).state = .established := by
    rw [hb.conn]
    exact id
  rw [Served.step_plain hst hs hback hnone]
  exact h.keep (.beside hb) (onlyAgain.of_beside hb.tcpLog).sentBytes
    fun _ _ hex => hex.beside hb (hmem hex)

theorem Streaming.step_visit {start now : Tick} {out : HandlerOut} (h : Streaming env i w)
    (hw : WaysOk w.server) (hk : Tracked env i w.server) (hf : Framing i w.server)
    (hok : steadily env i w.server (.slot start now out)) (hph : w.server.phase = .slots i.val)
    (hst : w.step env i (.slot start now out) = some w') {p : Phase}
    (hs : serverStep env w.server (.slot start now out)
      = some { visitSlot env i w.server start now out with phase := p }) : Streaming env i w' := by
  by_cases hest : (w.server.tcp.conn i).state = .established
  swap
  · refine .of_ended fun hest' => ?_
    have hended := @visitSlot_ended env i w.server hest start now out
    obtain ⟨s', hs', hw'⟩ := Option.map_eq_some_iff.mp hst
    obtain rfl := Option.some.inj (hs.symm.trans hs')
    rw [if_neg fun hnew => hended hnew.2] at hw'
    split at hw'
    all_goals
      subst hw'
      exact hended hest'
  cases hb : (session i w.server.log).busy with
  | false => exact h.visit_free hw hk hf hest hb hph (hok.1.2 hph hest) hst
  | true =>
      have hstay := pollSlot_sending env (w.server.visit i start now) (hk.busy hest hb).2.1
      have hpoll : pollSlot env (w.server.visit i start now) (w.server.http i).req
          = .stay (w.server.http i).req := hstay.resolve_right fun hno => absurd hest hno.1
      have hnone : w.server.answers env i (.slot start now out) = none := by
        unfold Server.answers
        dsimp only
        rw [if_pos hph, hpoll]
      rw [Served.step_plain hst hs (fun _ => hest) hnone]
      exact (h.visit_busy hk hest hb start now out).keep ⟨rfl, rfl, rfl, rfl, rfl⟩ rfl
        fun _ _ hex => hex.of_phase _

theorem Streaming.step_event (h : Streaming env i w) (p : Phase) : Streaming env i
    { w with server := { httpFsaPollTcpEvents i w.server with phase := p } } := by
  have hleft : LeftAlone i w.server (httpFsaPollTcpEvents i w.server) ∧
      (httpFsaPollTcpEvents i w.server).tcp = w.server.tcp := by
    obtain heq | ⟨_, e, _, heq⟩ | ⟨_, _, heq⟩ := pollEvent_cases i w.server
    all_goals
      rw [heq]
      exact ⟨⟨rfl, rfl, rfl, rfl, rfl⟩, rfl⟩
  obtain ⟨⟨hsess, hstate, hstored, htaken, hreq⟩, htcp⟩ := hleft
  refine h.keep ⟨hsess, hstate, hstored, htaken, hreq⟩ ?_
    fun hest _ hex => (hex.event hest).of_phase _
  exact congrArg (fun t : Tcp => sentBytes i t.log) htcp

theorem Streaming.step {inp : Input} (h : Streaming env i w) (hw : WaysOk w.server)
    (hk : Tracked env i w.server) (hf : Framing i w.server) (hok : steadily env i w.server inp)
    (hst : w.step env i inp = some w') : Streaming env i w' := by
  obtain ⟨s', hs, -⟩ := Option.map_eq_some_iff.mp hst
  -- the response that is being sent is the same after the step
  have hmem : ∀ {base whole head}, Exact i base whole head w.server →
      (w.server.http i).resp.sameBytes w.server.mem s'.mem :=
    fun hex => hok.2 hex.sending s' hs
  cases serverStep_act hs with
  | @net _ e t p hph _ hnet hlen hinp ht =>
      have hnone : w.server.answers env i inp = none := by
        refine answers_other fun heq => ?_
        rw [heq] at hph
        cases hph
      by_cases hnew : (w.server.tcp.conn i).state ≠ .established ∧
          (t.conn i).state = .established
      · rw [Served.step_opened hst hs hnew]
        refine Streaming.opened hk hnet hlen ht (fun f hf hest => ?_) hnew
        have hframes := hok.1.1
        rw [hinp f hf] at hframes
        refine hframes ?_
        rw [← hf]
        exact hest
      · have hback : (t.conn i).state = .established →
            (w.server.tcp.conn i).state = .established := by
          intro hest
          by_contra hne
          exact hnew ⟨hne, hest⟩
        rw [Served.step_plain hst hs hback hnone]
        exact h.net hk hnet hlen ht hnew
  | idle hph =>
      rw [Served.step_plain hst hs id (answers_other (by rw [hph]; nofun))]
      exact h.keep ⟨rfl, rfl, rfl, rfl, rfl⟩ rfl fun _ _ hex => hex.of_phase _
  | date hph =>
      rw [Served.step_plain hst hs id (answers_other (by rw [hph]; nofun))]
      exact h.keep ⟨rfl, rfl, rfl, rfl, rfl⟩ rfl fun _ _ hex =>
        hex.keep rfl (hmem hex) rfl hex.held hex.queued hex.drained
  | @visit j start now out hph =>
      by_cases hij : i = j
      · subst hij
        exact h.step_visit hw hk hf hok hph hst hs
      · have hnone : w.server.answers env i (.slot start now out) = none := by
          refine answers_other fun heq => hij ?_
          rw [hph] at heq
          exact Fin.ext (Phase.slots.inj heq).symm
        exact h.step_beside hst hs ((Beside.visitSlot hij env w.server start now out).of_common _ _)
          hnone hmem
  | @event j hph =>
      by_cases hij : i = j
      · subst hij
        have hback : ((httpFsaPollTcpEvents i w.server).tcp.conn i).state = .established →
            (w.server.tcp.conn i).state = .established := by
          obtain heq | ⟨_, e, _, heq⟩ | ⟨_, _, heq⟩ := pollEvent_cases i w.server
          all_goals
            rw [heq]
            exact id
        rw [Served.step_plain hst hs hback rfl]
        exact h.step_event _
      · exact h.step_beside hst hs ((Beside.pollEvent hij w.server).of_common _ _) rfl hmem
  | @fsa now _ hph hstep =>
      obtain ⟨j, e, q, hnext, _⟩ := httpFsaStep_cases hstep
      by_cases hij : i = j
      · subst hij
        have hback : (s'.tcp.conn i).state = .established →
            (w.server.tcp.conn i).state = .established := by
          intro hest'
          by_contra hest
          obtain ⟨-, rfl⟩ | ⟨o, hd, -, rfl⟩ := httpFsaStep_taken hstep hnext
          · exact hest hest'
          · exact @call_ended env now i { w.server with fsa := q } hest hd hest'
        rw [Served.step_plain hst hs hback rfl]
        exact h.fsa_own hk (hw.ways i) hw.queues.ok hph hstep hnext
      · exact h.step_beside hst hs (.fsaStep hij hstep hnext) rfl hmem
  | drained hph _ =>
      rw [Served.step_plain hst hs id rfl]
      exact h.keep ⟨rfl, rfl, rfl, rfl, rfl⟩ rfl fun _ _ hex => hex.of_phase _

theorem Streaming.responsesInOrder (h : Streaming env i w) (hf : Framing i w.server) :
    responsesInOrder env i w := by
  intro hest
  unfold Served.sends
  cases hb : (session i w.server.log).busy with
  | false =>
      obtain ⟨hsent, hresp, -⟩ := h.free hest hb
      rw [if_neg Bool.false_ne_true]
      exact ⟨hsent, fun _ => hresp⟩
  | true =>
      obtain ⟨x, xs, hxs, hreq, hex, hresp⟩ := h.busy hest hb
      rw [if_pos rfl]
      refine ⟨⟨x, xs, hxs, hex.sent⟩, fun hopen => hresp ?_⟩
      rw [hreq]
      exact hopen hb _ (hf.busy hest hb).1

end

theorem streaming_init (env : HttpEnv) (cap : PoolCap) (now : Tick) (mem : Nat → Byte) (i : Slot) :
    Streaming env i ⟨serverInit env cap now mem, [], []⟩ := by
  refine .of_ended ?_
  show ((serverInit env cap now mem).tcp.conn i).state ≠ .established
  rw [serverInit_conn]
  by_cases hi : i = 0
  · subst hi
    exact fun h => by cases h
  · rw [Function.update_of_ne hi]
    exact fun h => by cases h

/-- **Requests in, responses out, in order.**  In every run whose steps meet the condition, what was
sent on the connection in slot `i` are the responses that were set up on it, whole and one behind
the other, but for a rear part of the one that is being sent; and while the connection is kept open
they are the responses to the messages that were taken from it, one for each. -/
theorem responses_in_order {env : HttpEnv} {cap : PoolCap} {now : Tick} {mem : Nat → Byte} {i : Slot}
    {w : Served} (h : Run (Served.step env i) (fun w inp => steadily env i w.server inp)
      ⟨serverInit env cap now mem, [], []⟩ w) : responsesInOrder env i w := by
  have hinv : WaysOk w.server ∧ Tracked env i w.server ∧ Framing i w.server ∧
      Streaming env i w := by
    refine h.invariant (P := fun u => WaysOk u.server ∧ Tracked env i u.server ∧
      Framing i u.server ∧ Streaming env i u) ?_ ?_
    · exact ⟨waysOk_init env cap now mem, tracked_init env cap now mem i,
        framing_init env cap now mem i, streaming_init env cap now mem i⟩
    · rintro t u e ⟨hw, hk, hf, hs⟩ hok hst
      obtain ⟨s', hs', heq⟩ := Option.map_eq_some_iff.mp hst
      have hserver : u.server = s' := by
        rw [← heq]
        split
        · rfl
        · split <;> rfl
      rw [hserver]
      exact ⟨waysOk_step hw hs', hk.step hw hok.1.1 hs', hf.step hk hw hok.1 hs',
        hs.step hw hk hf hok hst⟩
  exact hinv.2.2.2.responsesInOrder hinv.2.2.1

/-! ## A server that writes nothing -/

/-- No date is written and no route is dynamic. -/
def HttpEnv.Static (env : HttpEnv) : Prop :=
  env.dateFields = [] ∧ ∀ rt ∈ env.routes, rt.dynamic = false

def Verdict.static : Verdict → Prop
  | .answer _ (.dynamic _) => False
  | _ => True

section
variable {env : HttpEnv} {s s' : Server}

theorem pollSlot_static (h : env.Static) (v : Visit) (r : Req) : (pollSlot env v r).static := by
  have hdispatch : ∀ r, (dispatchRoute env v r).static := by
    intro r
    unfold dispatchRoute
    split
    · trivial
    next rt hrt =>
      split
      · trivial
      · rw [h.2 rt (List.mem_of_find?_eq_some hrt)]
        trivial
  have hbody : ∀ r, (bodyCheck env v r).static := by
    intro r
    unfold bodyCheck
    split_ifs
    · exact hdispatch r
    · trivial
    · trivial
    · exact hdispatch r
  have hmethod : ∀ r, (methodDone env v r).static := by
    intro r
    unfold methodDone hostOk
    dsimp only
    split_ifs
    · trivial
    · trivial
    · exact hbody _
  have hdone : ∀ r, (fsaDone env v r).static := by
    intro r
    unfold fsaDone
    split
    · dsimp only
      split
      · trivial
      · exact hmethod _
      · exact hmethod _
      · exact hmethod _
    · trivial
  have hparse : ∀ r, (tryParse env v r).static := by
    intro r
    unfold tryParse
    split_ifs
    · trivial
    · trivial
    · dsimp only
      split
      · exact hdone _
      · trivial
      · trivial
    · trivial
  unfold pollSlot
  split
  · split
    · exact hparse _
    · exact hparse _
    · trivial
    · unfold resumeBody
      split_ifs
      · trivial
      · trivial
      · exact hbody _
  · unfold skipOrReset
    split_ifs <;> trivial

theorem call_mem (env : HttpEnv) (now : Tick) (i : Slot) (s : Server) (hd : OHandler) :
    (hd.call env now i s).mem = s.mem := by
  cases hd with
  | send =>
      show (WsPi5.hSend env now i s).mem = s.mem
      unfold WsPi5.hSend
      dsimp only
      split
      · split
        · rfl
        split
        · rfl
        split <;> rfl
      · rfl
  | _ => rfl

theorem serverStep_mem (h : env.Static) {inp : Input} (hst : serverStep env s inp = some s') :
    s'.mem = s.mem := by
  cases serverStep_act hst with
  | net _ _ _ _ _ _ => rfl
  | idle _ => rfl
  | date _ =>
      show httpUpdateDate env s.mem _ = s.mem
      unfold httpUpdateDate putDates
      rw [h.1]
      cases Option.bind _ _ <;> rfl
  | @visit j start now out _ =>
      obtain ⟨-, -, -, hnm⟩ := noteVisit_fields s j start now
      have hpage := pollSlot_static h (s.visit j start now) (s.http j).req
      show (visitSlot env j s start now out).mem = s.mem
      unfold visitSlot
      cases hV : pollSlot env (s.visit j start now) (s.http j).req with
      | stay r => exact hnm
      | close r => exact hnm
      | answer r page =>
          rw [hV] at hpage
          cases page with
          | static b => exact hnm
          | dynamic b => exact hpage.elim
  | @event j _ =>
      show (httpFsaPollTcpEvents j s).mem = s.mem
      obtain heq | ⟨_, e, _, heq⟩ | ⟨_, _, heq⟩ := pollEvent_cases j s
      · rw [heq]
      · rw [heq]
        rfl
      · rw [heq]
        rfl
  | fsa _ hstep =>
      obtain ⟨j, e, q, hnext, _⟩ := httpFsaStep_cases hstep
      obtain ⟨-, rfl⟩ | ⟨o, hd, -, rfl⟩ := httpFsaStep_taken hstep hnext
      · rfl
      · exact call_mem env _ j { s with fsa := q } hd
  | drained _ _ => rfl

theorem steadily_of_static (h : env.Static) {i : Slot} {inp : Input}
    (hf : framesSafely env i s inp) : steadily env i s inp := by
  refine ⟨hf, fun _ s' hs' => ?_⟩
  rw [serverStep_mem h hs']
  exact Resp.sameBytes_refl _ _

theorem run_served {ok : Server → Input → Prop} {i : Slot} {w : Served}
    (h : Run (serverStep env) ok w.server s) :
    ∃ w', Run (Served.step env i) (fun w inp => ok w.server inp) w w' ∧ w'.server = s := by
  induction h with
  | refl => exact ⟨w, .refl, rfl⟩
  | @tail t u e _ hok hst ih =>
      obtain ⟨w', hrun, rfl⟩ := ih
      have hnext : ∃ w'', w'.step env i e = some w'' ∧ w''.server = u := by
        unfold Served.step
        rw [hst, Option.map_some]
        refine ⟨_, rfl, ?_⟩
        split
        · rfl
        · split <;> rfl
      obtain ⟨w'', hw'', hu⟩ := hnext
      exact ⟨w'', hrun.tail hok hw'', hu⟩

end

/-- A PUT with its body and a GET behind it: 405, then the page. -/
theorem responses_in_order_demo : ∃ w : Served,
    (w.server.tcp.conn 1).state = .established ∧
      (session 1 w.server.log).answers.map Req.status = [.ok200, .method405] ∧
      responsesInOrder demoHttp 1 w := by
  obtain ⟨s, hrun, hest, hans⟩ := exists_legs demoHttp
    (fun s inp => opensFresh demoHttp 1 s inp ∧ demoFrames s inp) 1 allowsQuiet_demoFrames
    (s := demoServer)
    (Q := fun s => (s.tcp.conn 1).state = .established ∧
      (session 1 s.log).answers.map Req.status = [.ok200, .method405])
    (demoPutThen demoGet demoGet) (by decide +kernel) (by decide +kernel)
  obtain ⟨w, hw, rfl⟩ := run_served (i := 1) (w := ⟨demoServer, [], []⟩)
    (hrun.mono fun h => steadily_of_static ⟨rfl, by decide⟩ (demoFrames_safe h))
  exact ⟨w, hest, hans, responses_in_order hw⟩

end WsPi5
