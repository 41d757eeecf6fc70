/-
# `WsPi5.Http.Persistent` — the requests of a connection that is kept open

A connection is a stream of bytes, and a request one of the messages it is divided into.  Which
bytes are which is decided by what each answer takes from the buffer: on every path
REQ_LEN + CONTENT_LEN bytes, or all of them if there are fewer.

**What is claimed** (`requestsFramed`).  While a connection is kept open, the bytes taken from it
are messages one behind the other, one for each answer, and the request being worked on starts
at the next byte.

**The condition** (`framesSafely`).  Handshakes find a blank record (`opensFresh`), and the visits
between two answers what `FramesSafely` says.  Without it the body of a request is the next one
(`body_answered_as_request`): PUT is answered with 405 and kept open before its body is there.
-/
import WsPi5.Http.Framing

namespace WsPi5

open Lib

/-! ## What is claimed -/

/-- These requests were read, latest first, off the messages that these bytes are. -/
inductive Divided : List Req → List Byte → Prop
  | none : Divided [] []
  | next {a : Req} {as : List Req} {bs : List Byte} {m : Message} (h : Divided as bs)
      (hm : a.parser.Reads m) : Divided (a :: as) (bs ++ m.bytes)

def Conn.buffered (c : Conn) : List Byte := slice c.rxbuf 0 c.rxlen

/-- No answer is under way, or one behind which the connection is kept open. -/
def Session.keptOpen (x : Session) : Prop :=
  x.busy = true → ∀ a ∈ x.answers.head?, a.keeps = true

/-- What was taken is what was answered, message by message, and the request that is worked on
starts at the next byte. -/
def requestsFramed (i : Slot) (s : Server) : Prop :=
  (s.tcp.conn i).state = .established → (session i s.log).keptOpen →
    Divided (session i s.log).answers (taken i s.tcp.log) ∧
      ((session i s.log).busy = false → (s.http i).req.Awaits (s.tcp.conn i).buffered)

/-- Handshakes find a blank record, and visits a request that will be framed. -/
def framesSafely (env : HttpEnv) (i : Slot) (s : Server) (inp : Input) : Prop :=
  opensFresh env i s inp ∧
    match inp with
    | .slot _ _ _ => s.phase = .slots i.val → (s.tcp.conn i).state = .established →
        (s.http i).req.state = .idle ∨ (s.http i).req.state = .recvHdr →
          FramesSafely (s.tcp.conn i).buffered (s.http i).req.parser.off
    | _ => True

/-! ## The invariant -/

/-- The answers on the connection in slot `i`, and what was taken for them. -/
structure Framing (i : Slot) (s : Server) : Prop where
  free : (s.tcp.conn i).state = .established → (session i s.log).busy = false →
    Divided (session i s.log).answers (taken i s.tcp.log) ∧
      (s.http i).req.Awaits (s.tcp.conn i).buffered
  busy : (s.tcp.conn i).state = .established → (session i s.log).busy = true →
    (session i s.log).answers.head? = some (s.http i).req ∧
      ((s.http i).req.keeps = true → Divided (session i s.log).answers (taken i s.tcp.log))

section
variable {rest rest' : List Byte} {r : Req}

theorem Framed.grow {p : Parser} (h : Framed rest p) (hpre : rest <+: rest') : Framed rest' p := by
  obtain ⟨hd, hv, hfront, hm, hdeclares⟩ := h
  exact ⟨hd, hv, hfront.trans hpre, hm, hdeclares⟩

theorem Req.Awaits.grow (h : r.Awaits rest) (hpre : rest <+: rest') : r.Awaits rest' := by
  unfold Req.Awaits at h ⊢
  cases hst : r.state with
  | idle | recvHdr =>
      rw [hst] at h
      exact Reading.grow h hpre
  | recvBody =>
      rw [hst] at h
      exact fun hk => (h hk).grow hpre
  | sending =>
      rw [hst] at h
      exact h

theorem Req.blank.awaits (h : r.blank) (rest : List Byte) : r.Awaits rest := by
  obtain ⟨hst, _, hp, _, _⟩ := Req.of_view (show r.view = ({} : Req).view from h)
  unfold Req.Awaits
  rw [← hst]
  exact .fresh hp rest

theorem keepalive_awaits (r : Req) (rest : List Byte) : r.keepalive.Awaits rest := by
  have hlike : r.keepalive.parser.Like {} := by
    refine ⟨rfl, rfl, rfl, rfl, rfl, rfl, rfl, ?_, ?_, ?_, ?_⟩ <;> intro h <;> cases h
  exact .fresh hlike rest

end

section
variable {env : HttpEnv} {i j : Slot} {s s' : Server}

theorem Framing.of_ended (h : (s.tcp.conn i).state ≠ .established) : Framing i s :=
  ⟨fun he => absurd he h, fun he => absurd he h⟩

theorem LeftAlone.buffered (hu : LeftAlone i s s') :
    (s'.tcp.conn i).buffered = (s.tcp.conn i).buffered := by
  have hlen : (s'.tcp.conn i).rxlen = (s.tcp.conn i).rxlen := congrArg Stored.rxlen hu.stored
  have hbuf : (s'.tcp.conn i).rxbuf = (s.tcp.conn i).rxbuf := congrArg Stored.rxbuf hu.stored
  rw [Conn.buffered, Conn.buffered, hlen, hbuf]

theorem Framing.keep (h : Framing i s) (hu : LeftAlone i s s') : Framing i s' := by
  constructor
  · rw [hu.state, hu.session, hu.taken, hu.req, hu.buffered]
    exact h.free
  · rw [hu.state, hu.session, hu.taken, hu.req]
    exact h.busy

theorem Framing.post (h : Framing i s) (e : OEvt) : Framing i (s.post i e) :=
  h.keep ⟨rfl, rfl, rfl, rfl, rfl⟩

/-! ### Frames and timers -/

theorem Framing.net {e : Event} {t : Tcp} {p : Phase} (h : Framing i s) (hk : Tracked env i s)
    (hnet : e.call.net = true) (hlen : ∀ f, e.call = .rx f → f.payload.length ≤ maxPayload)
    (ht : step env.tcp s.tcp e = some t)
    (hok : ∀ f, e.call = .rx f → s.tcp.establishes env.tcp e i = true → (s.http i).req.blank) :
    Framing i { s.withTcp t with phase := p } := by
  have hsess := @session_withTcp i s t
  rcases net_step ht hnet hlen i with hkeep | hopen
  · obtain ⟨-, hpre⟩ := hkeep.bytes hk.bounded
    by_cases hnew : (s.tcp.conn i).state ≠ .established ∧ (t.conn i).state = .established
    · -- the handshake is completed: nothing was taken, nothing was answered
      rw [if_pos hnew] at hsess
      obtain hold | ⟨hsyn, f, hf⟩ := hkeep.established hnew.2
      · exact absurd hold hnew.1
      · have hblank := hok f hf (by simp [Tcp.establishes, ht, hnew])
        have hempty : taken i t.log = [] := hkeep.log.taken.trans (hk.opened hsyn)
        constructor
        · intro _ _
          refine ⟨?_, hblank.awaits _⟩
          show Divided (session i (s.withTcp t).log).answers (taken i t.log)
          rw [hsess, hempty]
          exact .none
        · intro _ hb
          have hb' : (session i (s.withTcp t).log).busy = true := hb
          rw [hsess] at hb'
          cases hb'
    · rw [if_neg hnew] at hsess
      have hback : (t.conn i).state = .established → (s.tcp.conn i).state = .established := by
        intro hest
        by_contra hne
        exact hnew ⟨hne, hest⟩
      have htaken : taken i (s.withTcp t).tcp.log = taken i s.tcp.log := hkeep.log.taken
      constructor
      · simp only [hsess, htaken]
        intro hest hb
        obtain ⟨hdiv, hawaits⟩ := h.free (hback hest) hb
        exact ⟨hdiv, hawaits.grow hpre⟩
      · simp only [hsess, htaken]
        exact fun hest => h.busy (hback hest)
  · -- a new connection is in SYN_RCVD
    refine .of_ended ?_
    show (t.conn i).state ≠ .established
    rw [hopen.after]
    decide

/-! ### The visit -/

theorem Framing.visit_ended (hne : (s.tcp.conn i).state ≠ .established) (start now : Tick)
    (out : HandlerOut) : Framing i (visitSlot env i s start now out) := by
  obtain ⟨-, -, hnt, -⟩ := noteVisit_fields s i start now
  refine .of_ended ?_
  unfold visitSlot
  cases hpoll : pollSlot env (s.visit i start now) (s.http i).req with
  | stay r =>
      simp only [Server.setReq_tcp, hnt]
      exact hne
  | close r =>
      simp only [Server.setReq_tcp, Server.tcpClose, hnt, Tcp.put_conn_self]
      exact tcpClose_state env.tcp now i (s.tcp.at i)
  | answer r page => exact absurd (pollSlot_answer hpoll).1 hne

theorem buffered_take (c : Conn) (n : Nat) :
    c.buffered.take n = slice c.rxbuf 0 (min n c.rxlen) := by
  rw [Conn.buffered, List.take_eq_take_min, slice_length, slice_take _ _ (Nat.min_le_right ..)]

theorem slice_holds (buf : Nat → Byte) (n : Nat) : BufHolds buf 0 (slice buf 0 n) := by
  intro k hk
  rw [slice_getElem]

theorem Framing.visit_free (h : Framing i s) (hk : Tracked env i s)
    (hest : (s.tcp.conn i).state = .established) (hb : (session i s.log).busy = false)
    {start now : Tick} {out : HandlerOut}
    (hs : (s.http i).req.state = .idle ∨ (s.http i).req.state = .recvHdr →
      FramesSafely (s.tcp.conn i).buffered (s.http i).req.parser.off) :
    Framing i (visitSlot env i s start now out) := by
  obtain ⟨-, hnh, hnt, -⟩ := noteVisit_fields s i start now
  obtain ⟨hdiv, hawaits⟩ := h.free hest hb
  obtain ⟨-, hwithin, -⟩ := hk.free hest hb
  have hlen : (s.tcp.conn i).buffered.length = (s.tcp.conn i).rxlen := slice_length ..
  have hframed : (pollSlot env (s.visit i start now) (s.http i).req).Framed
      (s.tcp.conn i).buffered :=
    pollSlot_framed hawaits hest hwithin.version (slice_holds _ _) hlen.symm
      (hlen ▸ hk.bounded.rxlen) hs
  unfold visitSlot
  cases hV : pollSlot env (s.visit i start now) (s.http i).req with
  | stay r =>
      rw [hV] at hframed
      constructor
      · intro _ _
        simp only [Server.setReq_log, Server.setReq_tcp, Server.setReq_self,
          session_visited hest hb, hnt]
        exact ⟨hdiv, hframed⟩
      · simp only [Server.setReq_log, session_visited hest hb, hb, reduceCtorEq, false_implies,
          implies_true]
  | close r =>
      refine .of_ended ?_
      simp only [Server.setReq_tcp, Server.tcpClose, hnt, Tcp.put_conn_self]
      exact tcpClose_state env.tcp now i (s.tcp.at i)
  | answer r page =>
      rw [hV] at hframed
      obtain ⟨-, htcp, hhttp, -⟩ :=
        answerSlot_fields env i (s.noteVisit i start now) out r page
      have hsess := @session_answered env i s page hest hb start now out r
      constructor
      · simp only [hsess, reduceCtorEq, false_implies, implies_true]
      · intro _ _
        simp only [hsess, hhttp, List.head?_cons]
        refine ⟨trivial, fun hkeeps => ?_⟩
        obtain ⟨m, hreads, hbytes⟩ := hframed hkeeps
        have htaken : taken i (answerSlot env i (s.noteVisit i start now) out r page).tcp.log
            = taken i s.tcp.log ++ m.bytes := by
          rw [htcp, hnt, hbytes, buffered_take]
          show taken i (tcpRxConsume i _ (s.tcp.at i)).log = _
          rw [tcpRxConsume_log]
          simp [taken]
        rw [htaken]
        exact hdiv.next hreads

theorem Framing.visit_own (h : Framing i s) (hk : Tracked env i s) {start now : Tick}
    {out : HandlerOut}
    (hs : (s.tcp.conn i).state = .established →
      (s.http i).req.state = .idle ∨ (s.http i).req.state = .recvHdr →
        FramesSafely (s.tcp.conn i).buffered (s.http i).req.parser.off) :
    Framing i (visitSlot env i s start now out) := by
  by_cases hest : (s.tcp.conn i).state = .established
  · cases hb : (session i s.log).busy with
    | true => exact h.keep (hk.visit_idle hest hb start now out).1
    | false => exact h.visit_free hk hest hb (hs hest)
  · exact .visit_ended hest start now out

/-! ### The output side -/

theorem Framing.hSend (h : Framing i s) (now : Tick) : Framing i (hSend env now i s) := by
  obtain ⟨u, hu, -, heq | ⟨e, -, -, heq⟩⟩ := hSend_acts env now i s
  · rw [heq]
    exact h.keep hu
  · rw [heq]
    exact (h.keep hu).post e

theorem Framing.hKeepalive (h : Framing i s)
    (hk : (s.tcp.conn i).state = .established →
      (session i s.log).busy = true ∧ (s.http i).req.keeps = true) :
    Framing i (hKeepalive i s) := by
  unfold WsPi5.hKeepalive
  constructor <;>
    simp only [Server.observe_log, Server.setReq_log, session_ended, Server.observe_tcp,
      Server.setReq_tcp, Server.observe_http, Server.setReq_self]
  · intro hest _
    obtain ⟨hb, hkeeps⟩ := hk hest
    exact ⟨(h.busy hest hb).2 hkeeps, keepalive_awaits ..⟩
  · intro _ hb
    cases hb

theorem Framing.call (h : Framing i s) (now : Tick) {hd : OHandler} (hdue : HandlerDue i s hd) :
    Framing i (hd.call env now i s) := by
  cases hd with
  | install => exact h.post _
  | send => exact h.hSend now
  | noop => exact h
  | decide => exact h.post _
  | reset => exact .of_ended (hdue.reset rfl)
  | close =>
      refine .of_ended ?_
      simp only [OHandler.call, hClose, Server.observe_tcp, Server.setReq_tcp, Server.tcpClose,
        Tcp.put_conn_self]
      exact tcpClose_state env.tcp now i (s.tcp.at i)
  | keepalive => exact h.hKeepalive (hdue.keepalive rfl)

theorem Framing.fsa_own {now : Tick} {e : OEvt} {q : Fsa} (h : Framing i s) (hk : Tracked env i s)
    (hw : WayInv i s) (hq : s.fsa.Ok) (hph : s.phase = .drain)
    (hstep : httpFsaStep env now s = some s') (hnext : s.fsa.next = some (i, e, q)) :
    Framing i s' := by
  have hm : Framing i { s with fsa := q } := h.keep ⟨rfl, rfl, rfl, rfl, rfl⟩
  obtain ⟨_, rfl⟩ | ⟨o, hd, htab, rfl⟩ := httpFsaStep_taken hstep hnext
  · exact hm
  · have hdue := hk.handlerDue hw hq hph hnext htab
    have hdue' : HandlerDue i { s with fsa := q } hd := ⟨hdue.reset, hdue.decide, hdue.keepalive⟩
    have hcall := @Framing.call env i _ hm now hd hdue'
    exact hcall.keep ⟨rfl, rfl, rfl, rfl, rfl⟩

theorem Framing.event_own (h : Framing i s) : Framing i (httpFsaPollTcpEvents i s) := by
  obtain heq | ⟨_, e, -, heq⟩ | ⟨_, -, heq⟩ := pollEvent_cases i s <;> rw [heq]
  · exact h
  · exact h.post e
  · exact h.post _

/-! ### Every run -/

theorem Framing.step {inp : Input} (h : Framing i s) (hk : Tracked env i s) (hw : WaysOk s)
    (hok : framesSafely env i s inp) (hst : serverStep env s inp = some s') : Framing i s' := by
  -- phase and memory do not matter
  have plain : ∀ {u : Server}, Framing i u → ∀ mem p, Framing i { u with mem := mem, phase := p } :=
    fun hu _ _ => hu.keep ⟨rfl, rfl, rfl, rfl, rfl⟩
  cases serverStep_act hst with
  | net hph _ hnet hlen hinp ht =>
      refine h.net hk hnet hlen ht fun f hf hest => ?_
      rw [hinp f hf] at hok
      refine hok.1 ?_
      rw [← hf]
      exact hest
  | idle _ => exact plain h _ _
  | date _ => exact plain h _ _
  | @visit j start now out hph =>
      refine plain ?_ _ _
      by_cases hij : i = j
      · subst hij
        exact h.visit_own hk (hok.2 hph)
      · exact h.keep (.beside (.visitSlot hij env s start now out))
  | @event j _ =>
      refine plain ?_ _ _
      by_cases hij : i = j
      · exact hij ▸ h.event_own
      · exact h.keep (.beside (.pollEvent hij s))
  | fsa hph hstep =>
      obtain ⟨j, e, q, hnext, _⟩ := httpFsaStep_cases hstep
      by_cases hij : i = j
      · subst hij
        exact h.fsa_own hk (hw.ways i) hw.queues.ok hph hstep hnext
      · exact h.keep (.beside (.fsaStep hij hstep hnext))
  | drained _ _ => exact plain h _ _

theorem Framing.requestsFramed (h : Framing i s) : requestsFramed i s := by
  intro hest hopen
  cases hb : (session i s.log).busy with
  | false =>
      obtain ⟨hdiv, hawaits⟩ := h.free hest hb
      exact ⟨hdiv, fun _ => hawaits⟩
  | true =>
      obtain ⟨hhead, hdiv⟩ := h.busy hest hb
      have hkeeps : (s.http i).req.keeps = true := hopen hb _ hhead
      exact ⟨hdiv hkeeps, fun hno => absurd hno (by decide)⟩

end

theorem framing_init (env : HttpEnv) (cap : PoolCap) (now : Tick) (mem : Nat → Byte) (i : Slot) :
    Framing i (serverInit env cap now mem) := by
  refine .of_ended ?_
  rw [serverInit_conn]
  by_cases hi : i = 0
  · subst hi
    exact fun h => by cases h
  · rw [Function.update_of_ne hi]
    exact fun h => by cases h

/-- **The requests of a connection are framed** in every run whose steps meet the condition.  In
every state in which the connection is kept open, what was taken from it is divided into the
requests that were answered and their declared bodies, and the next request starts behind them. -/
theorem requests_framed {env : HttpEnv} {cap : PoolCap} {now : Tick} {mem : Nat → Byte} {i : Slot}
    {s : Server}
    (h : Run (serverStep env) (framesSafely env i) (serverInit env cap now mem) s) :
    requestsFramed i s := by
  have hinv : WaysOk s ∧ Tracked env i s ∧ Framing i s := by
    refine h.invariant (P := fun u => WaysOk u ∧ Tracked env i u ∧ Framing i u) ?_ ?_
    · exact ⟨waysOk_init env cap now mem, tracked_init env cap now mem i,
        framing_init env cap now mem i⟩
    · rintro t u e ⟨hw, hk, hf⟩ hok hst
      exact ⟨waysOk_step hw hst, hk.step hw hok.1 hst, hf.step hk hw hok hst⟩
  exact hinv.2.2.requestsFramed

/-! ## A request with another one for its body -/

/-- A PUT, which is not served, with a body of 27 bytes. -/
def demoPutHead : RequestHead where
  method := ascii "PUT"
  uri := ascii "/"
  version := ascii "HTTP"
  major := 0x31
  minor := 0x31
  fields := [(ascii "Host", ascii " a"), (ascii "Content-Length", ascii " 27")]

theorem demoPutHead_valid : demoPutHead.Valid where
  method := (list_all (by decide +kernel) : ∀ b ∈ ascii "PUT", IsLetter b)
  uri := ⟨List.cons_ne_nil _ _, (list_all (by decide +kernel) : ∀ b ∈ ascii "/", InUri b)⟩
  version := ⟨rfl, (list_all (by decide +kernel) : ∀ b ∈ ascii "HTTP", IsLetter b)⟩
  major := (by decide : IsDecDigit 0x31)
  minor := (by decide : IsDecDigit 0x31)
  fields := by
    intro f hf
    rcases List.mem_cons.mp hf with rfl | hf
    · have hname : ∀ b ∈ ascii "Host", InName b := list_all (by decide +kernel)
      have hvalue : ∀ b ∈ ascii " a", InValue b := list_all (by decide +kernel)
      exact ⟨⟨0x48, _, rfl, by decide⟩, hname, hvalue⟩
    · rw [List.mem_singleton.mp hf]
      have hname : ∀ b ∈ ascii "Content-Length", InName b := list_all (by decide +kernel)
      have hvalue : ∀ b ∈ ascii " 27", InValue b := list_all (by decide +kernel)
      exact ⟨⟨0x43, _, rfl, by decide⟩, hname, hvalue⟩
  once := Nat.le_refl 1

/-- The request of `demoGet`. -/
def demoGetHead : RequestHead :=
  { demoPutHead with method := ascii "GET", fields := [(ascii "Host", ascii " a")] }

theorem demoGetHead_valid : demoGetHead.Valid where
  method := (list_all (by decide +kernel) : ∀ b ∈ ascii "GET", IsLetter b)
  uri := demoPutHead_valid.uri
  version := demoPutHead_valid.version
  major := demoPutHead_valid.major
  minor := demoPutHead_valid.minor
  fields := fun f hf => demoPutHead_valid.fields f (by
    rw [List.mem_singleton.mp hf]
    exact List.mem_cons_self ..)
  once := Nat.zero_le 1

/-- The PUT in a segment with `now`, the page for it acknowledged, and `later`. -/
def demoPutThen (now later : List Byte) : List Leg :=
  let peer (off : Nat) (text : List Byte) : Frame := { demoFrom 1000 off text with window := 1000 }
  let sent := demoPutHead.bytes ++ now
  let got (text : List Byte) : Frame := { peer sent.length text with ack := (peer 0 []).ack + 25 }
  [.inputs [.frame 1 { demoSyn with sport := 1000, window := 1000 }, .frame 1 (peer 0 []),
      .frame 1 (peer 0 sent)],
    .pass 1 1 {} [1, 1, 1, 1, 1],
    .inputs [.frame 1 (got [])],
    .pass 1 1 {} [1, 1, 1],
    .inputs [.frame 1 (got later)],
    .pass 1 1 {} []]

/-- The visits of the demonstration: a whole message is in the buffer, or nothing. -/
def demoFrames (s : Server) (inp : Input) : Prop :=
  match inp with
  | .slot _ _ _ => s.phase = .slots 1 → (s.tcp.conn 1).state = .established →
      (s.http 1).req.state = .idle ∨ (s.http 1).req.state = .recvHdr →
        (s.http 1).req.parser.off = 0 ∧
          (s.tcp.conn 1).buffered ∈ [[], demoPutHead.bytes ++ demoGet, demoGet]
  | _ => True

instance decDemoFrames (s : Server) : ∀ inp, Decidable (demoFrames s inp)
  | .slot _ _ _ => inferInstanceAs (Decidable (_ → _ → _ → _))
  | .frame _ _ | .icmpErr _ _ _ _ _ | .otherSet _ _ | .otherCancel _ | .idle | .timer _ | .date _
  | .event | .drain _ => isTrue trivial

theorem allowsQuiet_demoFrames :
    allowsQuiet (fun s inp => opensFresh demoHttp 1 s inp ∧ demoFrames s inp) 1 := by
  intro s inp hframe hph
  refine ⟨allowsQuiet_opensFresh demoHttp 1 s inp hframe hph, ?_⟩
  cases inp with
  | slot start now out => exact fun h => absurd h hph
  | _ => trivial

/-- Nothing was parsed, and the head at the front declares a length that is read and fits. -/
theorem FramesSafely.of_head {rest : List Byte} {h : RequestHead} (hv : h.Valid)
    (hpre : h.bytes <+: rest) (hread : ∀ f ∈ h.lengths, LengthReadable f.2)
    {n : Nat} (hn : h.Declares n) (hfit : h.bytes.length + n ≤ rest.length) :
    FramesSafely rest 0 := by
  refine ⟨fun d hd => absurd hd (Nat.not_lt_zero d), fun h' hv' hpre' _ => ?_⟩
  rw [head_unique hv' hv hpre' hpre]
  refine ⟨hread, fun _ m hm => ?_⟩
  rw [Declares.unique hv hm hn]
  exact hfit

theorem FramesSafely.nil : FramesSafely [] 0 := by
  have hno : ∀ h : RequestHead, ¬ h.bytes <+: [] := by
    intro h hpre
    have hnil : h.bytes = [] := List.prefix_nil.mp hpre
    simp [RequestHead.bytes] at hnil
  exact ⟨fun d hd => absurd hd (Nat.not_lt_zero d), fun h _ hpre => absurd hpre (hno h)⟩

theorem demoFrames_safe {s : Server} {inp : Input}
    (h : opensFresh demoHttp 1 s inp ∧ demoFrames s inp) : framesSafely demoHttp 1 s inp := by
  refine ⟨h.1, ?_⟩
  cases inp with
  | slot start now out =>
      intro hph hest hst
      obtain ⟨hoff, hrest⟩ := h.2 hph hest hst
      rw [hoff]
      generalize (s.tcp.conn 1).buffered = rest at hrest
      simp only [List.mem_cons, List.not_mem_nil, or_false] at hrest
      obtain rfl | rfl | rfl := hrest
      · exact .nil
      · have hspace : ∀ b ∈ [(0x20 : Byte)], b = 0x20 := list_all (by decide +kernel)
        have hform : LengthForm (ascii " 27") [0x20] (ascii "27") [] :=
          ⟨by decide +kernel, list_all (by decide +kernel), by decide, list_all (by decide +kernel),
            fun b hb => absurd hb List.not_mem_nil⟩
        have hlengths : demoPutHead.lengths = [(ascii "Content-Length", ascii " 27")] := by
          decide +kernel
        refine .of_head demoPutHead_valid (List.prefix_append _ _) (fun f hf => ?_)
          (.value (f := (ascii "Content-Length", ascii " 27")) ?_ hform) (by decide +kernel)
        · rw [hlengths] at hf
          rw [List.mem_singleton.mp hf]
          exact ⟨_, _, _, hform, .inl hspace⟩
        · rw [hlengths]
          exact List.mem_singleton.mpr rfl
      · have hlengths : demoGetHead.lengths = [] := by decide +kernel
        have hbytes : demoGetHead.bytes = demoGet := by decide +kernel
        refine .of_head demoGetHead_valid (hbytes ▸ List.prefix_refl _) (fun f hf => ?_)
          (.none hlengths) (by decide +kernel)
        rw [hlengths] at hf
        cases hf
  | _ => trivial

/-- The PUT comes with its body: the 27 bytes are taken, and the GET behind them is answered. -/
theorem requests_framed_demo : ∃ s : Server,
    (s.tcp.conn 1).state = .established ∧
      (session 1 s.log).answers.map Req.status = [.ok200, .method405] ∧
      (taken 1 s.tcp.log).length = demoPutHead.bytes.length + 27 + 27 ∧ requestsFramed 1 s := by
  obtain ⟨s, hrun, hest, hans, htaken⟩ := exists_legs demoHttp
    (fun s inp => opensFresh demoHttp 1 s inp ∧ demoFrames s inp) 1 allowsQuiet_demoFrames
    (s := demoServer)
    (Q := fun s => (s.tcp.conn 1).state = .established ∧
      (session 1 s.log).answers.map Req.status = [.ok200, .method405] ∧
      (taken 1 s.tcp.log).length = demoPutHead.bytes.length + 27 + 27)
    (demoPutThen demoGet demoGet) (by decide +kernel) (by decide +kernel)
  exact ⟨s, hest, hans, htaken, requests_framed (hrun.mono demoFrames_safe)⟩

theorem Divided.length {as : List Req} {bs : List Byte} (h : Divided as bs) :
    bs.length = (as.map fun a => a.parser.reqLen + a.parser.contentLen).sum := by
  induction h with
  | none => rfl
  | @next a as bs m _ hm ih =>
      rw [List.map_cons, List.sum_cons, List.length_append, ih, Message.bytes, List.length_append,
        hm.head.reqLen, hm.contentLen, Nat.add_comm]

/-- **The body is answered as the next request.**  It arrives when the PUT has been answered with
405, and is the GET that is answered with 200. -/
theorem body_answered_as_request : ∃ s : Server,
    Run (serverStep demoHttp) (opensFresh demoHttp 1) demoServer s ∧
      (session 1 s.log).answers.map Req.status = [.ok200, .method405] ∧ ¬ requestsFramed 1 s := by
  obtain ⟨s, hrun, hest, hans, hlens, htaken⟩ := exists_legs demoHttp (opensFresh demoHttp 1) 1
    (allowsQuiet_opensFresh demoHttp 1) (s := demoServer)
    (Q := fun s => (s.tcp.conn 1).state = .established ∧
      (session 1 s.log).answers.map Req.status = [.ok200, .method405] ∧
      (session 1 s.log).answers.map (fun a => (a.keeps, a.parser.reqLen + a.parser.contentLen))
        = [(true, 27), (true, demoPutHead.bytes.length + 27)] ∧
      (taken 1 s.tcp.log).length = demoPutHead.bytes.length + 27)
    (demoPutThen [] demoGet) (by decide +kernel) (by decide +kernel)
  refine ⟨s, hrun, hans, fun hframed => ?_⟩
  have hopen : (session 1 s.log).keptOpen := by
    intro _ a ha
    cases hl : (session 1 s.log).answers with
    | nil =>
        rw [hl] at ha
        cases ha
    | cons b as =>
        rw [hl] at ha hlens
        cases ha
        exact congrArg Prod.fst (List.cons.inj hlens).1
  have hlen := (hframed hest hopen).1.length
  have hsum := congrArg (fun l => (l.map Prod.snd).sum) hlens
  simp only [List.map_map, List.map_cons, List.map_nil, List.sum_cons, List.sum_nil] at hsum
  rw [htaken] at hlen
  have hmap : (session 1 s.log).answers.map
      (Prod.snd ∘ fun a => (a.keeps, a.parser.reqLen + a.parser.contentLen))
      = (session 1 s.log).answers.map fun a => a.parser.reqLen + a.parser.contentLen := rfl
  rw [hmap, ← hlen] at hsum
  omega

end WsPi5
