/-
# `WsPi5.Http.Sessions` — one connection's requests, and those of the slot's earlier ones

A record belongs to a slot and not to a connection: nothing clears it when a connection is
established, and the paths that end one clear different parts of it.  `h_keepalive` alone sets
PARSE_STATE and PARSE_OFF back; `h_reset`, `h_close` and `.Lhp_reset_hconn` clear STATE, FLAGS
and CONTENT_LEN, and a slot that is found closed gets STATE only.  The next connection's first
request is then parsed from an offset of the last one (`request_parsed_from_stale_offset`).

**The condition** (`opensFresh`).  Whenever a frame takes slot `i` to ESTABLISHED, its record
is blank: IDLE, no flags, the parser at its start.

**Two runs.**  `Session` reads off a log what was asked of `http_poll` since the connection was
established (`polls`: at each visit over its bytes, the bytes received so far and the clock) and
what came of it.  A `Track` computes the second from the first and from nothing else
(`trackOf`), and every run that meets the condition keeps to it (`Tracked`).  Two runs with the
same polls have therefore the same answers (`slot_reuse_isolated`).
-/
import WsPi5.Http.PollReads
import WsPi5.Http.WayStates
import WsPi5.Http.Crossing

namespace WsPi5

open Lib

/-! ## What the log says of a connection -/

/-- The connection in a slot since it was established: the visits over its bytes, latest first,
the requests that were answered, latest first, and whether an answer is being sent. -/
structure Session where
  polls : List Seen := []
  answers : List Req := []
  busy : Bool := false

def Session.note (x : Session) : HObs → Session
  | .established _ => {}
  | .visited _ seen =>
      if seen.tcp = .established ∧ x.busy = false then { x with polls := seen :: x.polls } else x
  | .answered _ _ r _ => { x with answers := r :: x.answers, busy := true }
  | .handed _ _ _ _ => x
  | .ended _ _ => { x with busy := false }

def session (i : Slot) : List HObs → Session
  | [] => {}
  | o :: log => if o.slot = i then (session i log).note o else session i log

/-! ## The same from the polls alone -/

/-- The connection is kept open behind the answer. -/
def Req.keeps (r : Req) : Bool := !r.flags.close && r.flags.http11

def Req.letGo (r : Req) : Req :=
  if r.state = .sending then if r.keeps then r.keepalive else r.reset else r

/-- What a visit finds behind the first `used` bytes of the connection. -/
def Seen.visit (x : Seen) (used : Nat) : Visit where
  tcp := x.tcp
  buf := fun k => (x.got.drop used).getD k 0
  len := (x.got.drop used).length
  start := x.start
  now := x.now

/-- A connection by itself: the record, how many bytes were taken, the answers. -/
structure Track where
  req : Req := {}
  used : Nat := 0
  answers : List Req := []

def Track.poll (env : HttpEnv) (t : Track) (x : Seen) : Track :=
  match pollSlot env (x.visit t.used) t.req.letGo with
  | .stay r | .close r => { t with req := r }
  | .answer r _ =>
      { req := { r with state := .sending }
        used := t.used + min (r.parser.reqLen + r.parser.contentLen) (x.visit t.used).len
        answers := { r with state := .sending } :: t.answers }

def trackOf (env : HttpEnv) : List Seen → Track
  | [] => {}
  | x :: polls => (trackOf env polls).poll env x

/-! ## The condition -/

/-- IDLE, no flags, the parser at its start. -/
def Req.blank (r : Req) : Prop := r.view = {}

instance decBlank (r : Req) : Decidable r.blank := inferInstanceAs (Decidable (_ = _))

/-- A frame that takes slot `i` to ESTABLISHED finds its record blank. -/
def opensFresh (env : HttpEnv) (i : Slot) (s : Server) (inp : Input) : Prop :=
  match inp with
  | .frame now f => s.tcp.establishes env.tcp ⟨now, .rx f⟩ i = true → (s.http i).req.blank
  | _ => True

/-! ## Records -/

section
variable {a b r : Req}

theorem Req.letGo_of_free (h : r.state ≠ .sending) : r.letGo = r := by
  rw [Req.letGo, if_neg h]

theorem Req.letGo_of_keeps (h : r.state = .sending) (hk : r.keeps = true) :
    r.letGo = r.keepalive := by
  rw [Req.letGo, if_pos h, if_pos hk]

theorem keepalive_view (h : a.view = b.view) (hs : a.state = .sending) :
    a.keepalive.view = b.keepalive.view := by
  obtain ⟨_, _, _, htick, _⟩ := Req.of_view h
  have ht := htick (by rw [hs]; nofun)
  simp only [Req.keepalive, Req.view, Req.queried, Parser.view, ht]
  rfl

theorem keepalive_within (r : Req) (n : Nat) : r.keepalive.Within n :=
  ⟨⟨Nat.zero_le n, nofun, nofun⟩, nofun, fun _ => rfl, nofun⟩

theorem Req.Within.mono {n m : Nat} (h : r.Within n) (hle : n ≤ m) : r.Within m :=
  { h with parser := { h.parser with off := Nat.le_trans h.parser.off hle } }

theorem Req.blank.within (h : r.blank) (n : Nat) : r.Within n := by
  obtain ⟨hst, hfl, hp, _, _⟩ := Req.of_view (show ({} : Req).view = r.view from h.symm)
  have hps : r.parser.state = .method := hp.state
  refine ⟨⟨by rw [hp.off]; exact Nat.zero_le n, ?_, ?_⟩, ?_, ?_, ?_⟩
  · rw [hps]
    nofun
  · rw [hps]
    nofun
  · rw [hst]
    nofun
  · rw [hfl]
    exact fun _ => rfl
  · rw [hst]
    nofun

end

/-! ## The log -/

section
variable {i : Slot} {log : List HObs}

theorem session_beside {os : List HObs} (h : ∀ o ∈ os, o.slot ≠ i) :
    session i (os ++ log) = session i log := by
  induction os with
  | nil => rfl
  | cons o os ih =>
      rw [List.cons_append, session, if_neg (h o (by simp))]
      exact ih fun o' ho' => h o' (by simp [ho'])

theorem session_own {o : HObs} (h : o.slot = i) :
    session i (o :: log) = (session i log).note o := by
  rw [session, if_pos h]

theorem session_established (js : List Slot) :
    session i (js.map HObs.established ++ log) = if i ∈ js then {} else session i log := by
  induction js with
  | nil => rfl
  | cons j js ih =>
      by_cases hj : j = i
      · rw [List.map_cons, List.cons_append, session_own (by exact hj), if_pos (by simp [hj])]
        rfl
      · have hmem : i ∈ j :: js ↔ i ∈ js := by simp [Ne.symm hj]
        rw [List.map_cons, List.cons_append, session, if_neg (by exact hj), ih]
        simp only [hmem]

theorem mem_newlyEstablished {t t' : Tcp} : i ∈ newlyEstablished t t' ↔
    (t.conn i).state ≠ .established ∧ (t'.conn i).state = .established := by
  simp [newlyEstablished, slots]

theorem session_withTcp (s : Server) (t : Tcp) : session i (s.withTcp t).log =
    if (s.tcp.conn i).state ≠ .established ∧ (t.conn i).state = .established then {}
    else session i s.log := by
  refine (session_established _).trans ?_
  simp only [mem_newlyEstablished]

end

/-- The connection in slot `i`, its session and its request are left as they are. -/
structure LeftAlone (i : Slot) (s s' : Server) : Prop where
  session : session i s'.log = session i s.log
  state : (s'.tcp.conn i).state = (s.tcp.conn i).state
  stored : (s'.tcp.conn i).stored = (s.tcp.conn i).stored
  taken : taken i s'.tcp.log = taken i s.tcp.log
  req : (s'.http i).req = (s.http i).req

theorem LeftAlone.refl (i : Slot) (s : Server) : LeftAlone i s s := ⟨rfl, rfl, rfl, rfl, rfl⟩

theorem LeftAlone.beside {i : Slot} {s s' : Server} (hb : Beside i s s') : LeftAlone i s s' := by
  obtain ⟨os, hos, hne⟩ := hb.log
  refine ⟨?_, by rw [hb.conn], by rw [hb.conn], (onlyAgain.of_beside hb.tcpLog).taken,
    by rw [hb.http]⟩
  rw [hos]
  exact session_beside hne

/-! ## The invariant -/

/-- The record of slot `i`, and what was taken from its buffer, are as the track says. -/
structure Tracked (env : HttpEnv) (i : Slot) (s : Server) : Prop where
  answers : (session i s.log).answers.map Req.view
    = (trackOf env (session i s.log).polls).answers.map Req.view
  opened : (s.tcp.conn i).state = .synRcvd → taken i s.tcp.log = []
  bounded : RxBounded (s.tcp.conn i)
  free : (s.tcp.conn i).state = .established → (session i s.log).busy = false →
    (s.http i).req.view = (trackOf env (session i s.log).polls).req.letGo.view ∧
      (s.http i).req.Within (s.tcp.conn i).rxlen ∧
      (taken i s.tcp.log).length = (trackOf env (session i s.log).polls).used
  busy : (s.tcp.conn i).state = .established → (session i s.log).busy = true →
    (s.http i).req.view = (trackOf env (session i s.log).polls).req.view ∧
      (s.http i).req.state = .sending ∧ ((s.http i).req.keeps = true →
        (taken i s.tcp.log).length = (trackOf env (session i s.log).polls).used)
  closing : (i, OEvt.tcpClosed) ∈ s.fsa.hi → (s.tcp.conn i).state ≠ .established
  keeping : (i, OEvt.doKeepalive) ∈ s.fsa.hi → (s.tcp.conn i).state = .established →
    (session i s.log).busy = true ∧ (s.http i).req.keeps = true

section
variable {env : HttpEnv} {i j : Slot} {s s' : Server}

theorem RxBounded.of_stored {c c' : Conn} (h : RxBounded c) (hs : c'.stored = c.stored) :
    RxBounded c' :=
  (RxGrows.of_stored hs h).1

theorem Tracked.keep (h : Tracked env i s) (hu : LeftAlone i s s')
    (hhi : ∀ e, (i, e) ∈ s'.fsa.hi → (i, e) ∈ s.fsa.hi) : Tracked env i s' := by
  obtain ⟨hsess, hst, hstored, htaken, hreq⟩ := hu
  have hrxlen : (s'.tcp.conn i).rxlen = (s.tcp.conn i).rxlen := congrArg Stored.rxlen hstored
  refine ⟨?_, ?_, h.bounded.of_stored hstored, ?_, ?_, fun hmem => ?_, fun hmem => ?_⟩
  · rw [hsess]
    exact h.answers
  · rw [hst, htaken]
    exact h.opened
  · rw [hst, hsess, hreq, hrxlen, htaken]
    exact h.free
  · rw [hst, hsess, hreq, htaken]
    exact h.busy
  · rw [hst]
    exact h.closing (hhi _ hmem)
  · rw [hst, hsess, hreq]
    exact h.keeping (hhi _ hmem)

theorem Tracked.beside (h : Tracked env i s) (hb : Beside i s s') : Tracked env i s' :=
  h.keep (.beside hb) fun e => (hb.hi e).mp

/-! ### Frames and timers -/

theorem Tracked.net {e : Event} {t : Tcp} {p : Phase} (h : Tracked env i s)
    (hrest : s.fsa.hi = []) (hnet : e.call.net = true)
    (hlen : ∀ f, e.call = .rx f → f.payload.length ≤ maxPayload)
    (ht : step env.tcp s.tcp e = some t)
    (hok : ∀ f, e.call = .rx f → s.tcp.establishes env.tcp e i = true → (s.http i).req.blank) :
    Tracked env i { s.withTcp t with phase := p } := by
  have hnone : ∀ e', (i, e') ∉ s.fsa.hi := fun e' => by rw [hrest]; exact List.not_mem_nil
  have hsess := @session_withTcp i s t
  rcases net_step ht hnet hlen i with hk | ho
  · obtain ⟨hbound, hpre⟩ := hk.bytes h.bounded
    have hgrow : (s.tcp.conn i).rxlen ≤ (t.conn i).rxlen := by
      simpa using hpre.length_le
    have htaken := hk.log.taken
    by_cases hnew : (s.tcp.conn i).state ≠ .established ∧ (t.conn i).state = .established
    · -- the handshake is completed: the session starts here
      rw [if_pos hnew] at hsess
      obtain hold | ⟨hsyn, f, hf⟩ := hk.established hnew.2
      · exact absurd hold hnew.1
      · have hblank := hok f hf (by simp [Tcp.establishes, ht, hnew])
        have hempty : (taken i t.log).length = 0 := by rw [htaken, h.opened hsyn]; rfl
        refine ⟨?_, ?_, hbound, ?_, ?_, fun hmem => absurd hmem (hnone _),
          fun hmem => absurd hmem (hnone _)⟩
        · simp only [hsess]
          rfl
        · intro hs
          cases hnew.2.symm.trans hs
        · simp only [hsess]
          intro _ _
          exact ⟨hblank, hblank.within _, hempty⟩
        · simp only [hsess]
          rintro _ ⟨⟩
    · rw [if_neg hnew] at hsess
      have hback : (t.conn i).state = .established → (s.tcp.conn i).state = .established := by
        intro hest
        by_contra hne
        exact hnew ⟨hne, hest⟩
      refine ⟨by simp only [hsess]; exact h.answers, fun hs => ?_, hbound, ?_, ?_,
        fun hmem => absurd hmem (hnone _), fun hmem => absurd hmem (hnone _)⟩
      · show taken i t.log = []
        rw [htaken]
        exact h.opened (hk.synRcvd hs)
      · simp only [hsess]
        intro hest hb
        obtain ⟨h₁, h₂, h₃⟩ := h.free (hback hest) hb
        exact ⟨h₁, h₂.mono hgrow, by rw [← h₃]; exact congrArg List.length htaken⟩
      · simp only [hsess]
        intro hest hb
        obtain ⟨h₁, h₂, h₃⟩ := h.busy (hback hest) hb
        exact ⟨h₁, h₂, fun hkeep => by rw [← h₃ hkeep]; exact congrArg List.length htaken⟩
  · -- a new connection: in SYN_RCVD, and nothing taken from it
    have hnot : (t.conn i).state ≠ .established := by rw [ho.after]; decide
    rw [if_neg fun hnew => hnot hnew.2] at hsess
    obtain ⟨syn, synAck, os, hos, hne⟩ := ho.log
    refine ⟨by simp only [hsess]; exact h.answers, fun _ => ?_, ?_, fun hest => absurd hest hnot,
      fun hest => absurd hest hnot, fun hmem => absurd hmem (hnone _),
      fun hmem => absurd hmem (hnone _)⟩
    · show taken i t.log = []
      rw [hos, (onlyAgain.of_beside ⟨os, rfl, hne⟩ : onlyAgain i _ _).taken]
      simp [taken]
    · obtain ⟨hzero, hooo⟩ := ho.empty
      have hb : RxBounded (t.conn i) := ⟨by simp [hooo], by simp [hooo], by simp [hzero]⟩
      exact hb

/-! ### The visit -/

theorem visit_like (s : Server) (i : Slot) (start now : Tick) :
    (s.visit i start now).Like ((s.seen i start now).visit (taken i s.tcp.log).length) := by
  have hdrop : (s.seen i start now).got.drop (taken i s.tcp.log).length
      = slice (s.tcp.conn i).rxbuf 0 (s.tcp.conn i).rxlen := by
    simp [Server.seen, received]
  refine ⟨rfl, ?_, rfl, rfl, fun k hk => ?_⟩
  · show (List.drop _ _).length = _
    rw [hdrop]
    exact slice_length ..
  · have hk' : k < (s.tcp.conn i).rxlen := hk
    show (List.drop _ _).getD k 0 = _
    rw [hdrop, List.getD_eq_getElem?_getD, slice_getElem? _ hk']
    simp [Server.visit]

theorem tcpRxConsume_bounded (i : Slot) (n : Nat) {l : Local} (h : RxBounded l.conn) :
    RxBounded (tcpRxConsume i n l).conn := by
  unfold tcpRxConsume
  dsimp only
  split
  · exact ⟨h.count, h.size, Nat.zero_le _⟩
  · exact ⟨h.count, h.size, Nat.le_trans (Nat.sub_le _ _) h.rxlen⟩

theorem tcpClose_stored (env : Env) (now : Tick) (i : Slot) (l : Local) :
    (tcpClose env now i l).1.conn.stored = l.conn.stored := by
  unfold tcpClose
  dsimp only
  split
  · rfl
  · simp only [tcpRtxSave, tcpRtxArm]
    split <;> rfl

theorem tcpClose_synRcvd {env : Env} {now : Tick} {i : Slot} {l : Local}
    (h : (tcpClose env now i l).1.conn.state = .synRcvd) : l.conn.state = .synRcvd := by
  unfold tcpClose at h
  dsimp only at h
  split at h
  · exact h
  next st hnext =>
    simp only [tcpRtxSave, tcpRtxArm_state] at h
    subst h
    revert hnext
    split <;> rintro hnext <;> cases hnext

/-- On a connection that is not ESTABLISHED the record does not matter. -/
theorem Tracked.of_ended
    (hans : (session i s.log).answers.map Req.view
      = (trackOf env (session i s.log).polls).answers.map Req.view)
    (hopen : (s.tcp.conn i).state = .synRcvd → taken i s.tcp.log = [])
    (hb : RxBounded (s.tcp.conn i)) (hne : (s.tcp.conn i).state ≠ .established) :
    Tracked env i s :=
  ⟨hans, hopen, hb, fun he => absurd he hne, fun he => absurd he hne, fun _ => hne,
    fun _ he => absurd he hne⟩

theorem Tracked.closed (h : Tracked env i s) (now : Tick)
    (htcp : s'.tcp = s.tcp.put i (WsPi5.tcpClose env.tcp now i (s.tcp.at i)).1)
    (hans : (session i s'.log).answers.map Req.view
      = (trackOf env (session i s'.log).polls).answers.map Req.view) : Tracked env i s' := by
  refine .of_ended hans ?_ ?_ ?_ <;> rw [htcp]
  · intro hs
    simp only [Tcp.put_conn_self] at hs
    show taken i (WsPi5.tcpClose env.tcp now i (s.tcp.at i)).1.log = []
    rw [tcpClose_taken]
    exact h.opened (tcpClose_synRcvd hs)
  · simp only [Tcp.put_conn_self]
    exact h.bounded.of_stored (tcpClose_stored env.tcp now i (s.tcp.at i))
  · simp only [Tcp.put_conn_self]
    exact tcpClose_state env.tcp now i (s.tcp.at i)

theorem noteVisit_log (s : Server) (i : Slot) (start now : Tick)
    (h : (s.tcp.conn i).state = .established) :
    (s.noteVisit i start now).log = .visited i (s.seen i start now) :: s.log := by
  unfold Server.noteVisit
  rw [if_neg (by rw [h]; nofun)]
  rfl

theorem session_noteVisit (start now : Tick)
    (h : (s.tcp.conn i).state ≠ .established ∨ (session i s.log).busy = true) :
    session i (s.noteVisit i start now).log = session i s.log := by
  unfold Server.noteVisit
  split
  · rfl
  · rw [Server.observe_log, session_own (i := i) rfl]
    refine if_neg fun hpoll => ?_
    rcases h with h | h
    · exact h hpoll.1
    · exact absurd (hpoll.2.symm.trans h) nofun

theorem Tracked.visit_ended (h : Tracked env i s) (hne : (s.tcp.conn i).state ≠ .established)
    (start now : Tick) (out : HandlerOut) :
    Tracked env i (visitSlot env i s start now out) := by
  obtain ⟨hnf, hnh, hnt, _⟩ := noteVisit_fields s i start now
  have hsess := session_noteVisit start now (.inl hne : _ ∨ (session i s.log).busy = true)
  have hans : (session i (s.noteVisit i start now).log).answers.map Req.view
      = (trackOf env (session i (s.noteVisit i start now).log).polls).answers.map Req.view := by
    rw [hsess]
    exact h.answers
  unfold visitSlot
  dsimp only
  cases hpoll : pollSlot env (s.visit i start now) (s.http i).req with
  | stay r =>
      refine .of_ended hans ?_ ?_ ?_ <;> simp only [Server.setReq_tcp, hnt]
      · exact h.opened
      · exact h.bounded
      · exact hne
  | close r =>
      exact h.closed now (by simp only [Server.setReq_tcp, Server.tcpClose, hnt]) hans
  | answer r page => exact absurd (pollSlot_answer hpoll).1 hne

theorem answerSlot_fields (env : HttpEnv) (i : Slot) (s : Server) (out : HandlerOut) (r : Req)
    (page : Page) :
    (∃ resp, (answerSlot env i s out r page).log
      = .answered i (epoch i s.tcp.log) { r with state := .sending } resp :: s.log) ∧
    (answerSlot env i s out r page).tcp
      = s.tcp.put i (tcpRxConsume i (r.parser.reqLen + r.parser.contentLen) (s.tcp.at i)) ∧
    ((answerSlot env i s out r page).http i).req = { r with state := .sending } ∧
    (answerSlot env i s out r page).fsa = s.fsa.post i .respReady := by
  unfold answerSlot
  dsimp only
  exact ⟨⟨_, rfl⟩, rfl, by simp, rfl⟩

theorem Tracked.visit_idle (h : Tracked env i s) (hest : (s.tcp.conn i).state = .established)
    (hb : (session i s.log).busy = true) (start now : Tick) (out : HandlerOut) :
    LeftAlone i s (visitSlot env i s start now out) ∧
      (visitSlot env i s start now out).fsa = s.fsa := by
  obtain ⟨hnf, hnh, hnt, _⟩ := noteVisit_fields s i start now
  have hsess := session_noteVisit start now
    (.inr hb : (s.tcp.conn i).state ≠ .established ∨ _)
  have hpoll : pollSlot env (s.visit i start now) (s.http i).req = .stay (s.http i).req := by
    obtain hstay | ⟨hne, _⟩ := pollSlot_sending env (s.visit i start now) (h.busy hest hb).2.1
    · exact hstay
    · exact absurd hest hne
  have hsame : visitSlot env i s start now out = s.noteVisit i start now := by
    unfold visitSlot
    rw [hpoll, ← hnh]
    exact setReq_same _ i
  rw [hsame]
  exact ⟨⟨hsess, by rw [hnt], by rw [hnt], by rw [hnt], by rw [hnh]⟩, hnf⟩

theorem Tracked.visit_busy (h : Tracked env i s) (hest : (s.tcp.conn i).state = .established)
    (hb : (session i s.log).busy = true) (start now : Tick) (out : HandlerOut) :
    Tracked env i (visitSlot env i s start now out) := by
  obtain ⟨hu, hfsa⟩ := h.visit_idle hest hb start now out
  exact h.keep hu fun e he => by rwa [hfsa] at he

section
variable {t : Track} {r r' : Req} {start now : Tick}

theorem session_visited (hest : (s.tcp.conn i).state = .established)
    (hb : (session i s.log).busy = false) (start now : Tick) :
    session i (s.noteVisit i start now).log
      = { session i s.log with polls := s.seen i start now :: (session i s.log).polls } := by
  rw [noteVisit_log s i start now hest, session_own (i := i) rfl]
  exact if_pos ⟨hest, hb⟩

theorem session_answered {page : Page} (hest : (s.tcp.conn i).state = .established)
    (hb : (session i s.log).busy = false) (start now : Tick) (out : HandlerOut) (r : Req) :
    session i (answerSlot env i (s.noteVisit i start now) out r page).log =
      { polls := s.seen i start now :: (session i s.log).polls
        answers := { r with state := .sending } :: (session i s.log).answers
        busy := true } := by
  obtain ⟨⟨resp, hlog⟩, -⟩ := answerSlot_fields env i (s.noteVisit i start now) out r page
  rw [hlog, session_own (i := i) rfl, session_visited hest hb]
  rfl

theorem Tracked.visit_stay (h : Tracked env i s) (hest : (s.tcp.conn i).state = .established)
    (hb : (session i s.log).busy = false) (htrack : trackOf env (session i s.log).polls = t)
    (hW : pollSlot env ((s.seen i start now).visit t.used) t.req.letGo = .stay r')
    (hr : r.view = r'.view) (hfree : r.Within (s.tcp.conn i).rxlen) :
    Tracked env i ((s.noteVisit i start now).setReq i r) := by
  obtain ⟨hnf, _, hnt, _⟩ := noteVisit_fields s i start now
  have hused := (h.free hest hb).2.2
  rw [htrack] at hused
  have hr' : r'.state ≠ .sending := by
    rw [(Req.of_view hr).1]
    exact hfree.free
  have hnext : trackOf env (s.seen i start now :: (session i s.log).polls)
      = { t with req := r' } := by
    simp only [trackOf, htrack, Track.poll, hW]
  refine ⟨?_, ?_, ?_, ?_, ?_, ?_, ?_⟩ <;>
    simp only [Server.setReq_log, Server.setReq_tcp, Server.setReq_self, Server.setReq_fsa,
      session_visited hest hb, hnt, hnf, hnext, hb, reduceCtorEq]
  · rw [← htrack]
    exact h.answers
  · exact h.opened
  · exact h.bounded
  · rw [Req.letGo_of_free hr']
    exact fun _ _ => ⟨hr, hfree, hused⟩
  · rintro _ ⟨⟩
  · exact h.closing
  · exact fun hmem he => absurd (hb.symm.trans (h.keeping hmem he).1) Bool.false_ne_true

theorem Tracked.visit_answer {page page' : Page} (h : Tracked env i s)
    (hest : (s.tcp.conn i).state = .established) (hb : (session i s.log).busy = false)
    (htrack : trackOf env (session i s.log).polls = t)
    (hW : pollSlot env ((s.seen i start now).visit t.used) t.req.letGo = .answer r' page')
    (hr : Req.view { r with state := .sending } = Req.view { r' with state := .sending })
    (hkept : Req.keeps { r with state := .sending } = true →
      min (r'.parser.reqLen + r'.parser.contentLen) ((s.seen i start now).visit t.used).len
        = min (r.parser.reqLen + r.parser.contentLen) (s.tcp.conn i).rxlen) (out : HandlerOut) :
    Tracked env i (answerSlot env i (s.noteVisit i start now) out r page) := by
  obtain ⟨hnf, _, hnt, _⟩ := noteVisit_fields s i start now
  have hused := (h.free hest hb).2.2
  rw [htrack] at hused
  have hnext : trackOf env (s.seen i start now :: (session i s.log).polls) =
      { req := { r' with state := .sending }
        used := t.used + min (r'.parser.reqLen + r'.parser.contentLen)
          ((s.seen i start now).visit t.used).len
        answers := { r' with state := .sending } :: t.answers } := by
    simp only [trackOf, htrack, Track.poll, hW]
  obtain ⟨-, htcp, hhttp, hfsa⟩ :=
    answerSlot_fields env i (s.noteVisit i start now) out r page
  have hhi : ∀ {e}, (i, e) ∈ (s.fsa.post i .respReady).hi → e ≠ .respReady →
      (i, e) ∈ s.fsa.hi := by
    intro e hmem hne
    rcases Fsa.mem_post_hi hmem with hold | ⟨_, heq, _⟩
    · exact hold
    · exact absurd heq hne
  refine ⟨?_, ?_, ?_, ?_, ?_, ?_, ?_⟩ <;>
    simp only [session_answered hest hb, htcp, hhttp, hfsa, hnt, hnf, hnext, Tcp.put_conn_self,
      tcpRxConsume_state]
  · rw [List.map_cons, List.map_cons, hr]
    refine congrArg _ ?_
    rw [← htrack]
    exact h.answers
  · intro hs
    cases hest.symm.trans hs
  · exact tcpRxConsume_bounded i _ h.bounded
  · rintro _ ⟨⟩
  · refine fun _ _ => ⟨hr, trivial, fun hk => ?_⟩
    show (taken i (tcpRxConsume i _ (s.tcp.at i)).log).length = _
    rw [tcpRxConsume_log, hkept hk, ← hused]
    simp [taken]
  · exact fun hmem => h.closing (hhi hmem (by decide))
  · intro hmem he
    cases hb.symm.trans (h.keeping (hhi hmem (by decide)) he).1

end

/-- The visit over the connection's bytes: the track takes the same step. -/
theorem Tracked.visit_free (h : Tracked env i s) (hest : (s.tcp.conn i).state = .established)
    (hb : (session i s.log).busy = false) (start now : Tick) (out : HandlerOut) :
    Tracked env i (visitSlot env i s start now out) := by
  obtain ⟨_, _, hnt, _⟩ := noteVisit_fields s i start now
  obtain ⟨hreq, hwithin, hused⟩ := h.free hest hb
  have hlen : (s.visit i start now).len < 65536 := by
    have hle : (s.tcp.conn i).rxlen ≤ tcpRxbufSize + 4 * maxPayload := h.bounded.rxlen
    have hv : (s.visit i start now).len = (s.tcp.conn i).rxlen := rfl
    simp only [tcpRxbufSize, maxPayload] at hle
    omega
  have hlike := visit_like s i start now
  rw [hused] at hlike
  obtain ⟨hview, hin⟩ := pollSlot_view env hlike hest hlen hreq hwithin
  generalize htrack : trackOf env (session i s.log).polls = t at hreq hused hlike hview
  unfold visitSlot
  cases hV : pollSlot env (s.visit i start now) (s.http i).req with
  | stay r =>
      rw [hV] at hview hin
      cases hW : pollSlot env ((s.seen i start now).visit t.used) t.req.letGo with
      | close r' | answer r' _ =>
          rw [hW] at hview
          cases hview
      | stay r' =>
          rw [hW] at hview
          exact h.visit_stay hest hb htrack hW (Verdict.stay.inj hview) hin
  | close r =>
      rw [hV] at hview
      refine h.closed now (by simp only [Server.setReq_tcp, Server.tcpClose, hnt]) ?_
      cases hW : pollSlot env ((s.seen i start now).visit t.used) t.req.letGo with
      | stay r' | answer r' _ =>
          rw [hW] at hview
          cases hview
      | close r' =>
          have hnext : trackOf env (s.seen i start now :: (session i s.log).polls)
              = { t with req := r' } := by
            simp only [trackOf, htrack, Track.poll, hW]
          simp only [Server.setReq_log, Server.tcpClose, session_visited hest hb, hnext]
          rw [← htrack]
          exact h.answers
  | answer r page =>
      rw [hV] at hview hin
      cases hW : pollSlot env ((s.seen i start now).visit t.used) t.req.letGo with
      | stay r' | close r' =>
          rw [hW] at hview
          cases hview
      | answer r' page' =>
          rw [hW] at hview
          have hr : Req.view { r with state := .sending } = Req.view { r' with state := .sending } :=
            (Verdict.answer.inj hview).1
          refine h.visit_answer hest hb htrack hW hr (fun hk => ?_) out
          -- a record that is kept has its lengths from a parse that is DONE
          have hdone : r.parser.state = .done := by
            rcases hin with hd | hv
            · exact hd
            · simp [Req.keeps, hv] at hk
          obtain ⟨_, _, hp, _, _⟩ := Req.of_view hr
          rw [hp.reqLen hdone, hp.contentLen, hlike.len]
          rfl

theorem Tracked.visit_own (h : Tracked env i s) (start now : Tick) (out : HandlerOut) :
    Tracked env i (visitSlot env i s start now out) := by
  by_cases hest : (s.tcp.conn i).state = .established
  · cases hb : (session i s.log).busy with
    | true => exact h.visit_busy hest hb start now out
    | false => exact h.visit_free hest hb start now out
  · exact h.visit_ended hest start now out

/-! ### The output side -/

/-- An event for the way is posted: E_TCP_CLOSED only on a lost connection, E_DO_KEEPALIVE only
behind an answer that keeps it open. -/
theorem Tracked.post (h : Tracked env i s) {e : OEvt}
    (hclosed : e = .tcpClosed → (s.tcp.conn i).state ≠ .established)
    (hkeep : e = .doKeepalive → (s.tcp.conn i).state = .established →
      (session i s.log).busy = true ∧ (s.http i).req.keeps = true) :
    Tracked env i (s.post i e) := by
  refine ⟨h.answers, h.opened, h.bounded, h.free, h.busy, fun hmem => ?_, fun hmem => ?_⟩
  · rcases Fsa.mem_post_hi hmem with hold | ⟨_, heq, _⟩
    · exact h.closing hold
    · exact hclosed heq.symm
  · rcases Fsa.mem_post_hi hmem with hold | ⟨_, heq, _⟩
    · exact h.keeping hold
    · exact hkeep heq.symm

theorem Tracked.event_own (h : Tracked env i s) : Tracked env i (httpFsaPollTcpEvents i s) := by
  obtain heq | ⟨_, e, he, heq⟩ | ⟨_, hne, heq⟩ := pollEvent_cases i s <;> rw [heq]
  · exact h
  · rcases he with rfl | rfl
    · exact h.post nofun nofun
    · exact h.post nofun nofun
  · exact h.post (fun _ => hne) nofun

theorem tcpSend_stored {env : Env} {now : Tick} {i : Slot} {p : List Byte} {l : Local} :
    (tcpSendAccept env now i p l).conn.stored = l.conn.stored := by
  simp only [tcpSendAccept, tcpRtxArm]
  split <;> rfl

/-- `h_send` leaves the session alone, and posts no event but E_TCP_CLOSED for the upper ring. -/
theorem hSend_acts (env : HttpEnv) (now : Tick) (i : Slot) (s : Server) :
    ∃ u, LeftAlone i s u ∧ u.fsa = s.fsa ∧ (hSend env now i s = u ∨
      ∃ e, e ≠ .doKeepalive ∧ (e = .tcpClosed → (s.tcp.conn i).state ≠ .established) ∧
        hSend env now i s = u.post i e) := by
  unfold WsPi5.hSend
  dsimp only
  split
  next hest =>
    split
    · exact ⟨s, .refl i s, rfl, .inr ⟨.allQueued, by decide, fun he => (by cases he), rfl⟩⟩
    split
    · exact ⟨s, .refl i s, rfl, .inl rfl⟩
    split
    · exact ⟨s, .refl i s, rfl, .inl rfl⟩
    next l f hsend =>
      obtain ⟨rfl, _, hlog⟩ := tcpSend_log _ _ _ hsend
      unfold hSent
      dsimp only
      refine ⟨_, ?_, ?_, .inr ⟨_, ?_, ?_, rfl⟩⟩
      · refine ⟨session_own (i := i) rfl, ?_, ?_, ?_, by simp⟩
        · simp only [Server.observe_tcp, Server.setHttp_tcp, Tcp.put_conn_self,
            tcpSendAccept_state]
          rfl
        · simp only [Server.observe_tcp, Server.setHttp_tcp, Tcp.put_conn_self]
          exact tcpSend_stored
        · show taken i (tcpSendAccept env.tcp now i _ (s.tcp.at i)).log = _
          rw [tcpSendAccept_log]
          rfl
      · rfl
      · split <;> decide
      · intro he
        split at he <;> cases he
  next hne => exact ⟨s, .refl i s, rfl, .inr ⟨.tcpClosed, by decide, fun _ => hne, rfl⟩⟩

theorem Tracked.hSend (h : Tracked env i s) (now : Tick) :
    Tracked env i (hSend env now i s) := by
  obtain ⟨u, hu, hfsa, heq⟩ := hSend_acts env now i s
  have hkeep : Tracked env i u := h.keep hu fun e he => by rwa [hfsa] at he
  obtain heq | ⟨e, hne, hclosed, heq⟩ := heq
  · rw [heq]
    exact hkeep
  · rw [heq]
    refine hkeep.post (fun he => ?_) fun he => absurd he hne
    rw [hu.state]
    exact hclosed he

theorem table_letsGo {st o : OState} {e : OEvt} {hd : OHandler}
    (h : httpFsaTransTable st e = some (o, hd)) :
    (hd = .reset → e = .tcpClosed) ∧ (hd = .keepalive → e = .doKeepalive) ∧
      (hd = .decide → st = .draining) := by
  cases st <;> cases e <;> simp only [httpFsaTransTable, Option.some.injEq, Prod.mk.injEq,
    reduceCtorEq] at h <;> obtain ⟨rfl, rfl⟩ := h <;> simp

theorem session_ended (how : Ending) (log : List HObs) :
    session i (.ended i how :: log) = { session i log with busy := false } :=
  session_own rfl

theorem Tracked.hKeepalive (h : Tracked env i s)
    (hk : (s.tcp.conn i).state = .established →
      (session i s.log).busy = true ∧ (s.http i).req.keeps = true)
    (hgone : (i, OEvt.doKeepalive) ∉ s.fsa.hi) : Tracked env i (hKeepalive i s) := by
  unfold WsPi5.hKeepalive
  refine ⟨?_, h.opened, h.bounded, ?_, ?_, h.closing, fun hmem => absurd hmem hgone⟩ <;>
    simp only [Server.observe_log, Server.setReq_log, session_ended, Server.observe_tcp,
      Server.setReq_tcp, Server.observe_http, Server.setReq_self]
  · exact h.answers
  · intro hest _
    obtain ⟨hb, hkeep⟩ := hk hest
    obtain ⟨hview, hsend, hused⟩ := h.busy hest hb
    obtain ⟨hst, hfl, _, _, _⟩ := Req.of_view hview
    have htrack : (trackOf env (session i s.log).polls).req.keeps = true := by
      rw [Req.keeps, hfl]
      exact hkeep
    rw [Req.letGo_of_keeps (hst.trans hsend) htrack]
    exact ⟨keepalive_view hview hsend, keepalive_within _ _, hused hkeep⟩
  · nofun

theorem Tracked.call (h : Tracked env i s) (now : Tick) (hd : OHandler)
    (hreset : hd = .reset → (s.tcp.conn i).state ≠ .established)
    (hdecide : hd = .decide → (s.tcp.conn i).state = .established →
      (session i s.log).busy = true)
    (hkeep : hd = .keepalive → (s.tcp.conn i).state = .established →
      (session i s.log).busy = true ∧ (s.http i).req.keeps = true)
    (hgone : hd = .keepalive → (i, OEvt.doKeepalive) ∉ s.fsa.hi) :
    Tracked env i (hd.call env now i s) := by
  cases hd with
  | install => exact h.post nofun nofun
  | send => exact h.hSend now
  | noop => exact h
  | decide =>
      refine h.post (by split <;> nofun) fun he hest => ⟨hdecide rfl hest, ?_⟩
      split at he
      · cases he
      next hno => simpa [Req.keeps] using hno
  | reset =>
      refine .of_ended ?_ h.opened h.bounded (hreset rfl)
      simp only [OHandler.call, hReset, Server.observe_log, Server.setReq_log, session_ended]
      exact h.answers
  | close =>
      refine h.closed now rfl ?_
      simp only [OHandler.call, hClose, Server.observe_log, Server.setReq_log, session_ended]
      exact h.answers
  | keepalive => exact h.hKeepalive (hkeep rfl) (hgone rfl)

/-- On an ESTABLISHED connection a way that is not idle is sending an answer of the session. -/
theorem Tracked.busy_of_way (h : Tracked env i s) (hw : WayInv i s) (hph : s.phase = .drain)
    (ho : s.fsa.ostate i ≠ .idle) (hest : (s.tcp.conn i).state = .established) :
    (session i s.log).busy = true := by
  rcases hw.busy ho with hsend | ⟨hstage, _⟩ | ⟨_, hmem⟩
  · by_contra hb
    exact (h.free hest (by simpa using hb)).2.1.free hsend
  · rw [hph] at hstage
    cases hstage
  · exact absurd hest (h.closing hmem)

/-- What is known when a handler is called for the way. -/
structure HandlerDue (i : Slot) (s : Server) (hd : OHandler) : Prop where
  reset : hd = .reset → (s.tcp.conn i).state ≠ .established
  decide : hd = .decide → (s.tcp.conn i).state = .established → (session i s.log).busy = true
  keepalive : hd = .keepalive → (s.tcp.conn i).state = .established →
    (session i s.log).busy = true ∧ (s.http i).req.keeps = true

theorem Tracked.handlerDue {e : OEvt} {q : Fsa} {o : OState} {hd : OHandler}
    (h : Tracked env i s) (hw : WayInv i s) (hq : s.fsa.Ok) (hph : s.phase = .drain)
    (hnext : s.fsa.next = some (i, e, q))
    (htab : httpFsaTransTable (s.fsa.ostate i) e = some (o, hd)) : HandlerDue i s hd := by
  obtain ⟨hreset, hkeep, hdecide⟩ := table_letsGo htab
  -- an event of the upper ring was queued
  have hqueued : e.hi = true → (i, e) ∈ s.fsa.hi := fun he => (hq.next_absent he hnext).1
  refine ⟨fun hd' => ?_, fun hd' hest => ?_, fun hd' => ?_⟩
  · have he := hreset hd'
    subst he
    exact h.closing (hqueued rfl)
  · exact h.busy_of_way hw hph (by rw [hdecide hd']; nofun) hest
  · have he := hkeep hd'
    subst he
    exact h.keeping (hqueued rfl)

theorem Tracked.fsa_own {now : Tick} {e : OEvt} {q : Fsa} (h : Tracked env i s) (hw : WayInv i s)
    (hq : s.fsa.Ok) (hph : s.phase = .drain) (hstep : httpFsaStep env now s = some s')
    (hnext : s.fsa.next = some (i, e, q)) : Tracked env i s' := by
  have hm : Tracked env i { s with fsa := q } :=
    h.keep ⟨rfl, rfl, rfl, rfl, rfl⟩ fun e₁ he₁ => (Fsa.next_hi hnext).1 he₁
  obtain ⟨_, rfl⟩ | ⟨o, hd, htab, rfl⟩ := httpFsaStep_taken hstep hnext
  · exact hm
  · have hdue := h.handlerDue hw hq hph hnext htab
    have hgone : hd = .keepalive → (i, OEvt.doKeepalive) ∉ q.hi := by
      intro hd'
      have he := (table_letsGo htab).2.1 hd'
      subst he
      exact (hq.next_absent rfl hnext).2
    have hcall := hm.call now hd hdue.reset hdue.decide hdue.keepalive hgone
    exact hcall.keep ⟨rfl, rfl, rfl, rfl, rfl⟩ fun _ he => he

/-! ### Every run -/

theorem Tracked.step {inp : Input} (h : Tracked env i s) (hw : WaysOk s)
    (hok : opensFresh env i s inp) (hst : serverStep env s inp = some s') : Tracked env i s' := by
  -- phase and memory do not matter
  have plain : ∀ {u : Server}, Tracked env i u → ∀ mem p,
      Tracked env i { u with mem := mem, phase := p } :=
    fun hu _ _ => hu.keep ⟨rfl, rfl, rfl, rfl, rfl⟩ fun _ he => he
  cases serverStep_act hst with
  | net hph _ hnet hlen hinp ht =>
      refine h.net (hw.queues.rest hph).1 hnet hlen ht fun f hf hest => ?_
      rw [hinp f hf] at hok
      refine hok ?_
      rw [← hf]
      exact hest
  | idle _ => exact plain h _ _
  | date _ => exact plain h _ _
  | @visit j start now out _ =>
      refine plain ?_ _ _
      by_cases hij : i = j
      · exact hij ▸ h.visit_own start now out
      · exact h.beside (.visitSlot hij env s start now out)
  | @event j _ =>
      refine plain ?_ _ _
      by_cases hij : i = j
      · exact hij ▸ h.event_own
      · exact h.beside (.pollEvent hij s)
  | fsa hph hstep =>
      obtain ⟨j, e, q, hnext, _⟩ := httpFsaStep_cases hstep
      by_cases hij : i = j
      · subst hij
        exact h.fsa_own (hw.ways i) hw.queues.ok hph hstep hnext
      · exact h.beside (.fsaStep hij hstep hnext)
  | drained _ _ => exact plain h _ _

end

theorem tracked_init (env : HttpEnv) (cap : PoolCap) (now : Tick) (mem : Nat → Byte) (i : Slot) :
    Tracked env i (serverInit env cap now mem) := by
  have hconn : ((serverInit env cap now mem).tcp.conn i).state ≠ .established ∧
      ((serverInit env cap now mem).tcp.conn i).state ≠ .synRcvd ∧
      RxBounded ((serverInit env cap now mem).tcp.conn i) := by
    rw [serverInit_conn]
    by_cases hi : i = 0
    · subst hi
      exact ⟨nofun, nofun, ⟨Nat.zero_le _, nofun, Nat.zero_le _⟩⟩
    · rw [Function.update_of_ne hi]
      exact ⟨nofun, nofun, ⟨Nat.zero_le _, nofun, Nat.zero_le _⟩⟩
  exact .of_ended rfl (fun h => absurd h hconn.2.1) hconn.2.2 hconn.1

theorem tracked_run {env : HttpEnv} {cap : PoolCap} {now : Tick} {mem : Nat → Byte} {i : Slot}
    {s : Server} (h : Run (serverStep env) (opensFresh env i) (serverInit env cap now mem) s) :
    Tracked env i s := by
  have hinv : WaysOk s ∧ Tracked env i s := by
    refine h.invariant (P := fun u => WaysOk u ∧ Tracked env i u) ?_ ?_
    · exact ⟨waysOk_init env cap now mem, tracked_init env cap now mem i⟩
    · intro t u e ht hok hst
      exact ⟨waysOk_step ht.1 hst, ht.2.step ht.1 hok hst⟩
  exact hinv.2

/-- **A connection's requests do not depend on the slot's earlier ones**, while no handshake is
completed on a record that is not blank.  Take two runs whose current connections in slot `i`
were polled over the same bytes at the same times.  The requests answered on them agree in every
parsed field, in flags and status; and so does the request being worked on, at points where
either both or none has an answer under way. -/
theorem slot_reuse_isolated {env : HttpEnv} {cap₁ cap₂ : PoolCap} {t₁ t₂ : Tick}
    {mem₁ mem₂ : Nat → Byte} {i : Slot} {s₁ s₂ : Server}
    (h₁ : Run (serverStep env) (opensFresh env i) (serverInit env cap₁ t₁ mem₁) s₁)
    (h₂ : Run (serverStep env) (opensFresh env i) (serverInit env cap₂ t₂ mem₂) s₂)
    (hsame : (session i s₁.log).polls = (session i s₂.log).polls) :
    (session i s₁.log).answers.map Req.view = (session i s₂.log).answers.map Req.view ∧
      ((s₁.tcp.conn i).state = .established → (s₂.tcp.conn i).state = .established →
        (session i s₁.log).busy = (session i s₂.log).busy →
          (s₁.http i).req.view = (s₂.http i).req.view) := by
  have k₁ := tracked_run h₁
  have k₂ := tracked_run h₂
  refine ⟨?_, fun he₁ he₂ hbusy => ?_⟩
  · calc (session i s₁.log).answers.map Req.view
        = (trackOf env (session i s₁.log).polls).answers.map Req.view := k₁.answers
      _ = (trackOf env (session i s₂.log).polls).answers.map Req.view := by rw [hsame]
      _ = (session i s₂.log).answers.map Req.view := k₂.answers.symm
  · cases hb : (session i s₁.log).busy with
    | true => rw [(k₁.busy he₁ hb).1, (k₂.busy he₂ (hbusy ▸ hb)).1, hsame]
    | false => rw [(k₁.free he₁ hb).1, (k₂.free he₂ (hbusy ▸ hb)).1, hsame]

instance decOpensFresh (env : HttpEnv) (i : Slot) (s : Server) :
    ∀ inp, Decidable (opensFresh env i s inp)
  | .frame _ _ => inferInstanceAs (Decidable (_ → _))
  | .icmpErr _ _ _ _ _ | .otherSet _ _ | .otherCancel _ | .idle | .timer _ | .date _
  | .slot _ _ _ | .event | .drain _ => isTrue trivial

theorem allowsQuiet_opensFresh (env : HttpEnv) (i : Slot) :
    allowsQuiet (opensFresh env i) i := by
  intro s inp hframe _
  cases inp with
  | frame now f => exact absurd rfl (hframe now f)
  | _ => trivial

/-- A peer asks for the page; the pass up to its answer. -/
def demoRequest : List Leg :=
  [.inputs (demoJoin 2000 ++ [.frame 1 (demoFrom 2000 0 demoGet)]), .pass 1 1 {} []]

/-- A peer that gets the page, acknowledges it, and leaves; the connection was kept open. -/
def demoServed : List Leg :=
  let wide (f : Frame) : Frame := { f with window := 1000 }
  [.inputs [.frame 1 (wide { demoSyn with sport := 1000 }), .frame 1 (wide (demoFrom 1000 0 [])),
      .frame 1 (wide (demoFrom 1000 0 demoGet))],
    .pass 1 1 {} [1, 1, 1, 1, 1],
    .inputs [.frame 1 (wide { demoFrom 1000 27 [] with ack := (demoFrom 1000 27 []).ack + 50 })],
    .pass 1 1 {} [1, 1, 1],
    .inputs [.frame 1 { demoFrom 1000 27 [] with flags := tcpRst }],
    .pass 1 1 {} [1]]

/-- A peer that leaves in the middle of its request line. -/
def demoCutOff : List Leg :=
  [.inputs (demoJoin 1000 ++ [.frame 1 (demoFrom 1000 0 (ascii "GET /abc"))]), .pass 1 1 {} [1],
    .inputs [.frame 1 { demoFrom 1000 8 [] with flags := tcpRst }], .pass 1 1 {} [1]]

def demoSeen : Seen := ⟨.established, demoGet, 1, 1⟩

/-- Slot 1 is used for the first time in one run, and again after a served peer in the other. -/
theorem slot_reuse_isolated_demo : ∃ s₁ s₂ : Server,
    (session 1 s₁.log).polls = [demoSeen] ∧ (session 1 s₂.log).polls = [demoSeen] ∧
      (session 1 s₁.log).answers.map Req.status = [.ok200] ∧
      (session 1 s₁.log).answers.map Req.view = (session 1 s₂.log).answers.map Req.view := by
  obtain ⟨s₁, hrun₁, hp₁, hst⟩ := exists_legs demoHttp (opensFresh demoHttp 1) 1
    (allowsQuiet_opensFresh demoHttp 1) (s := demoServer)
    (Q := fun s => (session 1 s.log).polls = [demoSeen] ∧
      (session 1 s.log).answers.map Req.status = [.ok200])
    demoRequest (by decide +kernel) (by decide +kernel)
  obtain ⟨s₂, hrun₂, hp₂⟩ := exists_legs demoHttp (opensFresh demoHttp 1) 1
    (allowsQuiet_opensFresh demoHttp 1) (s := demoServer)
    (Q := fun s => (session 1 s.log).polls = [demoSeen])
    (demoServed ++ demoRequest) (by decide +kernel) (by decide +kernel)
  exact ⟨s₁, s₂, hp₁, hp₂, hst, (slot_reuse_isolated hrun₁ hrun₂ (hp₁.trans hp₂.symm)).1⟩

/-- The same request on a slot that was used before: answered with 200 behind a peer that was
served and left, and with 400 behind one that left in the middle of its request line. -/
theorem request_parsed_from_stale_offset : ∃ s₁ s₂ : Server,
    Run (serverStep demoHttp) anyEvent demoServer s₁ ∧
      Run (serverStep demoHttp) anyEvent demoServer s₂ ∧
      (session 1 s₁.log).polls = (session 1 s₂.log).polls ∧
      (session 1 s₁.log).answers.map Req.view ≠ (session 1 s₂.log).answers.map Req.view := by
  obtain ⟨s₁, hrun₁, hp₁, hst₁⟩ := exists_legs demoHttp anyEvent 1 (allowsQuiet_any 1)
    (s := demoServer)
    (Q := fun s => (session 1 s.log).polls = [demoSeen] ∧
      (session 1 s.log).answers.map (Req.status ∘ Req.view) = [.ok200])
    (demoServed ++ demoRequest) (by decide +kernel) (by decide +kernel)
  obtain ⟨s₂, hrun₂, hp₂, hst₂⟩ := exists_legs demoHttp anyEvent 1 (allowsQuiet_any 1)
    (s := demoServer)
    (Q := fun s => (session 1 s.log).polls = [demoSeen] ∧
      (session 1 s.log).answers.map (Req.status ∘ Req.view) = [.bad400])
    (demoCutOff ++ demoRequest) (by decide +kernel) (by decide +kernel)
  refine ⟨s₁, s₂, hrun₁, hrun₂, hp₁.trans hp₂.symm, fun heq => ?_⟩
  have hstatus := congrArg (List.map Req.status) heq
  rw [List.map_map, List.map_map, hst₁, hst₂] at hstatus
  cases hstatus

end WsPi5
