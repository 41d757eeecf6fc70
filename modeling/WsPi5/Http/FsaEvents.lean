/-
# `WsPi5.Http.FsaEvents` — no event of the output FSA is lost

The server with the output FSA as it lies in memory: `http_fsa_step` peeks, loads the way's state
into the engine, clears the pending bit, lets the engine dequeue and dispatch, and stores the
state back.  It is a refinement of the server of `WsPi5.Http.NetLoop` (`Sim`).

**One event a way** (`OneEvent`).  A way posts E_RESP_READY while it has nothing queued, the scan
posts for ways that have nothing queued, and a handler posts one event for the one it was called
for.  So at no time has a way two events, and the listening socket never has one: of 127 events
at most 126 are queued when one more is posted.

    pending bit c of a way     set exactly while (way, c) is in a queue, and then once
    peeked event               the one that the engine dequeues
    http_fsa_post              never finds a bit set or a queue full
    events posted              dispatched, or still queued
-/
import WsPi5.Http.FsaMemory
import WsPi5.Http.PollBoundary

namespace WsPi5

open Lib

/-! ## What is posted -/

/-- The event that a visit of `http_poll` posts last, if any. -/
def visitPosts (env : HttpEnv) (i : Slot) (s : Server) (start now : Tick) : Option OEvt :=
  match pollSlot env (s.visit i start now) (s.http i).req with
  | .answer _ _ => some .respReady
  | _ => none

/-- The event that `http_fsa_poll_tcp_events` posts for a way. -/
def tcpEventPosts (i : Slot) (s : Server) : Option OEvt :=
  let c := s.tcp.conn i
  match s.fsa.ostate i with
  | .idle => none
  | o =>
      if c.state = .established then
        if o = .draining then
          if c.sndUna = c.sndNxt then some .allDrained else none
        else if tcpSendReady c = 0 then none
        else some .winOpen
      else some .tcpClosed

/-- The event that `h_send` posts last. -/
def hSendPosts (env : HttpEnv) (now : Tick) (i : Slot) (s : Server) : Option OEvt :=
  let c := s.tcp.conn i
  let r := (s.http i).resp
  if c.state = .established then
    if r.remaining = 0 then some .allQueued
    else if tcpSendReady c = 0 then none
    else
      let (ptr, n) := r.piece (tcpSendReady c).toNat
      match tcpSend env.tcp now i (slice s.mem ptr n) (s.tcp.at i) with
      | (_, none) => none
      | (_, some _) =>
          some (if (r.advance n).respPtr < (r.advance n).respLen then .chunkSent else .allQueued)
  else some .tcpClosed

def OHandler.posts (env : HttpEnv) (now : Tick) (i : Slot) (s : Server) : OHandler → Option OEvt
  | .install => some .winOpen
  | .send => hSendPosts env now i s
  | .decide =>
      let f := (s.http i).req.flags
      some (if f.close || !f.http11 then .doClose else .doKeepalive)
  | .noop | .reset | .close | .keepalive => none

def Fsa.postMaybe (q : Fsa) (i : Slot) : Option OEvt → Fsa
  | none => q
  | some e => q.post i e

section
variable (env : HttpEnv) (now : Tick) (i : Slot) (s : Server)

theorem visitSlot_posts (start : Tick) (out : HandlerOut) :
    (visitSlot env i s start now out).fsa
      = s.fsa.postMaybe i (visitPosts env i s start now) := by
  have hnote := (noteVisit_fields s i start now).1
  cases hpoll : pollSlot env (s.visit i start now) (s.http i).req with
  | stay r =>
      simp only [visitSlot, visitPosts, hpoll]
      exact hnote
  | close r =>
      simp only [visitSlot, visitPosts, hpoll]
      exact hnote
  | answer r page =>
      simp only [visitSlot, visitPosts, hpoll]
      show (s.noteVisit i start now).fsa.post i .respReady = s.fsa.post i .respReady
      rw [hnote]

theorem tcpEvent_posts : httpFsaPollTcpEvents i s
    = { s with fsa := s.fsa.postMaybe i (tcpEventPosts i s) } := by
  unfold httpFsaPollTcpEvents tcpEventPosts
  dsimp only
  cases s.fsa.ostate i with
  | idle => rfl
  | setup | tx | draining =>
      dsimp only
      split
      · split
        · split <;> rfl
        · split <;> rfl
      · rfl

theorem OHandler.call_posts (hd : OHandler) :
    (hd.call env now i s).fsa = s.fsa.postMaybe i (hd.posts env now i s) := by
  cases hd with
  | send =>
      simp only [OHandler.call, OHandler.posts, hSend, hSendPosts]
      split
      · split
        · rfl
        split
        · rfl
        generalize tcpSend env.tcp now i _ _ = sent
        obtain ⟨l, _ | n⟩ := sent
        · rfl
        · rfl
      · rfl
  | _ => rfl

end

/-! ## The server with the FSA in memory -/

/-- The globals of the server. -/
structure FsaServer where
  tcp : Tcp
  http : Slot → Hconn
  mem : Nat → Byte
  phase : Phase
  log : List HObs
  fsa : FsaMem

/-- The same with queues and tables read from memory. -/
def FsaServer.view (r : FsaServer) : Server := ⟨r.tcp, r.http, r.fsa.view, r.mem, r.phase, r.log⟩

/-- What was done to everything but the FSA's own globals. -/
def FsaServer.absorb (r : FsaServer) (s : Server) : FsaServer :=
  { r with tcp := s.tcp, http := s.http, mem := s.mem, phase := s.phase, log := s.log }

def FsaServer.post (r : FsaServer) (i : Slot) : Option OEvt → FsaServer
  | none => r
  | some e => { r with fsa := httpFsaPost r.fsa i.val e.code }

/-- `http_fsa_trans_table`: TRANS_NEXT and TRANS_HANDLER. -/
def httpFsaTransEntries : List (Nat × Option OHandler) :=
  [(1, some .install), (0, none), (0, none), (0, none),
   (0, none), (0, none), (0, none), (0, none),
   (0, none), (2, some .send), (0, none), (0, none),
   (0, none), (0, some .reset), (0, none), (0, none),
   (0, none), (2, some .send), (2, some .send), (3, some .noop),
   (0, none), (0, some .reset), (0, none), (0, none),
   (0, none), (0, none), (0, none), (0, none),
   (3, some .decide), (0, some .reset), (0, some .close), (0, some .keepalive)]

/-- `STEP_*`. -/
inductive StepResult where
  | ok | idle | noTrans
  deriving DecidableEq, Repr

section
variable (env : HttpEnv) (now : Tick)

/-- A handler, for the way of its event.  A way outside the tables is not posted. -/
def OHandler.dispatch (way : Nat) (r : FsaServer) (hd : OHandler) : FsaServer :=
  if h : way < tcpMaxConns then
    (r.absorb (hd.call env now ⟨way, h⟩ r.view)).post ⟨way, h⟩ (hd.posts env now ⟨way, h⟩ r.view)
  else r

def vmioEngineStep (r : FsaServer) : FsaServer × StepResult :=
  match vmioDequeuePriority r.fsa.hiQueue r.fsa.loQueue with
  | none => (r, .idle)
  | some (ev, hi, lo) =>
      let r := { r with fsa :=
        { r.fsa with hiQueue := hi, loQueue := lo, taken := ev :: r.fsa.taken } }
      if fsaNEvents ≤ ev.code.toNat then (r, .noTrans)
      else if fsaNStates ≤ r.fsa.engState.toNat then (r, .noTrans)
      else
        let entry := httpFsaTransEntries.getD
          (r.fsa.engState.toNat * fsaNEvents + ev.code.toNat) (0, none)
        match entry.2 with
        | none => (r, .noTrans)
        | some hd =>
            let r := { r with fsa := { r.fsa with engState := BitVec.ofNat 32 entry.1 } }
            (hd.dispatch env now ev.way.toNat r, .ok)

def FsaMem.writeBack (m : FsaMem) (way : Nat) : FsaMem :=
  { m with ostate := Function.update m.ostate way (m.engState.setWidth 8) }

/-- `http_fsa_step` on the globals in memory. -/
def fsaStep (r : FsaServer) : FsaServer × StepResult :=
  match r.fsa.peek with
  | none => vmioEngineStep env now r
  | some ev =>
      let way := ev.way.toNat
      if way < tcpMaxConns then
        let m := { r.fsa.clearBit way ev.code.toNat with
          engState := (r.fsa.ostate way).setWidth 32 }
        match vmioEngineStep env now { r with fsa := m } with
        | (r', .ok) => ({ r' with fsa := r'.fsa.writeBack way }, .ok)
        | out => out
      else vmioEngineStep env now r

end

/-- One step of `net_loop`, the FSA in memory. -/
def fsaServerStep (env : HttpEnv) (r : FsaServer) (inp : Input) : Option FsaServer :=
  match r.phase, inp with
  | .slots k, .slot start now out =>
      if h : k < tcpMaxConns then
        let i : Slot := ⟨k, h⟩
        let r' := (r.absorb (visitSlot env i r.view start now out)).post i
          (visitPosts env i r.view start now)
        some { r' with phase := if k + 1 < tcpMaxConns then .slots (k + 1) else .events 0 }
      else none
  | .events k, .event =>
      if h : k < tcpMaxConns then
        let r' := r.post ⟨k, h⟩ (tcpEventPosts ⟨k, h⟩ r.view)
        some { r' with phase := if k + 1 < tcpMaxConns then .events (k + 1) else .drain }
      else none
  | .drain, .drain now =>
      match fsaStep env now r with
      | (r', .idle) => some { r' with phase := .recv }
      | (r', _) => some r'
  | _, _ => (serverStep env r.view inp).map r.absorb

/-- The state in which `net_loop` starts; the slots of the rings hold anything. -/
def fsaServerInit (env : HttpEnv) (cap : PoolCap) (now : Tick) (mem : Nat → Byte)
    (hiSlots loSlots : Nat → VmioEvent) : FsaServer :=
  let s := serverInit env cap now mem
  ⟨s.tcp, s.http, s.mem, s.phase, s.log, httpFsaInit hiSlots loSlots⟩

/-! ## The books -/

def FsaMem.queued (m : FsaMem) : List VmioEvent := m.hiQueue.contents ++ m.loQueue.contents

/-- The globals represent `q`, no post was refused, and what was posted was taken or is
queued. -/
structure FsaMem.Books (m : FsaMem) (q : Fsa) : Prop where
  rep : m.Rep q
  posts : ∀ p ∈ m.posts, p.2 = PostResult.enqueued
  kept : ∀ ev, (m.posts.map Prod.fst).count ev
    = m.taken.count ev + (encoded (q.hi ++ q.lo)).count ev

section
variable {m : FsaMem} {q q' : Fsa} {i : Slot} {e : OEvt}

theorem FsaMem.Rep.queued (h : m.Rep q) : m.queued = encoded (q.hi ++ q.lo) := by
  unfold FsaMem.queued encoded
  rw [h.hi.contents, h.lo.contents, List.map_append]
  rfl

theorem Fsa.Free.post_perm (hf : q.Free i) (hq : q.Ok) (e : OEvt) :
    ((q.post i e).hi ++ (q.post i e).lo).Perm ((i, e) :: (q.hi ++ q.lo)) := by
  rw [hf.post hq e]
  split
  · show ((q.hi ++ [(i, e)]) ++ q.lo).Perm _
    rw [List.append_assoc]
    exact List.perm_middle
  · show (q.hi ++ (q.lo ++ [(i, e)])).Perm _
    rw [← List.append_assoc]
    exact List.perm_append_singleton (i, e) (q.hi ++ q.lo)

theorem FsaMem.Books.post (h : m.Books q) (hq : q.Ok) (hf : q.Free i) (e : OEvt) :
    (httpFsaPost m i.val e.code).Books (q.post i e) := by
  obtain ⟨hrep, hposts, htaken⟩ := h.rep.post hq hf e
  refine ⟨hrep, fun p hp => ?_, fun ev => ?_⟩
  · rw [hposts] at hp
    rcases List.mem_cons.mp hp with rfl | hold
    · rfl
    · exact h.posts p hold
  · have hperm : (encoded ((q.post i e).hi ++ (q.post i e).lo)).Perm
        (eventOf i e :: encoded (q.hi ++ q.lo)) := (hf.post_perm hq e).map _
    rw [hposts, htaken, hperm.count_eq, List.map_cons, List.count_cons, List.count_cons, h.kept ev,
      Nat.add_assoc]

theorem FsaMem.Books.postMaybe {r : FsaServer} (h : r.fsa.Books q) (hq : q.Ok)
    {e : Option OEvt} (hf : e ≠ none → q.Free i) :
    (r.post i e).fsa.Books (q.postMaybe i e) := by
  cases e with
  | none => exact h
  | some e => exact h.post hq (hf (by simp)) e

theorem FsaMem.Books.take (h : m.Books q) (hnext : q.next = some (i, e, q')) :
    ∃ hi lo, vmioDequeuePriority m.hiQueue m.loQueue = some (eventOf i e, hi, lo) ∧
      FsaMem.Books { m.clearBit i.val e.code with
        hiQueue := hi, loQueue := lo, taken := eventOf i e :: m.taken } q' := by
  obtain ⟨_, hi, lo, hdeq, hrep⟩ := h.rep.take hnext
  refine ⟨hi, lo, hdeq, ⟨hrep.hi, hrep.lo, hrep.ostate, hrep.pending⟩, h.posts, fun ev => ?_⟩
  have hqueued : encoded (q.hi ++ q.lo) = eventOf i e :: encoded (q'.hi ++ q'.lo) := by
    rw [Fsa.next_queued hnext]
    rfl
  have hold := h.kept ev
  rw [hqueued, List.count_cons] at hold
  show (m.posts.map Prod.fst).count ev
    = (eventOf i e :: m.taken).count ev + (encoded (q'.hi ++ q'.lo)).count ev
  rw [hold, List.count_cons]
  omega

end

/-! ## The refinement -/

/-- The server in memory is this server, and its books are in order. -/
structure Sim (r : FsaServer) (s : Server) : Prop where
  books : r.fsa.Books s.fsa
  view : r.view = s

theorem httpFsaTransEntries_get (o : OState) (e : OEvt) :
    httpFsaTransEntries.getD (o.code * fsaNEvents + e.code) (0, none)
      = match httpFsaTransTable o e with
        | some (o', hd) => (o'.code, some hd)
        | none => (0, none) := by
  cases o <;> cases e <;> rfl

theorem OState.code_lt (o : OState) : o.code < fsaNStates := by cases o <;> decide

theorem httpFsaPost_engState (m : FsaMem) (way code : Nat) :
    (httpFsaPost m way code).engState = m.engState := by
  unfold httpFsaPost
  dsimp only
  split
  · rfl
  split
  · rfl
  split
  · split <;> rfl
  · split <;> rfl

section
variable {env : HttpEnv} {now : Tick} {r r' : FsaServer} {s s' : Server} {i : Slot}

theorem Sim.absorb_post (h : Sim r s) (hq : s.fsa.Ok) {e : Option OEvt}
    (hfsa : s'.fsa = s.fsa.postMaybe i e) (hf : e ≠ none → s.fsa.Free i) :
    Sim ((r.absorb s').post i e) s' := by
  have hbooks : ((r.absorb s').post i e).fsa.Books s'.fsa := by
    rw [hfsa]
    exact FsaMem.Books.postMaybe (r := r.absorb s') h.books hq hf
  refine ⟨hbooks, ?_⟩
  unfold FsaServer.view
  rw [hbooks.rep.view]
  cases e <;> rfl

theorem Sim.phase (h : Sim r s) (p : Phase) : Sim { r with phase := p } { s with phase := p } := by
  refine ⟨h.books, ?_⟩
  rw [← h.view]
  rfl

theorem Sim.setFsa (h : Sim r s) {m : FsaMem} {q : Fsa} (hb : m.Books q) :
    Sim { r with fsa := m } { s with fsa := q } := by
  refine ⟨hb, ?_⟩
  rw [← h.view]
  unfold FsaServer.view
  dsimp only
  rw [hb.rep.view]

theorem Sim.dispatch (h : Sim r s) (hq : s.fsa.Ok) (hf : s.fsa.Free i) (env : HttpEnv)
    (now : Tick) (hd : OHandler) :
    Sim (hd.dispatch env now i.val r) (hd.call env now i s) ∧
      (hd.dispatch env now i.val r).fsa.engState = r.fsa.engState := by
  unfold OHandler.dispatch
  rw [dif_pos i.isLt, h.view]
  refine ⟨h.absorb_post hq (OHandler.call_posts env now i s hd) fun _ => hf, ?_⟩
  cases hd.posts env now i s with
  | none => rfl
  | some e => exact httpFsaPost_engState _ _ _

theorem FsaMem.Books.writeBack {m : FsaMem} {q : Fsa} {o : OState} (h : m.Books q)
    (heng : m.engState = BitVec.ofNat 32 o.code) : (m.writeBack i.val).Books (q.setState i o) := by
  refine ⟨⟨h.rep.hi, h.rep.lo, fun j => ?_, h.rep.pending⟩, h.posts, h.kept⟩
  unfold FsaMem.writeBack
  dsimp only
  by_cases hj : j = i
  · subst hj
    rw [Function.update_self, Fsa.setState_self, heng]
    cases o <;> rfl
  · have hval : j.val ≠ i.val := fun hv => hj (Fin.ext hv)
    rw [Function.update_of_ne hval, Fsa.setState_of_ne i q o hj]
    exact h.rep.ostate j

theorem FsaMem.Rep.engState {m : FsaMem} {q : Fsa} (h : m.Rep q) (i : Slot) :
    ((m.ostate i.val).setWidth 32).toNat = (q.ostate i).code := by
  rw [h.ostate]
  cases q.ostate i <;> rfl

/-- **`http_fsa_step`**, for an event whose way has no other. -/
theorem Sim.fsaStep (h : Sim r s) (hq : s.fsa.Ok)
    (hfree : ∀ i e q, s.fsa.next = some (i, e, q) → q.Free i) (env : HttpEnv) (now : Tick) :
    (httpFsaStep env now s = none → fsaStep env now r = (r, .idle)) ∧
    ∀ s', httpFsaStep env now s = some s' →
      ∃ r' res, fsaStep env now r = (r', res) ∧ res ≠ .idle ∧ Sim r' s' := by
  cases hnext : s.fsa.next with
  | none =>
      obtain ⟨hpeek, hdeq⟩ := h.books.rep.idle hnext
      have hstep : httpFsaStep env now s = none := by simp [httpFsaStep, hnext]
      refine ⟨fun _ => ?_, fun s' hs' => ?_⟩
      · unfold WsPi5.fsaStep vmioEngineStep
        rw [hpeek]
        dsimp only
        rw [hdeq]
      · rw [hstep] at hs'
        cases hs'
  | some p =>
      obtain ⟨i, e, q⟩ := p
      refine ⟨fun hnone => ?_, fun s' hs' => ?_⟩
      · have hempty := httpFsaStep_none hnone
        have hqueued := Fsa.next_queued hnext
        rw [hempty.1, hempty.2] at hqueued
        cases hqueued
      · have hpeek := (h.books.rep.take hnext).1
        obtain ⟨hi, lo, hdeq, hbooks⟩ := h.books.take hnext
        have hway := eventOf_way i e
        have hcode := eventOf_code i e
        have hstate := h.books.rep.engState i
        -- the engine, with the way's own state
        obtain ⟨m, hm⟩ : ∃ m : FsaMem, m = { r.fsa.clearBit i.val e.code with
            engState := (r.fsa.ostate i.val).setWidth 32 } := ⟨_, rfl⟩
        have hdeq' : vmioDequeuePriority m.hiQueue m.loQueue = some (eventOf i e, hi, lo) := by
          rw [hm]
          exact hdeq
        have heng : m.engState.toNat = (s.fsa.ostate i).code := by
          rw [hm]
          exact hstate
        have hcodes : ¬ fsaNEvents ≤ (eventOf i e).code.toNat ∧
            ¬ fsaNStates ≤ m.engState.toNat := by
          rw [hcode, heng]
          exact ⟨Nat.not_le.mpr e.code_lt, Nat.not_le.mpr (OState.code_lt _)⟩
        have hentry := httpFsaTransEntries_get (s.fsa.ostate i) e
        have hstepped : ∀ x : BitVec 32, Sim
            { r with fsa := { m with
              hiQueue := hi, loQueue := lo, taken := eventOf i e :: m.taken, engState := x } }
            { s with fsa := q } := by
          intro x
          rw [hm]
          exact h.setFsa ⟨⟨hbooks.rep.hi, hbooks.rep.lo, hbooks.rep.ostate, hbooks.rep.pending⟩,
            hbooks.posts, hbooks.kept⟩
        have hcase := httpFsaStep_taken hs' hnext
        unfold WsPi5.fsaStep
        rw [hpeek]
        dsimp only
        rw [hway, if_pos i.isLt, hcode, ← hm]
        unfold vmioEngineStep
        dsimp only
        rw [hdeq']
        dsimp only
        rw [if_neg hcodes.1, if_neg hcodes.2, heng, hcode, hentry, hway]
        obtain ⟨htab, rfl⟩ | ⟨o, hd, htab, rfl⟩ := hcase
        · rw [htab]
          dsimp only
          exact ⟨_, _, rfl, by simp, hstepped m.engState⟩
        · rw [htab]
          dsimp only
          obtain ⟨hsim, hkeep⟩ := (hstepped (BitVec.ofNat 32 o.code)).dispatch (hq.next hnext) (hfree _ _ _ hnext)
            env now hd
          refine ⟨_, _, rfl, by simp, ?_⟩
          exact hsim.setFsa (hsim.books.writeBack hkeep)

/-! ## One event a way -/

end

/-- No way has two events; and a way that the scan has not come to has no other than
E_RESP_READY. -/
structure OneEvent (s : Server) : Prop where
  once : ((s.fsa.hi ++ s.fsa.lo).map Prod.fst).Nodup
  ahead : ∀ k (i : Slot) e, s.phase = .events k → k ≤ i.val → (i, e) ∈ s.fsa.hi ++ s.fsa.lo →
    e = .respReady

section
variable {env : HttpEnv} {now : Tick} {s s' : Server} {i : Slot} {q : Fsa}

/-- At most 126 ways other than this one and the listening socket's have an event. -/
theorem free_of_silent (honce : ((q.hi ++ q.lo).map Prod.fst).Nodup)
    (hlisten : ∀ e, (0, e) ∉ q.hi ∧ (0, e) ∉ q.lo) (hi0 : i ≠ 0)
    (hnew : ∀ e, (i, e) ∉ q.hi ∧ (i, e) ∉ q.lo) : q.Free i := by
  refine ⟨hnew, ?_⟩
  have hout : ∀ {j : Slot}, (∀ e, (j, e) ∉ q.hi ∧ (j, e) ∉ q.lo) →
      j ∉ (q.hi ++ q.lo).map Prod.fst := by
    intro j hj hmem
    obtain ⟨⟨_, e⟩, hmem', rfl⟩ := List.mem_map.mp hmem
    rcases List.mem_append.mp hmem' with h | h
    · exact (hj e).1 h
    · exact (hj e).2 h
  have hall : (0 :: i :: (q.hi ++ q.lo).map Prod.fst).Nodup := by
    refine List.nodup_cons.mpr ⟨fun hmem => ?_, List.nodup_cons.mpr ⟨hout hnew, honce⟩⟩
    rcases List.mem_cons.mp hmem with h | h
    · exact hi0 h.symm
    · exact hout hlisten h
  have hcard := hall.length_le_card
  simp only [List.length_cons, List.length_map, List.length_append, Fintype.card_fin,
    tcpMaxConns] at hcard
  simp only [fsaQueueRoom]
  omega

theorem OneEvent.visit_free (h : OneEvent s) (hw : WaysOk s) (hph : s.phase = .slots i.val)
    {start : Tick} (hpost : visitPosts env i s start now ≠ none) : s.fsa.Free i := by
  have hi := hw.ways i
  refine free_of_silent h.once hw.silent.queued ?_ fun e =>
    ⟨hi.unqueued hph e, hi.lower _ e hph⟩
  rintro rfl
  cases hpoll : pollSlot env (s.visit 0 start now) (s.http 0).req with
  | stay _ | close _ => simp [visitPosts, hpoll] at hpost
  | answer r page =>
      have hest : (s.tcp.conn 0).state = .established := (pollSlot_answer hpoll).1
      rw [hw.silent.listening.state] at hest
      cases hest

theorem OneEvent.event_free (h : OneEvent s) (hw : WaysOk s) (hph : s.phase = .events i.val)
    (hpost : tcpEventPosts i s ≠ none) : s.fsa.Free i := by
  have hbusy : s.fsa.ostate i ≠ .idle := by
    intro hidle
    simp [tcpEventPosts, hidle] at hpost
  -- E_RESP_READY is queued for an idle way only
  have hnew : ∀ e, (i, e) ∉ s.fsa.hi ++ s.fsa.lo := by
    intro e hmem
    have he := h.ahead i.val i e hph (Nat.le_refl _) hmem
    subst he
    rcases List.mem_append.mp hmem with hhi | hlo
    · exact hbusy ((hw.ways i).ready hhi).1
    · cases hw.queues.ok.lower _ hlo
  refine free_of_silent h.once hw.silent.queued ?_ fun e =>
    ⟨fun hmem => hnew e (List.mem_append_left _ hmem),
      fun hmem => hnew e (List.mem_append_right _ hmem)⟩
  rintro rfl
  exact hbusy hw.silent.ostate

theorem OneEvent.drain_free (h : OneEvent s) (hw : WaysOk s) {e : OEvt}
    (hnext : s.fsa.next = some (i, e, q)) : q.Free i := by
  have hqueued := Fsa.next_queued hnext
  have honce := h.once
  rw [hqueued, List.map_cons] at honce
  obtain ⟨hout, hrest⟩ := List.nodup_cons.mp honce
  have hmem : ∀ {j : Slot} {e'}, (j, e') ∈ q.hi ∨ (j, e') ∈ q.lo →
      (j, e') ∈ s.fsa.hi ++ s.fsa.lo := by
    intro j e' hj
    rw [hqueued]
    exact List.mem_cons_of_mem _ (List.mem_append.mpr hj)
  have hlisten : ∀ e', (0, e') ∉ s.fsa.hi ++ s.fsa.lo := by
    intro e' hj
    rcases List.mem_append.mp hj with hj | hj
    · exact (hw.silent.queued e').1 hj
    · exact (hw.silent.queued e').2 hj
  refine free_of_silent hrest
    (fun e' => ⟨fun hj => hlisten e' (hmem (.inl hj)), fun hj => hlisten e' (hmem (.inr hj))⟩) ?_
    fun e' => ⟨fun hj => ?_, fun hj => ?_⟩
  · rintro rfl
    refine hlisten e ?_
    rw [hqueued]
    exact List.mem_cons_self
  · exact hout (List.mem_map.mpr ⟨(i, e'), List.mem_append_left _ hj, rfl⟩)
  · exact hout (List.mem_map.mpr ⟨(i, e'), List.mem_append_right _ hj, rfl⟩)

theorem once_post (hq : q.Ok) (honce : ((q.hi ++ q.lo).map Prod.fst).Nodup)
    (e : Option OEvt) (hf : e ≠ none → q.Free i) :
    (((q.postMaybe i e).hi ++ (q.postMaybe i e).lo).map Prod.fst).Nodup := by
  cases e with
  | none => exact honce
  | some e =>
      have hfree := hf (by simp)
      refine (((hfree.post_perm hq e).map Prod.fst).nodup_iff).mpr ?_
      rw [List.map_cons]
      refine List.nodup_cons.mpr ⟨fun hmem => ?_, honce⟩
      obtain ⟨⟨j, e'⟩, hmem', rfl⟩ := List.mem_map.mp hmem
      rcases List.mem_append.mp hmem' with hj | hj
      · exact (hfree.silent e').1 hj
      · exact (hfree.silent e').2 hj

theorem mem_postMaybe {j : Slot} {e : Option OEvt} {e' : OEvt}
    (h : (j, e') ∈ (q.postMaybe i e).hi ++ (q.postMaybe i e).lo) :
    (j, e') ∈ q.hi ++ q.lo ∨ (j = i ∧ e = some e') := by
  cases e with
  | none => exact .inl h
  | some e =>
      rcases List.mem_append.mp h with h | h
      · rcases Fsa.mem_post_hi h with hold | ⟨rfl, rfl, _⟩
        · exact .inl (List.mem_append_left _ hold)
        · exact .inr ⟨rfl, rfl⟩
      · rcases Fsa.mem_post_lo h with hold | ⟨rfl, rfl, _⟩
        · exact .inl (List.mem_append_right _ hold)
        · exact .inr ⟨rfl, rfl⟩

theorem WaysOk.slots_ready (hw : WaysOk s) {k : Nat} (hph : s.phase = .slots k) {j : Slot}
    {e : OEvt} (h : (j, e) ∈ s.fsa.hi ++ s.fsa.lo) : e = .respReady := by
  rcases List.mem_append.mp h with h | h
  · have hallow := (hw.ways j).upper e h
    rw [hph] at hallow
    exact hallow.2
  · exact absurd h ((hw.ways j).lower k e hph)

theorem visitPosts_ready {start : Tick} {e : OEvt}
    (h : visitPosts env i s start now = some e) : e = .respReady := by
  unfold visitPosts at h
  split at h
  · cases h
    rfl
  · cases h

theorem OneEvent.of_empty (h : s.fsa.hi = [] ∧ s.fsa.lo = []) : OneEvent s := by
  refine ⟨by simp [h.1, h.2], fun k i e _ _ hmem => ?_⟩
  rw [h.1, h.2] at hmem
  cases hmem

theorem oneEvent_step {inp : Input} (h : OneEvent s) (hw : WaysOk s)
    (hst : serverStep env s inp = some s') : OneEvent s' := by
  have hw' := waysOk_step hw hst
  cases serverStep_act hst with
  | net hph _ _ _ _ _ => exact .of_empty (hw.queues.rest hph)
  | idle hph => exact .of_empty (hw.queues.rest (by rw [hph]; rfl))
  | date hph => exact .of_empty (hw.queues.rest (by rw [hph]; rfl))
  | @visit j start now out hph =>
      have hfsa := visitSlot_posts env now j s start out
      refine ⟨?_, fun k i e _ _ hmem => ?_⟩
      · dsimp only
        rw [hfsa]
        exact once_post hw.queues.ok h.once _ fun hpost => h.visit_free hw hph hpost
      · dsimp only at hmem
        rw [hfsa] at hmem
        rcases mem_postMaybe hmem with hold | ⟨_, hnew⟩
        · exact hw.slots_ready hph hold
        · exact visitPosts_ready hnew
  | @event j hph =>
      have hfsa : (httpFsaPollTcpEvents j s).fsa = s.fsa.postMaybe j (tcpEventPosts j s) := by
        rw [tcpEvent_posts]
      refine ⟨?_, fun k i e hk hle hmem => ?_⟩
      · dsimp only
        rw [hfsa]
        exact once_post hw.queues.ok h.once _ fun hpost => h.event_free hw hph hpost
      · dsimp only at hk hmem
        rw [hfsa] at hmem
        have hnext : k = j.val + 1 := by
          split at hk
          · exact (Phase.events.inj hk).symm
          · cases hk
        rcases mem_postMaybe hmem with hold | ⟨rfl, _⟩
        · exact h.ahead j.val i e hph (by omega) hold
        · omega
  | @fsa now s' hph hstep =>
      have hph' : s'.phase = .drain := (httpFsaStep_phase hstep).trans hph
      refine ⟨?_, fun k i e hk _ _ => by rw [hph'] at hk; cases hk⟩
      obtain ⟨i, e, q, hnext, hcase⟩ := httpFsaStep_cases hstep
      have honce := h.once
      rw [Fsa.next_queued hnext, List.map_cons] at honce
      have hrest := (List.nodup_cons.mp honce).2
      obtain ⟨_, rfl⟩ | ⟨o, hd, _, rfl⟩ := hcase
      · exact hrest
      · dsimp only
        rw [Fsa.setState_hi, Fsa.setState_lo, OHandler.call_posts]
        exact once_post (hw.queues.ok.next hnext) hrest _ fun _ => h.drain_free hw hnext
  | drained _ hidle =>
      have hempty := httpFsaStep_none hidle
      exact .of_empty hempty

end

/-! ## Every run -/

/-- **The server in memory refines the server.** -/
theorem sim_step {env : HttpEnv} {r r' : FsaServer} {s : Server} {inp : Input} (h : Sim r s)
    (hw : WaysOk s) (hone : OneEvent s) (hst : fsaServerStep env r inp = some r') :
    ∃ s', serverStep env s inp = some s' ∧ Sim r' s' := by
  have hview := h.view
  subst hview
  unfold fsaServerStep at hst
  split at hst
  · rename_i k start now out hph
    split at hst
    next hk =>
      have hph' : r.view.phase = .slots k := hph
      have hsim := h.absorb_post hw.queues.ok
        (visitSlot_posts env now ⟨k, hk⟩ r.view start out)
        fun hpost => hone.visit_free hw hph' hpost
      cases hst
      refine ⟨_, ?_, hsim.phase _⟩
      simp only [serverStep, hph', dif_pos hk]
    next => cases hst
  · rename_i k hph
    split at hst
    next hk =>
      have hph' : r.view.phase = .events k := hph
      have hfsa : (httpFsaPollTcpEvents ⟨k, hk⟩ r.view).fsa
          = r.view.fsa.postMaybe ⟨k, hk⟩ (tcpEventPosts ⟨k, hk⟩ r.view) := by
        rw [tcpEvent_posts]
      have habsorb : r.absorb (httpFsaPollTcpEvents ⟨k, hk⟩ r.view) = r := by
        rw [tcpEvent_posts]
        rfl
      have hsim := h.absorb_post hw.queues.ok hfsa fun hpost => hone.event_free hw hph' hpost
      rw [habsorb] at hsim
      cases hst
      refine ⟨_, ?_, hsim.phase _⟩
      simp only [serverStep, hph', dif_pos hk]
    next => cases hst
  · rename_i now hph
    have hph' : r.view.phase = .drain := hph
    obtain ⟨hidle, hstep⟩ := h.fsaStep hw.queues.ok
      (fun _ _ _ hnext => hone.drain_free hw hnext) env now
    cases hs : httpFsaStep env now r.view with
    | none =>
        rw [hidle hs] at hst
        cases hst
        refine ⟨_, ?_, h.phase .recv⟩
        simp only [serverStep, hph', hs]
    | some s' =>
        obtain ⟨r₁, res, hr₁, hres, hsim⟩ := hstep s' hs
        rw [hr₁] at hst
        have heq : r₁ = r' := by
          cases res with
          | idle => exact absurd rfl hres
          | ok | noTrans => exact Option.some.inj hst
        subst heq
        refine ⟨s', ?_, hsim⟩
        simp only [serverStep, hph', hs]
  · rename_i hslots hevents hdrain
    obtain ⟨s', hs', rfl⟩ := Option.map_eq_some_iff.mp hst
    refine ⟨s', hs', ?_⟩
    -- what is left does not touch the FSA
    have hfsa : s'.fsa = r.fsa.view := by
      cases serverStep_act hs' with
      | net _ _ _ _ _ _ => rfl
      | idle _ => rfl
      | date _ => rfl
      | @visit j start now out hph => exact (hslots j.val start now out hph rfl).elim
      | @event j hph => exact (hevents j.val hph rfl).elim
      | @fsa now _ hph _ => exact (hdrain now hph rfl).elim
      | @drained now hph _ => exact (hdrain now hph rfl).elim
    refine ⟨?_, ?_⟩
    · rw [hfsa]
      exact h.books
    · show (⟨s'.tcp, s'.http, r.fsa.view, s'.mem, s'.phase, s'.log⟩ : Server) = s'
      rw [← hfsa]

/-- What holds of the FSA's globals. -/
structure EventAccount (m : FsaMem) : Prop where
  pending : ∀ (i : Slot) (e : OEvt),
    (m.evtPending i.val).getLsbD e.code = true ↔ m.queued.count (eventOf i e) = 1
  once : ∀ ev, m.queued.count ev ≤ 1
  peeked : m.peek = (vmioDequeuePriority m.hiQueue m.loQueue).map Prod.fst
  posts : ∀ p ∈ m.posts, p.2 = PostResult.enqueued
  kept : ∀ ev, (m.posts.map Prod.fst).count ev = m.taken.count ev + m.queued.count ev

theorem eventOf_inj {i j : Slot} {e e' : OEvt} (h : eventOf i e = eventOf j e') :
    (i, e) = (j, e') := by
  rw [← eventOf_decode i e, h, eventOf_decode]

theorem FsaMem.Books.account {m : FsaMem} {q : Fsa} (h : m.Books q) (hq : q.Ok)
    (honce : ((q.hi ++ q.lo).map Prod.fst).Nodup) : EventAccount m := by
  have hqueued := h.rep.queued
  have hnodup : m.queued.Nodup := by
    rw [hqueued]
    refine List.Nodup.map_on (fun p _ p' _ heq => eventOf_inj heq) ?_
    exact List.Nodup.of_map Prod.fst honce
  refine ⟨fun i e => ?_, fun ev => List.nodup_iff_count_le_one.mp hnodup ev, ?_, h.posts, ?_⟩
  · rw [h.rep.pending, hq.pending i e, ← List.mem_append]
    have hmem : (i, e) ∈ q.hi ++ q.lo ↔ eventOf i e ∈ m.queued := by
      rw [hqueued]
      refine ⟨fun hm => List.mem_map.mpr ⟨(i, e), hm, rfl⟩, fun hm => ?_⟩
      obtain ⟨⟨j, e'⟩, hm', heq⟩ := List.mem_map.mp hm
      rw [← eventOf_inj heq]
      exact hm'
    rw [hmem]
    refine ⟨List.count_eq_one_of_mem hnodup, fun hcount => List.count_pos_iff.mp ?_⟩
    rw [hcount]
    exact Nat.one_pos
  · cases hnext : q.next with
    | none =>
        obtain ⟨hpeek, hdeq⟩ := h.rep.idle hnext
        rw [hpeek, hdeq]
        rfl
    | some p =>
        obtain ⟨hpeek, hi, lo, hdeq, _⟩ := h.rep.take hnext
        rw [hpeek, hdeq]
        rfl
  · rw [hqueued]
    exact h.kept

/-- The step looks up the event that was peeked under the state of the event's own way, and
stores the state of that way only. -/
def dispatchesOwn (env : HttpEnv) (r : FsaServer) : Prop :=
  ∀ (now : Tick) (ev : VmioEvent), r.fsa.peek = some ev → ∃ (i : Slot) (e : OEvt),
    ev = eventOf i e ∧ ∀ j : Slot, OState.ofByte ((fsaStep env now r).1.fsa.ostate j.val)
      = if j = i then
          ((httpFsaTransTable (.ofByte (r.fsa.ostate i.val)) e).map Prod.fst).getD
            (.ofByte (r.fsa.ostate i.val))
        else .ofByte (r.fsa.ostate j.val)

theorem postMaybe_ostate (q : Fsa) (i : Slot) (e : Option OEvt) :
    (q.postMaybe i e).ostate = q.ostate := by
  cases e with
  | none => rfl
  | some e => exact Fsa.post_ostate i e q

theorem Sim.dispatchesOwn {env : HttpEnv} {r : FsaServer} {s : Server} (h : Sim r s)
    (hw : WaysOk s) (hone : OneEvent s) : dispatchesOwn env r := by
  intro now ev hpeek
  have hview := h.view
  have hstate : ∀ j : Slot, OState.ofByte (r.fsa.ostate j.val) = s.fsa.ostate j := by
    intro j
    rw [← hview]
    rfl
  cases hnext : s.fsa.next with
  | none =>
      rw [(h.books.rep.idle hnext).1] at hpeek
      cases hpeek
  | some p =>
      obtain ⟨i, e, q⟩ := p
      have hev := (h.books.rep.take hnext).1
      rw [hpeek] at hev
      refine ⟨i, e, Option.some.inj hev, fun j => ?_⟩
      cases hs : httpFsaStep env now s with
      | none =>
          have hempty := httpFsaStep_none hs
          have hqueued := Fsa.next_queued hnext
          rw [hempty.1, hempty.2] at hqueued
          cases hqueued
      | some s' =>
          obtain ⟨r', res, hr', _, hsim⟩ := (h.fsaStep hw.queues.ok
            (fun _ _ _ hn => hone.drain_free hw hn) env now).2 s' hs
          have hafter : OState.ofByte (r'.fsa.ostate j.val) = s'.fsa.ostate j := by
            rw [← hsim.view]
            rfl
          rw [hr', hafter, hstate, hstate]
          have host := (Fsa.next_some hnext).1
          obtain ⟨htab, rfl⟩ | ⟨o, hd, htab, rfl⟩ := httpFsaStep_taken hs hnext
          · rw [htab, host]
            split
            · rename_i hj
              rw [hj]
              rfl
            · rfl
          · rw [htab]
            dsimp only
            by_cases hj : j = i
            · rw [if_pos hj, hj, Fsa.setState_self]
              rfl
            · rw [if_neg hj, Fsa.setState_of_ne i _ o hj, OHandler.call_posts, postMaybe_ostate,
                host]

/-- **Event accounting.**  In every reachable state: a pending bit is set exactly while its event
is queued, once; the event that `http_fsa_step` peeks is the one that is dequeued, and it is
dispatched on its own way's state; no post was ever refused, so every event posted was
dispatched or is queued; and between two polls none is queued. -/
theorem event_accounting {env : HttpEnv} {cap : PoolCap} {now : Tick} {mem : Nat → Byte}
    {hiSlots loSlots : Nat → VmioEvent} {r : FsaServer}
    (h : Run (fsaServerStep env) anyEvent (fsaServerInit env cap now mem hiSlots loSlots) r) :
    EventAccount r.fsa ∧ dispatchesOwn env r ∧
      (r.phase.between = true → r.fsa.queued = []) := by
  have hinv : ∃ s, Sim r s ∧ WaysOk s ∧ OneEvent s := by
    refine h.invariant (P := fun r => ∃ s, Sim r s ∧ WaysOk s ∧ OneEvent s) ?_ ?_
    · have hrep := httpFsaInit_rep hiSlots loSlots
      refine ⟨serverInit env cap now mem, ⟨⟨hrep, fun p hp => (by cases hp), fun ev => rfl⟩, ?_⟩,
        waysOk_init env cap now mem, .of_empty ⟨rfl, rfl⟩⟩
      unfold FsaServer.view fsaServerInit
      dsimp only
      rw [hrep.view]
      rfl
    · rintro t u inp ⟨s, hsim, hw, hone⟩ _ hst
      obtain ⟨s', hs', hsim'⟩ := sim_step hsim hw hone hst
      exact ⟨s', hsim', waysOk_step hw hs', oneEvent_step hone hw hs'⟩
  obtain ⟨s, hsim, hw, hone⟩ := hinv
  refine ⟨hsim.books.account hw.queues.ok hone.once, hsim.dispatchesOwn hw hone, fun hb => ?_⟩
  have hph : r.phase = s.phase := by
    rw [← hsim.view]
    rfl
  rw [hph] at hb
  have hrest := hw.queues.rest hb
  rw [hsim.books.rep.queued, hrest.1, hrest.2]
  rfl

/-- A peer joins and asks for the page; `http_poll` has come past its slot. -/
def demoEvents : List Input :=
  let wide (f : Frame) : Frame := { f with window := 1000 }
  [.frame 1 (wide { demoSyn with sport := 1000 }), .frame 1 (wide (demoFrom 1000 0 [])),
    .frame 1 (wide (demoFrom 1000 0 demoGet)), .idle, .timer 1, .timer 1, .timer 1, .timer 1,
    .date none, .slot 1 1 {}, .slot 1 1 {}]

def demoFsaServer : FsaServer :=
  fsaServerInit demoHttp 4 1 (fun k => UInt8.ofNat k) (fun _ => ⟨0, 0⟩) fun _ => ⟨0, 0⟩

/-- E_RESP_READY of way 1 is queued, and its bit is set. -/
theorem event_accounting_demo : ∃ r : FsaServer, r.fsa.queued = [eventOf 1 .respReady] ∧
    (r.fsa.evtPending 1).getLsbD 0 = true := by
  obtain ⟨r, hrun, hqueued⟩ := exists_run (fsaServerStep demoHttp) anyEvent demoFsaServer
    (Q := fun r => r.fsa.queued = [eventOf 1 .respReady]) demoEvents (feedOk_any _ _)
    (by decide +kernel)
  refine ⟨r, hqueued, ((event_accounting hrun).1.pending 1 .respReady).mpr ?_⟩
  rw [hqueued]
  rfl

end WsPi5
