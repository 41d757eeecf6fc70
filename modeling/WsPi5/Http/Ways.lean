/-
# `WsPi5.Http.Ways` — what a step of the server does to one way

A way is a slot of the three tables: connection, HTTP record, output state.  A visit, an
event or a handler works on one way; here is what it leaves alone at the others (`Beside`),
and how a step of the output FSA is taken apart (`httpFsaStep_cases`).
-/
import WsPi5.Http.NetLoop

namespace WsPi5

open Lib

/-! ## The start -/

theorem serverInit_conn (env : HttpEnv) (cap : PoolCap) (now : Tick) (mem : Nat → Byte) :
    (serverInit env cap now mem).tcp.conn =
      Function.update (fun _ => {}) 0 { state := .listen, lport := rev16 80 } := by
  refine (tcpStartReaper_conn env.tcp now _).1.trans ?_
  rfl

theorem serverInit_log (env : HttpEnv) (cap : PoolCap) (now : Tick) (mem : Nat → Byte) :
    (serverInit env cap now mem).tcp.log = [] :=
  (tcpStartReaper_conn env.tcp now _).2

/-! ## Phases -/

/-- `http_poll` from slot `k` on. -/
def Phase.slotsFrom (k : Nat) : Phase := if k < tcpMaxConns then .slots k else .events 0

/-- `http_fsa_poll_tcp_events` from way `k` on. -/
def Phase.eventsFrom (k : Nat) : Phase := if k < tcpMaxConns then .events k else .drain

/-! ## Fields -/

section
variable (s : Server) (i : Slot) (e : OEvt) (o : HObs) (r : Req)

@[simp] theorem Server.post_tcp : (s.post i e).tcp = s.tcp := rfl
@[simp] theorem Server.post_http : (s.post i e).http = s.http := rfl
@[simp] theorem Server.post_mem : (s.post i e).mem = s.mem := rfl
@[simp] theorem Server.post_phase : (s.post i e).phase = s.phase := rfl
@[simp] theorem Server.post_log : (s.post i e).log = s.log := rfl
@[simp] theorem Server.post_fsa : (s.post i e).fsa = s.fsa.post i e := rfl

@[simp] theorem Server.observe_tcp : (s.observe o).tcp = s.tcp := rfl
@[simp] theorem Server.observe_http : (s.observe o).http = s.http := rfl
@[simp] theorem Server.observe_mem : (s.observe o).mem = s.mem := rfl
@[simp] theorem Server.observe_phase : (s.observe o).phase = s.phase := rfl
@[simp] theorem Server.observe_log : (s.observe o).log = o :: s.log := rfl
@[simp] theorem Server.observe_fsa : (s.observe o).fsa = s.fsa := rfl

@[simp] theorem Server.setReq_tcp : (s.setReq i r).tcp = s.tcp := rfl
@[simp] theorem Server.setReq_mem : (s.setReq i r).mem = s.mem := rfl
@[simp] theorem Server.setReq_phase : (s.setReq i r).phase = s.phase := rfl
@[simp] theorem Server.setReq_log : (s.setReq i r).log = s.log := rfl
@[simp] theorem Server.setReq_fsa : (s.setReq i r).fsa = s.fsa := rfl

@[simp] theorem Server.setReq_self : (s.setReq i r).http i = { s.http i with req := r } := by
  simp [setReq]

@[simp] theorem Server.setReq_of_ne {j : Slot} (h : j ≠ i) :
    (s.setReq i r).http j = s.http j := by
  simp [setReq, h]

@[simp] theorem Fsa.post_ostate (q : Fsa) : (q.post i e).ostate = q.ostate := by
  unfold Fsa.post
  split
  · rfl
  split
  · split <;> rfl
  · split <;> rfl

@[simp] theorem Fsa.setState_hi (q : Fsa) (st : OState) : (q.setState i st).hi = q.hi := rfl
@[simp] theorem Fsa.setState_lo (q : Fsa) (st : OState) : (q.setState i st).lo = q.lo := rfl
@[simp] theorem Fsa.setState_pending (q : Fsa) (st : OState) :
    (q.setState i st).pending = q.pending := rfl

@[simp] theorem Fsa.setState_self (q : Fsa) (st : OState) : (q.setState i st).ostate i = st := by
  simp [setState]

@[simp] theorem Fsa.setState_of_ne (q : Fsa) (st : OState) {j : Slot} (h : j ≠ i) :
    (q.setState i st).ostate j = q.ostate j := by
  simp [setState, Function.update_of_ne h]

end

/-! ## The queues -/

section
variable {q q' : Fsa} {i j : Slot} {e e' : OEvt}

theorem Fsa.post_hi (q : Fsa) (i : Slot) (e : OEvt) :
    (q.post i e).hi = q.hi ∨ (e.hi = true ∧ (q.post i e).hi = q.hi ++ [(i, e)]) := by
  unfold Fsa.post
  split
  · exact .inl rfl
  split
  next he =>
    split
    · exact .inr ⟨he, rfl⟩
    · exact .inl rfl
  next => split <;> exact .inl rfl

theorem Fsa.post_lo (q : Fsa) (i : Slot) (e : OEvt) :
    (q.post i e).lo = q.lo ∨ (e.hi = false ∧ (q.post i e).lo = q.lo ++ [(i, e)]) := by
  unfold Fsa.post
  split
  · exact .inl rfl
  split
  · split <;> exact .inl rfl
  next he =>
    split
    · exact .inr ⟨by simpa using he, rfl⟩
    · exact .inl rfl

theorem Fsa.mem_post_hi (h : (j, e') ∈ (q.post i e).hi) :
    (j, e') ∈ q.hi ∨ (j = i ∧ e' = e ∧ e.hi = true) := by
  obtain hsame | ⟨he, hnew⟩ := q.post_hi i e
  · exact .inl (hsame ▸ h)
  · rw [hnew] at h
    rcases List.mem_append.mp h with h | h
    · exact .inl h
    · simp only [List.mem_singleton, Prod.mk.injEq] at h
      exact .inr ⟨h.1, h.2, he⟩

theorem Fsa.mem_post_lo (h : (j, e') ∈ (q.post i e).lo) :
    (j, e') ∈ q.lo ∨ (j = i ∧ e' = e ∧ e.hi = false) := by
  obtain hsame | ⟨he, hnew⟩ := q.post_lo i e
  · exact .inl (hsame ▸ h)
  · rw [hnew] at h
    rcases List.mem_append.mp h with h | h
    · exact .inl h
    · simp only [List.mem_singleton, Prod.mk.injEq] at h
      exact .inr ⟨h.1, h.2, he⟩

/-- The next event is the head of the upper queue, or of the lower one if that is empty. -/
theorem Fsa.next_some (h : q.next = some (i, e, q')) :
    q'.ostate = q.ostate ∧
      ((q.hi = (i, e) :: q'.hi ∧ q'.lo = q.lo) ∨
        (q.hi = [] ∧ q'.hi = [] ∧ q.lo = (i, e) :: q'.lo)) := by
  unfold Fsa.next at h
  split at h
  next hhi =>
    cases h
    exact ⟨rfl, .inl ⟨hhi, rfl⟩⟩
  next hhi hlo =>
    cases h
    exact ⟨rfl, .inr ⟨hhi, hhi, hlo⟩⟩
  next => cases h

theorem Fsa.next_none (h : q.next = none) : q.hi = [] ∧ q.lo = [] := by
  unfold Fsa.next at h
  split at h
  · cases h
  · cases h
  next hhi hlo => exact ⟨hhi, hlo⟩

end

/-! ## One step of the output FSA -/

/-- **The step taken apart**, with the event it takes: the table ignores it, or there is a handler
and a new state. -/
theorem httpFsaStep_taken {env : HttpEnv} {now : Tick} {s s' : Server} {i : Slot} {e : OEvt}
    {q : Fsa} (h : httpFsaStep env now s = some s') (hnext : s.fsa.next = some (i, e, q)) :
    (httpFsaTransTable (s.fsa.ostate i) e = none ∧ s' = { s with fsa := q }) ∨
      ∃ o hd, httpFsaTransTable (s.fsa.ostate i) e = some (o, hd) ∧
        s' = (let m := hd.call env now i { s with fsa := q }
          { m with fsa := m.fsa.setState i o }) := by
  have host := (Fsa.next_some hnext).1
  rw [httpFsaStep, hnext] at h
  dsimp only at h
  rw [host] at h
  split at h
  next htab =>
    cases h
    exact .inl ⟨htab, rfl⟩
  next o hd htab =>
    cases h
    exact .inr ⟨o, hd, htab, rfl⟩

theorem httpFsaStep_cases {env : HttpEnv} {now : Tick} {s s' : Server}
    (h : httpFsaStep env now s = some s') :
    ∃ i e q, s.fsa.next = some (i, e, q) ∧
      ((httpFsaTransTable (s.fsa.ostate i) e = none ∧ s' = { s with fsa := q }) ∨
        ∃ o hd, httpFsaTransTable (s.fsa.ostate i) e = some (o, hd) ∧
          s' = (let m := hd.call env now i { s with fsa := q }
            { m with fsa := m.fsa.setState i o })) := by
  cases hnext : s.fsa.next with
  | none =>
      rw [httpFsaStep, hnext] at h
      cases h
  | some p =>
      obtain ⟨i, e, q⟩ := p
      exact ⟨i, e, q, rfl, httpFsaStep_taken h hnext⟩

theorem httpFsaStep_none {env : HttpEnv} {now : Tick} {s : Server}
    (h : httpFsaStep env now s = none) : s.fsa.hi = [] ∧ s.fsa.lo = [] := by
  unfold httpFsaStep at h
  split at h
  next hnext => exact Fsa.next_none hnext
  next =>
    dsimp only at h
    split at h <;> cases h

/-- **What `http_fsa_poll_tcp_events` does at a way.** -/
theorem pollEvent_cases (i : Slot) (s : Server) :
    httpFsaPollTcpEvents i s = s ∨
    ((s.tcp.conn i).state = .established ∧ ∃ e, (e = .allDrained ∨ e = .winOpen) ∧
      httpFsaPollTcpEvents i s = s.post i e) ∨
    (s.fsa.ostate i ≠ .idle ∧ (s.tcp.conn i).state ≠ .established ∧
      httpFsaPollTcpEvents i s = s.post i .tcpClosed) := by
  unfold httpFsaPollTcpEvents
  dsimp only
  split
  · exact .inl rfl
  next hbusy =>
    split
    next hest =>
      split
      · split
        · exact .inr (.inl ⟨hest, .allDrained, .inl rfl, rfl⟩)
        · exact .inl rfl
      split
      · exact .inl rfl
      · exact .inr (.inl ⟨hest, .winOpen, .inr rfl, rfl⟩)
    next hest => exact .inr (.inr ⟨hbusy, hest, rfl⟩)

theorem pollEvent_closed {i : Slot} {s : Server} (ho : s.fsa.ostate i ≠ .idle)
    (hest : (s.tcp.conn i).state ≠ .established) :
    httpFsaPollTcpEvents i s = s.post i .tcpClosed := by
  unfold httpFsaPollTcpEvents
  dsimp only
  split
  next hidle => exact absurd hidle ho
  next => rw [if_neg hest]

/-! ## The current connection -/

theorem epoch_again {i : Slot} (o : Obs) (log : List Obs) (h : o.slot = i → o.again = true) :
    epoch i (o :: log) = epoch i log := by
  cases o with
  | opened j _ _ =>
      by_cases hj : j = i
      · exact absurd (h hj) (by simp [Obs.again])
      · simp [epoch, hj]
  | _ => rfl

theorem onlyAgain.epoch {i : Slot} {log log' : List Obs} (h : onlyAgain i log log') :
    epoch i log' = epoch i log :=
  h.read epoch_again

/-- The payloads that `tcp_send` accepted for slot `i`, in order. -/
def sentBytes (i : Slot) : List Obs → List Byte
  | [] => []
  | .accepted j f :: log => if j = i then sentBytes i log ++ f.payload else sentBytes i log
  | _ :: log => sentBytes i log

theorem sentBytes_again {i : Slot} (o : Obs) (log : List Obs) (h : o.slot = i → o.again = true) :
    sentBytes i (o :: log) = sentBytes i log := by
  cases o with
  | accepted j _ =>
      by_cases hj : j = i
      · exact absurd (h hj) (by simp [Obs.again])
      · simp [sentBytes, hj]
  | _ => rfl

theorem onlyAgain.sentBytes {i : Slot} {log log' : List Obs} (h : onlyAgain i log log') :
    sentBytes i log' = sentBytes i log :=
  h.read sentBytes_again

/-! ## The application's calls -/

section
variable (env : Env) (now : Tick) (i : Slot)

theorem tcpClose_log (l : Local) : (tcpClose env now i l).1.log = l.log ∨
    ∃ f, (tcpClose env now i l).1.log = .finSent i f :: l.log := by
  unfold tcpClose
  dsimp only
  split
  · exact .inl rfl
  · exact .inr ⟨_, tcpRtxSave_log ..⟩

theorem tcpClose_epoch (l : Local) :
    epoch i (tcpClose env now i l).1.log = epoch i l.log := by
  obtain h | ⟨f, h⟩ := tcpClose_log env now i l <;> rw [h]
  rfl

theorem tcpClose_taken (l : Local) :
    taken i (tcpClose env now i l).1.log = taken i l.log := by
  obtain h | ⟨f, h⟩ := tcpClose_log env now i l <;> rw [h]
  rfl

theorem tcpClose_sentBytes (l : Local) :
    sentBytes i (tcpClose env now i l).1.log = sentBytes i l.log := by
  obtain h | ⟨f, h⟩ := tcpClose_log env now i l <;> rw [h]
  rfl

theorem tcpClose_state (l : Local) :
    (tcpClose env now i l).1.conn.state ≠ .established := by
  unfold tcpClose
  dsimp only
  split
  next hnext =>
    intro hst
    rw [hst] at hnext
    cases hnext
  next st hnext =>
    simp only [tcpRtxSave, tcpRtxArm_state]
    revert hnext
    split <;> rintro hnext <;> cases hnext <;> simp

theorem tcpRxConsume_log (n : Nat) (l : Local) :
    (tcpRxConsume i n l).log = .consumed i (slice l.conn.rxbuf 0 (min n l.conn.rxlen)) :: l.log := by
  unfold tcpRxConsume
  dsimp only
  split <;> rfl

theorem tcpRxConsume_state (n : Nat) (l : Local) :
    (tcpRxConsume i n l).conn.state = l.conn.state := by
  unfold tcpRxConsume
  dsimp only
  split <;> rfl

theorem tcpSend_log {payload : List Byte} {l l' : Local} {f : Frame}
    (h : tcpSend env now i payload l = (l', some f)) :
    l' = tcpSendAccept env now i payload l ∧ tcpSendAccepts l.conn payload.length = true ∧
      l'.log = .accepted i (tcpSendFrame env now l.conn payload) :: l.log := by
  unfold tcpSend at h
  split at h
  next hacc =>
    obtain ⟨rfl, _⟩ := Prod.mk.inj h
    exact ⟨rfl, hacc, tcpSendAccept_log ..⟩
  next => cases (Prod.mk.inj h).2

end

/-! ## The other ways -/

def HObs.slot : HObs → Slot
  | .established i | .visited i _ | .answered i _ _ _ | .handed i _ _ _ | .ended i _ => i

/-- Way `i` is left alone. -/
structure Beside (i : Slot) (s s' : Server) : Prop where
  conn : s'.tcp.conn i = s.tcp.conn i
  tcpLog : logGrowsBeside i s.tcp.log s'.tcp.log
  http : s'.http i = s.http i
  ostate : s'.fsa.ostate i = s.fsa.ostate i
  hi : ∀ e, (i, e) ∈ s'.fsa.hi ↔ (i, e) ∈ s.fsa.hi
  lo : ∀ e, (i, e) ∈ s'.fsa.lo ↔ (i, e) ∈ s.fsa.lo
  log : ∃ os, s'.log = os ++ s.log ∧ ∀ o ∈ os, o.slot ≠ i

section
variable {i j : Slot} {s s' s'' : Server}

theorem Beside.refl (i : Slot) (s : Server) : Beside i s s :=
  ⟨rfl, .refl _ _, rfl, rfl, fun _ => Iff.rfl, fun _ => Iff.rfl, [], rfl, by simp⟩

theorem Beside.trans (h : Beside i s s') (h' : Beside i s' s'') : Beside i s s'' := by
  obtain ⟨os, hos, hne⟩ := h.tcpLog
  obtain ⟨os', hos', hne'⟩ := h'.tcpLog
  obtain ⟨hs, hhs, hhne⟩ := h.log
  obtain ⟨hs', hhs', hhne'⟩ := h'.log
  refine ⟨h'.conn.trans h.conn, ⟨os' ++ os, by rw [hos', hos, List.append_assoc], ?_⟩,
    h'.http.trans h.http, h'.ostate.trans h.ostate, fun e => (h'.hi e).trans (h.hi e),
    fun e => (h'.lo e).trans (h.lo e), hs' ++ hs, by rw [hhs', hhs, List.append_assoc], ?_⟩
  · intro o ho
    rcases List.mem_append.mp ho with ho | ho
    · exact hne' o ho
    · exact hne o ho
  · intro o ho
    rcases List.mem_append.mp ho with ho | ho
    · exact hhne' o ho
    · exact hhne o ho

theorem Beside.of_common (h : Beside i s s') (mem : Nat → Byte) (p : Phase) :
    Beside i s { s' with mem := mem, phase := p } :=
  ⟨h.conn, h.tcpLog, h.http, h.ostate, h.hi, h.lo, h.log⟩

variable (hij : i ≠ j)
include hij

theorem Beside.post (s : Server) (e : OEvt) : Beside i s (s.post j e) := by
  refine ⟨rfl, .refl _ _, rfl, by simp, fun e' => ?_, fun e' => ?_, [], rfl, by simp⟩
  · obtain h | ⟨_, h⟩ := s.fsa.post_hi j e <;> simp [h, hij]
  · obtain h | ⟨_, h⟩ := s.fsa.post_lo j e <;> simp [h, hij]

theorem Beside.setHttp (s : Server) (h : Hconn) : Beside i s (s.setHttp j h) :=
  ⟨rfl, .refl _ _, by simp [hij], rfl, fun _ => Iff.rfl, fun _ => Iff.rfl, [], rfl, by simp⟩

theorem Beside.setReq (s : Server) (r : Req) : Beside i s (s.setReq j r) :=
  .setHttp hij s _

theorem Beside.observe (s : Server) {o : HObs} (ho : o.slot = j) : Beside i s (s.observe o) :=
  ⟨rfl, .refl _ _, rfl, rfl, fun _ => Iff.rfl, fun _ => Iff.rfl, [o], rfl, by
    simp [ho, hij.symm]⟩

theorem Beside.setState (s : Server) (o : OState) :
    Beside i s { s with fsa := s.fsa.setState j o } :=
  ⟨rfl, .refl _ _, rfl, by simp [hij], fun _ => Iff.rfl, fun _ => Iff.rfl, [], rfl, by simp⟩

theorem Beside.put (s : Server) {l : Local} (hl : logGrowsAt j s.tcp.log l.log) :
    Beside i s { s with tcp := s.tcp.put j l } := by
  obtain ⟨os, hos, hat⟩ := hl
  refine ⟨by simp [hij], ⟨os, hos, fun o ho heq => hij ?_⟩, rfl, rfl, fun _ => Iff.rfl,
    fun _ => Iff.rfl, [], rfl, by simp⟩
  rw [← heq, hat o ho]

theorem Beside.dequeue {e : OEvt} {q : Fsa} (h : s.fsa.next = some (j, e, q)) :
    Beside i s { s with fsa := q } := by
  obtain ⟨host, hq⟩ := Fsa.next_some h
  refine ⟨rfl, .refl _ _, rfl, by rw [host], fun e' => ?_, fun e' => ?_, [], rfl, by simp⟩
  · rcases hq with ⟨hhi, _⟩ | ⟨hhi, hhi', _⟩
    · simp [hhi, hij]
    · simp [hhi, hhi']
  · rcases hq with ⟨_, hlo⟩ | ⟨_, _, hlo⟩
    · simp [hlo]
    · simp [hlo, hij]

theorem Beside.tcpClose (env : HttpEnv) (now : Tick) (s : Server) :
    Beside i s (s.tcpClose env now j) := by
  refine .put hij s ?_
  obtain h | ⟨f, h⟩ := tcpClose_log env.tcp now j (s.tcp.at j)
  · exact .of_eq h
  · exact .of_cons h rfl

theorem Beside.hSend (env : HttpEnv) (now : Tick) (s : Server) :
    Beside i s (hSend env now j s) := by
  unfold WsPi5.hSend
  dsimp only
  split
  · split
    · exact .post hij s _
    split
    · exact .refl i s
    split
    · exact .refl i s
    next l f hsend =>
      obtain ⟨_, _, hlog⟩ := tcpSend_log _ _ _ hsend
      unfold hSent
      dsimp only
      refine (((Beside.put hij s (.of_cons hlog rfl)).trans (.setHttp hij _ _)).trans
        (.observe hij _ rfl)).trans (.post hij _ _)
  · exact .post hij s _

theorem Beside.call (env : HttpEnv) (now : Tick) (s : Server) (hd : OHandler) :
    Beside i s (hd.call env now j s) := by
  cases hd with
  | install => exact .post hij s _
  | send => exact .hSend hij env now s
  | noop => exact .refl i s
  | decide => exact .post hij s _
  | reset => exact (Beside.setReq hij s _).trans (.observe hij _ rfl)
  | close =>
      exact ((Beside.tcpClose hij env now s).trans (.setReq hij _ _)).trans (.observe hij _ rfl)
  | keepalive => exact (Beside.setReq hij s _).trans (.observe hij _ rfl)

theorem Beside.pollEvent (s : Server) : Beside i s (httpFsaPollTcpEvents j s) := by
  obtain h | ⟨_, e, _, h⟩ | ⟨_, _, h⟩ := pollEvent_cases j s <;> rw [h]
  · exact .refl i s
  · exact .post hij s e
  · exact .post hij s _

theorem Beside.noteVisit (s : Server) (start now : Tick) :
    Beside i s (s.noteVisit j start now) := by
  unfold Server.noteVisit
  split
  · exact .refl i s
  · exact .observe hij s rfl

theorem Beside.answerSlot (env : HttpEnv) (s : Server) (out : HandlerOut) (r : Req) (page : Page) :
    Beside i s (answerSlot env j s out r page) := by
  unfold WsPi5.answerSlot
  dsimp only
  have hput : Beside i s { s with tcp := s.tcp.put j (tcpRxConsume j
      (r.parser.reqLen + r.parser.contentLen) (s.tcp.at j)) } :=
    .put hij s (.of_cons (tcpRxConsume_log ..) rfl)
  exact (((hput.of_common _ s.phase).trans (.setHttp hij _ _)).trans (.observe hij _ rfl)).trans
    (.post hij _ _)

theorem Beside.visitSlot (env : HttpEnv) (s : Server) (start now : Tick) (out : HandlerOut) :
    Beside i s (visitSlot env j s start now out) := by
  unfold WsPi5.visitSlot
  dsimp only
  have hnote := Beside.noteVisit hij s start now
  split
  · exact hnote.trans (.setReq hij _ _)
  · exact (hnote.trans (.tcpClose hij env now _)).trans (.setReq hij _ _)
  · exact hnote.trans (.answerSlot hij env _ out _ _)

end

theorem Beside.fsaStep {env : HttpEnv} {now : Tick} {i j : Slot} {s s' : Server} {e : OEvt}
    {q : Fsa} (hij : i ≠ j) (h : httpFsaStep env now s = some s')
    (hnext : s.fsa.next = some (j, e, q)) : Beside i s s' := by
  obtain ⟨j', e', q', hnext', hcase⟩ := httpFsaStep_cases h
  obtain ⟨rfl, rfl, rfl⟩ : j' = j ∧ e' = e ∧ q' = q := by
    rw [hnext] at hnext'
    simpa [eq_comm] using hnext'
  have hdeq := Beside.dequeue hij hnext
  obtain ⟨_, rfl⟩ | ⟨o, hd, _, rfl⟩ := hcase
  · exact hdeq
  · exact (hdeq.trans (.call hij env now _ hd)).trans (.setState hij _ o)

/-! ## The queues over a run -/

/-- An event is queued where its kind belongs, once, and exactly if its bit is set. -/
structure Fsa.Ok (q : Fsa) : Prop where
  upper : ∀ p ∈ q.hi, p.2.hi = true
  lower : ∀ p ∈ q.lo, p.2.hi = false
  upperOnce : q.hi.Nodup
  lowerOnce : q.lo.Nodup
  pending : ∀ i e, q.pending i e = true ↔ (i, e) ∈ q.hi ∨ (i, e) ∈ q.lo

section
variable {q q' : Fsa} {i j : Slot} {e : OEvt}

@[simp] theorem Fsa.setPending_hi (q : Fsa) (i : Slot) (e : OEvt) (b : Bool) :
    (q.setPending i e b).hi = q.hi := rfl

@[simp] theorem Fsa.setPending_lo (q : Fsa) (i : Slot) (e : OEvt) (b : Bool) :
    (q.setPending i e b).lo = q.lo := rfl

theorem Fsa.setPending_apply (q : Fsa) (i : Slot) (e : OEvt) (b : Bool) (j : Slot) (e' : OEvt) :
    (q.setPending i e b).pending j e' = if j = i ∧ e' = e then b else q.pending j e' := by
  unfold Fsa.setPending
  dsimp only
  by_cases hj : j = i
  · subst hj
    by_cases he : e' = e
    · subst he
      simp
    · simp [he]
  · simp [hj]

theorem Fsa.Ok.setState (h : q.Ok) (o : OState) : (q.setState i o).Ok :=
  ⟨h.upper, h.lower, h.upperOnce, h.lowerOnce, h.pending⟩

theorem Fsa.Ok.post (h : q.Ok) (i : Slot) (e : OEvt) : (q.post i e).Ok := by
  unfold Fsa.post
  split
  · exact h
  next hnew =>
    have hout : (i, e) ∉ q.hi ∧ (i, e) ∉ q.lo := by
      have := mt (h.pending i e).mpr hnew
      exact not_or.mp this
    split
    next he =>
      split
      · refine ⟨?_, h.lower, ?_, h.lowerOnce, ?_⟩
        · intro p hp
          rcases List.mem_append.mp hp with hp | hp
          · exact h.upper p hp
          · rw [List.mem_singleton.mp hp]
            exact he
        · exact List.nodup_append.mpr ⟨h.upperOnce, by simp, by
            intro a ha b hb heq
            rw [List.mem_singleton.mp hb] at heq
            exact hout.1 (heq ▸ ha)⟩
        · intro j e'
          rw [Fsa.setPending_apply]
          have := h.pending j e'
          by_cases hje : j = i ∧ e' = e
          · simp [hje]
          · simp [hje, this]
      · exact h
    next he =>
      split
      · refine ⟨h.upper, ?_, h.upperOnce, ?_, ?_⟩
        · intro p hp
          rcases List.mem_append.mp hp with hp | hp
          · exact h.lower p hp
          · rw [List.mem_singleton.mp hp]
            simpa using he
        · exact List.nodup_append.mpr ⟨h.lowerOnce, by simp, by
            intro a ha b hb heq
            rw [List.mem_singleton.mp hb] at heq
            exact hout.2 (heq ▸ ha)⟩
        · intro j e'
          rw [Fsa.setPending_apply]
          have := h.pending j e'
          by_cases hje : j = i ∧ e' = e
          · simp [hje]
          · simp [hje, this]
      · exact h

theorem Fsa.Ok.next (h : q.Ok) (hnext : q.next = some (i, e, q')) : q'.Ok := by
  unfold Fsa.next at hnext
  split at hnext
  next rest _ hhi =>
    cases hnext
    have honce := h.upperOnce
    have hupper := h.upper
    rw [hhi] at honce hupper
    obtain ⟨hout, hrest⟩ := List.nodup_cons.mp honce
    refine ⟨fun p hp => hupper p (List.mem_cons_of_mem _ hp), h.lower, hrest, h.lowerOnce, ?_⟩
    intro j e'
    rw [Fsa.setPending_apply]
    have := h.pending j e'
    by_cases hje : j = i ∧ e' = e
    · obtain ⟨rfl, rfl⟩ := hje
      have hlo : (j, e') ∉ q.lo := by
        intro hlo
        have h₁ := hupper (j, e') (by simp)
        rw [h.lower _ hlo] at h₁
        cases h₁
      simp [hout, hlo]
    · rw [hhi] at this
      simpa [hje] using this
  next rest hhi hlo =>
    cases hnext
    have honce := h.lowerOnce
    have hlower := h.lower
    rw [hlo] at honce hlower
    obtain ⟨hout, hrest⟩ := List.nodup_cons.mp honce
    refine ⟨h.upper, fun p hp => hlower p (List.mem_cons_of_mem _ hp), h.upperOnce, hrest, ?_⟩
    intro j e'
    rw [Fsa.setPending_apply]
    have := h.pending j e'
    by_cases hje : j = i ∧ e' = e
    · obtain ⟨rfl, rfl⟩ := hje
      simp [hout, hhi]
    · rw [hlo] at this
      simpa [hje] using this
  next => cases hnext

end

/-- A handler posts at most one event, for its own way, and never E_RESP_READY. -/
theorem OHandler.call_fsa (env : HttpEnv) (now : Tick) (i : Slot) (s : Server) (hd : OHandler) :
    (hd.call env now i s).fsa = s.fsa ∨
      ∃ e, e ≠ .respReady ∧ (hd.call env now i s).fsa = s.fsa.post i e := by
  cases hd with
  | install => exact .inr ⟨_, by simp, rfl⟩
  | decide => exact .inr ⟨_, by split <;> simp, rfl⟩
  | send =>
      simp only [OHandler.call, hSend]
      split
      · split
        · exact .inr ⟨_, by simp, rfl⟩
        split
        · exact .inl rfl
        split
        · exact .inl rfl
        · exact .inr ⟨_, by split <;> simp, rfl⟩
      · exact .inr ⟨_, by simp, rfl⟩
  | _ => exact .inl rfl

theorem OHandler.call_req (env : HttpEnv) (now : Tick) (i : Slot) (s : Server) {hd : OHandler}
    (h : hd ≠ .reset ∧ hd ≠ .close ∧ hd ≠ .keepalive) :
    ((hd.call env now i s).http i).req = (s.http i).req := by
  cases hd with
  | install | decide | noop => rfl
  | send =>
      simp only [OHandler.call, hSend]
      split
      · split
        · rfl
        split
        · rfl
        split
        · rfl
        · simp [hSent]
      · rfl
  | reset => exact absurd rfl h.1
  | close => exact absurd rfl h.2.1
  | keepalive => exact absurd rfl h.2.2

theorem pollEvent_fsa (i : Slot) (s : Server) : (httpFsaPollTcpEvents i s).fsa = s.fsa ∨
    ∃ e, (httpFsaPollTcpEvents i s).fsa = s.fsa.post i e := by
  obtain h | ⟨_, e, _, h⟩ | ⟨_, _, h⟩ := pollEvent_cases i s <;> rw [h]
  · exact .inl rfl
  · exact .inr ⟨e, rfl⟩
  · exact .inr ⟨_, rfl⟩

/-! ## Between two polls the queues are empty -/

theorem OHandler.call_phase (env : HttpEnv) (now : Tick) (i : Slot) (s : Server)
    (hd : OHandler) : (hd.call env now i s).phase = s.phase := by
  cases hd with
  | send =>
      simp only [OHandler.call, hSend]
      split
      · split
        · rfl
        split
        · rfl
        split <;> rfl
      · rfl
  | _ => rfl

theorem httpFsaStep_phase {env : HttpEnv} {now : Tick} {s s' : Server}
    (h : httpFsaStep env now s = some s') : s'.phase = s.phase := by
  obtain ⟨i, e, q, _, ⟨_, rfl⟩ | ⟨o, hd, _, rfl⟩⟩ := httpFsaStep_cases h
  · rfl
  · exact OHandler.call_phase env now i { s with fsa := q } hd

theorem visitSlot_fsa (env : HttpEnv) (i : Slot) (s : Server) (start now : Tick)
    (out : HandlerOut) : (visitSlot env i s start now out).fsa = s.fsa ∨
      (visitSlot env i s start now out).fsa = s.fsa.post i .respReady := by
  have hnote : (s.noteVisit i start now).fsa = s.fsa := by
    unfold Server.noteVisit
    split <;> rfl
  unfold visitSlot
  dsimp only
  split
  · exact .inl hnote
  · exact .inl hnote
  · refine .inr ?_
    unfold answerSlot
    dsimp only
    simp [hnote]

/-- The queues are in order, and nothing is queued unless `http_poll` is running. -/
structure QueuesRest (s : Server) : Prop where
  ok : s.fsa.Ok
  rest : s.phase.between = true → s.fsa.hi = [] ∧ s.fsa.lo = []

theorem queuesRest_init (env : HttpEnv) (cap : PoolCap) (now : Tick) (mem : Nat → Byte) :
    QueuesRest (serverInit env cap now mem) where
  ok := ⟨by simp [serverInit], by simp [serverInit], by simp [serverInit], by simp [serverInit],
    by simp [serverInit]⟩
  rest := fun _ => ⟨rfl, rfl⟩

theorem httpFsaStep_ok {env : HttpEnv} {now : Tick} {s s' : Server} (h : s.fsa.Ok)
    (hstep : httpFsaStep env now s = some s') : s'.fsa.Ok := by
  obtain ⟨i, e, q, hnext, ⟨_, rfl⟩ | ⟨o, hd, _, rfl⟩⟩ := httpFsaStep_cases hstep
  · exact h.next hnext
  · have hq := h.next hnext
    refine Fsa.Ok.setState ?_ o
    obtain hsame | ⟨e', _, hpost⟩ := OHandler.call_fsa env now i { s with fsa := q } hd
    · rw [hsame]
      exact hq
    · rw [hpost]
      exact hq.post i e'

theorem queuesRest_step {env : HttpEnv} {s s' : Server} {inp : Input} (h : QueuesRest s)
    (hst : serverStep env s inp = some s') : QueuesRest s' := by
  cases serverStep_act hst with
  | net hph _ _ _ _ _ => exact ⟨h.ok, fun _ => h.rest hph⟩
  | idle hph => exact ⟨h.ok, fun _ => h.rest (by rw [hph]; rfl)⟩
  | date _ => exact ⟨h.ok, fun hb => by cases hb⟩
  | @visit i start now out _ =>
      refine ⟨?_, fun hb => ?_⟩
      · obtain hsame | hpost := visitSlot_fsa env i s start now out
        · exact hsame ▸ h.ok
        · exact hpost ▸ h.ok.post i _
      · dsimp only at hb
        split at hb <;> cases hb
  | @event i _ =>
      refine ⟨?_, fun hb => ?_⟩
      · obtain hsame | ⟨e, hpost⟩ := pollEvent_fsa i s
        · exact hsame ▸ h.ok
        · exact hpost ▸ h.ok.post i e
      · dsimp only at hb
        split at hb <;> cases hb
  | fsa hph hstep =>
      refine ⟨httpFsaStep_ok h.ok hstep, fun hb => ?_⟩
      rw [httpFsaStep_phase hstep, hph] at hb
      cases hb
  | drained _ hidle =>
      have hempty := httpFsaStep_none hidle
      exact ⟨h.ok, fun _ => hempty⟩

end WsPi5
