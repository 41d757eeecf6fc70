/-
# `WsPi5.Http.PollBoundary` — HTTP record and output state between two polls

HCONN_STATE is written by `http_poll`, by the reset paths and by three handlers of the output
FSA, the output state by the FSA's table alone.  When `http_poll` returns, they agree:

    queues and pending bits    empty
    output state O_IDLE        exactly where HCONN_STATE is not SENDING

One direction is `WayInv`: a busy way is SENDING, or is about to hear E_TCP_CLOSED.  The other is
`Handed`: a record that is SENDING has been taken over by the FSA, or has its E_RESP_READY in
the upper ring.

**And it returns** (`fsa_drain_ends`).  An event may lead to others, but only to a bounded number
(`OEvt.toGo`): a piece that was sent leaves less of the response to send.  This is so from any
state, not only from those that a run reaches, and whatever the transmit callback does, if it posts
nothing.
-/
import WsPi5.Http.Output

namespace WsPi5

open Lib

/-- What holds when `http_poll` has returned. -/
structure PollBoundary (s : Server) : Prop where
  queues : s.fsa.hi = [] ∧ s.fsa.lo = []
  pending : ∀ i e, s.fsa.pending i e = false
  agree : ∀ i, s.fsa.ostate i = .idle ↔ (s.http i).req.state ≠ .sending

/-! ## A visit does not leave a record SENDING by itself -/

/-- The record that is kept is not SENDING.  (An answer makes it so.) -/
def Verdict.notSending : Verdict → Prop
  | .stay r | .close r => r.state ≠ .sending
  | .answer _ _ => True

section
variable {env : HttpEnv} {v : Visit} {r : Req}

theorem dispatchRoute_notSending : (dispatchRoute env v r).notSending := by
  unfold dispatchRoute
  split
  · trivial
  · split <;> trivial

theorem bodyCheck_notSending : (bodyCheck env v r).notSending := by
  unfold bodyCheck
  split
  · exact dispatchRoute_notSending
  split
  · trivial
  split
  · intro h
    cases h
  · exact dispatchRoute_notSending

theorem methodDone_notSending : (methodDone env v r).notSending := by
  unfold methodDone
  split
  · trivial
  · unfold hostOk
    dsimp only
    split
    · trivial
    · exact bodyCheck_notSending

theorem fsaDone_notSending : (fsaDone env v r).notSending := by
  unfold fsaDone
  split
  · dsimp only
    split
    · trivial
    · exact methodDone_notSending
    · exact methodDone_notSending
    · exact methodDone_notSending
  · trivial

theorem reset_notSending (r : Req) : (Verdict.close r.reset).notSending := fun h => by cases h

theorem tryParse_notSending (h : r.state ≠ .sending) : (tryParse env v r).notSending := by
  unfold tryParse
  split
  · exact reset_notSending r
  split
  · exact h
  split
  · dsimp only
    split
    · exact fsaDone_notSending
    · trivial
    · exact h
  · exact reset_notSending r

/-- **The visit of a record that is not SENDING.** -/
theorem pollSlot_notSending (h : r.state ≠ .sending) : (pollSlot env v r).notSending := by
  unfold pollSlot
  split
  · cases hstate : r.state with
    | idle => exact tryParse_notSending (by simp)
    | recvHdr => exact tryParse_notSending h
    | sending => exact absurd hstate h
    | recvBody =>
        show (resumeBody env v r).notSending
        unfold resumeBody
        split
        · exact reset_notSending r
        split
        · exact h
        · exact bodyCheck_notSending
  · unfold skipOrReset
    rw [if_neg h]
    split
    · exact reset_notSending r
    · intro hs
      cases hs

end

/-! ## The other direction -/

/-- The FSA has the response of a record that is SENDING, or is about to hear of it. -/
def Handed (i : Slot) (s : Server) : Prop :=
  (s.http i).req.state = .sending →
    s.fsa.ostate i ≠ .idle ∨ (i, OEvt.respReady) ∈ s.fsa.hi

theorem table_idle {st : OState} {e : OEvt} {hd : OHandler}
    (h : httpFsaTransTable st e = some (.idle, hd)) :
    hd = .reset ∨ hd = .close ∨ hd = .keepalive := by
  cases st <;> cases e <;> simp only [httpFsaTransTable, Option.some.injEq, Prod.mk.injEq,
    reduceCtorEq, false_and, true_and] at h <;> simp [← h]

theorem OHandler.call_letsGo (env : HttpEnv) (now : Tick) (i : Slot) (s : Server) {hd : OHandler}
    (h : hd = .reset ∨ hd = .close ∨ hd = .keepalive) :
    ((hd.call env now i s).http i).req.state ≠ .sending := by
  rcases h with rfl | rfl | rfl
  · simp [OHandler.call, hReset, Req.reset]
  · simp [OHandler.call, hClose, Req.reset]
  · simp [OHandler.call, hKeepalive, Req.keepalive]

section
variable {env : HttpEnv} {i j : Slot} {s s' : Server}

/-- A step that leaves record and output state alone, and drops no event of the upper ring. -/
theorem Handed.keep (h : Handed i s) (hhttp : s'.http i = s.http i)
    (hidle : s'.fsa.ostate i = s.fsa.ostate i)
    (hhi : (i, OEvt.respReady) ∈ s.fsa.hi → (i, OEvt.respReady) ∈ s'.fsa.hi) : Handed i s' := by
  intro hsend
  rw [hhttp] at hsend
  rw [hidle]
  exact (h hsend).imp id hhi

theorem Handed.beside (h : Handed i s) (hb : Beside i s s') (p : Phase) :
    Handed i { s' with phase := p } :=
  h.keep hb.http hb.ostate (hb.hi _).mpr

theorem Handed.visit_own (h : Handed i s) (hw : WaysOk s) (hph : s.phase = .slots i.val)
    (env : HttpEnv) (start now : Tick) (out : HandlerOut) (p : Phase) :
    Handed i { visitSlot env i s start now out with phase := p } := by
  obtain ⟨hnf, hnh, _, _⟩ := noteVisit_fields s i start now
  -- a record that stays SENDING was SENDING before
  have hbefore : ∀ r, (pollSlot env (s.visit i start now) (s.http i).req = .stay r ∨
      pollSlot env (s.visit i start now) (s.http i).req = .close r) → r.state = .sending →
      (s.http i).req.state = .sending := by
    intro r hpoll hr
    by_contra hns
    have hv := @pollSlot_notSending env (s.visit i start now) _ hns
    rcases hpoll with hpoll | hpoll <;> rw [hpoll] at hv <;> exact hv hr
  unfold visitSlot
  dsimp only
  split
  · rename_i r hpoll
    intro hsend
    simp only [Server.setReq_self] at hsend
    have hold := h (hbefore r (.inl hpoll) hsend)
    simpa [hnf] using hold
  · rename_i r hpoll
    intro hsend
    simp only [Server.setReq_self] at hsend
    have hold := h (hbefore r (.inr hpoll) hsend)
    simpa [Server.tcpClose, hnf] using hold
  · rename_i r page hpoll
    intro _
    right
    have hqueued := hw.ready_queued hph (pollSlot_answer hpoll).1
    unfold answerSlot
    dsimp only
    simpa [hnf] using hqueued

theorem Handed.event (h : Handed i s) (j : Slot) (p : Phase) :
    Handed i { httpFsaPollTcpEvents j s with phase := p } := by
  obtain heq | ⟨_, e, _, heq⟩ | ⟨_, _, heq⟩ := pollEvent_cases j s <;> rw [heq]
  · exact h
  · exact h.keep rfl (by simp) Fsa.post_mem_hi
  · exact h.keep rfl (by simp) Fsa.post_mem_hi

theorem Handed.fsa_own {now : Tick} {e : OEvt} {q : Fsa} (h : Handed i s) (hway : WayInv i s)
    (hstep : httpFsaStep env now s = some s') (hnext : s.fsa.next = some (i, e, q)) :
    Handed i s' := by
  have host := (Fsa.next_some hnext).1
  obtain ⟨htab, rfl⟩ | ⟨o, hd, htab, rfl⟩ := httpFsaStep_taken hstep hnext
  · refine h.keep rfl (by rw [host]) fun hmem => (Fsa.next_hi hnext).2 hmem ?_
    -- O_IDLE does not ignore E_RESP_READY
    rintro heq
    cases heq
    rw [(hway.ready hmem).1] at htab
    cases htab
  · intro hsend
    left
    show (Fsa.setState _ i o).ostate i ≠ .idle
    rw [Fsa.setState_self]
    rintro rfl
    exact OHandler.call_letsGo env now i { s with fsa := q } (table_idle htab) hsend

theorem handed_step {inp : Input} (hw : WaysOk s) (h : ∀ i, Handed i s)
    (hst : serverStep env s inp = some s') : ∀ i, Handed i s' := by
  intro i
  cases serverStep_act hst with
  | net _ _ _ _ _ _ => exact h i
  | idle _ => exact h i
  | date _ => exact h i
  | @visit j start now out hph =>
      by_cases hij : i = j
      · subst hij
        exact (h i).visit_own hw hph env start now out _
      · exact (h i).beside (.visitSlot hij env s start now out) _
  | @event j _ => exact (h i).event j _
  | fsa hph hstep =>
      obtain ⟨j, e, q, hnext, _⟩ := httpFsaStep_cases hstep
      by_cases hij : i = j
      · subst hij
        exact (h i).fsa_own (hw.ways i) hstep hnext
      · exact (h i).beside (.fsaStep hij hstep hnext) s'.phase
  | drained _ _ => exact h i

end

/-! ## The pump comes to an end -/

/-- No response is sent beyond its end, on any way. -/
def RespsOk (s : Server) : Prop := ∀ i, (s.http i).resp.Ok

theorem Resp.advance_remaining {r : Resp} {ready : Nat} (hrem : r.remaining ≠ 0)
    (hready : ready ≠ 0) : (r.advance (r.piece ready).2).remaining < r.remaining := by
  have hpiece : 0 < (r.piece ready).2 ∧ (r.piece ready).2 ≤ r.remaining := by
    unfold Resp.piece
    dsimp only
    split
    · dsimp only
      omega
    · dsimp only
      omega
  obtain ⟨hpos, hle⟩ := hpiece
  generalize (r.piece ready).2 = n at hpos hle
  unfold Resp.remaining at hle ⊢
  show (r.respLen + 2 ^ 32 - (r.respPtr + n) % 2 ^ 32) % 2 ^ 32 < _
  omega

/-- How many events the pump may take for one, itself included. -/
def OEvt.toGo (remaining : Nat) : OEvt → Nat
  | .respReady => remaining + 3
  | .winOpen | .chunkSent => remaining + 2
  | .allDrained => 2
  | .allQueued | .tcpClosed | .doClose | .doKeepalive => 1

def Server.toGo (s : Server) (queued : List (Slot × OEvt)) : Nat :=
  (queued.map fun p => p.2.toGo (s.http p.1).resp.remaining).sum

theorem OEvt.toGo_mono {n m : Nat} (h : n ≤ m) (e : OEvt) : e.toGo n ≤ e.toGo m := by
  cases e <;> simp only [OEvt.toGo] <;> omega

section
variable {env : HttpEnv} {i : Slot} {s s' : Server} {e : OEvt}

/-- **What a handler does to the response**: nothing, or it moves RESP_PTR past a piece. -/
theorem OHandler.call_resp (env : HttpEnv) (now : Tick) (i : Slot) (s : Server) (hd : OHandler) :
    ((hd.call env now i s).http i).resp = (s.http i).resp ∨
    ∃ ready, ((hd.call env now i s).http i).resp
      = (s.http i).resp.advance ((s.http i).resp.piece ready).2 := by
  cases hd with
  | send =>
      show ((hSend env now i s).http i).resp = _ ∨ ∃ ready, ((hSend env now i s).http i).resp = _
      unfold hSend
      dsimp only
      split
      · split
        · exact .inl rfl
        split
        · exact .inl rfl
        split
        · exact .inl rfl
        · exact .inr ⟨(tcpSendReady (s.tcp.conn i)).toNat, by simp [hSent]⟩
      · exact .inl rfl
  | install => exact .inl rfl
  | noop => exact .inl rfl
  | decide => exact .inl rfl
  | reset => exact .inl (by simp [OHandler.call, hReset])
  | close => exact .inl (by simp [OHandler.call, hClose, Server.tcpClose])
  | keepalive => exact .inl (by simp [OHandler.call, hKeepalive])

theorem hSend_toGo (env : HttpEnv) (now : Tick) (i : Slot) (s : Server) :
    ((hSend env now i s).http i).resp.remaining ≤ (s.http i).resp.remaining ∧
    ((hSend env now i s).fsa = s.fsa ∨ ∃ e', (hSend env now i s).fsa = s.fsa.post i e' ∧
      e'.toGo ((hSend env now i s).http i).resp.remaining < (s.http i).resp.remaining + 2) := by
  unfold hSend
  dsimp only
  split
  · split
    · exact ⟨Nat.le_refl _, .inr ⟨_, rfl, by simp only [OEvt.toGo]; omega⟩⟩
    next hrem =>
      split
      · exact ⟨Nat.le_refl _, .inl rfl⟩
      next hready =>
        split
        · exact ⟨Nat.le_refl _, .inl rfl⟩
        next l f _ =>
          have hready' : (tcpSendReady (s.tcp.conn i)).toNat ≠ 0 := fun h0 =>
            hready (BitVec.eq_of_toNat_eq h0)
          have hless := Resp.advance_remaining hrem hready'
          unfold hSent
          simp only [Server.post_http, Server.observe_http, Server.setHttp_self, Server.post_fsa,
            Server.observe_fsa, Server.setHttp_fsa]
          refine ⟨Nat.le_of_lt hless, .inr ⟨_, rfl, ?_⟩⟩
          split
          · simp only [OEvt.toGo]
            omega
          · simp only [OEvt.toGo]
            omega
  · exact ⟨Nat.le_refl _, .inr ⟨_, rfl, by simp only [OEvt.toGo]; omega⟩⟩

/-- **What a handler leaves to go** is less than the event it was called for. -/
theorem OHandler.call_toGo {st o : OState} {hd : OHandler} (now : Tick)
    (htab : httpFsaTransTable st e = some (o, hd)) :
    ((hd.call env now i s).http i).resp.remaining ≤ (s.http i).resp.remaining ∧
    ((hd.call env now i s).fsa = s.fsa ∨ ∃ e', (hd.call env now i s).fsa = s.fsa.post i e' ∧
      e'.toGo ((hd.call env now i s).http i).resp.remaining
        < e.toGo (s.http i).resp.remaining) := by
  cases hd with
  | send =>
      have he : e = .winOpen ∨ e = .chunkSent := by
        cases st <;> cases e <;> simp [httpFsaTransTable] at htab ⊢
      have hgo := hSend_toGo env now i s
      rcases he with rfl | rfl <;> exact hgo
  | install =>
      have he : e = .respReady := by
        cases st <;> cases e <;> simp [httpFsaTransTable] at htab ⊢
      subst he
      exact ⟨Nat.le_refl _, .inr ⟨_, rfl, by simp [OEvt.toGo, OHandler.call, hInstall]⟩⟩
  | decide =>
      have he : e = .allDrained := by
        cases st <;> cases e <;> simp [httpFsaTransTable] at htab ⊢
      subst he
      refine ⟨Nat.le_refl _, .inr ⟨_, rfl, ?_⟩⟩
      split <;> simp [OEvt.toGo]
  | noop => exact ⟨Nat.le_refl _, .inl rfl⟩
  | reset =>
      simp only [OHandler.call, hReset, Server.observe_http, Server.setReq_self]
      exact ⟨Nat.le_refl _, .inl rfl⟩
  | close =>
      simp only [OHandler.call, hClose, Server.observe_http, Server.setReq_self]
      exact ⟨Nat.le_refl _, .inl rfl⟩
  | keepalive =>
      simp only [OHandler.call, hKeepalive, Server.observe_http, Server.setReq_self]
      exact ⟨Nat.le_refl _, .inl rfl⟩

theorem toGo_mono (h : ∀ j, (s'.http j).resp.remaining ≤ (s.http j).resp.remaining)
    (queued : List (Slot × OEvt)) : s'.toGo queued ≤ s.toGo queued := by
  induction queued with
  | nil => simp [Server.toGo]
  | cons p queued ih =>
      have hhead := OEvt.toGo_mono (h p.1) p.2
      simp only [Server.toGo, List.map_cons, List.sum_cons] at ih ⊢
      exact Nat.add_le_add hhead ih

theorem toGo_congr (h : s'.http = s.http) (queued : List (Slot × OEvt)) :
    s'.toGo queued = s.toGo queued := by
  unfold Server.toGo
  rw [h]

theorem OEvt.toGo_pos (e : OEvt) (n : Nat) : 0 < e.toGo n := by
  cases e <;> simp [OEvt.toGo]

theorem toGo_append (s : Server) (queued queued' : List (Slot × OEvt)) :
    s.toGo (queued ++ queued') = s.toGo queued + s.toGo queued' := by
  simp [Server.toGo]

theorem toGo_post (s : Server) (q : Fsa) (i : Slot) (e : OEvt) :
    s.toGo ((q.post i e).hi ++ (q.post i e).lo)
      ≤ s.toGo (q.hi ++ q.lo) + e.toGo (s.http i).resp.remaining := by
  have hone : s.toGo [(i, e)] = e.toGo (s.http i).resp.remaining := by simp [Server.toGo]
  obtain hhi | ⟨he, hhi⟩ := q.post_hi i e
  · obtain hlo | ⟨_, hlo⟩ := q.post_lo i e
    · rw [hhi, hlo]
      exact Nat.le_add_right _ _
    · rw [hhi, hlo, ← List.append_assoc, toGo_append _ (q.hi ++ q.lo), hone]
  · obtain hlo | ⟨he', _⟩ := q.post_lo i e
    · rw [hhi, hlo]
      simp only [toGo_append, hone]
      omega
    · rw [he] at he'
      cases he'

theorem Fsa.next_queued {q q' : Fsa} (h : q.next = some (i, e, q')) :
    q.hi ++ q.lo = (i, e) :: (q'.hi ++ q'.lo) := by
  rcases (Fsa.next_some h).2 with ⟨hhi, hlo⟩ | ⟨hhi, hhi', hlo⟩
  · rw [hhi, hlo]
    rfl
  · rw [hhi, hhi', hlo]
    rfl

theorem httpFsaStep_resp {now : Tick} (hstep : httpFsaStep env now s = some s') (j : Slot) :
    (s'.http j).resp = (s.http j).resp ∨
    ∃ ready, (s'.http j).resp = (s.http j).resp.advance ((s.http j).resp.piece ready).2 := by
  obtain ⟨i, e, q, _, hcase⟩ := httpFsaStep_cases hstep
  obtain ⟨_, rfl⟩ | ⟨o, hd, _, rfl⟩ := hcase
  · exact .inl rfl
  · by_cases hj : j = i
    · subst hj
      exact hd.call_resp env now j { s with fsa := q }
    · exact .inl (congrArg Hconn.resp (Beside.call hj env now { s with fsa := q } hd).http)

theorem RespsOk.fsa {now : Tick} (h : RespsOk s) (hstep : httpFsaStep env now s = some s') :
    RespsOk s' := by
  intro j
  rcases httpFsaStep_resp hstep j with heq | ⟨ready, heq⟩
  · rw [heq]
    exact h j
  · rw [heq]
    exact (h j).advance ready

/-- **One event less to go.** -/
theorem httpFsaStep_toGo {now : Tick} (hstep : httpFsaStep env now s = some s') :
    s'.toGo (s'.fsa.hi ++ s'.fsa.lo) < s.toGo (s.fsa.hi ++ s.fsa.lo) := by
  obtain ⟨i, e, q, hnext, hcase⟩ := httpFsaStep_cases hstep
  have hone : s.toGo (s.fsa.hi ++ s.fsa.lo)
      = e.toGo (s.http i).resp.remaining + s.toGo (q.hi ++ q.lo) := by
    rw [Fsa.next_queued hnext, Server.toGo, List.map_cons, List.sum_cons, Server.toGo]
  have hpos := e.toGo_pos (s.http i).resp.remaining
  obtain ⟨_, rfl⟩ | ⟨o, hd, htab, rfl⟩ := hcase
  · have hsame : ({ s with fsa := q } : Server).toGo (q.hi ++ q.lo) = s.toGo (q.hi ++ q.lo) :=
      toGo_congr rfl _
    dsimp only
    rw [hone, hsame]
    exact Nat.lt_add_of_pos_left hpos
  · obtain ⟨m, hm⟩ : ∃ m, m = hd.call env now i { s with fsa := q } := ⟨_, rfl⟩
    obtain ⟨hrem, hpost⟩ :=
      @OHandler.call_toGo env _ { s with fsa := q } _ _ _ _ now htab
    rw [← hm] at hrem hpost
    have hless : ∀ j, (m.http j).resp.remaining ≤ (s.http j).resp.remaining := by
      intro j
      by_cases hj : j = i
      · subst hj
        exact hrem
      · rw [hm, (Beside.call hj env now { s with fsa := q } hd).http]
    have hqueued : m.toGo (m.fsa.hi ++ m.fsa.lo)
        < e.toGo (s.http i).resp.remaining + s.toGo (q.hi ++ q.lo) := by
      have hold := toGo_mono hless (q.hi ++ q.lo)
      rcases hpost with hsame | ⟨e', hnew, hlt⟩
      · rw [hsame]
        exact Nat.lt_of_le_of_lt hold (Nat.lt_add_of_pos_left hpos)
      · rw [hnew]
        refine Nat.lt_of_le_of_lt (toGo_post m q i e') ?_
        rw [Nat.add_comm]
        exact Nat.add_lt_add_of_lt_of_le hlt hold
    dsimp only
    rw [← hm]
    have hsame : ({ m with fsa := m.fsa.setState i o } : Server).toGo (m.fsa.hi ++ m.fsa.lo)
        = m.toGo (m.fsa.hi ++ m.fsa.lo) := toGo_congr rfl _
    rw [hone, Fsa.setState_hi, Fsa.setState_lo, hsame]
    exact hqueued

theorem respsOk_step {inp : Input} (h : RespsOk s) (hst : serverStep env s inp = some s') :
    RespsOk s' := by
  cases serverStep_act hst with
  | net _ _ _ _ _ _ => exact h
  | idle _ => exact h
  | date _ => exact h
  | @visit j start now out _ =>
      intro i
      show ((visitSlot env j s start now out).http i).resp.Ok
      by_cases hij : i = j
      · subst hij
        have hnote := (noteVisit_fields s i start now).2.1
        unfold visitSlot
        dsimp only
        split
        · simpa [hnote] using h i
        · simpa [Server.tcpClose, hnote] using h i
        · unfold answerSlot
          simpa using setupPage_ok env i _ out _ _
      · rw [(Beside.visitSlot hij env s start now out).http]
        exact h i
  | @event j _ =>
      intro i
      obtain heq | ⟨_, e, _, heq⟩ | ⟨_, _, heq⟩ := pollEvent_cases j s <;> rw [heq] <;> exact h i
  | fsa _ hstep => exact h.fsa hstep
  | drained _ _ => exact h

/-! ## The pump and what it calls -/

/-- A transmit callback.  It posts no event and does not write RESP_PTR and RESP_LEN, which is all
that `h_send` reads after it; connections, memory and everything else may be different. -/
structure Transmit where
  call : Server → Server
  queues : ∀ s, (call s).fsa.hi = s.fsa.hi ∧ (call s).fsa.lo = s.fsa.lo
  resp : ∀ s i, ((call s).http i).resp = (s.http i).resp

/-- `.Lhp_fsa_drain`: the server after `n` calls of `http_fsa_step`, if none of them returned
STEP_IDLE.  Call `k` reads this time, and this callback is behind what it sends. -/
def fsaDrain (env : HttpEnv) (clock : Nat → Tick) (xmit : Nat → Transmit) :
    Nat → Server → Option Server
  | 0, s => some s
  | n + 1, s =>
      (httpFsaStep env (clock 0) s).bind fun s' =>
        fsaDrain env (fun k => clock (k + 1)) (fun k => xmit (k + 1)) n ((xmit 0).call s')

theorem Transmit.toGo (x : Transmit) (s : Server) :
    (x.call s).toGo ((x.call s).fsa.hi ++ (x.call s).fsa.lo) = s.toGo (s.fsa.hi ++ s.fsa.lo) := by
  obtain ⟨hhi, hlo⟩ := x.queues s
  rw [hhi, hlo]
  unfold Server.toGo
  simp only [x.resp]

/-- The pump comes to a step that finds nothing, after no more steps than it had events to go. -/
theorem fsaDrain_idle (n : Nat) : ∀ {s : Server} {clock : Nat → Tick} {xmit : Nat → Transmit},
    s.toGo (s.fsa.hi ++ s.fsa.lo) ≤ n →
    ∃ m ≤ n, ∃ t, fsaDrain env clock xmit m s = some t ∧ httpFsaStep env (clock m) t = none := by
  induction n with
  | zero =>
      intro s clock xmit hgo
      cases hstep : httpFsaStep env (clock 0) s with
      | some s' =>
          have hless := httpFsaStep_toGo hstep
          omega
      | none => exact ⟨0, Nat.le_refl 0, s, rfl, hstep⟩
  | succ n ih =>
      intro s clock xmit hgo
      cases hstep : httpFsaStep env (clock 0) s with
      | some s' =>
          have hless := httpFsaStep_toGo hstep
          have hgo' := (xmit 0).toGo s'
          obtain ⟨m, hm, t, hrun, hidle⟩ := @ih ((xmit 0).call s') (fun k => clock (k + 1))
            (fun k => xmit (k + 1)) (by omega)
          refine ⟨m + 1, by omega, t, ?_, hidle⟩
          rw [fsaDrain, hstep]
          exact hrun
      | none => exact ⟨0, Nat.zero_le _, s, rfl, hstep⟩

def Transmit.quiet : Transmit := ⟨id, fun _ => ⟨rfl, rfl⟩, fun _ _ => rfl⟩

theorem fsaDrain_feed (m : Nat) : ∀ {s t : Server} {clock : Nat → Tick}, s.phase = .drain →
    fsaDrain env clock (fun _ => .quiet) m s = some t → httpFsaStep env (clock m) t = none →
    feed (serverStep env) s ((List.range (m + 1)).map fun k => .drain (clock k))
      = some { t with phase := .recv } := by
  induction m with
  | zero =>
      intro s t clock hph hrun hidle
      cases hrun
      simp [feed, serverStep, hph, hidle]
  | succ m ih =>
      intro s t clock hph hrun hidle
      rw [fsaDrain] at hrun
      obtain ⟨s', hstep, hrest⟩ := Option.bind_eq_some_iff.mp hrun
      have hfirst : serverStep env s (.drain (clock 0)) = some s' := by
        simp [serverStep, hph, hstep]
      have hfeed := @ih s' t (fun k => clock (k + 1)) ((httpFsaStep_phase hstep).trans hph) hrest
        hidle
      rw [List.range_succ_eq_map, List.map_cons, List.map_map]
      show (serverStep env s (.drain (clock 0))).bind _ = _
      rw [hfirst]
      exact hfeed

/-- **The pump ends**, whatever the clock. -/
theorem drain_ends {s : Server} (clock : Nat → Tick) (hph : s.phase = .drain) :
    ∃ m s', feed (serverStep env) s ((List.range m).map fun k => .drain (clock k)) = some s' ∧
      s'.phase = .recv := by
  obtain ⟨m, _, t, hrun, hidle⟩ := @fsaDrain_idle env _ s clock (fun _ => .quiet) (Nat.le_refl _)
  exact ⟨m + 1, _, fsaDrain_feed m hph hrun hidle, rfl⟩

/-- **The pump ends** from every state of connections, records, queues and output states, whatever
the clock says and whatever the callback does that posts nothing: one of the calls returns
STEP_IDLE, with both queues empty. -/
theorem fsa_drain_ends (env : HttpEnv) (s : Server) (clock : Nat → Tick)
    (xmit : Nat → Transmit) :
    ∃ n ≤ s.toGo (s.fsa.hi ++ s.fsa.lo), ∃ t, fsaDrain env clock xmit n s = some t ∧
      httpFsaStep env (clock n) t = none ∧ t.fsa.hi = [] ∧ t.fsa.lo = [] := by
  obtain ⟨n, hn, t, hrun, hidle⟩ := fsaDrain_idle _ (Nat.le_refl _)
  exact ⟨n, hn, t, hrun, hidle, httpFsaStep_none hidle⟩

end

/-! ## Every run -/

/-- **No response is sent beyond its end**, on any way. -/
theorem respsOk_reachable {env : HttpEnv} {cap : PoolCap} {now : Tick} {mem : Nat → Byte} {s : Server}
    (h : Run (serverStep env) anyEvent (serverInit env cap now mem) s) : RespsOk s := by
  refine h.invariant (P := RespsOk)
    (fun _ => ⟨Nat.le_refl _, Nat.le_refl _, Nat.two_pow_pos 32⟩) ?_
  intro t u e ht _ hst
  exact respsOk_step ht hst

/-- **Between two polls** queues and pending bits are empty, and O_IDLE stands exactly where the
record is not SENDING; and every poll that reaches its pump comes to such a point. -/
theorem poll_boundary {env : HttpEnv} {cap : PoolCap} {now : Tick} {mem : Nat → Byte} {s : Server}
    (h : Run (serverStep env) anyEvent (serverInit env cap now mem) s) :
    (s.phase.between = true → PollBoundary s) ∧
    (s.phase = .drain → ∀ clock : Nat → Tick, ∃ n s',
      feed (serverStep env) s ((List.range n).map fun k => .drain (clock k)) = some s' ∧
        s'.phase = .recv ∧ PollBoundary s') := by
  have hinv : ∀ {t}, Run (serverStep env) anyEvent (serverInit env cap now mem) t →
      ∀ i, Handed i t := by
    intro t ht
    have hinit : ∀ i, Handed i (serverInit env cap now mem) := by
      intro i hs
      cases hs
    have hall : WaysOk t ∧ ∀ i, Handed i t := by
      refine ht.invariant (P := fun t => WaysOk t ∧ ∀ i, Handed i t)
        ⟨waysOk_init env cap now mem, hinit⟩ ?_
      intro t u e ht _ hst
      exact ⟨waysOk_step ht.1 hst, handed_step ht.1 ht.2 hst⟩
    exact hall.2
  have boundary : ∀ {t}, Run (serverStep env) anyEvent (serverInit env cap now mem) t →
      t.phase.between = true → PollBoundary t := by
    intro t ht hb
    have hw := waysOk_reachable ht
    have hrest := hw.queues.rest hb
    refine ⟨hrest, fun i e => ?_, fun i => ⟨fun hidle hsend => ?_, fun hns => ?_⟩⟩
    · refine Bool.eq_false_iff.mpr fun hpend => ?_
      rcases (hw.queues.ok.pending i e).mp hpend with hmem | hmem
      · rw [hrest.1] at hmem
        cases hmem
      · rw [hrest.2] at hmem
        cases hmem
    · rcases hinv ht i hsend with hbusy | hmem
      · exact hbusy hidle
      · rw [hrest.1] at hmem
        cases hmem
    · by_contra hbusy
      exact hns ((hw.ways i).sending_between hb hbusy)
  refine ⟨boundary h, fun hph clock => ?_⟩
  obtain ⟨n, s', hfeed, hrecv⟩ := @drain_ends env _ clock hph
  have hrun := h.trans (run_ofList _ (feedOk_any _ _) hfeed)
  exact ⟨n, s', hfeed, hrecv, boundary hrun (by rw [hrecv]; rfl)⟩

/-- A peer asks for the page; all of it is sent, and not acknowledged yet. -/
def demoSent : List Leg :=
  let wide (f : Frame) : Frame := { f with window := 1000 }
  [.inputs [.frame 1 (wide { demoSyn with sport := 1000 }), .frame 1 (wide (demoFrom 1000 0 [])),
      .frame 1 (wide (demoFrom 1000 0 demoGet))],
    .pass 1 1 {} [1, 1, 1, 1, 1]]

/-- The record is SENDING when the poll returns, so the way is not in O_IDLE. -/
theorem poll_boundary_demo : ∃ s : Server, s.phase = .recv ∧
    (s.http 1).req.state = .sending ∧ s.fsa.ostate 1 ≠ .idle := by
  obtain ⟨s, hrun, hph, hsend⟩ := exists_legs demoHttp anyEvent 1 (allowsQuiet_any 1)
    (s := demoServer) (Q := fun s => s.phase = .recv ∧ (s.http 1).req.state = .sending)
    demoSent (by decide +kernel) (by decide +kernel)
  have hb := (poll_boundary hrun).1 (by rw [hph]; rfl)
  exact ⟨s, hph, hsend, fun hidle => (hb.agree 1).mp hidle hsend⟩

end WsPi5
