/-
# `WsPi5.Http.WayStates` — HTTP record and output state of a way

`http_poll` and the output FSA each keep a state for a way, in two tables that nothing ties
together but the order of the calls.  What holds between them depends on how far the pass has
come (`Stage`):

    before its visit     O_SETUP, O_TX or O_DRAINING only with SENDING in the record
    visited              the same, or the connection is not ESTABLISHED any more
    polled               the same, or E_TCP_CLOSED is queued for the way

and an E_RESP_READY is queued only for a way in O_IDLE with SENDING in the record (`WayInv`).

For the last line E_TCP_CLOSED must never be refused, though the upper ring has room for 127
events and there are 128 ways.  While the ways are polled a way has at most one event in it,
and the listening socket has none (`hi_room`).
-/
import Mathlib.Data.Fintype.Card
import Mathlib.Data.List.Nodup
import WsPi5.Http.Ways
import WsPi5.Tcp.Listener

namespace WsPi5

open Lib

/-! ## Stages -/

/-- How far the pass has come with a way. -/
inductive Stage where
  | before | visited | polled
  deriving DecidableEq, Repr

def Phase.stage (i : Slot) : Phase → Stage
  | .recv | .timers _ => .before
  | .slots k => if i.val < k then .visited else .before
  | .events k => if i.val < k then .polled else .visited
  | .drain => .polled

theorem stage_between {p : Phase} (h : p.between = true) (i : Slot) : p.stage i = .before := by
  cases p with
  | recv | timers _ => rfl
  | slots _ | events _ | drain => cases h

section
variable {i j : Slot}

theorem stage_slotsFrom (hij : i ≠ j) :
    (Phase.slotsFrom (j.val + 1)).stage i = (Phase.slots j.val).stage i := by
  have hne : i.val ≠ j.val := fun h => hij (Fin.ext h)
  have hi := i.isLt
  unfold Phase.slotsFrom
  by_cases hlast : j.val + 1 < tcpMaxConns
  · rw [if_pos hlast]
    simp only [Phase.stage, show i.val < j.val + 1 ↔ i.val < j.val by omega]
  · rw [if_neg hlast]
    simp [Phase.stage, show i.val < j.val by omega]

theorem stage_slotsFrom_self (j : Slot) : (Phase.slotsFrom (j.val + 1)).stage j = .visited := by
  unfold Phase.slotsFrom
  split
  · simp [Phase.stage]
  · simp [Phase.stage]

theorem stage_eventsFrom (hij : i ≠ j) :
    (Phase.eventsFrom (j.val + 1)).stage i = (Phase.events j.val).stage i := by
  have hne : i.val ≠ j.val := fun h => hij (Fin.ext h)
  have hi := i.isLt
  unfold Phase.eventsFrom
  by_cases hlast : j.val + 1 < tcpMaxConns
  · rw [if_pos hlast]
    simp only [Phase.stage, show i.val < j.val + 1 ↔ i.val < j.val by omega]
  · rw [if_neg hlast]
    simp [Phase.stage, show i.val < j.val by omega]

theorem stage_eventsFrom_self (j : Slot) : (Phase.eventsFrom (j.val + 1)).stage j = .polled := by
  unfold Phase.eventsFrom
  split
  · simp [Phase.stage]
  · simp [Phase.stage]

end

/-! ## The invariant of a way -/

/-- What may be queued in the upper ring for a way in this phase. -/
def Phase.allows (i : Slot) (o : OState) : Phase → OEvt → Prop
  | .slots k, e => i.val < k ∧ e = .respReady
  | .events _, e => e = .respReady ∨ (e = .tcpClosed ∧ o ≠ .idle)
  | _, _ => True

structure WayInv (i : Slot) (s : Server) : Prop where
  ready : (i, OEvt.respReady) ∈ s.fsa.hi →
    s.fsa.ostate i = .idle ∧ (s.http i).req.state = .sending
  upper : ∀ e, (i, e) ∈ s.fsa.hi → s.phase.allows i (s.fsa.ostate i) e
  lower : ∀ k e, s.phase = .slots k → (i, e) ∉ s.fsa.lo
  busy : s.fsa.ostate i ≠ .idle → (s.http i).req.state = .sending ∨
    (s.phase.stage i = .visited ∧ (s.tcp.conn i).state ≠ .established) ∨
    (s.phase.stage i = .polled ∧ (i, OEvt.tcpClosed) ∈ s.fsa.hi)

/-- The way of the listening socket: nothing happens on it. -/
structure Silent (s : Server) : Prop where
  listening : Listening 0 s.tcp
  ostate : s.fsa.ostate 0 = .idle
  queued : ∀ e, (0, e) ∉ s.fsa.hi ∧ (0, e) ∉ s.fsa.lo

structure WaysOk (s : Server) : Prop where
  queues : QueuesRest s
  silent : Silent s
  ways : ∀ i, WayInv i s

/-! ## Room in the upper ring -/

theorem hi_room {s : Server} (hq : s.fsa.Ok) (hs : ∀ e, (0, e) ∉ s.fsa.hi) {i : Slot}
    (hi0 : i ≠ 0) (hnew : ∀ e, (i, e) ∉ s.fsa.hi)
    (hone : ∀ j e e', (j, e) ∈ s.fsa.hi → (j, e') ∈ s.fsa.hi → e = e') :
    s.fsa.hi.length < fsaQueueRoom := by
  have hways : (s.fsa.hi.map Prod.fst).Nodup := by
    refine List.Nodup.map_on ?_ hq.upperOnce
    rintro ⟨j, e⟩ hmem ⟨j', e'⟩ hmem' heq
    obtain rfl : j = j' := heq
    rw [hone j e e' hmem hmem']
  have hall : (0 :: i :: s.fsa.hi.map Prod.fst).Nodup := by
    refine List.nodup_cons.mpr ⟨?_, List.nodup_cons.mpr ⟨?_, hways⟩⟩
    · intro hmem
      rcases List.mem_cons.mp hmem with h | h
      · exact hi0 h.symm
      · obtain ⟨⟨_, e⟩, hmem', rfl⟩ := List.mem_map.mp h
        exact hs e hmem'
    · intro hmem
      obtain ⟨⟨_, e⟩, hmem', rfl⟩ := List.mem_map.mp hmem
      exact hnew e hmem'
  have hcard := hall.length_le_card
  simp only [List.length_cons, List.length_map, Fintype.card_fin, tcpMaxConns] at hcard
  simp only [fsaQueueRoom]
  omega

theorem Fsa.mem_post_self {q : Fsa} (hq : q.Ok) (i : Slot) {e : OEvt} (he : e.hi = true)
    (hroom : (i, e) ∉ q.hi → q.hi.length < fsaQueueRoom) : (i, e) ∈ (q.post i e).hi := by
  unfold Fsa.post
  split
  next hpend =>
    rcases (hq.pending i e).mp hpend with h | h
    · exact h
    · have := hq.lower _ h
      rw [he] at this
      cases this
  next hpend =>
    have hout : (i, e) ∉ q.hi := fun h => hpend ((hq.pending i e).mpr (.inl h))
    rw [if_pos (hroom hout)]
    simp

theorem Fsa.post_mem_hi {q : Fsa} {i j : Slot} {e e' : OEvt} (h : (j, e') ∈ q.hi) :
    (j, e') ∈ (q.post i e).hi := by
  obtain hsame | ⟨_, hnew⟩ := q.post_hi i e
  · rw [hsame]
    exact h
  · rw [hnew]
    exact List.mem_append_left _ h

/-! ## What a visit decides -/

section
variable {env : HttpEnv} {v : Visit} {r r' : Req} {page : Page}

theorem pollSlot_sending (env : HttpEnv) (v : Visit) (h : r.state = .sending) : pollSlot env v r = .stay r ∨
    (v.tcp ≠ .established ∧ pollSlot env v r = .stay { r with state := .idle }) := by
  unfold pollSlot
  split
  next => rw [h]; exact .inl rfl
  next hest =>
    unfold skipOrReset
    split
    · exact .inl rfl
    · exact .inr ⟨hest, rfl⟩

/-- An answer is given on an ESTABLISHED connection, and not while one is being sent. -/
theorem pollSlot_answer (h : pollSlot env v r = .answer r' page) :
    v.tcp = .established ∧ r.state ≠ .sending := by
  refine ⟨?_, fun hs => ?_⟩
  · unfold pollSlot at h
    split at h
    next hest => exact hest
    next =>
      unfold skipOrReset at h
      split at h
      · split at h <;> cases h
      · cases h
  · obtain hstay | ⟨_, hstay⟩ := pollSlot_sending env v hs <;>
      rw [hstay] at h <;> cases h

end

/-! ## Steps elsewhere -/

section
variable {i j : Slot} {s s' : Server}

theorem WayInv.beside (h : WayInv i s) (hb : Beside i s s') {p : Phase}
    (hstage : p.stage i = s.phase.stage i)
    (hupper : ∀ e, s.phase.allows i (s.fsa.ostate i) e → p.allows i (s.fsa.ostate i) e)
    (hlower : ∀ k, p = .slots k → ∃ k', s.phase = .slots k') :
    WayInv i { s' with phase := p } where
  ready := by
    simp only [hb.hi, hb.ostate, hb.http]
    exact h.ready
  upper := by
    simp only [hb.hi, hb.ostate]
    exact fun e he => hupper e (h.upper e he)
  lower := by
    intro k e hk
    obtain ⟨k', hk'⟩ := hlower k hk
    simp only [hb.lo]
    exact h.lower k' e hk'
  busy := by
    simp only [hb.ostate, hb.http, hb.hi, hb.conn, hstage]
    exact h.busy

theorem WayInv.visit_beside (h : WayInv i s) (hij : i ≠ j) (hph : s.phase = .slots j.val)
    (hb : Beside i s s') : WayInv i { s' with phase := .slotsFrom (j.val + 1) } := by
  have hne : i.val ≠ j.val := fun heq => hij (Fin.ext heq)
  refine h.beside hb (by rw [hph]; exact stage_slotsFrom hij) ?_ (fun _ _ => ⟨_, hph⟩)
  intro e he
  rw [hph] at he
  obtain ⟨hlt, rfl⟩ := he
  unfold Phase.slotsFrom
  split
  · exact ⟨by omega, rfl⟩
  · exact .inl rfl

theorem WayInv.event_beside (h : WayInv i s) (hij : i ≠ j) (hph : s.phase = .events j.val)
    (hb : Beside i s s') : WayInv i { s' with phase := .eventsFrom (j.val + 1) } := by
  refine h.beside hb (by rw [hph]; exact stage_eventsFrom hij) ?_ ?_
  · intro e he
    rw [hph] at he
    unfold Phase.eventsFrom
    split
    · exact he
    · trivial
  · intro k hk
    unfold Phase.eventsFrom at hk
    split at hk <;> cases hk

theorem WayInv.of_between (hsend : s.fsa.ostate i ≠ .idle → (s.http i).req.state = .sending)
    (hq : s.fsa.hi = [] ∧ s.fsa.lo = []) : WayInv i s where
  ready := fun h => by rw [hq.1] at h; cases h
  upper := fun e h => by rw [hq.1] at h; cases h
  lower := fun k e _ h => by rw [hq.2] at h; cases h
  busy := fun h => .inl (hsend h)

theorem WayInv.sending_between (h : WayInv i s) (hb : s.phase.between = true)
    (ho : s.fsa.ostate i ≠ .idle) : (s.http i).req.state = .sending := by
  have hstage := stage_between hb i
  rcases h.busy ho with h₁ | ⟨h₂, _⟩ | ⟨h₃, _⟩
  · exact h₁
  · rw [hstage] at h₂
    cases h₂
  · rw [hstage] at h₃
    cases h₃

/-! ## Its own steps -/

theorem WayInv.unqueued (h : WayInv i s) (hph : s.phase = .slots i.val) (e : OEvt) :
    (i, e) ∉ s.fsa.hi := by
  intro hmem
  have hallow := h.upper e hmem
  rw [hph] at hallow
  exact absurd hallow.1 (by omega)

theorem WayInv.sending_before (h : WayInv i s) (hph : s.phase = .slots i.val)
    (ho : s.fsa.ostate i ≠ .idle) : (s.http i).req.state = .sending := by
  have hstage : s.phase.stage i = .before := by
    rw [hph]
    simp [Phase.stage]
  rcases h.busy ho with h₁ | ⟨h₂, _⟩ | ⟨h₃, _⟩
  · exact h₁
  · rw [hstage] at h₂
    cases h₂
  · rw [hstage] at h₃
    cases h₃

theorem noteVisit_fields (s : Server) (i : Slot) (start now : Tick) :
    (s.noteVisit i start now).fsa = s.fsa ∧ (s.noteVisit i start now).http = s.http ∧
      (s.noteVisit i start now).tcp = s.tcp ∧ (s.noteVisit i start now).mem = s.mem := by
  unfold Server.noteVisit
  split <;> exact ⟨rfl, rfl, rfl, rfl⟩

theorem WayInv.visit_own (h : WayInv i s) (hph : s.phase = .slots i.val) (env : HttpEnv)
    (start now : Tick) (out : HandlerOut) :
    WayInv i { visitSlot env i s start now out with phase := .slotsFrom (i.val + 1) } := by
  obtain ⟨hnf, hnh, hnt, _⟩ := noteVisit_fields s i start now
  have hnone := h.unqueued hph
  have hlow : ∀ e, (i, e) ∉ s.fsa.lo := fun e => h.lower _ e hph
  -- a visit that does more than stay finds the output idle
  have hidle : (∀ r, pollSlot env (s.visit i start now) (s.http i).req ≠ .stay r) →
      s.fsa.ostate i = .idle := by
    intro hno
    by_contra ho
    obtain hstay | ⟨_, hstay⟩ := pollSlot_sending env (s.visit i start now) (h.sending_before hph ho)
    · exact hno _ hstay
    · exact hno _ hstay
  unfold visitSlot
  dsimp only
  split
  · rename_i r hpoll
    refine ⟨fun hmem => ?_, fun e hmem => ?_, fun k e _ => ?_, fun ho => ?_⟩
    · simp only [Server.setReq_fsa, hnf] at hmem
      exact absurd hmem (hnone _)
    · simp only [Server.setReq_fsa, hnf] at hmem
      exact absurd hmem (hnone _)
    · simp only [Server.setReq_fsa, hnf]
      exact hlow e
    · simp only [Server.setReq_fsa, hnf] at ho
      have hsend := h.sending_before hph ho
      obtain hstay | ⟨hest, hstay⟩ := pollSlot_sending env (s.visit i start now) hsend
      · rw [hstay] at hpoll
        cases hpoll
        exact .inl (by simpa using hsend)
      · refine .inr (.inl ⟨stage_slotsFrom_self i, ?_⟩)
        simp only [Server.setReq_tcp, hnt]
        exact hest
  · rename_i r hpoll
    have ho := hidle (by rw [hpoll]; simp)
    refine ⟨fun hmem => ?_, fun e hmem => ?_, fun k e _ => ?_, fun hbusy => ?_⟩
    · simp only [Server.setReq_fsa, Server.tcpClose, hnf] at hmem
      exact absurd hmem (hnone _)
    · simp only [Server.setReq_fsa, Server.tcpClose, hnf] at hmem
      exact absurd hmem (hnone _)
    · simp only [Server.setReq_fsa, Server.tcpClose, hnf]
      exact hlow e
    · simp only [Server.setReq_fsa, Server.tcpClose, hnf] at hbusy
      exact absurd ho hbusy
  · rename_i r page hpoll
    have ho := hidle (by rw [hpoll]; simp)
    unfold answerSlot
    dsimp only
    refine ⟨fun _ => ?_, fun e hmem => ?_, fun k e _ hmem => ?_, fun _ => ?_⟩
    · simp [hnf, ho]
    · simp only [Server.post_fsa, Server.observe_fsa, Server.setHttp_fsa, hnf] at hmem
      rcases Fsa.mem_post_hi hmem with hold | ⟨_, rfl, _⟩
      · exact absurd hold (hnone _)
      · unfold Phase.slotsFrom
        split
        · exact ⟨by omega, rfl⟩
        · exact .inl rfl
    · simp only [Server.post_fsa, Server.observe_fsa, Server.setHttp_fsa, hnf] at hmem
      rcases Fsa.mem_post_lo hmem with hold | ⟨_, _, hlo⟩
      · exact hlow e hold
      · cases hlo
    · exact .inl (by simp)

theorem WayInv.one_event (h : WayInv i s) {k : Nat} (hph : s.phase = .events k) {e e' : OEvt}
    (he : (i, e) ∈ s.fsa.hi) (he' : (i, e') ∈ s.fsa.hi) : e = e' := by
  have h₁ := h.upper e he
  have h₂ := h.upper e' he'
  rw [hph] at h₁ h₂
  rcases h₁ with rfl | ⟨rfl, hbusy⟩ <;> rcases h₂ with rfl | ⟨rfl, hbusy'⟩
  · rfl
  · exact absurd (h.ready he).1 hbusy'
  · exact absurd (h.ready he').1 hbusy
  · rfl

theorem WaysOk.closed_queued (h : WaysOk s) (hph : s.phase = .events i.val)
    (ho : s.fsa.ostate i ≠ .idle) : (i, OEvt.tcpClosed) ∈ (s.fsa.post i .tcpClosed).hi := by
  refine Fsa.mem_post_self h.queues.ok i rfl fun hnew => ?_
  refine hi_room h.queues.ok (fun e => (h.silent.queued e).1) ?_ ?_ ?_ (i := i)
  · rintro rfl
    exact ho h.silent.ostate
  · intro e hmem
    have hallow := (h.ways i).upper e hmem
    rw [hph] at hallow
    rcases hallow with rfl | ⟨rfl, _⟩
    · exact ho ((h.ways i).ready hmem).1
    · exact hnew hmem
  · intro j e e'
    exact (h.ways j).one_event hph

theorem WayInv.event_own (h : WaysOk s) (hph : s.phase = .events i.val) :
    WayInv i { httpFsaPollTcpEvents i s with phase := .eventsFrom (i.val + 1) } := by
  have hi := h.ways i
  have hstage : s.phase.stage i = .visited := by
    rw [hph]
    simp [Phase.stage]
  have hfrom : ∀ k, Phase.eventsFrom (i.val + 1) ≠ .slots k := by
    intro k hk
    unfold Phase.eventsFrom at hk
    split at hk <;> cases hk
  have hallows : ∀ {o e}, (Phase.events i.val).allows i o e →
      (Phase.eventsFrom (i.val + 1)).allows i o e := by
    intro o e he
    unfold Phase.eventsFrom
    split
    · exact he
    · trivial
  -- an event for an ESTABLISHED connection is of the lower ring, if any
  have keep : ∀ {s' : Server}, s'.http = s.http → s'.fsa.ostate = s.fsa.ostate →
      s'.fsa.hi = s.fsa.hi → (s.fsa.ostate i ≠ .idle → (s.http i).req.state = .sending) →
      WayInv i { s' with phase := .eventsFrom (i.val + 1) } := by
    intro s' hhttp host hhi hsend
    refine ⟨?_, ?_, fun k e hk => absurd hk (hfrom k), ?_⟩
    · rw [hhi, host, hhttp]
      exact hi.ready
    · intro e hmem
      rw [hhi] at hmem
      have := hi.upper e hmem
      rw [hph] at this
      rw [host]
      exact hallows this
    · rw [host, hhttp]
      exact fun ho => .inl (hsend ho)
  have lowPost : ∀ {e : OEvt}, e.hi = false → (s.fsa.post i e).hi = s.fsa.hi := by
    intro e he
    obtain hsame | ⟨hhi, _⟩ := s.fsa.post_hi i e
    · exact hsame
    · rw [he] at hhi
      cases hhi
  -- while the connection is ESTABLISHED the record says SENDING
  have sending : (s.tcp.conn i).state = .established → s.fsa.ostate i ≠ .idle →
      (s.http i).req.state = .sending := by
    intro hest ho
    rcases hi.busy ho with h₁ | ⟨_, h₂⟩ | ⟨h₃, _⟩
    · exact h₁
    · exact absurd hest h₂
    · rw [hstage] at h₃
      cases h₃
  by_cases hlost : s.fsa.ostate i ≠ .idle ∧ (s.tcp.conn i).state ≠ .established
  · obtain ⟨ho, hest⟩ := hlost
    rw [pollEvent_closed ho hest]
    refine ⟨fun hmem => ?_, fun e hmem => ?_, fun k e hk => absurd hk (hfrom k), fun _ => ?_⟩
    · rcases Fsa.mem_post_hi hmem with hold | ⟨_, hnew, _⟩
      · simpa using hi.ready hold
      · cases hnew
    · rcases Fsa.mem_post_hi hmem with hold | ⟨_, rfl, _⟩
      · have := hi.upper e hold
        rw [hph] at this
        simpa using hallows this
      · exact hallows (.inr ⟨rfl, by simpa using ho⟩)
    · exact .inr (.inr ⟨stage_eventsFrom_self i, h.closed_queued hph ho⟩)
  · have hsend : s.fsa.ostate i ≠ .idle → (s.http i).req.state = .sending := by
      intro ho
      refine sending ?_ ho
      by_contra hest
      exact hlost ⟨ho, hest⟩
    obtain heq | ⟨_, e, he, heq⟩ | ⟨ho, hest, _⟩ := pollEvent_cases i s
    · rw [heq]
      exact keep rfl rfl rfl hsend
    · rw [heq]
      exact keep rfl (by simp) (lowPost (by rcases he with rfl | rfl <;> rfl)) hsend
    · exact absurd ⟨ho, hest⟩ hlost

/-- The table leads away from O_IDLE on E_RESP_READY only, back to it on E_TCP_CLOSED, and lets
go of the record only there. -/
theorem table_busy {st o : OState} {e : OEvt} {hd : OHandler}
    (h : httpFsaTransTable st e = some (o, hd)) :
    (st = .idle → e = .respReady) ∧ (o ≠ .idle → e ≠ .tcpClosed) ∧
      (o ≠ .idle → hd ≠ .reset ∧ hd ≠ .close ∧ hd ≠ .keepalive) := by
  cases st <;> cases e <;> simp only [httpFsaTransTable, Option.some.injEq, Prod.mk.injEq,
    reduceCtorEq] at h <;> obtain ⟨rfl, rfl⟩ := h <;> simp

theorem table_closed {st : OState} (h : st ≠ .idle) : httpFsaTransTable st .tcpClosed ≠ none := by
  cases st <;> simp [httpFsaTransTable] at h ⊢

theorem Fsa.Ok.next_absent {q q' : Fsa} {e : OEvt} (hq : q.Ok) (he : e.hi = true)
    (h : q.next = some (i, e, q')) : (i, e) ∈ q.hi ∧ (i, e) ∉ q'.hi := by
  rcases (Fsa.next_some h).2 with ⟨hhi, _⟩ | ⟨_, _, hlo⟩
  · have honce := hq.upperOnce
    rw [hhi] at honce ⊢
    exact ⟨List.mem_cons_self, (List.nodup_cons.mp honce).1⟩
  · have := hq.lower (i, e) (by rw [hlo]; exact List.mem_cons_self)
    rw [he] at this
    cases this

theorem Fsa.next_hi {q q' : Fsa} {e e' : OEvt} (h : q.next = some (i, e, q')) :
    ((j, e') ∈ q'.hi → (j, e') ∈ q.hi) ∧
      ((j, e') ∈ q.hi → (j, e') ≠ (i, e) → (j, e') ∈ q'.hi) := by
  rcases (Fsa.next_some h).2 with ⟨hhi, _⟩ | ⟨hhi, hhi', _⟩
  · rw [hhi]
    refine ⟨List.mem_cons_of_mem _, fun hmem hne => ?_⟩
    rcases List.mem_cons.mp hmem with heq | hmem
    · exact absurd heq hne
    · exact hmem
  · rw [hhi, hhi']
    exact ⟨id, fun h _ => h⟩

theorem WayInv.fsa_own {env : HttpEnv} {now : Tick} {e : OEvt} {q : Fsa} (h : WayInv i s)
    (hq : s.fsa.Ok) (hph : s.phase = .drain) (hstep : httpFsaStep env now s = some s')
    (hnext : s.fsa.next = some (i, e, q)) : WayInv i s' := by
  have hph' : s'.phase = .drain := (httpFsaStep_phase hstep).trans hph
  have hbusy : s.fsa.ostate i ≠ .idle → (s.http i).req.state = .sending ∨
      (i, OEvt.tcpClosed) ∈ s.fsa.hi := by
    intro ho
    rcases h.busy ho with h₁ | ⟨h₂, _⟩ | ⟨_, h₃⟩
    · exact .inl h₁
    · rw [hph] at h₂
      cases h₂
    · exact .inr h₃
  have host := (Fsa.next_some hnext).1
  have hupper : ∀ e', (i, e') ∈ s'.fsa.hi → s'.phase.allows i (s'.fsa.ostate i) e' := by
    rw [hph']
    exact fun _ _ => trivial
  have hlower : ∀ k e', s'.phase = .slots k → (i, e') ∉ s'.fsa.lo := by
    rw [hph']
    exact fun _ _ hk => by cases hk
  obtain ⟨htab, rfl⟩ | ⟨o, hd, htab, rfl⟩ := httpFsaStep_taken hstep hnext
  · refine ⟨fun hmem => ?_, hupper, hlower, fun ho => ?_⟩
    · simpa [host] using h.ready ((Fsa.next_hi hnext).1 hmem)
    · simp only [host] at ho
      rcases hbusy ho with hsend | hclosed
      · exact .inl hsend
      · refine .inr (.inr ⟨by rw [hph']; rfl, (Fsa.next_hi hnext).2 hclosed ?_⟩)
        rintro heq
        cases heq
        exact table_closed ho htab
  · obtain ⟨hfrom, hclosed, hkeep⟩ := table_busy htab
    obtain hcall := OHandler.call_fsa env now i { s with fsa := q } hd
    -- what is queued for the way after the handler
    have hready : (i, OEvt.respReady) ∈ (hd.call env now i { s with fsa := q }).fsa.hi →
        (i, OEvt.respReady) ∈ q.hi := by
      intro hmem
      obtain hsame | ⟨e'', hne, hpost⟩ := hcall
      · rwa [hsame] at hmem
      · rw [hpost] at hmem
        rcases Fsa.mem_post_hi hmem with hold | ⟨_, hnew, _⟩
        · exact hold
        · exact absurd hnew.symm hne
    refine ⟨fun hmem => ?_, hupper, hlower, fun ho => ?_⟩
    · -- it was queued before, so the way was idle, and this was the event taken
      have hold := hready hmem
      have hidle := (h.ready ((Fsa.next_hi hnext).1 hold)).1
      have he := hfrom hidle
      subst he
      exact absurd hold (hq.next_absent rfl hnext).2
    · have ho' : o ≠ .idle := by simpa using ho
      have hreq := OHandler.call_req env now i { s with fsa := q } (hkeep ho')
      by_cases hidle : s.fsa.ostate i = .idle
      · have he := hfrom hidle
        subst he
        refine .inl ?_
        show ((hd.call env now i { s with fsa := q }).http i).req.state = .sending
        rw [hreq]
        exact (h.ready (hq.next_absent rfl hnext).1).2
      · rcases hbusy hidle with hsend | hmem
        · refine .inl ?_
          show ((hd.call env now i { s with fsa := q }).http i).req.state = .sending
          rw [hreq]
          exact hsend
        · refine .inr (.inr ⟨by rw [hph']; rfl, ?_⟩)
          have hmem' : (i, OEvt.tcpClosed) ∈ q.hi := by
            refine (Fsa.next_hi hnext).2 hmem ?_
            rintro heq
            cases heq
            exact hclosed ho' rfl
          show (i, OEvt.tcpClosed) ∈ (hd.call env now i { s with fsa := q }).fsa.hi
          obtain hsame | ⟨e'', _, hpost⟩ := hcall
          · rw [hsame]
            exact hmem'
          · rw [hpost]
            exact Fsa.post_mem_hi hmem'

end

/-! ## The way of the listening socket -/

section
variable {s s' : Server} {i j : Slot}

theorem visitSlot_timers (h : noTimewait i s.tcp.pool) (env : HttpEnv) (j : Slot)
    (start now : Tick) (out : HandlerOut) :
    noTimewait i (visitSlot env j s start now out).tcp.pool := by
  have hnote : noTimewait i (s.noteVisit j start now).tcp.pool := by
    rw [(noteVisit_fields s j start now).2.2.1]
    exact h
  unfold visitSlot
  dsimp only
  split
  · exact hnote
  · refine hnote.arms ?_
    apply Arms.close (allButTimewait_ne i)
    exact .refl _ _
  · refine hnote.arms ?_
    apply Arms.consume
    exact .refl _ _

theorem OHandler.call_timers (h : noTimewait i s.tcp.pool) (env : HttpEnv) (now : Tick) (j : Slot)
    (hd : OHandler) : noTimewait i (hd.call env now j s).tcp.pool := by
  cases hd with
  | send =>
      simp only [OHandler.call, hSend]
      split
      · split
        · exact h
        split
        · exact h
        split
        · exact h
        next l _ hsend =>
          have hl : (tcpSend env.tcp now j _ (s.tcp.at j)).1 = l := congrArg Prod.fst hsend
          show noTimewait i l.pool
          rw [← hl]
          refine h.arms ?_
          apply Arms.send (allButTimewait_ne i)
          exact .refl _ _
      · exact h
  | close =>
      refine h.arms ?_
      apply Arms.close (allButTimewait_ne i)
      exact .refl _ _
  | _ => exact h

theorem Silent.beside (h : Silent s) (hb : Beside 0 s s') (hp : noTimewait 0 s'.tcp.pool) :
    Silent s' where
  listening := ⟨by rw [hb.conn]; exact h.listening.state, hp⟩
  ostate := by rw [hb.ostate]; exact h.ostate
  queued := fun e => by
    rw [hb.hi, hb.lo]
    exact h.queued e

theorem Silent.visit (h : Silent s) (env : HttpEnv) (j : Slot) (start now : Tick)
    (out : HandlerOut) : Silent (visitSlot env j s start now out) := by
  have hp := visitSlot_timers h.listening.timers env j start now out
  by_cases hj : 0 = j
  · subst hj
    obtain ⟨hnf, _, hnt, _⟩ := noteVisit_fields s 0 start now
    have hpoll : pollSlot env (s.visit 0 start now) (s.http 0).req
        = .stay { (s.http 0).req with state := .idle } := by
      have hv : (s.visit 0 start now).tcp = .listen := h.listening.state
      simp [pollSlot, skipOrReset, hv]
    unfold visitSlot
    rw [hpoll]
    refine ⟨?_, ?_, ?_⟩
    · simp only [Server.setReq_tcp, hnt]
      exact h.listening
    · simp only [Server.setReq_fsa, hnf]
      exact h.ostate
    · simp only [Server.setReq_fsa, hnf]
      exact h.queued
  · exact h.beside (.visitSlot hj env s start now out) hp

theorem Silent.event (h : Silent s) (j : Slot) : Silent (httpFsaPollTcpEvents j s) := by
  have htcp : (httpFsaPollTcpEvents j s).tcp = s.tcp := by
    obtain heq | ⟨_, e, _, heq⟩ | ⟨_, _, heq⟩ := pollEvent_cases j s <;> rw [heq] <;> rfl
  by_cases hj : 0 = j
  · subst hj
    have hsame : httpFsaPollTcpEvents 0 s = s := by
      unfold httpFsaPollTcpEvents
      rw [h.ostate]
    rw [hsame]
    exact h
  · exact h.beside (.pollEvent hj s) (by rw [htcp]; exact h.listening.timers)

theorem Silent.fsa {env : HttpEnv} {now : Tick} (h : Silent s)
    (hstep : httpFsaStep env now s = some s') : Silent s' := by
  obtain ⟨j, e, q, hnext, hcase⟩ := httpFsaStep_cases hstep
  have hj : 0 ≠ j := by
    rintro rfl
    rcases (Fsa.next_some hnext).2 with ⟨hhi, _⟩ | ⟨_, _, hlo⟩
    · exact (h.queued e).1 (by rw [hhi]; exact List.mem_cons_self)
    · exact (h.queued e).2 (by rw [hlo]; exact List.mem_cons_self)
  refine h.beside (.fsaStep hj hstep hnext) ?_
  obtain ⟨_, rfl⟩ | ⟨o, hd, _, rfl⟩ := hcase
  · exact h.listening.timers
  · show noTimewait 0 (hd.call env now j { s with fsa := q }).tcp.pool
    apply OHandler.call_timers
    exact h.listening.timers

end

/-! ## Every reachable state -/

theorem waysOk_init (env : HttpEnv) (cap : PoolCap) (now : Tick) (mem : Nat → Byte) :
    WaysOk (serverInit env cap now mem) where
  queues := queuesRest_init env cap now mem
  silent := by
    refine ⟨⟨?_, ?_⟩, rfl, fun e => ⟨by simp [serverInit], by simp [serverInit]⟩⟩
    · rw [serverInit_conn]
      rfl
    · refine noTimewait.arms ?_ (Arms.startReaper (allButTimewait_ne 0) (.refl _ _) ..)
      have hpool : (tcpListen 80 (tcpInit cap)).pool = timerPoolInit Callback cap := by
        unfold tcpListen
        split <;> rfl
      rw [hpool]
      intro k x
      simp [timerPoolInit]
  ways := fun i => .of_between (fun h => absurd rfl h) ⟨rfl, rfl⟩

theorem waysOk_step {env : HttpEnv} {s s' : Server} {inp : Input} (h : WaysOk s)
    (hst : serverStep env s inp = some s') : WaysOk s' := by
  have hq := queuesRest_step h.queues hst
  cases serverStep_act hst with
  | net hph _ _ _ _ ht =>
      refine ⟨hq, ⟨(h.silent.listening.step ht).1, h.silent.ostate, h.silent.queued⟩, fun i => ?_⟩
      exact .of_between ((h.ways i).sending_between hph) (h.queues.rest hph)
  | idle hph =>
      have hb : s.phase.between = true := by rw [hph]; rfl
      refine ⟨hq, ⟨h.silent.listening, h.silent.ostate, h.silent.queued⟩, fun i => ?_⟩
      exact .of_between ((h.ways i).sending_between hb) (h.queues.rest hb)
  | date hph =>
      have hb : s.phase.between = true := by rw [hph]; rfl
      refine ⟨hq, ⟨h.silent.listening, h.silent.ostate, h.silent.queued⟩, fun i => ?_⟩
      exact .of_between ((h.ways i).sending_between hb) (h.queues.rest hb)
  | @visit j start now out hph =>
      have hsilent := h.silent.visit env j start now out
      refine ⟨hq, ⟨hsilent.listening, hsilent.ostate, hsilent.queued⟩, fun i => ?_⟩
      by_cases hij : i = j
      · subst hij
        exact (h.ways i).visit_own hph env start now out
      · exact (h.ways i).visit_beside hij hph (.visitSlot hij env s start now out)
  | @event j hph =>
      have hsilent := h.silent.event j
      refine ⟨hq, ⟨hsilent.listening, hsilent.ostate, hsilent.queued⟩, fun i => ?_⟩
      by_cases hij : i = j
      · subst hij
        exact WayInv.event_own h hph
      · exact (h.ways i).event_beside hij hph (.pollEvent hij s)
  | fsa hph hstep =>
      refine ⟨hq, h.silent.fsa hstep, fun i => ?_⟩
      obtain ⟨j, e, q, hnext, _⟩ := httpFsaStep_cases hstep
      by_cases hij : i = j
      · subst hij
        exact (h.ways i).fsa_own h.queues.ok hph hstep hnext
      · have hph' := httpFsaStep_phase hstep
        have hb := (h.ways i).beside (.fsaStep hij hstep hnext) rfl (fun _ he => he)
          (fun k hk => ⟨k, hk⟩)
        rwa [← hph'] at hb
  | drained hph hidle =>
      have hempty := httpFsaStep_none hidle
      refine ⟨hq, ⟨h.silent.listening, h.silent.ostate, h.silent.queued⟩, fun i => ?_⟩
      refine .of_between (fun ho => ?_) hempty
      rcases (h.ways i).busy ho with h₁ | ⟨h₂, _⟩ | ⟨_, h₃⟩
      · exact h₁
      · rw [hph] at h₂
        cases h₂
      · rw [hempty.1] at h₃
        cases h₃

/-- **The two tables agree in every reachable state.** -/
theorem waysOk_reachable {env : HttpEnv} {cap : PoolCap} {now : Tick} {mem : Nat → Byte} {s : Server}
    {ok : Server → Input → Prop} (h : Run (serverStep env) ok (serverInit env cap now mem) s) :
    WaysOk s :=
  h.invariant (waysOk_init env cap now mem) fun ht _ hst => waysOk_step ht hst

end WsPi5
