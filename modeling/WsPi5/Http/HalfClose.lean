/-
# `WsPi5.Http.HalfClose` — a peer that closes its side while it waits for an answer

A FIN takes an ESTABLISHED connection to CLOSE_WAIT.  Four places decide what becomes of the
response then, and none of them sends any more of it:

    http_poll, .Lhp_not_estab    answers nobody, and closes what is not SENDING
    http_fsa_poll_tcp_events     posts E_TCP_CLOSED for a way that is sending
    h_reset                      lets go of the record
    tcp_send                     accepts nothing outside ESTABLISHED

So of what the server owes when it has taken the FIN (`owed`), the rest of the response that is
being sent and the response to the request that waits behind it, not a byte is handed over: a
peer gets its response only if `tcp_send` had accepted all of it before (`half_close_iff`).
-/
import WsPi5.Http.ConnHeader

namespace WsPi5

open Lib

/-! ## What is owed -/

/-- The record with which the next request is read. -/
def Req.next (r : Req) : Req := if r.state = .sending then r.keepalive else r

section
variable (env : HttpEnv) (i : Slot) (s : Server) (start now : Tick) (out : HandlerOut)

/-- What a poll at this time would do with the next request, if the connection were ESTABLISHED. -/
def nextVerdict : Verdict :=
  pollSlot env { s.visit i start now with tcp := .established } (s.http i).req.next

/-- The connection goes on after the response that is being sent. -/
def goesOn : Prop := (s.http i).req.state = .sending → (s.http i).req.flags.closes = false

instance decGoesOn : Decidable (goesOn i s) := inferInstanceAs (Decidable (_ → _))

/-- The rest of the response that is being sent. -/
def owedRest : List Byte :=
  if (s.http i).req.state = .sending then
    ((s.http i).resp.whole (s.http i).req.flags.head s.mem).drop (s.http i).resp.respPtr
  else []

/-- The response to a complete and valid request in the receive buffer. -/
def owedNext : List Byte :=
  if goesOn i s then
    match nextVerdict env i s start now with
    | .answer r page =>
        if r.status = .bad400 then []
        else
          let p := setupPage env i s out r.flags page
          p.2.whole r.flags.head p.1
    | _ => []
  else []

def owed : List Byte := owedRest i s ++ owedNext env i s start now out

/-- A response is being sent, and RESP_PTR has not reached its end. -/
def Unsent : Prop :=
  (s.http i).req.state = .sending ∧ (s.http i).resp.respPtr < (s.http i).resp.respLen

/-- A complete and valid request waits, and its response is not empty. -/
def Waits : Prop :=
  goesOn i s ∧ ∃ r page, nextVerdict env i s start now = .answer r page ∧ r.status ≠ .bad400 ∧
    0 < (setupPage env i s out r.flags page).2.respLen

end

/-! ## RESP_LEN -/

/-- RESP_LEN is the length of header and body. -/
def LenOk (i : Slot) (s : Server) : Prop :=
  (s.http i).req.state = .sending → (s.http i).resp.respLen
    = ((s.http i).resp.whole (s.http i).req.flags.head s.mem).length

theorem Resp.whole_length (r : Resp) (head : Bool) (mem : Nat → Byte) :
    (r.whole head mem).length = r.hdrLen + if head then 0 else r.bodyLen := by
  cases head <;> simp [whole]

section
variable {env : HttpEnv} {i : Slot} {s s' : Server}

theorem lenOk_step {inp : Input} (h : LenOk i s) (hst : serverStep env s inp = some s') :
    LenOk i s' := by
  intro hsend'
  obtain hkeep | ⟨start, now, out, r, page, rfl, hph, hpoll⟩ := record_step hst hsend'
  · have hext := hkeep.extent
    simp only [Resp.extent, Resp.source, Prod.mk.injEq] at hext
    obtain ⟨⟨_, hhdr, _, hbody⟩, hlen⟩ := hext
    rw [Resp.whole_length, hlen, hkeep.req, hhdr, hbody, h hkeep.sending, Resp.whole_length]
  · have hi : i.val < tcpMaxConns := i.isLt
    simp only [serverStep, hph, hi, dif_pos, Fin.eta, visitSlot, hpoll, Option.some.injEq] at hst
    have hhttp : s'.http i = ⟨{ r with state := .sending },
        (setupPage env i (s.noteVisit i start now) out r.flags page).2⟩ := by
      rw [← hst]
      simp [answerSlot]
    rw [hhttp, setupPage_whole, Resp.whole_length, Resp.whole_length]

theorem owed_nil (h : LenOk i s) (start now : Tick) (out : HandlerOut) :
    owed env i s start now out = [] ↔ ¬ (Unsent i s ∨ Waits env i s start now out) := by
  have hrest : owedRest i s = [] ↔ ¬ Unsent i s := by
    unfold owedRest Unsent
    split
    next hsend =>
      rw [List.drop_eq_nil_iff, ← h hsend]
      simp [hsend]
    next hsend => simp [hsend]
  have hnext : owedNext env i s start now out = [] ↔ ¬ Waits env i s start now out := by
    unfold owedNext Waits
    by_cases hgo : goesOn i s
    · rw [if_pos hgo]
      cases hverdict : nextVerdict env i s start now with
      | stay _ | close _ => simp
      | answer r page =>
          dsimp only
          split
          next h400 => simp [h400]
          next h400 =>
            rw [← List.length_eq_zero_iff, ← setupPage_whole]
            constructor
            · rintro hlen ⟨_, r', page', heq, _, hpos⟩
              cases heq
              omega
            · intro hno
              by_contra hlen
              exact hno ⟨hgo, r, page, rfl, h400, Nat.pos_of_ne_zero hlen⟩
    · simp [hgo]
  rw [owed, List.append_eq_nil_iff, hrest, hnext, not_or]

/-! ## No way back -/

/-- What a call does to the connection in slot `i`: it stays the one it was, and if it is neither
ESTABLISHED nor about to be, then it stays so and nothing is accepted. -/
structure Shut (i : Slot) (t t' : Tcp) : Prop where
  epoch : epoch i t'.log = epoch i t.log
  state : (t.conn i).state ≠ .established → (t.conn i).state ≠ .synRcvd →
    (t'.conn i).state ≠ .established ∧ (t'.conn i).state ≠ .synRcvd ∧
      sentBytes i t'.log = sentBytes i t.log

theorem Shut.refl (i : Slot) (t : Tcp) : Shut i t t := ⟨rfl, fun h₁ h₂ => ⟨h₁, h₂, rfl⟩⟩

theorem Shut.of_beside (h : Beside i s s') : Shut i s.tcp s'.tcp := by
  obtain ⟨hep, hsent⟩ := beside_onlyAgain h.tcpLog
  refine ⟨hep, fun h₁ h₂ => ?_⟩
  rw [h.conn]
  exact ⟨h₁, h₂, hsent⟩

theorem Shut.tcpClose (env : HttpEnv) (now : Tick) (i : Slot) (s : Server) :
    Shut i s.tcp (s.tcpClose env now i).tcp := by
  refine ⟨tcpClose_epoch env.tcp now i (s.tcp.at i), fun _ hsyn => ?_⟩
  have hest := tcpClose_state env.tcp now i (s.tcp.at i)
  have hsyn' : (WsPi5.tcpClose env.tcp now i (s.tcp.at i)).1.conn.state ≠ .synRcvd := by
    unfold WsPi5.tcpClose
    dsimp only
    split
    · exact hsyn
    next st hnext =>
      simp only [tcpRtxSave, tcpRtxArm_state]
      revert hnext
      split <;> rintro hnext <;> cases hnext <;> simp
  refine ⟨?_, ?_, tcpClose_sentBytes env.tcp now i (s.tcp.at i)⟩
  · simpa [Server.tcpClose] using hest
  · simpa [Server.tcpClose] using hsyn'

theorem Shut.visit (env : HttpEnv) (i : Slot) (s : Server) (start now : Tick) (out : HandlerOut) :
    Shut i s.tcp (visitSlot env i s start now out).tcp := by
  have hnt := (noteVisit_fields s i start now).2.2.1
  unfold visitSlot
  cases hpoll : pollSlot env (s.visit i start now) (s.http i).req with
  | stay r =>
      dsimp only
      rw [Server.setReq_tcp, hnt]
      exact .refl i s.tcp
  | close r =>
      dsimp only
      rw [Server.setReq_tcp, ← hnt]
      exact .tcpClose env now i _
  | answer r page =>
      have hest : (s.tcp.conn i).state = .established := (pollSlot_answer hpoll).1
      refine ⟨?_, fun hno => absurd hest hno⟩
      show WsPi5.epoch i (tcpRxConsume i _ ((s.noteVisit i start now).tcp.at i)).log = _
      rw [tcpRxConsume_log, hnt]
      rfl

theorem Shut.call (env : HttpEnv) (now : Tick) (i : Slot) (s : Server) (hd : OHandler) :
    Shut i s.tcp (hd.call env now i s).tcp := by
  cases hd with
  | install | decide | noop | reset | keepalive => exact .refl i s.tcp
  | close => exact .tcpClose env now i s
  | send =>
      simp only [OHandler.call, hSend]
      split
      next hest =>
        split
        · exact .refl i s.tcp
        split
        · exact .refl i s.tcp
        split
        · exact .refl i s.tcp
        next l f hsend =>
          obtain ⟨_, _, hlog⟩ := tcpSend_log _ _ _ hsend
          refine ⟨?_, fun hno => absurd hest hno⟩
          show WsPi5.epoch i l.log = _
          rw [hlog]
          rfl
      next => exact .refl i s.tcp

/-- The slot's connection number `ep` has been left by ESTABLISHED, and had `sent` accepted. -/
structure Past (i : Slot) (ep : Nat) (sent : List Byte) (s : Server) : Prop where
  later : ep ≤ epoch i s.tcp.log
  shut : epoch i s.tcp.log = ep →
    (s.tcp.conn i).state ≠ .established ∧ (s.tcp.conn i).state ≠ .synRcvd
  sent : epoch i s.tcp.log = ep → sentBytes i s.tcp.log = sent

variable {ep : Nat} {sent : List Byte}

theorem Past.of_shut (h : Past i ep sent s) (hs : Shut i s.tcp s'.tcp) : Past i ep sent s' := by
  refine ⟨by rw [hs.epoch]; exact h.later, fun hep => ?_, fun hep => ?_⟩
  · rw [hs.epoch] at hep
    obtain ⟨h₁, h₂⟩ := h.shut hep
    exact ⟨(hs.state h₁ h₂).1, (hs.state h₁ h₂).2.1⟩
  · rw [hs.epoch] at hep
    obtain ⟨h₁, h₂⟩ := h.shut hep
    rw [(hs.state h₁ h₂).2.2]
    exact h.sent hep

theorem NetOpens.epoch {t t' : Tcp} {e : Event} (h : NetOpens i t t' e) :
    epoch i t'.log = epoch i t.log + 1 := by
  obtain ⟨syn, synAck, os, hlog, hne⟩ := h.log
  have hother : onlyAgain i (.opened i syn synAck :: t.log) t'.log :=
    ⟨os, hlog, fun o ho heq => absurd heq (hne o ho)⟩
  rw [hother.epoch]
  simp [WsPi5.epoch]

theorem Past.net {e : Event} {t : Tcp} {p : Phase} (h : Past i ep sent s)
    (hnet : e.call.net = true) (hlen : ∀ f, e.call = .rx f → f.payload.length ≤ maxPayload)
    (ht : step env.tcp s.tcp e = some t) : Past i ep sent { s.withTcp t with phase := p } := by
  rcases net_step ht hnet hlen i with hk | ho
  · have hshut : Shut i s.tcp t := by
      refine ⟨hk.log.epoch, fun h₁ h₂ => ⟨fun hest => ?_, fun hsyn => ?_, hk.log.sentBytes⟩⟩
      · rcases hk.established hest with hbefore | ⟨hsyn, _⟩
        · exact h₁ hbefore
        · exact h₂ hsyn
      · exact h₂ (hk.synRcvd hsyn)
    have hshut' : Shut i s.tcp ({ s.withTcp t with phase := p } : Server).tcp := hshut
    exact h.of_shut hshut'
  · -- from here on it is another connection
    have hnew : epoch i t.log = epoch i s.tcp.log + 1 := ho.epoch
    have hlater := h.later
    refine ⟨?_, fun hep => ?_, fun hep => ?_⟩
    · show ep ≤ epoch i t.log
      omega
    · replace hep : epoch i t.log = ep := hep
      omega
    · replace hep : epoch i t.log = ep := hep
      omega

theorem past_step {inp : Input} (h : Past i ep sent s) (hst : serverStep env s inp = some s') :
    Past i ep sent s' := by
  cases serverStep_act hst with
  | net _ _ hnet hlen _ ht => exact h.net hnet hlen ht
  | idle _ => exact h.of_shut (.refl i s.tcp)
  | date _ => exact h.of_shut (.refl i s.tcp)
  | @visit j start now out _ =>
      by_cases hij : i = j
      · subst hij
        exact h.of_shut (.visit env i s start now out)
      · have hshut : Shut i s.tcp (visitSlot env j s start now out).tcp :=
          .of_beside (.visitSlot hij env s start now out)
        exact h.of_shut hshut
  | @event j _ =>
      refine h.of_shut ?_
      obtain heq | ⟨_, e, _, heq⟩ | ⟨_, _, heq⟩ := pollEvent_cases j s <;> rw [heq] <;>
        exact .refl i s.tcp
  | @fsa now _ _ hstep =>
      obtain ⟨j, e, q, hnext, hcase⟩ := httpFsaStep_cases hstep
      by_cases hij : i = j
      · subst hij
        obtain ⟨_, rfl⟩ | ⟨o, hd, _, rfl⟩ := hcase
        · exact h.of_shut (.refl i s.tcp)
        · exact h.of_shut (Shut.call env now i { s with fsa := q } hd)
      · exact h.of_shut (.of_beside (.fsaStep hij hstep hnext))
  | drained _ _ => exact h.of_shut (.refl i s.tcp)

end

/-! ## Every run -/

/-- **After a FIN the server sends nothing that it owes.**  `s₁` is a reachable state in which the
peer's FIN has been taken, such as the one right after the frame that carried it.  In every later
state of the same connection, before and after the server's own FIN, what was owed has been handed
over if and only if nothing was: RESP_PTR had reached the end of the response, and no complete
valid request was waiting. -/
theorem half_close_iff {env : HttpEnv} {cap : PoolCap} {t₀ start now : Tick} {mem : Nat → Byte}
    {out : HandlerOut} {i : Slot} {s₁ s₂ : Server}
    (hreach : Run (serverStep env) anyEvent (serverInit env cap t₀ mem) s₁)
    (hwait : (s₁.tcp.conn i).state = .closeWait)
    (hrun : Run (serverStep env) anyEvent s₁ s₂)
    (hep : epoch i s₂.tcp.log = epoch i s₁.tcp.log) :
    (sentBytes i s₁.tcp.log ++ owed env i s₁ start now out <+: sentBytes i s₂.tcp.log) ↔
      ¬ (Unsent i s₁ ∨ Waits env i s₁ start now out) := by
  have hlen : LenOk i s₁ := by
    refine hreach.invariant (P := LenOk i) (fun hs => by cases hs) ?_
    intro t u e ht _ hst
    exact lenOk_step ht hst
  have hpast : Past i (epoch i s₁.tcp.log) (sentBytes i s₁.tcp.log) s₂ := by
    refine hrun.invariant (P := Past i (epoch i s₁.tcp.log) (sentBytes i s₁.tcp.log)) ?_ ?_
    · exact ⟨Nat.le_refl _, fun _ => by rw [hwait]; simp, fun _ => rfl⟩
    · intro t u e ht _ hst
      exact past_step ht hst
  rw [hpast.sent hep, ← owed_nil hlen]
  constructor
  · intro hprefix
    have hle := hprefix.length_le
    rw [List.length_append] at hle
    exact List.length_eq_zero_iff.mp (by omega)
  · intro hnil
    rw [hnil, List.append_nil]

/-- The peer's FIN, behind its request. -/
def demoFinAfterGet : Leg :=
  .inputs [.frame 1 { demoFrom 1000 demoGet.length [] with flags := tcpFinAck, window := 1000 }]

/-- A poll that lets go of the record, and one that closes. -/
def demoTwoPolls : List Leg := [.pass 1 1 {} [1, 1], .pass 1 1 {} [1]]

/-- The polls can follow, and the server's FIN is sent in them on the same connection. -/
def demoCloses (polls : List Leg) (sent : List Byte) (s₁ : Server) : Prop :=
  (s₁.tcp.conn 1).state = .closeWait ∧
    feedOk (Leg.run demoHttp 1) (fun s l => l.meets demoHttp 1 anyEvent s) s₁ polls ∧
    ∃ s₂ ∈ legs demoHttp 1 s₁ polls, epoch 1 s₂.tcp.log = epoch 1 s₁.tcp.log ∧
      (s₂.tcp.conn 1).state = .lastAck ∧ sentBytes 1 s₂.tcp.log = sent

instance decDemoCloses (polls : List Leg) (sent : List Byte) (s₁ : Server) :
    Decidable (demoCloses polls sent s₁) :=
  inferInstanceAs (Decidable (_ ∧ _ ∧ _))

/-- The page at `/`, header and body. -/
def demoHello : List Byte := slice demoServer.mem 1000 20 ++ slice demoServer.mem 2000 30

def Verdict.answers : Verdict → Bool
  | .answer _ _ => true
  | _ => false

/-- A FIN that arrives after all of the page was handed over leaves nothing owed. -/
theorem half_close_demo : ∃ s₁ s₂ : Server, (s₁.http 1).req.state = .sending ∧
    (s₂.tcp.conn 1).state = .lastAck ∧ sentBytes 1 s₂.tcp.log = demoHello ∧
    sentBytes 1 s₁.tcp.log ++ owed demoHttp 1 s₁ 1 1 {} <+: sentBytes 1 s₂.tcp.log := by
  obtain ⟨s₁, hrun, hsend, hptr, hnext, hwait, hok, s₂, hs₂, hep, hlast, hsent⟩ :=
    exists_legs demoHttp anyEvent 1 (allowsQuiet_any 1) (s := demoServer)
      (Q := fun s => (s.http 1).req.state = .sending ∧
        (s.http 1).resp.respPtr = (s.http 1).resp.respLen ∧
        (nextVerdict demoHttp 1 s 1 1).answers = false ∧ demoCloses demoTwoPolls demoHello s)
      (demoSent ++ [demoFinAfterGet]) (by decide +kernel) (by decide +kernel)
  obtain ⟨t, hrun', ht⟩ := exists_legs demoHttp anyEvent 1 (allowsQuiet_any 1) (s := s₁)
    (Q := fun t => t = s₂) demoTwoPolls hok ⟨s₂, hs₂, rfl⟩
  subst ht
  refine ⟨s₁, t, hsend, hlast, hsent, (half_close_iff hrun hwait hrun' hep).mpr ?_⟩
  rintro (⟨_, hlt⟩ | ⟨_, r, page, hanswer, _, _⟩)
  · exact absurd hlt (by omega)
  · rw [hanswer] at hnext
    cases hnext

/-- The peer has asked for the page and closes its side before the next poll: the page is owed,
the server sends its own FIN, and no byte of the page. -/
theorem get_then_fin_dropped : ∃ s₁ s₂ : Server,
    Run (serverStep demoHttp) anyEvent demoServer s₁ ∧ Run (serverStep demoHttp) anyEvent s₁ s₂ ∧
    (s₁.tcp.conn 1).state = .closeWait ∧ owed demoHttp 1 s₁ 1 1 {} = demoHello ∧
    (s₂.tcp.conn 1).state = .lastAck ∧ sentBytes 1 s₂.tcp.log = [] := by
  obtain ⟨s₁, hrun, howed, hwait, hok, s₂, hs₂, _, hlast, hsent⟩ :=
    exists_legs demoHttp anyEvent 1 (allowsQuiet_any 1) (s := demoServer)
      (Q := fun s => owed demoHttp 1 s 1 1 {} = demoHello ∧
        demoCloses [.pass 1 1 {} [1]] [] s)
      [.inputs (demoJoin 1000 ++ [.frame 1 (demoFrom 1000 0 demoGet)]), demoFinAfterGet]
      (by decide +kernel) (by decide +kernel)
  obtain ⟨t, hrun', ht⟩ := exists_legs demoHttp anyEvent 1 (allowsQuiet_any 1) (s := s₁)
    (Q := fun t => t = s₂) [.pass 1 1 {} [1]] hok ⟨s₂, hs₂, rfl⟩
  subst ht
  exact ⟨s₁, t, hrun, hrun', hwait, howed, hlast, hsent⟩

end WsPi5
