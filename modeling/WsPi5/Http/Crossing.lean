/-
# `WsPi5.Http.Crossing` — response bytes and the connection they are meant for

The output FSA knows ways, not connections.  That a way's connection is gone it learns from
the TCP state, which it reads once per poll; frames are drained in batches between polls.  If
the connection in slot `i` is reset while its response is being sent, and a new peer's
handshake is complete before the next poll, the poll finds ESTABLISHED, as it did before, and
sends the rest of the old response to the new peer (`old_response_to_new_peer`).

**The condition** (`opensUnsent`).  No handshake is completed in slot `i` while way `i` is in
O_SETUP or O_TX.

**The invariant** (`Selected`, `Crossing`).  While the way is in one of these states on an
ESTABLISHED connection, the response it is sending was selected for this very connection.  An
E_RESP_READY is in the queue only while `http_poll` runs, in which no connection is opened.
-/
import WsPi5.Http.Quiet

namespace WsPi5

open Lib

/-! ## What is claimed -/

/-- The piece lies in the header or in the body of the response. -/
def Resp.covers (r : Resp) (ptr n : Nat) : Prop :=
  (r.hdrSrc ≤ ptr ∧ ptr + n ≤ r.hdrSrc + r.hdrLen) ∨
  (r.bodyPtr ≤ ptr ∧ ptr + n ≤ r.bodyPtr + r.bodyLen)

/-- What was handed to `tcp_send` on a connection in slot `i` belongs to a response selected
on that connection. -/
def noCrossing (i : Slot) (log : List HObs) : Prop :=
  ∀ ep ptr bytes, HObs.handed i ep ptr bytes ∈ log →
    ∃ r resp, HObs.answered i ep r resp ∈ log ∧ resp.covers ptr bytes.length

/-- What `h_send` handed over for slot `i`, in order. -/
def handedBytes (i : Slot) : List HObs → List Byte
  | [] => []
  | .handed j _ _ bytes :: log =>
      if j = i then handedBytes i log ++ bytes else handedBytes i log
  | _ :: log => handedBytes i log

/-- The call takes the connection in slot `i` to ESTABLISHED. -/
def Tcp.establishes (env : Env) (t : Tcp) (e : Event) (i : Slot) : Bool :=
  match step env t e with
  | some t' => (t.conn i).state ≠ .established && (t'.conn i).state = .established
  | none => false

/-- No handshake is completed in slot `i` while way `i` has a response to send. -/
def opensUnsent (env : HttpEnv) (i : Slot) (s : Server) (inp : Input) : Prop :=
  match inp with
  | .frame now f => s.tcp.establishes env.tcp ⟨now, .rx f⟩ i = true →
      s.fsa.ostate i ≠ .setup ∧ s.fsa.ostate i ≠ .tx
  | _ => True

/-! ## Pieces -/

/-- The counters of a response: nothing is sent beyond it, and it is no longer than header
and body. -/
structure Resp.Ok (r : Resp) : Prop where
  ptr : r.respPtr ≤ r.respLen
  len : r.respLen ≤ r.hdrLen + r.bodyLen
  word : r.respLen < 2 ^ 32

section
variable {r : Resp}

theorem Resp.Ok.remaining (h : r.Ok) : r.remaining = r.respLen - r.respPtr := by
  have := h.ptr
  have := h.word
  unfold Resp.remaining
  rw [show r.respLen + 2 ^ 32 - r.respPtr = (r.respLen - r.respPtr) + 2 ^ 32 by omega,
    Nat.add_mod_right, Nat.mod_eq_of_lt (by omega)]

theorem Resp.Ok.piece_le (h : r.Ok) (ready : Nat) :
    r.respPtr + (r.piece ready).2 ≤ r.respLen := by
  have hrem := h.remaining
  have := h.ptr
  unfold Resp.piece
  dsimp only
  split
  · dsimp only
    omega
  · dsimp only
    omega

theorem Resp.Ok.piece_covers (h : r.Ok) (ready : Nat) :
    r.covers (r.piece ready).1 (r.piece ready).2 := by
  have hle := h.piece_le ready
  have := h.len
  unfold Resp.piece at hle ⊢
  dsimp only at hle ⊢
  split at hle
  next hhdr =>
    rw [if_pos hhdr]
    refine .inl ⟨by simp, ?_⟩
    dsimp only
    omega
  next hhdr =>
    rw [if_neg hhdr]
    refine .inr ⟨by simp, ?_⟩
    dsimp only at hle ⊢
    omega

theorem Resp.Ok.advance (h : r.Ok) (ready : Nat) : (r.advance (r.piece ready).2).Ok := by
  have hle := h.piece_le ready
  have hword := h.word
  have hptr : (r.respPtr + (r.piece ready).2) % 2 ^ 32 = r.respPtr + (r.piece ready).2 :=
    Nat.mod_eq_of_lt (by omega)
  refine ⟨?_, h.len, hword⟩
  show (r.respPtr + (r.piece ready).2) % 2 ^ 32 ≤ r.respLen
  omega

end

theorem setupResp_ok (b : Blob) (body bodyLen : Nat) (f : Flags)
    (h : b.hdrLen + bodyLen < 2 ^ 32) : (setupResp b.hdr b.hdrLen body bodyLen f).Ok := by
  refine ⟨Nat.zero_le _, ?_, ?_⟩
  · unfold setupResp
    dsimp only
    split <;> omega
  · unfold setupResp
    dsimp only
    split <;> omega

theorem httpChunkEncode_length (data : List Byte) :
    (httpChunkEncode data).length ≤ data.length + 8 := by
  unfold httpChunkEncode
  dsimp only
  split
  · simp
  · by_cases h₁ : 0x1000 ≤ data.length <;> by_cases h₂ : 0x100 ≤ data.length <;>
      by_cases h₃ : 0x10 ≤ data.length <;>
      simp only [h₁, h₂, h₃, if_true, if_false, List.length_append, List.length_cons,
        List.length_nil] <;> omega

theorem chunkBody_length (out : HandlerOut) :
    (chunkBody out.bytes).length ≤ httpDynChunkSize := by
  have h₁ := httpChunkEncode_length out.bytes
  have h₂ := out.fits
  have h₃ : (ascii "0\r\n\r\n").length = 5 := by decide
  simp only [httpDynBodySize] at h₂
  simp only [chunkBody, List.length_append, h₃, httpDynChunkSize]
  omega

theorem setupPage_ok (env : HttpEnv) (i : Slot) (s : Server) (out : HandlerOut) (f : Flags)
    (page : Page) : (setupPage env i s out f page).2.Ok := by
  cases page with
  | static b => exact setupResp_ok b b.body b.bodyLen f (by have := b.fits; omega)
  | dynamic b =>
      refine setupResp_ok b _ _ f ?_
      have := b.fits
      have := chunkBody_length out
      omega

/-! ## The invariant -/

def Resp.source (r : Resp) : Nat × Nat × Nat × Nat := (r.hdrSrc, r.hdrLen, r.bodyPtr, r.bodyLen)

theorem Resp.covers_of_source {r r' : Resp} (h : r'.source = r.source) {ptr n : Nat}
    (hc : r.covers ptr n) : r'.covers ptr n := by
  simp only [source, Prod.mk.injEq] at h
  obtain ⟨h₁, h₂, h₃, h₄⟩ := h
  unfold covers
  rw [h₁, h₂, h₃, h₄]
  exact hc

/-- The response in the record was selected on the connection now in the slot. -/
def Selected (i : Slot) (s : Server) : Prop :=
  ∃ r resp, HObs.answered i (epoch i s.tcp.log) r resp ∈ s.log ∧
    resp.source = (s.http i).resp.source

structure Crossing (i : Slot) (s : Server) : Prop where
  sending : s.fsa.ostate i = .setup ∨ s.fsa.ostate i = .tx →
    (s.tcp.conn i).state = .established → Selected i s
  ready : (i, OEvt.respReady) ∈ s.fsa.hi → Selected i s
  ok : (s.http i).resp.Ok
  handed : noCrossing i s.log
  bytes : handedBytes i s.log = sentBytes i s.tcp.log

/-- Any observation but one of a piece handed over for slot `i`. -/
def HObs.notHanded (i : Slot) : HObs → Prop
  | .handed j _ _ _ => j ≠ i
  | _ => True

theorem handedBytes_append {i : Slot} (log : List HObs) : ∀ {os : List HObs},
    (∀ o ∈ os, o.notHanded i) → handedBytes i (os ++ log) = handedBytes i log
  | [], _ => rfl
  | o :: os, h => by
      have ih := handedBytes_append log fun o' (ho' : o' ∈ os) => h o' (by simp [ho'])
      have ho := h o (by simp)
      cases o with
      | handed j _ _ _ =>
          have hj : j ≠ i := ho
          simp [handedBytes, hj, ih]
      | _ => exact ih

section
variable {i : Slot} {s s' : Server}

theorem Selected.grow (h : Selected i s) (hep : epoch i s'.tcp.log = epoch i s.tcp.log)
    (hsrc : (s'.http i).resp.source = (s.http i).resp.source)
    (hlog : ∃ os, s'.log = os ++ s.log) : Selected i s' := by
  obtain ⟨r, resp, hmem, hsame⟩ := h
  obtain ⟨os, hos⟩ := hlog
  refine ⟨r, resp, ?_, hsame.trans hsrc.symm⟩
  rw [hep, hos]
  exact List.mem_append_right _ hmem

theorem noCrossing_append {log os : List HObs} (h : noCrossing i log)
    (hos : ∀ o ∈ os, o.notHanded i) : noCrossing i (os ++ log) := by
  intro ep ptr bytes hmem
  rcases List.mem_append.mp hmem with hnew | hold
  · exact absurd rfl (hos _ hnew)
  · obtain ⟨r, resp, ha, hc⟩ := h ep ptr bytes hold
    exact ⟨r, resp, List.mem_append_right _ ha, hc⟩

theorem Crossing.keep (h : Crossing i s) (hep : epoch i s'.tcp.log = epoch i s.tcp.log)
    (hsent : sentBytes i s'.tcp.log = sentBytes i s.tcp.log)
    (hresp : (s'.http i).resp = (s.http i).resp)
    (hlog : ∃ os, s'.log = os ++ s.log ∧ ∀ o ∈ os, o.notHanded i)
    (hsend : s'.fsa.ostate i = .setup ∨ s'.fsa.ostate i = .tx →
      (s'.tcp.conn i).state = .established → Selected i s)
    (hready : (i, OEvt.respReady) ∈ s'.fsa.hi → Selected i s) : Crossing i s' := by
  obtain ⟨os, hos, hnot⟩ := hlog
  have grow : Selected i s → Selected i s' := fun hsel => hsel.grow hep (by rw [hresp]) ⟨os, hos⟩
  refine ⟨fun h₁ h₂ => grow (hsend h₁ h₂), fun hr => grow (hready hr), by rw [hresp]; exact h.ok,
    ?_, ?_⟩
  · rw [hos]
    exact noCrossing_append h.handed hnot
  · rw [hos, handedBytes_append _ hnot, hsent]
    exact h.bytes

theorem beside_onlyAgain {log log' : List Obs} (h : logGrowsBeside i log log') :
    epoch i log' = epoch i log ∧ sentBytes i log' = sentBytes i log :=
  ⟨(onlyAgain.of_beside h).epoch, (onlyAgain.of_beside h).sentBytes⟩

theorem notHanded_of_slot {o : HObs} (h : o.slot ≠ i) : o.notHanded i := by
  cases o with
  | handed j _ _ _ => exact h
  | _ => trivial

theorem Crossing.beside (h : Crossing i s) (hb : Beside i s s') : Crossing i s' := by
  obtain ⟨hep, hsent⟩ := beside_onlyAgain hb.tcpLog
  obtain ⟨os, hos, hne⟩ := hb.log
  refine h.keep hep hsent (by rw [hb.http]) ⟨os, hos, fun o ho => notHanded_of_slot (hne o ho)⟩ ?_ ?_
  · rw [hb.ostate, hb.conn]
    exact h.sending
  · rw [hb.hi]
    exact h.ready

theorem Crossing.net {env : HttpEnv} {e : Event} {t : Tcp} {p : Phase} (h : Crossing i s)
    (hrest : s.fsa.hi = []) (hnet : e.call.net = true)
    (hlen : ∀ f, e.call = .rx f → f.payload.length ≤ maxPayload)
    (ht : step env.tcp s.tcp e = some t)
    (hok : ∀ f, e.call = .rx f → s.tcp.establishes env.tcp e i = true →
      s.fsa.ostate i ≠ .setup ∧ s.fsa.ostate i ≠ .tx) :
    Crossing i { s.withTcp t with phase := p } := by
  have hlog : ∃ os, (newlyEstablished s.tcp t).map HObs.established ++ s.log = os ++ s.log ∧
      ∀ o ∈ os, o.notHanded i := by
    refine ⟨_, rfl, fun o ho => ?_⟩
    obtain ⟨j, _, rfl⟩ := List.mem_map.mp ho
    trivial
  have hready : (i, OEvt.respReady) ∈ s.fsa.hi → Selected i s := h.ready
  rcases net_step ht hnet hlen i with hk | ho
  · refine h.keep hk.log.epoch hk.log.sentBytes rfl hlog ?_ hready
    intro hsend hest
    rcases hk.established hest with hbefore | ⟨hsyn, f, hf⟩
    · exact h.sending hsend hbefore
    · -- the handshake is completed, so the way has nothing to send
      have hestab : s.tcp.establishes env.tcp e i = true := by
        have hest' : (t.conn i).state = .established := hest
        simp [Tcp.establishes, ht, hsyn, hest']
      have hno := hok f hf hestab
      rcases hsend with hs | hs
      · exact absurd hs hno.1
      · exact absurd hs hno.2
  · -- the new connection is not ESTABLISHED yet, and nothing is queued
    obtain ⟨os, hos, hnot⟩ := hlog
    obtain ⟨syn, synAck, os', hos', hne⟩ := ho.log
    have hsent : sentBytes i t.log = sentBytes i s.tcp.log :=
      (onlyAgain.of_beside ⟨os', hos', hne⟩).sentBytes
    refine ⟨fun _ hest => ?_, fun hmem => ?_, h.ok, ?_, ?_⟩
    · have hest' : (t.conn i).state = .established := hest
      rw [ho.after] at hest'
      cases hest'
    · have hmem' : (i, OEvt.respReady) ∈ s.fsa.hi := hmem
      rw [hrest] at hmem'
      cases hmem'
    · show noCrossing i ((newlyEstablished s.tcp t).map HObs.established ++ s.log)
      rw [hos]
      exact noCrossing_append h.handed hnot
    · show handedBytes i ((newlyEstablished s.tcp t).map HObs.established ++ s.log) = sentBytes i t.log
      rw [hos, handedBytes_append _ hnot, hsent]
      exact h.bytes

/-! ## The way's own steps -/

theorem Crossing.noteVisit (h : Crossing i s) (start now : Tick) :
    Crossing i (s.noteVisit i start now) := by
  unfold Server.noteVisit
  split
  · exact h
  · refine h.keep rfl rfl rfl ⟨[_], rfl, ?_⟩ h.sending h.ready
    intro o ho
    rw [List.mem_singleton.mp ho]
    trivial

theorem Crossing.answerSlot (h : Crossing i s) (env : HttpEnv) (out : HandlerOut) (r : Req)
    (page : Page) : Crossing i (answerSlot env i s out r page) := by
  have hlog := tcpRxConsume_log i (r.parser.reqLen + r.parser.contentLen) (s.tcp.at i)
  have hok := setupPage_ok env i s out r.flags page
  have hsel : Selected i (WsPi5.answerSlot env i s out r page) := by
    refine ⟨{ r with state := .sending }, (setupPage env i s out r.flags page).2, ?_, ?_⟩
    · unfold WsPi5.answerSlot
      dsimp only
      simp only [Server.post_tcp, Server.observe_tcp, Server.setHttp_tcp, Server.post_log,
        Server.observe_log, Tcp.put, hlog]
      exact List.mem_cons_self
    · unfold WsPi5.answerSlot
      simp
  refine ⟨fun _ _ => hsel, fun _ => hsel, ?_, ?_, ?_⟩
  · unfold WsPi5.answerSlot
    simpa using hok
  · unfold WsPi5.answerSlot
    dsimp only
    refine noCrossing_append h.handed (?_ : ∀ o ∈ [_], _)
    simp [HObs.notHanded]
  · unfold WsPi5.answerSlot
    simp only [Server.post_tcp, Server.observe_tcp, Server.setHttp_tcp, Server.post_log,
        Server.observe_log, Server.setHttp_log, Tcp.put, hlog]
    exact h.bytes

theorem Crossing.setReq (h : Crossing i s) (r : Req) : Crossing i (s.setReq i r) :=
  h.keep rfl rfl (by simp) ⟨[], rfl, by simp⟩ h.sending h.ready

theorem Crossing.tcpClose (h : Crossing i s) (env : HttpEnv) (now : Tick) :
    Crossing i (s.tcpClose env now i) := by
  refine h.keep (tcpClose_epoch env.tcp now i (s.tcp.at i))
    (tcpClose_sentBytes env.tcp now i (s.tcp.at i)) rfl ⟨[], rfl, by simp⟩ ?_ h.ready
  intro _ hest
  refine absurd ?_ (tcpClose_state env.tcp now i (s.tcp.at i))
  simpa [Server.tcpClose] using hest

theorem Crossing.visitSlot (h : Crossing i s) (env : HttpEnv) (start now : Tick)
    (out : HandlerOut) : Crossing i (visitSlot env i s start now out) := by
  have hnote := h.noteVisit start now
  unfold WsPi5.visitSlot
  dsimp only
  generalize s.noteVisit i start now = s₀ at hnote ⊢
  split
  · exact hnote.setReq _
  · exact (hnote.tcpClose env now).setReq _
  · exact hnote.answerSlot env out _ _

theorem Crossing.post (h : Crossing i s) {e : OEvt} (he : e ≠ .respReady) :
    Crossing i (s.post i e) := by
  refine h.keep rfl rfl rfl ⟨[], rfl, by simp⟩ (by simpa using h.sending) fun hmem => ?_
  rcases Fsa.mem_post_hi hmem with hold | ⟨_, hnew, _⟩
  · exact h.ready hold
  · exact absurd hnew.symm he

theorem Crossing.pollEvent (h : Crossing i s) : Crossing i (httpFsaPollTcpEvents i s) := by
  obtain heq | ⟨_, e, he, heq⟩ | ⟨_, _, heq⟩ := pollEvent_cases i s <;> rw [heq]
  · exact h
  · exact h.post (by rcases he with rfl | rfl <;> simp)
  · exact h.post (by simp)

theorem Crossing.hSend (h : Crossing i s) (env : HttpEnv) (now : Tick)
    (hsel : (s.tcp.conn i).state = .established → Selected i s) :
    Crossing i (hSend env now i s) := by
  unfold WsPi5.hSend
  dsimp only
  split
  next hest =>
    split
    · exact h.post (by simp)
    split
    · exact h
    split
    · exact h
    next l f hsend =>
      obtain ⟨hl, _, hlog⟩ := tcpSend_log _ _ _ hsend
      obtain ⟨r, resp, hans, hsrc⟩ := hsel hest
      have hep : epoch i l.log = epoch i s.tcp.log := by rw [hlog]; rfl
      have hsel' : Selected i (hSent i s l ((s.http i).resp.piece (tcpSendReady (s.tcp.conn i)).toNat).1
          ((s.http i).resp.piece (tcpSendReady (s.tcp.conn i)).toNat).2) := by
        unfold hSent
        refine ⟨r, resp, ?_, ?_⟩
        · show HObs.answered i (epoch i l.log) r resp ∈ _ :: s.log
          rw [hep]
          exact List.mem_cons_of_mem _ hans
        · rw [hsrc]
          simp [Resp.source, Resp.advance]
      refine ⟨fun _ _ => hsel', fun _ => hsel', ?_, ?_, ?_⟩
      · unfold hSent
        simpa using h.ok.advance _
      · intro ep ptr bytes hmem
        simp only [hSent, Server.post_log, Server.observe_log, Server.setHttp_log] at hmem ⊢
        rcases List.mem_cons.mp hmem with hnew | hold
        · cases hnew
          refine ⟨r, resp, List.mem_cons_of_mem _ hans, Resp.covers_of_source hsrc ?_⟩
          rw [slice_length]
          exact h.ok.piece_covers _
        · obtain ⟨r', resp', ha, hc⟩ := h.handed ep ptr bytes hold
          exact ⟨r', resp', List.mem_cons_of_mem _ ha, hc⟩
      · unfold hSent
        simp only [Server.post_tcp, Server.observe_tcp, Server.setHttp_tcp, Server.post_log,
          Server.observe_log, Server.setHttp_log, Tcp.put, hlog, handedBytes, sentBytes, if_true,
          h.bytes]
        rfl
  next => exact h.post (by simp)

theorem Crossing.ended (h : Crossing i s) (how : Ending) :
    Crossing i (s.observe (.ended i how)) := by
  refine h.keep rfl rfl rfl ⟨[_], rfl, ?_⟩ h.sending h.ready
  simp [HObs.notHanded]

theorem Crossing.call (h : Crossing i s) (env : HttpEnv) (now : Tick) (hd : OHandler)
    (hsel : hd = .send → (s.tcp.conn i).state = .established → Selected i s) :
    Crossing i (hd.call env now i s) := by
  cases hd with
  | install => exact h.post (by simp)
  | send => exact h.hSend env now (hsel rfl)
  | noop => exact h
  | decide =>
      refine h.post ?_
      split <;> simp
  | reset => exact (h.setReq _).ended _
  | close => exact ((h.tcpClose env now).setReq _).ended _
  | keepalive => exact (h.setReq _).ended _

theorem table_sending {st o : OState} {e : OEvt} {hd : OHandler}
    (h : httpFsaTransTable st e = some (o, hd)) :
    (hd = .send → st = .setup ∨ st = .tx) ∧
      (o = .setup ∨ o = .tx → (e = .respReady ∧ hd = .install) ∨ st = .setup ∨ st = .tx) := by
  cases st <;> cases e <;> simp only [httpFsaTransTable, Option.some.injEq, Prod.mk.injEq,
    reduceCtorEq] at h <;> obtain ⟨rfl, rfl⟩ := h <;> simp

theorem Crossing.fsaStep {env : HttpEnv} {now : Tick} (h : Crossing i s) (hq : s.fsa.Ok)
    (hstep : httpFsaStep env now s = some s') : Crossing i s' := by
  obtain ⟨j, e, q, hnext, hcase⟩ := httpFsaStep_cases hstep
  by_cases hij : i = j
  · subst hij
    obtain ⟨host, hdeq⟩ := Fsa.next_some hnext
    have hm : Crossing i { s with fsa := q } := by
      refine h.keep rfl rfl rfl ⟨[], rfl, by simp⟩ (by simpa [host] using h.sending) fun hmem => ?_
      have hmem' : (i, OEvt.respReady) ∈ q.hi := hmem
      rcases hdeq with ⟨hhi, _⟩ | ⟨_, hnil, _⟩
      · exact h.ready (by rw [hhi]; exact List.mem_cons_of_mem _ hmem')
      · rw [hnil] at hmem'
        cases hmem'
    obtain ⟨_, rfl⟩ | ⟨o, hd, htab, rfl⟩ := hcase
    · exact hm
    · obtain ⟨hsend, hto⟩ := table_sending htab
      have hcall := hm.call env now hd fun hd' hest => hm.sending (by simpa [host] using hsend hd') hest
      refine hcall.keep rfl rfl rfl ⟨[], rfl, by simp⟩ ?_ hcall.ready
      intro hst hest
      rcases hto (by simpa using hst) with ⟨rfl, rfl⟩ | hfrom
      · -- E_RESP_READY was at the head of the upper queue
        have hsel : Selected i s := by
          refine h.ready ?_
          rcases hdeq with ⟨hhi, _⟩ | ⟨_, _, hlo⟩
          · rw [hhi]
            exact List.mem_cons_self
          · have := hq.lower (i, .respReady) (by rw [hlo]; exact List.mem_cons_self)
            cases this
        exact hsel.grow rfl rfl ⟨[], rfl⟩
      · refine hcall.sending ?_ hest
        have hsame : (hd.call env now i { s with fsa := q }).fsa.ostate i = s.fsa.ostate i := by
          obtain heq | ⟨e', _, heq⟩ := OHandler.call_fsa env now i { s with fsa := q } hd <;>
            rw [heq] <;> simp [host]
        rw [hsame]
        exact hfrom
  · exact h.beside (.fsaStep hij hstep hnext)

theorem Crossing.step {env : HttpEnv} {inp : Input} (h : Crossing i s) (hq : QueuesRest s)
    (hok : opensUnsent env i s inp) (hst : serverStep env s inp = some s') : Crossing i s' := by
  -- phase and memory do not matter
  have plain : ∀ {u : Server}, Crossing i u → ∀ mem p, Crossing i { u with mem := mem, phase := p } :=
    fun hu _ _ => ⟨hu.sending, hu.ready, hu.ok, hu.handed, hu.bytes⟩
  cases serverStep_act hst with
  | net hph _ hnet hlen hinp ht =>
      refine h.net (hq.rest hph).1 hnet hlen ht fun f hf hest => ?_
      rw [hinp f hf] at hok
      refine hok ?_
      rw [← hf]
      exact hest
  | idle _ => exact plain h _ _
  | date _ => exact plain h _ _
  | @visit j start now out _ =>
      refine plain ?_ _ _
      by_cases hij : i = j
      · exact hij ▸ h.visitSlot env start now out
      · exact h.beside (.visitSlot hij env s start now out)
  | @event j _ =>
      refine plain ?_ _ _
      by_cases hij : i = j
      · exact hij ▸ h.pollEvent
      · exact h.beside (.pollEvent hij s)
  | fsa _ hstep => exact h.fsaStep hq.ok hstep
  | drained _ _ => exact plain h _ _

end

theorem crossing_init (env : HttpEnv) (cap : PoolCap) (now : Tick) (mem : Nat → Byte) (i : Slot) :
    Crossing i (serverInit env cap now mem) where
  sending := fun h => by rcases h with h | h <;> cases h
  ready := fun h => by cases h
  ok := ⟨Nat.le_refl _, Nat.zero_le _, Nat.two_pow_pos 32⟩
  handed := fun _ _ _ h => by cases h
  bytes := by rw [serverInit_log]; rfl

/-- **No response byte crosses connections** while no handshake is completed in a slot whose
way is sending: what goes to `tcp_send` is what `h_send` hands over, and each piece of it is
taken from a response selected on the connection it is handed to. -/
theorem no_crossing {env : HttpEnv} {cap : PoolCap} {now : Tick} {mem : Nat → Byte} {i : Slot}
    {s : Server} (h : Run (serverStep env) (opensUnsent env i) (serverInit env cap now mem) s) :
    noCrossing i s.log ∧ handedBytes i s.log = sentBytes i s.tcp.log := by
  have hinv : QueuesRest s ∧ Crossing i s := by
    refine h.invariant (P := fun u => QueuesRest u ∧ Crossing i u) ?_ ?_
    · exact ⟨queuesRest_init env cap now mem, crossing_init env cap now mem i⟩
    · intro t u e ht hok hst
      exact ⟨queuesRest_step ht.1 hst, ht.2.step ht.1 hok hst⟩
  exact ⟨hinv.2.handed, hinv.2.bytes⟩

instance decOpensUnsent (env : HttpEnv) (i : Slot) (s : Server) :
    ∀ inp, Decidable (opensUnsent env i s inp)
  | .frame _ _ => inferInstanceAs (Decidable (_ → _))
  | .icmpErr _ _ _ _ _ | .otherSet _ _ | .otherCancel _ | .idle | .timer _ | .date _
  | .slot _ _ _ | .event | .drain _ => isTrue trivial

theorem allowsQuiet_opensUnsent (env : HttpEnv) (i : Slot) :
    allowsQuiet (opensUnsent env i) i := by
  intro s inp hframe _
  cases inp with
  | frame now f => exact absurd rfl (hframe now f)
  | _ => trivial

/-- A segment of a peer with a window for a whole response. -/
def demoRoomy (f : Frame) : Input := .frame 1 { f with window := 1000 }

def demoAsksFrom (sport : BitVec 16) : List Input :=
  [demoRoomy { demoSyn with sport := sport }, demoRoomy (demoFrom sport 0 []),
    demoRoomy (demoFrom sport 0 demoGet)]

/-- A peer gets the page, acknowledges it and resets its connection; another one takes the slot and
gets the page. -/
def demoTwoServed : List Leg :=
  [.inputs (demoAsksFrom 1000), .pass 1 1 {} [1, 1, 1, 1, 1],
    .inputs [demoRoomy { demoFrom 1000 27 [] with ack := (demoFrom 1000 27 []).ack + 50 }],
    .pass 1 1 {} [1, 1, 1],
    .inputs (.frame 1 { demoFrom 1000 27 [] with flags := tcpRst } :: demoAsksFrom 2000),
    .pass 1 1 {} [1, 1, 1, 1, 1]]

theorem no_crossing_demo : ∃ s : Server,
    Run (serverStep demoHttp) (opensUnsent demoHttp 1) demoServer s ∧
      HObs.handed 1 1 1000 (slice s.mem 1000 20) ∈ s.log ∧
      HObs.handed 1 2 1000 (slice s.mem 1000 20) ∈ s.log ∧ noCrossing 1 s.log := by
  obtain ⟨s, hrun, hfirst, hsecond⟩ := exists_legs demoHttp (opensUnsent demoHttp 1) 1
    (allowsQuiet_opensUnsent demoHttp 1) (s := demoServer)
    (Q := fun s => HObs.handed 1 1 1000 (slice s.mem 1000 20) ∈ s.log ∧
      HObs.handed 1 2 1000 (slice s.mem 1000 20) ∈ s.log) demoTwoServed
    (by decide +kernel) (by decide +kernel)
  exact ⟨s, hrun, hfirst, hsecond, (no_crossing hrun).1⟩

/-- The observation is of a response selected on the slot's `ep`-th connection. -/
def HObs.answersOn (i : Slot) (ep : Nat) : HObs → Bool
  | .answered j ep' _ _ => j = i ∧ ep' = ep
  | _ => false

/-- A peer asks for the page, and gets the first ten bytes of its header. -/
def demoFirstPiece : List Leg :=
  [.inputs (demoJoin 1000 ++ [.frame 1 (demoFrom 1000 0 demoGet)]), .pass 1 1 {} [1, 1, 1, 1]]

/-- The peer resets its connection and another one takes the slot before the next pass. -/
def demoSlotTaken : List Leg :=
  demoFirstPiece ++
    [.inputs (.frame 1 { demoFrom 1000 27 [] with flags := tcpRst } :: demoJoin 2000),
      .pass 1 1 {} [1, 1]]

/-- The second peer, which asked for nothing, is sent bytes 10 to 19 of the header that was
selected for the first. -/
theorem old_response_to_new_peer : ∃ s : Server,
    Run (serverStep demoHttp) anyEvent demoServer s ∧ ¬ noCrossing 1 s.log := by
  obtain ⟨s, hrun, hhanded, hnone⟩ := exists_legs demoHttp anyEvent 1 (allowsQuiet_any 1)
    (s := demoServer)
    (Q := fun s => HObs.handed 1 2 1010 (slice s.mem 1010 10) ∈ s.log ∧
      ∀ o ∈ s.log, o.answersOn 1 2 = false)
    demoSlotTaken (by decide +kernel) (by decide +kernel)
  refine ⟨s, hrun, fun hno => ?_⟩
  obtain ⟨r, resp, hmem, _⟩ := hno 2 1010 _ hhanded
  have := hnone _ hmem
  simp [HObs.answersOn] at this

end WsPi5
