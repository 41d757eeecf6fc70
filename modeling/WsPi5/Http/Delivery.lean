/-
# `WsPi5.Http.Delivery` — what the browser reads

`WsPi5.Http.Stream` says what is handed to `tcp_send` on a connection, `WsPi5.Tcp.Delivery` that
the peer reads the front of it.  Together: whatever frames of a connection reach the peer, and in
whatever order, what it has read is the front of the responses that were set up on this connection,
one behind the other.

This holds in every state, also when the connection is closing or closed, until the slot's next one
is opened: nothing is accepted outside ESTABLISHED.
-/
import WsPi5.Http.Stream
import WsPi5.Tcp.Delivery

namespace WsPi5

open Lib

/-! ## The server's calls -/

/-- The call that a step from the network or of `timer_check` makes. -/
def Server.netCall (s : Server) : Input → Option Event
  | .frame now f => some ⟨now, .rx f⟩
  | .icmpErr now code lp rp rip => some ⟨now, .icmpErr code lp rp rip⟩
  | .otherSet x id => some ⟨0, .otherSet x id⟩
  | .otherCancel k => some ⟨0, .otherCancel k⟩
  | .timer now =>
      match s.phase with
      | .timers k => some ⟨now, .visit k⟩
      | .recv | .slots _ | .events _ | .drain => none
  | .idle | .date _ | .slot _ _ _ | .event | .drain _ => none

/-- What retransmissions need: slot `i` is opened over an empty ring, and its timer fires on
data. -/
def cleanly (env : HttpEnv) (i : Slot) (s : Server) (inp : Input) : Prop :=
  ∀ e ∈ s.netCall inp, opensClean env.tcp i s.tcp e ∧ rtxOnData i s.tcp e

def Call.app : Call → Bool
  | .send _ _ | .close _ | .consume _ _ => true
  | _ => false

section
variable {env : HttpEnv} {i : Slot} {s s' : Server}

theorem callTcp_tcp {e : Event} (h : s.callTcp env e = some s') :
    step env.tcp s.tcp e = some s'.tcp := by
  obtain ⟨t, ht, rfl⟩ := Option.map_eq_some_iff.mp h
  exact ht

theorem visitSlot_tcp (env : HttpEnv) (j : Slot) (s : Server) (start now : Tick)
    (out : HandlerOut) : (visitSlot env j s start now out).tcp = s.tcp ∨
      ∃ e : Event, e.call.app = true ∧ step env.tcp s.tcp e = some (visitSlot env j s start now out).tcp := by
  obtain ⟨-, -, hnt, -⟩ := noteVisit_fields s j start now
  unfold visitSlot
  cases pollSlot env (s.visit j start now) (s.http j).req with
  | stay r =>
      simp only [Server.setReq_tcp, hnt]
      exact .inl trivial
  | close r =>
      simp only [Server.setReq_tcp, Server.tcpClose, hnt]
      exact .inr ⟨⟨now, .close j⟩, rfl, rfl⟩
  | answer r page =>
      refine .inr ⟨⟨0, .consume j (r.parser.reqLen + r.parser.contentLen)⟩, rfl, ?_⟩
      show some (s.tcp.put j _) = some ((s.noteVisit j start now).tcp.put j _)
      rw [hnt]

theorem httpFsaPollTcpEvents_tcp (j : Slot) (s : Server) :
    (httpFsaPollTcpEvents j s).tcp = s.tcp := by
  unfold httpFsaPollTcpEvents
  dsimp only
  split
  · rfl
  · split
    · split
      · split <;> rfl
      · split <;> rfl
    · rfl

theorem hSend_tcp (env : HttpEnv) (now : Tick) (j : Slot) (s : Server) :
    (hSend env now j s).tcp = s.tcp ∨ ∃ e : Event, e.call.app = true ∧
      step env.tcp s.tcp e = some (hSend env now j s).tcp := by
  unfold hSend
  dsimp only
  split
  · split
    · exact .inl rfl
    split
    · exact .inl rfl
    · generalize slice s.mem _ _ = p
      cases hs : tcpSend env.tcp now j p (s.tcp.at j) with
      | mk l g =>
          cases g with
          | none => exact .inl rfl
          | some g =>
              refine .inr ⟨⟨now, .send j p⟩, rfl, ?_⟩
              show some (s.tcp.put j (tcpSend env.tcp now j p (s.tcp.at j)).1) = _
              rw [hs]
              rfl
  · exact .inl rfl

theorem call_tcp (env : HttpEnv) (now : Tick) (j : Slot) (s : Server) (hd : OHandler) :
    (hd.call env now j s).tcp = s.tcp ∨ ∃ e : Event, e.call.app = true ∧
      step env.tcp s.tcp e = some (hd.call env now j s).tcp := by
  cases hd with
  | install | noop | decide | reset | keepalive => exact .inl rfl
  | close => exact .inr ⟨⟨now, .close j⟩, rfl, rfl⟩
  | send => exact hSend_tcp env now j s

/-- **The TCP module as a step of the server leaves it.** -/
theorem serverStep_tcp {inp : Input} (h : serverStep env s inp = some s') :
    s'.tcp = s.tcp ∨ ∃ e : Event, (s.netCall inp = some e ∨ e.call.app = true) ∧
      step env.tcp s.tcp e = some s'.tcp := by
  have happ : ∀ {t : Tcp}, (t = s.tcp ∨ ∃ e : Event, e.call.app = true ∧
      step env.tcp s.tcp e = some t) → t = s.tcp ∨ ∃ e : Event,
      (s.netCall inp = some e ∨ e.call.app = true) ∧ step env.tcp s.tcp e = some t :=
    fun h => h.imp id fun ⟨e, ha, hst⟩ => ⟨e, .inr ha, hst⟩
  unfold serverStep at h
  split at h
  · split at h
    · exact .inr ⟨_, .inl rfl, callTcp_tcp h⟩
    · cases h
  · exact .inr ⟨_, .inl rfl, callTcp_tcp h⟩
  · exact .inr ⟨_, .inl rfl, callTcp_tcp h⟩
  · exact .inr ⟨_, .inl rfl, callTcp_tcp h⟩
  · exact .inr ⟨_, .inl rfl, callTcp_tcp h⟩
  · exact .inr ⟨_, .inl rfl, callTcp_tcp h⟩
  · cases h
    exact .inl rfl
  · rename_i k now hph
    split at h
    · refine .inr ⟨⟨now, .visit k⟩, .inl ?_,
        callTcp_tcp (s := { s with phase := .timers (k + 1) }) h⟩
      unfold Server.netCall
      rw [hph]
    · cases h
  · split at h
    · cases h
    · cases h
      exact .inl rfl
  · split at h
    · cases h
      exact happ (visitSlot_tcp ..)
    · cases h
  · split at h
    · cases h
      exact .inl (httpFsaPollTcpEvents_tcp ..)
    · cases h
  · split at h
    · rename_i hstep
      cases h
      obtain ⟨j, e, q, hnext, -⟩ := httpFsaStep_cases hstep
      obtain ⟨-, rfl⟩ | ⟨o, hd, -, rfl⟩ := httpFsaStep_taken hstep hnext
      · exact .inl rfl
      · exact happ (call_tcp env _ j { s with fsa := q } hd)
    · cases h
      exact .inl rfl
  · cases h

end

/-! ## The connection and what was sent in the slot before -/

/-- What had been accepted in the slot when its connection was opened. -/
def bytesBefore (i : Slot) : List Obs → List Byte
  | [] => []
  | .opened j _ _ :: log => if j = i then sentBytes i log else bytesBefore i log
  | .accepted _ _ :: log | .finSent _ _ :: log | .resent _ _ :: log | .probed _ _ :: log
  | .consumed _ _ :: log => bytesBefore i log

theorem sentBytes_split (i : Slot) (log : List Obs) :
    sentBytes i log = bytesBefore i log ++ acceptedOn i log := by
  induction log with
  | nil => rfl
  | cons o log ih =>
      cases o with
      | opened j f sa =>
          by_cases hj : j = i
          · rw [bytesBefore, acceptedOn, if_pos hj, if_pos hj, List.append_nil]
            rfl
          · rw [bytesBefore, acceptedOn, if_neg hj, if_neg hj]
            exact ih
      | accepted j f =>
          by_cases hj : j = i
          · rw [sentBytes, acceptedOn, if_pos hj, if_pos hj, ih, List.append_assoc]
            rfl
          · rw [sentBytes, acceptedOn, if_neg hj, if_neg hj]
            exact ih
      | finSent | resent | probed | consumed => exact ih

/-- The same connection, and what it was given. -/
structure SameBytes (i : Slot) (log log' : List Obs) : Prop where
  before : bytesBefore i log' = bytesBefore i log
  accepted : acceptedOn i log' = acceptedOn i log

theorem SameBytes.refl (i : Slot) (log : List Obs) : SameBytes i log log := ⟨rfl, rfl⟩

theorem SameBytes.trans {i : Slot} {log log' log'' : List Obs} (h : SameBytes i log log')
    (h' : SameBytes i log' log'') : SameBytes i log log'' :=
  ⟨h'.before.trans h.before, h'.accepted.trans h.accepted⟩

def Obs.givesNothing (i : Slot) (o : Obs) : Prop := o.slot ≠ i ∨ o.isData = false

theorem SameBytes.of_append {i : Slot} {log : List Obs} : ∀ {os : List Obs},
    (∀ o ∈ os, o.givesNothing i) → SameBytes i log (os ++ log)
  | [], _ => .refl i log
  | o :: os, h => by
      have hrest : SameBytes i log (os ++ log) :=
        .of_append fun x hx => h x (List.mem_cons_of_mem _ hx)
      refine hrest.trans ?_
      have ho := h o (List.mem_cons_self ..)
      cases o with
      | opened j _ _ | accepted j _ =>
          obtain hne | hdata := ho
          · have hj : j ≠ i := hne
            constructor <;> simp [bytesBefore, acceptedOn, hj]
          · cases hdata
      | finSent | resent | probed | consumed => exact ⟨rfl, rfl⟩

theorem SameBytes.of_beside {i : Slot} {log log' : List Obs} (h : logGrowsBeside i log log') :
    SameBytes i log log' := by
  obtain ⟨os, rfl, hos⟩ := h
  exact .of_append fun o ho => .inl (hos o ho)

theorem SameBytes.of_quiet {i : Slot} {log log' : List Obs} (h : quietLog log log') :
    SameBytes i log log' := by
  obtain ⟨os, rfl, hos⟩ := h
  exact .of_append fun o ho => .inr (hos o ho)

/-- What a call can do to what the connection in a slot was given. -/
inductive Gives (i : Slot) (t t' : Tcp) : Prop where
  | same (h : SameBytes i t.log t'.log)
      (hest : (t'.conn i).state = .established →
        (t.conn i).state = .established ∨ (t.conn i).state = .synRcvd)
  | opened (hempty : acceptedOn i t'.log = []) (hest : (t'.conn i).state ≠ .established)
  | sent (hbefore : bytesBefore i t'.log = bytesBefore i t.log)
      (hest : (t.conn i).state = .established) (hest' : (t'.conn i).state = .established)

theorem step_gives {env : Env} {t t' : Tcp} {e : Event} (h : step env t e = some t') (i : Slot) :
    Gives i t t' := by
  obtain ⟨hc, hlog⟩ | ⟨l, l', hl, hlog, hact, hc, hbeside⟩ := step_slot h i
  · exact .same (.of_beside hlog) fun hest => .inl (hc ▸ hest)
  have hrest : SameBytes i l'.log t'.log := .of_beside hbeside
  have hsame : SameBytes i l.log l'.log → (l'.conn.state = .established →
      l.conn.state = .established ∨ l.conn.state = .synRcvd) → Gives i t t' := by
    intro hs hest
    rw [hlog] at hs
    rw [← hc, hl] at hest
    exact .same (hs.trans hrest) hest
  have hresent : ∀ {g}, l'.log = .resent i g :: l.log → SameBytes i l.log l'.log := by
    intro g hg
    rw [hg]
    exact ⟨rfl, rfl⟩
  cases hact.flow hl hlog with
  | kept _ hq _ hest => exact hsame (.of_quiet hq) fun hst => .inl (hest hst)
  | @opened f lport l₀ _ _ _ _ =>
      refine .opened ?_ ?_
      · rw [hrest.accepted, openSlot_log]
        exact if_pos rfl
      · rw [hc, (openSlot_fresh env e.now f lport i l₀).1]
        exact nofun
  | joined _ _ _ hst _ _ hlg =>
      refine hsame ?_ fun _ => .inr hst
      rw [hlg]
      exact .refl i l.log
  | acked _ _ _ hst _ hack =>
      refine hsame ?_ fun _ => .inl hst
      obtain ⟨hlg, -⟩ | ⟨g, hlg⟩ := hack.tick
      · rw [hlg]
        exact .refl i l.log
      · exact hresent hlg
  | @sent p _ hacc =>
      have hest := (tcpSendAccepts_spec hacc).1
      refine .sent ?_ (hl ▸ hest) ?_
      · rw [hrest.before, tcpSendAccept_log, ← hlog]
        rfl
      · rw [hc]
        exact (tcpRtxArm_state ..).trans hest
  | closed _ hst' _ _ hlg =>
      refine hsame ?_ fun hest => ?_
      · rw [hlg]
        exact ⟨rfl, rfl⟩
      · rw [hest] at hst'
        cases hst'
  | timeout hst hmove =>
      refine hsame ?_ fun hest => .inl (hst ▸ hest)
      obtain ⟨_, _, _, _, _, hlg | ⟨g, hlg⟩, _⟩ := hmove
      · rw [hlg.1]
        exact .refl i l.log
      · exact hresent hlg

/-! ## The invariant -/

def Served.bytes (w : Served) : List Byte := w.responses.reverse.flatMap Response.bytes

/-- What the connection was given is the front of the responses. -/
structure Delivering (i : Slot) (w : Served) : Prop where
  tcp : Delivers i (w.server.tcp.conn i) w.server.tcp.log
  before : (w.server.tcp.conn i).state = .established →
    w.before = bytesBefore i w.server.tcp.log
  front : acceptedOn i w.server.tcp.log <+: w.bytes

section
variable {env : HttpEnv} {i : Slot} {w w' : Served} {s s' : Server} {inp : Input}

theorem delivers_step (h : Delivers i (s.tcp.conn i) s.tcp.log) (hok : cleanly env i s inp)
    (hst : serverStep env s inp = some s') : Delivers i (s'.tcp.conn i) s'.tcp.log := by
  obtain hsame | ⟨e, hcall, hstep⟩ := serverStep_tcp hst
  · rw [hsame]
    exact h
  · refine Delivers.step h ?_ hstep
    obtain hnet | happ := hcall
    · exact hok e hnet
    · obtain ⟨now, call⟩ := e
      cases call with
      | send | close | consume => exact ⟨nofun, nofun⟩
      | _ => cases happ

theorem serverStep_gives (hst : serverStep env s inp = some s') (i : Slot) :
    Gives i s.tcp s'.tcp := by
  obtain hsame | ⟨e, -, hstep⟩ := serverStep_tcp hst
  · rw [hsame]
    exact .same (.refl i _) .inl
  · exact step_gives hstep i

/-- What is put down at a step that does not establish the connection. -/
theorem Served.step_grows (hst : w.step env i inp = some w')
    (hs : serverStep env w.server inp = some s')
    (hold : ¬ ((w.server.tcp.conn i).state ≠ .established ∧
      (s'.tcp.conn i).state = .established)) :
    w'.server = s' ∧ w'.before = w.before ∧ w.bytes <+: w'.bytes := by
  unfold Served.step at hst
  rw [hs, Option.map_some, if_neg hold] at hst
  cases hst
  split
  · refine ⟨rfl, rfl, ?_⟩
    show w.responses.reverse.flatMap _ <+: (_ :: w.responses).reverse.flatMap _
    rw [List.reverse_cons, List.flatMap_append]
    exact List.prefix_append ..
  · exact ⟨rfl, rfl, List.prefix_refl _⟩

theorem Served.sends.front (h : w.sends i) (hbefore : w.before = bytesBefore i w.server.tcp.log) :
    acceptedOn i w.server.tcp.log <+: w.bytes := by
  have hsplit := sentBytes_split i w.server.tcp.log
  unfold Served.sends at h
  split at h
  · obtain ⟨x, xs, hxs, hsent⟩ := h
    rw [hsplit, streamed, hbefore, List.append_assoc] at hsent
    rw [List.append_cancel_left hsent, Served.bytes, hxs, List.reverse_cons, List.flatMap_append]
    refine List.prefix_append_right_inj _ |>.mpr ?_
    rw [List.flatMap_singleton]
    exact List.take_prefix ..
  · rw [hsplit, streamed, hbefore] at h
    rw [List.append_cancel_left h]
    exact List.prefix_refl _

theorem Delivering.step (h : Delivering i w) (hok : cleanly env i w.server inp)
    (hst : w.step env i inp = some w')
    (hsends : (w'.server.tcp.conn i).state = .established → w'.sends i) : Delivering i w' := by
  obtain ⟨s', hs, -⟩ := Option.map_eq_some_iff.mp hst
  have htcp := delivers_step h.tcp hok hs
  by_cases hnew : (w.server.tcp.conn i).state ≠ .established ∧
      (s'.tcp.conn i).state = .established
  · have hempty : acceptedOn i s'.tcp.log = [] := by
      cases serverStep_gives hs i with
      | same hsame hest =>
          obtain he | hsyn := hest hnew.2
          · exact absurd he hnew.1
          · rw [hsame.accepted]
            exact h.tcp.counts.fresh (by rw [hsyn]; rfl)
      | opened _ hest => exact absurd hnew.2 hest
      | sent _ hest _ => exact absurd hest hnew.1
    rw [Served.step_opened hst hs hnew]
    refine ⟨htcp, fun _ => ?_, ?_⟩
    · show sentBytes i s'.tcp.log = _
      rw [sentBytes_split, hempty, List.append_nil]
    · show acceptedOn i s'.tcp.log <+: _
      rw [hempty]
      exact List.nil_prefix
  · obtain ⟨rfl, hbefore, hgrow⟩ := Served.step_grows hst hs hnew
    have hback : (w'.server.tcp.conn i).state = .established →
        (w.server.tcp.conn i).state = .established := by
      intro hest
      by_contra hne
      exact hnew ⟨hne, hest⟩
    have hbefore' : (w'.server.tcp.conn i).state = .established →
        w'.before = bytesBefore i w'.server.tcp.log := by
      intro hest
      rw [hbefore, h.before (hback hest)]
      cases serverStep_gives hs i with
      | same hsame _ => exact hsame.before.symm
      | opened _ hne => exact absurd hest hne
      | sent hb _ _ => exact hb.symm
    refine ⟨htcp, hbefore', ?_⟩
    cases serverStep_gives hs i with
    | same hsame _ =>
        rw [hsame.accepted]
        exact h.front.trans hgrow
    | opened hempty _ =>
        rw [hempty]
        exact List.nil_prefix
    | sent _ _ hest => exact (hsends hest).front (hbefore' hest)

end

/-! ## A page -/

instance decCleanly (env : HttpEnv) (i : Slot) (s : Server) (inp : Input) :
    Decidable (cleanly env i s inp) :=
  inferInstanceAs (Decidable (∀ e ∈ s.netCall inp, _ ∧ _))

def demoSteps (s : Server) (inp : Input) : Prop :=
  (opensFresh demoHttp 1 s inp ∧ demoFrames s inp) ∧ cleanly demoHttp 1 s inp

instance decDemoSteps (s : Server) (inp : Input) : Decidable (demoSteps s inp) :=
  inferInstanceAs (Decidable (_ ∧ _))

/-- The frames of the connection, oldest first and each fifty times. -/
def demoHeard (s : Server) : List Frame :=
  (framesOf 1 s.tcp.log).reverse.flatMap (List.replicate 50)

/-- What is checked of the state `s` after the request: the pass that sends the page. -/
def demoPagePass (s : Server) : Prop :=
  let v := visitSlot demoHttp 1 s 1 1 {}
  let w := httpFsaPollTcpEvents 1 v
  QuietBut 1 1 s ∧ s.phase = .recv ∧ (s.tcp.conn 1).state.sndPhase = .data ∧
    demoSteps { s with phase := .slots 1 } (.slot 1 1 {}) ∧
    (v.tcp.conn 1).state.sndPhase = .data ∧ demoSteps { v with phase := .events 1 } .event ∧
    (w.tcp.conn 1).state.sndPhase = .data ∧
    feedOk (serverStep demoHttp) demoSteps { w with phase := .drain } ([1, 1, 1, 1].map .drain) ∧
    ∃ s₂ ∈ feed (serverStep demoHttp) { w with phase := .drain } ([1, 1, 1, 1].map .drain),
      (acceptedOn 1 s₂.tcp.log).length = 50 ∧
      ((demoHeard s₂).foldl Peer.take (.opened (isnOf 1 s₂.tcp.log))).got.length = 50

instance decDemoPagePass (s : Server) : Decidable (demoPagePass s) :=
  inferInstanceAs (Decidable (_ ∧ _ ∧ _ ∧ _ ∧ _ ∧ _ ∧ _ ∧ _ ∧ _))

end WsPi5
