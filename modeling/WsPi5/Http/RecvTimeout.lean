/-
# `WsPi5.Http.RecvTimeout` — how long `http_poll` waits for a request

RECV_TICK is 32 bits of the counter, written by one path of `http_poll`: the visit that finds a
record IDLE.  The record comes into a receive state from two more places.

    a connection on an IDLE record        the next visit writes RECV_TICK
    a connection on a record in use       RECV_TICK is an earlier connection's
    `h_keepalive`                         RECV_TICK is the request's before, or older

A wait begins where the connection does, or where a response ends that keeps it open
(`WaitBegins`).  Nothing between two visits writes the tick (`recvTick_step`), so that the one
which a visit measures from is either read from the clock since the wait began, or the one the
record held there (`TickSince`).  In the first case the timeout leaves the peer its 30 seconds
(`recv_timeout_fair`); in the second it is the age of an older request that cuts it off, unless
that request came in the tick where the wait begins.

The counter does not wrap in 64 bits.  In 32 it does, which can only delay the timeout, as long
as 30 seconds are less than 2^32 ticks.
-/
import WsPi5.Http.Quiet
import WsPi5.Http.Sessions

namespace WsPi5

open Lib

/-! ## The timeout -/

/-- The tests in `.Lhp_try_parse` and `.Lhp_resume_body`, as the visit of a slot makes them. -/
def cutOff (env : HttpEnv) (v : Visit) (r : Req) : Prop :=
  v.tcp = .established ∧
    match r.state with
    | .idle => timedOut env v { r with recvTick := v.start.setWidth 32 } = true
    | .recvHdr | .recvBody => timedOut env v r = true
    | .sending => False

instance decCutOff (env : HttpEnv) (v : Visit) (r : Req) : Decidable (cutOff env v r) :=
  match h : r.state with
  | .idle => decidable_of_iff (v.tcp = .established ∧
      timedOut env v { r with recvTick := v.start.setWidth 32 } = true) (by simp [cutOff, h])
  | .recvHdr | .recvBody => decidable_of_iff (v.tcp = .established ∧ timedOut env v r = true)
      (by simp [cutOff, h])
  | .sending => isFalse (by simp [cutOff, h])

theorem pollSlot_cutOff {env : HttpEnv} {v : Visit} {r : Req} (h : cutOff env v r) :
    ∃ r', pollSlot env v r = .close r' := by
  obtain ⟨hest, hout⟩ := h
  unfold pollSlot
  rw [if_pos hest]
  cases hst : r.state with
  | idle =>
      simp only [hst] at hout ⊢
      refine ⟨_, if_pos ?_⟩
      exact hout
  | recvHdr =>
      simp only [hst] at hout ⊢
      exact ⟨_, if_pos hout⟩
  | recvBody =>
      simp only [hst] at hout ⊢
      exact ⟨_, if_pos hout⟩
  | sending =>
      simp only [hst] at hout

theorem timedOut_elapsed {env : HttpEnv} {v : Visit} {r : Req} {since : Tick}
    (hfreq : env.tcp.freq.toNat * 30 < 2 ^ 32) (htick : r.recvTick = since.setWidth 32)
    (hle : since ≤ v.now) (h : timedOut env v r = true) :
    since.toNat + env.tcp.freq.toNat * 30 ≤ v.now.toNat := by
  have hfits : env.tcp.freq.toNat < 2 ^ 32 := by omega
  have h' : env.tcp.freq.setWidth 32 * 30 ≤ v.now.setWidth 32 - since.setWidth 32 := by
    rw [← htick]
    simpa [timedOut] using h
  have hle' : since.toNat ≤ v.now.toNat := hle
  have h30 : (30 : W).toNat = 30 := rfl
  rw [BitVec.le_def, BitVec.toNat_mul, BitVec.toNat_sub, h30] at h'
  simp only [BitVec.toNat_setWidth] at h'
  omega

/-! ## Who writes RECV_TICK -/

def Verdict.req : Verdict → Req
  | .stay r | .close r | .answer r _ => r

section
variable {env : HttpEnv} {v : Visit} {r : Req}

theorem splitQuery_recvTick (buf : Nat → Byte) (r : Req) :
    (splitQuery buf r).recvTick = r.recvTick := by
  unfold splitQuery
  split <;> rfl

theorem dispatchRoute_recvTick : (dispatchRoute env v r).req.recvTick = r.recvTick := by
  unfold dispatchRoute
  split
  · rfl
  · split <;> rfl

theorem bodyCheck_recvTick : (bodyCheck env v r).req.recvTick = r.recvTick := by
  unfold bodyCheck
  split
  · exact dispatchRoute_recvTick
  split
  · rfl
  split
  · rfl
  · exact dispatchRoute_recvTick

theorem methodDone_recvTick : (methodDone env v r).req.recvTick = r.recvTick := by
  unfold methodDone
  split
  · rfl
  · unfold hostOk
    dsimp only
    split
    · exact splitQuery_recvTick _ _
    · rw [bodyCheck_recvTick, splitQuery_recvTick]

theorem fsaDone_recvTick : (fsaDone env v r).req.recvTick = r.recvTick := by
  unfold fsaDone
  split
  · dsimp only
    split
    · rfl
    · rw [methodDone_recvTick]
    · rw [methodDone_recvTick]
    · rw [methodDone_recvTick]
  · rfl

theorem tryParse_recvTick : (tryParse env v r).req.recvTick = r.recvTick := by
  unfold tryParse
  split
  · rfl
  split
  · rfl
  split
  · dsimp only
    split
    · rw [fsaDone_recvTick]
    · rfl
    · rfl
  · rfl

theorem skipOrReset_req : (skipOrReset v r).req.recvTick = r.recvTick ∧
    (r.state = .idle → (skipOrReset v r).req.state = .idle) := by
  unfold skipOrReset
  split
  · split
    · exact ⟨rfl, id⟩
    · exact ⟨rfl, fun _ => rfl⟩
  · exact ⟨rfl, fun _ => rfl⟩

/-- A visit writes it where it finds the record IDLE on an ESTABLISHED connection.  On another
connection an IDLE record stays IDLE. -/
theorem pollSlot_recvTick (env : HttpEnv) (v : Visit) (r : Req) :
    (pollSlot env v r).req.recvTick = v.start.setWidth 32 ∨
      (pollSlot env v r).req.recvTick = r.recvTick ∧
        (r.state = .idle → v.tcp ≠ .established ∧ (pollSlot env v r).req.state = .idle) := by
  unfold pollSlot
  split
  · cases hst : r.state with
    | idle => exact .inl tryParse_recvTick
    | recvHdr => exact .inr ⟨tryParse_recvTick, nofun⟩
    | sending => exact .inr ⟨rfl, nofun⟩
    | recvBody =>
        refine .inr ⟨?_, nofun⟩
        show (resumeBody env v r).req.recvTick = r.recvTick
        unfold resumeBody
        split
        · rfl
        split
        · rfl
        · exact bodyCheck_recvTick
  next hest =>
    obtain ⟨htick, hidle⟩ := skipOrReset_req (v := v) (r := r)
    exact .inr ⟨htick, fun h => ⟨hest, hidle h⟩⟩

end

section
variable {env : HttpEnv} {i : Slot} {s s' : Server} {inp : Input}

/-- The record is IDLE and no response is under way. -/
structure Unused (i : Slot) (s : Server) : Prop where
  record : (s.http i).req.state = .idle
  output : s.fsa.ostate i = .idle

theorem visitSlot_req (env : HttpEnv) (i : Slot) (s : Server) (start now : Tick) (out : HandlerOut) :
    ((visitSlot env i s start now out).http i).req.recvTick
        = (pollSlot env (s.visit i start now) (s.http i).req).req.recvTick ∧
      ((∀ r page, pollSlot env (s.visit i start now) (s.http i).req ≠ .answer r page) →
        ((visitSlot env i s start now out).http i).req
          = (pollSlot env (s.visit i start now) (s.http i).req).req) := by
  unfold visitSlot
  dsimp only
  cases hpoll : pollSlot env (s.visit i start now) (s.http i).req with
  | stay r => exact ⟨by simp [Verdict.req], fun _ => by simp [Verdict.req]⟩
  | close r => exact ⟨by simp [Verdict.req], fun _ => by simp [Verdict.req]⟩
  | answer r page =>
      obtain ⟨_, _, hreq, _⟩ := answerSlot_fields env i (s.noteVisit i start now) out r page
      refine ⟨?_, fun h => absurd rfl (h r page)⟩
      simp only [hreq, Verdict.req]

theorem OHandler.call_recvTick (env : HttpEnv) (now : Tick) (i : Slot) (s : Server)
    (hd : OHandler) : ((hd.call env now i s).http i).req.recvTick = (s.http i).req.recvTick := by
  cases hd with
  | reset | close | keepalive => simp [OHandler.call, hReset, hClose, hKeepalive, Req.reset,
      Req.keepalive, Server.tcpClose]
  | install | send | noop | decide =>
      rw [OHandler.call_req env now i s (by simp)]

/-- A visit of the slot reads it from the clock; or it stays, and so does a record that is not in
use. -/
theorem visitSlot_recvTick (env : HttpEnv) (i : Slot) (s : Server) (start now : Tick)
    (out : HandlerOut) :
    ((visitSlot env i s start now out).http i).req.recvTick = start.setWidth 32 ∨
      (((visitSlot env i s start now out).http i).req.recvTick = (s.http i).req.recvTick ∧
        (Unused i s → Unused i (visitSlot env i s start now out))) := by
  obtain ⟨htick, hreq⟩ := visitSlot_req env i s start now out
  obtain hnew | ⟨hold, hidle⟩ := pollSlot_recvTick env (s.visit i start now) (s.http i).req
  · exact .inl (htick.trans hnew)
  · refine .inr ⟨htick.trans hold, fun h => ?_⟩
    obtain ⟨hne, hst⟩ := hidle h.record
    have hno : ∀ r page, pollSlot env (s.visit i start now) (s.http i).req ≠ .answer r page :=
      fun r page hans => hne (pollSlot_answer hans).1
    refine ⟨?_, ?_⟩
    · rw [hreq hno]
      exact hst
    · obtain hf | hf := visitSlot_fsa env i s start now out <;> simp [hf, h.output]

theorem pollEvent_recvTick (i : Slot) (s : Server) :
    ((httpFsaPollTcpEvents i s).http i).req.recvTick = (s.http i).req.recvTick ∧
      (Unused i s → Unused i (httpFsaPollTcpEvents i s)) := by
  have hhttp : (httpFsaPollTcpEvents i s).http = s.http := by
    obtain h | ⟨_, e, _, h⟩ | ⟨_, _, h⟩ := pollEvent_cases i s <;> rw [h] <;> rfl
  refine ⟨by rw [hhttp], fun h => ⟨by rw [hhttp, h.record], ?_⟩⟩
  obtain hf | ⟨e, hf⟩ := pollEvent_fsa i s <;> simp [hf, h.output]

/-- **RECV_TICK over one step.**  A visit of the slot reads it from the clock; or it stays, and
so does a record that is not in use. -/
theorem recvTick_step (hw : WaysOk s) (hst : serverStep env s inp = some s') :
    (∃ start now out, inp = .slot start now out ∧ s.phase = .slots i.val ∧
        (s'.http i).req.recvTick = start.setWidth 32) ∨
      ((s'.http i).req.recvTick = (s.http i).req.recvTick ∧ (Unused i s → Unused i s')) := by
  have beside : Beside i s s' → (s'.http i).req.recvTick = (s.http i).req.recvTick ∧
      (Unused i s → Unused i s') := fun hb =>
    ⟨by rw [hb.http], fun h => ⟨by rw [hb.http, h.record], by rw [hb.ostate, h.output]⟩⟩
  cases serverStep_act hst with
  | net _ _ _ _ _ _ => exact .inr ⟨rfl, fun h => ⟨h.record, h.output⟩⟩
  | idle _ => exact .inr ⟨rfl, fun h => ⟨h.record, h.output⟩⟩
  | date _ => exact .inr ⟨rfl, fun h => ⟨h.record, h.output⟩⟩
  | drained _ _ => exact .inr ⟨rfl, fun h => ⟨h.record, h.output⟩⟩
  | @visit j start now out hph =>
      by_cases hij : i = j
      · subst hij
        obtain hnew | ⟨hold, hkeep⟩ := visitSlot_recvTick env i s start now out
        · exact .inl ⟨start, now, out, rfl, hph, hnew⟩
        · exact .inr ⟨hold, fun h => ⟨(hkeep h).record, (hkeep h).output⟩⟩
      · exact .inr (beside ((Beside.visitSlot hij env s start now out).of_common _ _))
  | @event j hph =>
      by_cases hij : i = j
      · subst hij
        obtain ⟨hold, hkeep⟩ := pollEvent_recvTick i s
        exact .inr ⟨hold, fun h => ⟨(hkeep h).record, (hkeep h).output⟩⟩
      · exact .inr (beside ((Beside.pollEvent hij s).of_common _ _))
  | @fsa now _ hph hstep =>
      obtain ⟨j, e, q, hnext, hcase⟩ := httpFsaStep_cases hstep
      by_cases hij : i = j
      · subst hij
        have host := (Fsa.next_some hnext).1
        obtain ⟨_, rfl⟩ | ⟨o, hd, htab, rfl⟩ := hcase
        · exact .inr ⟨rfl, fun h => ⟨h.record, by simp only [host, h.output]⟩⟩
        · refine .inr ⟨hd.call_recvTick env now i { s with fsa := q }, fun h => ?_⟩
          -- the way is idle, so that the event would be E_RESP_READY, on a record in use
          have he := (table_busy htab).1 h.output
          subst he
          have hq := (hw.queues.ok.next_absent rfl hnext).1
          have hsend := ((hw.ways i).ready hq).2
          rw [h.record] at hsend
          cases hsend
      · exact .inr (beside (.fsaStep hij hstep hnext))

end

/-! ## A wait -/

/-- In the last state slot `i` has just begun to wait for a request, at clock value `b`. -/
inductive WaitBegins (env : HttpEnv) (init : Server) (i : Slot) (b : Tick) : Server → Prop where
  | connection {s t : Server} {f : Frame} (hrun : Run (serverStep env) anyEvent init s)
      (hst : serverStep env s (.frame b f) = some t)
      (hnot : (s.tcp.conn i).state ≠ .established) (hest : (t.tcp.conn i).state = .established) :
      WaitBegins env init i b t
  | keepalive {s t : Server} (hrun : Run (serverStep env) anyEvent init s)
      (hst : serverStep env s (.drain b) = some t)
      (hend : t.log = .ended i .keepalive :: s.log) : WaitBegins env init i b t

/-- The visits of slot `i` read the clock from `b` to `now`. -/
def readsWithin (i : Slot) (b now : Tick) (s : Server) (inp : Input) : Prop :=
  match inp with
  | .slot start _ _ => s.phase = .slots i.val → b ≤ start ∧ start ≤ now
  | _ => True

/-- RECV_TICK was read from the clock at or after `b`. -/
def TickSince (i : Slot) (b now : Tick) (s : Server) : Prop :=
  ∃ since : Tick, b ≤ since ∧ since ≤ now ∧ (s.http i).req.recvTick = since.setWidth 32

section
variable {env : HttpEnv} {cap : PoolCap} {t₀ : Tick} {mem : Nat → Byte} {i : Slot}
  {b start now : Tick} {s t : Server}

theorem WaitBegins.ways (h : WaitBegins env (serverInit env cap t₀ mem) i b t) : WaysOk t := by
  cases h with
  | connection hrun hst _ _ => exact waysOk_step (waysOk_reachable hrun) hst
  | keepalive hrun hst _ => exact waysOk_step (waysOk_reachable hrun) hst

theorem OHandler.call_keepalive {j : Slot} {hd : OHandler}
    (h : (hd.call env b j s).log = .ended i .keepalive :: s.log) :
    ((hd.call env b j s).http i).req.state = .recvHdr := by
  cases hd with
  | keepalive =>
      simp only [OHandler.call, hKeepalive, Server.observe_log, Server.setReq_log, List.cons.injEq,
        HObs.ended.injEq, and_true] at h
      subst h
      simp [OHandler.call, hKeepalive, Req.keepalive]
  | reset | close => simp [OHandler.call, hReset, hClose, Server.tcpClose] at h
  | install | noop | decide => simp [OHandler.call, hInstall, hDecide] at h
  | send =>
      simp only [OHandler.call, hSend] at h
      split at h
      · split at h
        · simp at h
        split at h
        · simp at h
        split at h
        · simp at h
        · simp [hSent] at h
      · simp at h

theorem WaitBegins.unused (h : WaitBegins env (serverInit env cap t₀ mem) i b t)
    (hidle : (t.http i).req.state = .idle) : Unused i t := by
  have hw := h.ways
  refine ⟨hidle, ?_⟩
  cases h with
  | connection hrun hst _ _ =>
      cases serverStep_act hst with
      | @net _ _ u p _ hp _ _ _ _ =>
          by_contra ho
          have hsend := (hw.ways i).sending_between hp ho
          rw [hidle] at hsend
          cases hsend
  | keepalive hrun hst hend =>
      exfalso
      cases serverStep_act hst with
      | net hph _ _ _ _ _ =>
          simp only [serverStep] at hst
          split at hst <;> simp_all [Phase.between]
      | fsa _ hstep =>
          obtain ⟨j, e, q, _, ⟨_, rfl⟩ | ⟨o, hd, _, rfl⟩⟩ := httpFsaStep_cases hstep
          · simp at hend
          · have hrecv : ((hd.call env b j _).http i).req.state = .recvHdr :=
              OHandler.call_keepalive hend
            cases hidle.symm.trans hrecv
      | drained _ _ => simp at hend

/-- **RECV_TICK over a wait**: read since it began, or as it was then; and in the second case
a record that was not in use is not in use still. -/
theorem tick_run (hw : WaysOk t) (hrun : Run (serverStep env) (readsWithin i b now) t s) :
    TickSince i b now s ∨
      ((s.http i).req.recvTick = (t.http i).req.recvTick ∧ (Unused i t → Unused i s)) := by
  have hinv : WaysOk s ∧ (TickSince i b now s ∨
      ((s.http i).req.recvTick = (t.http i).req.recvTick ∧ (Unused i t → Unused i s))) := by
    refine hrun.invariant (P := fun u => WaysOk u ∧ (TickSince i b now u ∨
      ((u.http i).req.recvTick = (t.http i).req.recvTick ∧ (Unused i t → Unused i u))))
      ⟨hw, .inr ⟨rfl, id⟩⟩ ?_
    intro u u' inp ⟨hwu, htick⟩ hok hst
    refine ⟨waysOk_step hwu hst, ?_⟩
    obtain ⟨start, now', out, rfl, hph, hnew⟩ | ⟨hold, huse⟩ := recvTick_step (i := i) hwu hst
    · obtain ⟨hlo, hhi⟩ := hok hph
      exact .inl ⟨start, hlo, hhi, hnew⟩
    · rcases htick with ⟨since, hlo, hhi, hsince⟩ | ⟨hsame, hun⟩
      · exact .inl ⟨since, hlo, hhi, hold.trans hsince⟩
      · exact .inr ⟨hold.trans hsame, fun h => huse (hun h)⟩
  exact hinv.2

/-- **The receive timeout leaves the peer its 30 seconds.**  Slot `i` has waited for a request
since clock value `b`, when its connection was established or the response before was through.
The visit at `now` cuts it off only if 30 seconds have passed, provided that the wait began on
an IDLE record, or that the tick which the record held then is `b` or younger than that at `now`. -/
theorem recv_timeout_fair (hfreq : env.tcp.freq.toNat * 30 < 2 ^ 32)
    (hbegin : WaitBegins env (serverInit env cap t₀ mem) i b t)
    (hrun : Run (serverStep env) (readsWithin i b now) t s) (hb : b ≤ start) (hnow : start ≤ now)
    (hcond : (t.http i).req.state = .idle ∨ (t.http i).req.recvTick = b.setWidth 32 ∨
      now.setWidth 32 - (t.http i).req.recvTick < env.tcp.freq.setWidth 32 * 30)
    (hcut : cutOff env (s.visit i start now) (s.http i).req) :
    b.toNat + env.tcp.freq.toNat * 30 ≤ now.toNat := by
  obtain ⟨_, hout⟩ := hcut
  have since : ∀ {r : Req} {since : Tick}, b ≤ since → since ≤ now →
      r.recvTick = since.setWidth 32 → timedOut env (s.visit i start now) r = true →
      b.toNat + env.tcp.freq.toNat * 30 ≤ now.toNat := by
    intro r since hlo hhi htick hto
    have hlo' : b.toNat ≤ since.toNat := hlo
    have helapsed : since.toNat + env.tcp.freq.toNat * 30 ≤ now.toNat :=
      timedOut_elapsed hfreq htick (v := s.visit i start now) hhi hto
    omega
  cases hst : (s.http i).req.state with
  | idle =>
      simp only [hst] at hout
      exact since hb hnow rfl hout
  | sending => simp only [hst] at hout
  | recvHdr | recvBody =>
      simp only [hst] at hout
      rcases tick_run hbegin.ways hrun with ⟨u, hlo, hhi, htick⟩ | ⟨hsame, hun⟩
      · exact since hlo hhi htick hout
      · rcases hcond with hidle | hthen | hyoung
        · have hidle' := (hun (hbegin.unused hidle)).record
          rw [hst] at hidle'
          cases hidle'
        · exact since (BitVec.le_refl b) (BitVec.le_trans hb hnow) (hsame.trans hthen) hout
        · -- the tick of an older request, and not 30 seconds old
          simp only [timedOut, decide_eq_true_eq, hsame] at hout
          exact absurd hout (BitVec.not_le.mpr hyoung)

end

/-! ## Two peers -/

instance decReadsWithin (i : Slot) (b now : Tick) (s : Server) :
    ∀ inp, Decidable (readsWithin i b now s inp)
  | .slot _ _ _ => inferInstanceAs (Decidable (_ → _))
  | .frame _ _ | .icmpErr _ _ _ _ _ | .otherSet _ _ | .otherCancel _ | .idle | .timer _ | .date _
  | .event | .drain _ => isTrue trivial

theorem allowsQuiet_readsWithin (i : Slot) (b now : Tick) :
    allowsQuiet (readsWithin i b now) i := by
  intro s inp _ hph
  cases inp with
  | slot start now' out => exact fun h => absurd h hph
  | _ => trivial

/-- A segment of the peer at port 1000, with a window for a whole response. -/
def demoPeer (off : Nat) (text : List Byte) : Frame := { demoFrom 1000 off text with window := 1000 }

def demoHead : List Byte := ascii "HEAD / HTTP/1.1\r\nHost: a\r\n\r\n"

/-- The handshake at 1, and a visit. -/
def demoJoined : List Leg :=
  [.inputs [.frame 1 { demoSyn with window := 1000 }, .frame 1 (demoPeer 0 [])], .pass 1 1 {} [1]]

/-- A request at 20000 and its response, acknowledged at 20500. -/
def demoKept : List Leg :=
  demoJoined ++ [.inputs [.frame 20000 (demoPeer 0 demoHead)],
    .pass 20000 20000 {} [20000, 20000, 20000, 20000],
    .inputs [.frame 20500 { demoPeer 28 [] with ack := (demoPeer 28 []).ack + 20 }],
    .pass 20500 20500 {} [20500]]

/-- All of it at 1. -/
def demoAtOnce : List Leg :=
  [.inputs [.frame 1 { demoSyn with window := 1000 }, .frame 1 (demoPeer 0 []),
      .frame 1 (demoPeer 0 demoHead)],
    .pass 1 1 {} [1, 1, 1, 1],
    .inputs [.frame 1 { demoPeer 28 [] with ack := (demoPeer 28 []).ack + 20 }], .pass 1 1 {} [1]]

/-- The second request comes at 25000. -/
def demoAgain : List Leg :=
  [.inputs [.drain 20500,
    .frame 25000 { demoPeer 28 demoHead with ack := (demoPeer 28 []).ack + 20 }]]

/-- The legs lead on from `t`, and the visit at `now` behind them cuts the slot off with these
bytes in its buffer. -/
def demoCut (b now : Tick) (held : List Byte) (t : Server) (ls : List Leg) : Prop :=
  feedOk (Leg.run demoHttp 1) (fun s l => l.meets demoHttp 1 (readsWithin 1 b now) s) t ls ∧
    ∃ u ∈ legs demoHttp 1 t ls, QuietBut 1 (now - 1) u ∧ u.phase = .recv ∧
      slice (u.tcp.conn 1).rxbuf 0 (u.tcp.conn 1).rxlen = held ∧
      cutOff demoHttp (u.visit 1 now now) (u.http 1).req

instance decDemoCut (b now : Tick) (held : List Byte) (t : Server) (ls : List Leg) :
    Decidable (demoCut b now held t ls) :=
  inferInstanceAs (Decidable (_ ∧ _))

theorem demoCut_run {b now : Tick} {held : List Byte} {t : Server} {ls : List Leg}
    (h : demoCut b now held t ls) : ∃ s, Run (serverStep demoHttp) (readsWithin 1 b now) t s ∧
      s.phase = .slots 1 ∧ slice (s.tcp.conn 1).rxbuf 0 (s.tcp.conn 1).rxlen = held ∧
      cutOff demoHttp (s.visit 1 now now) (s.http 1).req := by
  have hq := allowsQuiet_readsWithin 1 b now
  obtain ⟨u, hrun, hquiet, hph, hheld, hcut⟩ := exists_legs demoHttp _ 1 hq ls h.1 h.2
  exact ⟨_, hrun.trans (pass_toVisit hq.passesOver hquiet hph), rfl, hheld, hcut⟩

/-- A peer that connects at 1 and never asks is cut off at 30001, and so is one that is served at 1
and never asks again. -/
theorem recv_timeout_fair_demo : (∃ t s : Server, WaitBegins demoHttp demoServer 1 1 t ∧
    (t.http 1).req.state = .idle ∧ Run (serverStep demoHttp) (readsWithin 1 1 30001) t s ∧
    cutOff demoHttp (s.visit 1 30001 30001) (s.http 1).req ∧
    (1 : Tick).toNat + demoHttp.tcp.freq.toNat * 30 ≤ (30001 : Tick).toNat) ∧
  ∃ t s : Server, WaitBegins demoHttp demoServer 1 1 t ∧
    t.log.head? = some (.ended 1 .keepalive) ∧
    Run (serverStep demoHttp) (readsWithin 1 1 30001) t s ∧
    cutOff demoHttp (s.visit 1 30001 30001) (s.http 1).req ∧
    (1 : Tick).toNat + demoHttp.tcp.freq.toNat * 30 ≤ (30001 : Tick).toNat := by
  constructor
  · obtain ⟨s₀, hrun₀, hnot, t, hst, hest, hidle, hcut⟩ := exists_run (serverStep demoHttp)
      anyEvent demoServer (Q := fun s => (s.tcp.conn 1).state ≠ .established ∧
        ∃ t ∈ serverStep demoHttp s (.frame 1 (demoPeer 0 [])),
          (t.tcp.conn 1).state = .established ∧ (t.http 1).req.state = .idle ∧
          demoCut 1 30001 [] t [.pass 1 1 {} [1]])
      [.frame 1 { demoSyn with window := 1000 }] (feedOk_any _ _) (by decide +kernel)
    have hbegin : WaitBegins demoHttp demoServer 1 1 t := .connection hrun₀ hst hnot hest
    obtain ⟨s, hrun, _, _, hout⟩ := demoCut_run hcut
    exact ⟨t, s, hbegin, hidle, hrun, hout,
      recv_timeout_fair (by decide) hbegin hrun (by decide) (by decide) (.inl hidle) hout⟩
  · obtain ⟨s₀, hrun₀, t, hst, hend, htick, hcut⟩ := exists_legs demoHttp anyEvent 1
      (allowsQuiet_any 1) (s := demoServer)
      (Q := fun s => ∃ t ∈ serverStep demoHttp s (.drain 1),
        t.log = .ended 1 .keepalive :: s.log ∧ (t.http 1).req.recvTick = 1 ∧
        demoCut 1 30001 [] t [.inputs [.drain 1]])
      demoAtOnce (by decide +kernel) (by decide +kernel)
    have hbegin : WaitBegins demoHttp demoServer 1 1 t := .keepalive hrun₀ hst hend
    obtain ⟨s, hrun, _, _, hout⟩ := demoCut_run hcut
    exact ⟨t, s, hbegin, by rw [hend]; rfl, hrun, hout, recv_timeout_fair (by decide) hbegin hrun
      (by decide) (by decide) (.inr (.inl htick)) hout⟩

/-- The peer that was served and kept is cut off at 30001 as well, ten seconds after its response
was through and with its next request in the buffer. -/
theorem kept_connection_cut_off : ∃ t s : Server, WaitBegins demoHttp demoServer 1 20500 t ∧
    Run (serverStep demoHttp) (readsWithin 1 20500 30001) t s ∧ s.phase = .slots 1 ∧
    slice (s.tcp.conn 1).rxbuf 0 (s.tcp.conn 1).rxlen = demoHead ∧
    cutOff demoHttp (s.visit 1 30001 30001) (s.http 1).req ∧
    ¬ (20500 : Tick).toNat + demoHttp.tcp.freq.toNat * 30 ≤ (30001 : Tick).toNat := by
  obtain ⟨s₀, hrun₀, t, hst, hend, hcut⟩ := exists_legs demoHttp anyEvent 1 (allowsQuiet_any 1)
    (s := demoServer)
    (Q := fun s => ∃ t ∈ serverStep demoHttp s (.drain 20500),
      t.log = .ended 1 .keepalive :: s.log ∧ demoCut 20500 30001 demoHead t demoAgain)
    demoKept (by decide +kernel) (by decide +kernel)
  obtain ⟨s, hrun, hph, hheld, hout⟩ := demoCut_run hcut
  exact ⟨t, s, .keepalive hrun₀ hst hend, hrun, hph, hheld, hout, by decide⟩

end WsPi5
