/-
# `WsPi5.Tcp.RttSamples` — which segment a round-trip sample times

`SEND_TICK` is one clock value per connection.  `tcp_rtx_arm` stores it, and it is called for
every segment that `tcp_send` accepts, every timeout and every fast retransmit; the ACK handler
takes the difference to it as a sample if `RTXCOUNT` is 0, whatever the ACK covers.

To say which segment was timed one has to know when each was sent.  So the machine is run here
with a clock on its log: every observation is stamped with the counter value of the call that
made it (`Timed`), and nothing else changes.

    newest data entry    sample at an ACK of           times
    accepted, at τ       everything (ACK = SND_NXT)    that segment: now - R = τ
    accepted, at τ       less                          the newest segment, which is not covered
    resent, at τ         anything                      the retransmission, since fast retransmit
                                                       sets RTXCOUNT to 0

The first row is the theorem (`rtt_sample_genuine`), if the difference fits the 32 bits it is
cut to.
-/
import WsPi5.Tcp.Congestion

namespace WsPi5

open Lib

/-! ## The log with times -/

/-- The module and its log, each entry with the time it was made. -/
structure Timed where
  tcp : Tcp
  hist : List (Tick × Obs)

def stamps (now : Tick) (os : List Obs) : List (Tick × Obs) := os.map fun o => (now, o)

def newObs (log log' : List Obs) : List Obs := log'.take (log'.length - log.length)

/-- A step of the module, with the time written down. -/
def timedStep (env : Env) (s : Timed) (e : Event) : Option Timed :=
  (step env s.tcp e).map fun t => ⟨t, stamps e.now (newObs s.tcp.log t.log) ++ s.hist⟩

def timedInit (cap : PoolCap) : Timed := ⟨tcpInit cap, []⟩

/-! ## Samples -/

/-- The sample that an ACK gives on an ESTABLISHED connection: the argument of
`tcp_rtt_update`. -/
def rttSample (now : Tick) (f : Frame) (c : Conn) : Option W :=
  if ackAdvances f c = true ∧ c.rtxcount = 0 ∧ c.sendTick ≠ 0 then
    some ((now - c.sendTick).setWidth 32)
  else none

/-- It is what the handler calls `tcp_rtt_update` with, and it calls it for nothing else. -/
theorem eakRtt_sample (env : Env) (now : Tick) {f : Frame} {c : Conn}
    (hadv : ackAdvances f c = true) : eakRtt env now (eakAdvance f c) =
      match rttSample now f c with
      | some r => { tcpRttUpdate env r (eakAdvance f c) with sendTick := 0 }
      | none => eakAdvance f c := by
  have hfields : (eakAdvance f c).rtxcount = c.rtxcount ∧ (eakAdvance f c).sendTick = c.sendTick :=
    ⟨rfl, rfl⟩
  unfold eakRtt rttSample
  rw [hfields.1, hfields.2]
  by_cases h : c.rtxcount = 0 ∧ c.sendTick ≠ 0
  · rw [if_pos h, if_pos ⟨hadv, h⟩]
  · rw [if_neg h, if_neg (fun hcon => h hcon.2)]

/-- The byte at position `p` is in this frame. -/
def Frame.carries (g : Frame) (p : W) : Prop := (p - g.seq).toNat < g.payload.length

def Frame.lastByte (g : Frame) : W := g.seq + BitVec.ofNat 32 g.payload.length - 1

/-- An ACK that moves `SND_UNA` from `una` to `ack` covers position `p`. -/
def newlyAcked (una ack p : W) : Prop := (p - una).toNat < (ack - una).toNat

/-- A sample `r` of the ACK `f` at time `now` is genuine: there is a segment that `tcp_send` sent
on this connection at `now - r`, that was not sent again since in any part, and whose last byte
this ACK newly acknowledges. -/
def Genuine (i : Slot) (now : Tick) (r : W) (f : Frame) (c : Conn)
    (hist : List (Tick × Obs)) : Prop :=
  ∃ (g : Frame) (later earlier : List (Tick × Obs)),
    hist = later ++ (now - r.setWidth 64, .accepted i g) :: earlier ∧
    (∀ x ∈ later, (∀ syn sa, x.2 ≠ .opened i syn sa) ∧
      ∀ g', x.2 = .resent i g' → ∀ p, g.carries p → ¬ g'.carries p) ∧
    newlyAcked c.sndUna f.ack g.lastByte

/-! ## The newest segment -/

/-- The entry is about slot `i`, and opens its connection or carries data or our FIN. -/
def ownData (i : Slot) (x : Tick × Obs) : Bool := x.2.isData && x.2.slot = i

def newest (i : Slot) (hist : List (Tick × Obs)) : Option (Tick × Obs) := hist.find? (ownData i)

section
variable {i : Slot} {now : Tick} {os : List Obs} {hist : List (Tick × Obs)}

theorem newest_skip : ∀ {xs : List (Tick × Obs)}, (∀ x ∈ xs, ownData i x = false) →
    newest i (xs ++ hist) = newest i hist
  | [], _ => rfl
  | x :: xs, h => by
      have hx : ownData i x = false := h x (by simp)
      have hxs : newest i (xs ++ hist) = newest i hist :=
        newest_skip fun y hy => h y (by simp [hy])
      rw [List.cons_append, newest, List.find?_cons_of_neg (by simp [hx])]
      exact hxs

theorem newest_stamps (h : ∀ o ∈ os, o.slot ≠ i ∨ o.isData = false) :
    newest i (stamps now os ++ hist) = newest i hist := by
  refine newest_skip fun x hx => ?_
  obtain ⟨o, ho, rfl⟩ := List.mem_map.mp hx
  obtain hs | hd := h o ho
  · simp [ownData, hs]
  · simp [ownData, hd]

theorem newest_cons {o : Obs} (hd : o.isData = true) (hs : o.slot = i) :
    newest i (stamps now [o] ++ hist) = some (now, o) := by
  show List.find? (ownData i) ((now, o) :: hist) = _
  rw [List.find?_cons_of_pos (by simp [ownData, hd, hs])]

theorem newObs_append (log : List Obs) : newObs log (os ++ log) = os := by
  rw [newObs, List.length_append, Nat.add_sub_cancel, List.take_left]

end

/-! ## What the send tick is the time of -/

/-- The newest segment of an ESTABLISHED connection ends at `SND_NXT`, and the send tick, if there
is one, is the time it was sent, unless something was sent again since.  (A handshake has sent
no segment yet, and without a timer pool there is no tick at all.) -/
structure TickInv (env : Env) (i : Slot) (c : Conn) (hist : List (Tick × Obs)) : Prop where
  pool : env.hasPool = false → c.sendTick = 0
  fresh : c.state = .synRcvd → ∀ τ g, newest i hist ≠ some (τ, .accepted i g)
  timed : c.state = .established → ∀ τ g, newest i hist = some (τ, .accepted i g) →
    c.sndNxt = g.seq + BitVec.ofNat 32 g.payload.length ∧ g.payload ≠ [] ∧
      (c.sendTick = τ ∨ c.sendTick = 0)

section
variable {env : Env} {t : Tcp} {e : Event} {i : Slot} {l l' : Local} {hist : List (Tick × Obs)}

theorem TickInv.skip {c : Conn} {os : List Obs} (h : TickInv env i c hist)
    (hos : ∀ o ∈ os, o.slot ≠ i ∨ o.isData = false) :
    TickInv env i c (stamps e.now os ++ hist) := by
  have hsame : newest i (stamps e.now os ++ hist) = newest i hist := newest_stamps hos
  exact ⟨h.pool, by rw [hsame]; exact h.fresh, by rw [hsame]; exact h.timed⟩

/-- After a retransmission, or an opening, the newest entry is no first transmission. -/
theorem TickInv.of_newest {c : Conn} {o : Obs} (hpool : env.hasPool = false → c.sendTick = 0)
    (hd : o.isData = true) (hs : o.slot = i) (hne : ∀ g, o ≠ .accepted i g) :
    TickInv env i c (stamps e.now [o] ++ hist) := by
  have hnew : ∀ τ g, newest i (stamps e.now [o] ++ hist) ≠ some (τ, .accepted i g) := by
    intro τ g heq
    rw [newest_cons hd hs] at heq
    exact hne g (congrArg Prod.snd (Option.some.inj heq))
  exact ⟨hpool, fun _ => hnew, fun _ τ g heq => absurd heq (hnew τ g)⟩

/-- The flow is left alone, and the connection has not come into SYN_RCVD or ESTABLISHED. -/
theorem TickInv.kept (h : TickInv env i l.conn hist) (hflow : l'.conn.flow = l.conn.flow)
    (hphase : l'.conn.state.sndPhase = .idle ∨ l'.conn.state.sndPhase = l.conn.state.sndPhase)
    (hest : l'.conn.state = .established → l.conn.state = .established) :
    TickInv env i l'.conn hist := by
  have htick : l'.conn.sendTick = l.conn.sendTick := congrArg Flow.sendTick hflow
  have hnxt : l'.conn.sndNxt = l.conn.sndNxt := congrArg Flow.nxt hflow
  refine ⟨fun hp => htick.trans (h.pool hp), fun hst => h.fresh ?_, ?_⟩
  · rw [hst] at hphase
    obtain hidle | hsame := hphase
    · cases hidle
    · cases hl : l.conn.state with
      | synRcvd => rfl
      | _ =>
          rw [hl] at hsame
          cases hsame
  · intro hst τ g hnew
    rw [hnxt, htick]
    exact h.timed (hest hst) τ g hnew

theorem TickInv.opened {f g : Frame} {lport : BitVec 16} {l₀ : Local}
    (h : TickInv env i l.conn hist) (hflow : l₀.conn.flow = l.conn.flow) :
    TickInv env i (openSlot env e.now f lport i l₀).conn (stamps e.now [.opened i f g] ++ hist) := by
  refine TickInv.of_newest (fun hp => ?_) rfl rfl (by simp)
  have htick := congrArg Flow.sendTick (openSlot_flow env e.now f lport i l₀)
  have hsame : l₀.conn.sendTick = l.conn.sendTick := congrArg Flow.sendTick hflow
  simp only [hp, Bool.false_eq_true, if_false] at htick
  exact htick.trans (hsame.trans (h.pool hp))

theorem TickInv.joined (h : TickInv env i l.conn hist) (hst : l.conn.state = .synRcvd)
    (hst' : l'.conn.state = .established) (htick : l'.conn.sendTick = l.conn.sendTick) :
    TickInv env i l'.conn hist := by
  refine ⟨fun hp => htick.trans (h.pool hp), fun hcon => ?_, fun _ τ g hnew => ?_⟩
  · rw [hst'] at hcon
    cases hcon
  · exact absurd hnew (h.fresh hst τ g)

theorem TickInv.acked {f : Frame} {os : List Obs} (h : TickInv env i l.conn hist)
    (hst : l.conn.state = .established) (hst' : l'.conn.state = .established)
    (hack : AckFlow env i f l l') (hlog : l'.log = os ++ l.log) :
    TickInv env i l'.conn (stamps e.now os ++ hist) := by
  obtain ⟨hl', htick⟩ | ⟨g, hl'⟩ := hack.tick
  · obtain rfl : os = [] := List.append_cancel_right (hlog.symm.trans hl')
    refine ⟨fun hp => ?_, fun hcon => ?_, fun _ τ g hnew => ?_⟩
    · obtain htick | htick := htick
      · exact htick.trans (h.pool hp)
      · exact htick
    · rw [hst'] at hcon
      cases hcon
    · obtain ⟨hnxt, hne, hτ⟩ := h.timed hst τ g hnew
      refine ⟨hack.nxt.trans hnxt, hne, ?_⟩
      obtain htick | htick := htick
      · rw [htick]
        exact hτ
      · exact .inr htick
  · obtain rfl : os = [_] := List.append_cancel_right (hlog.symm.trans hl')
    refine TickInv.of_newest (fun hp => ?_) rfl rfl (by simp)
    obtain htick | htick := hack.noPool hp
    · exact htick.trans (h.pool hp)
    · exact htick

/-- A first transmission is the newest entry, and has its tick if there is a timer pool. -/
theorem TickInv.sent {p : List Byte} (h : TickInv env i l.conn hist)
    (hacc : tcpSendAccepts l.conn p.length = true) :
    TickInv env i (tcpSendAccept env e.now i p l).conn
      (stamps e.now [.accepted i (tcpSendFrame env e.now l.conn p)] ++ hist) := by
  obtain ⟨hst, hne, _⟩ := tcpSendAccepts_spec hacc
  have hflow := tcpSendAccept_flow env e.now i p l
  have htick : (tcpSendAccept env e.now i p l).conn.sendTick
      = if env.hasPool then e.now else l.conn.sendTick := congrArg Flow.sendTick hflow
  have hnxt : (tcpSendAccept env e.now i p l).conn.sndNxt
      = l.conn.sndNxt + BitVec.ofNat 32 p.length := congrArg Flow.nxt hflow
  have hpool : env.hasPool = false → (tcpSendAccept env e.now i p l).conn.sendTick = 0 := by
    intro hp
    rw [htick, hp]
    exact h.pool hp
  refine ⟨hpool, ?_, ?_⟩
  · intro hcon
    rw [tcpSendAccept_state, hst] at hcon
    cases hcon
  · intro _ τ g hnew
    have hsent : newest i (stamps e.now [.accepted i (tcpSendFrame env e.now l.conn p)] ++ hist)
        = some (e.now, .accepted i (tcpSendFrame env e.now l.conn p)) := newest_cons rfl rfl
    rw [hsent] at hnew
    cases hnew
    refine ⟨hnxt, ?_, ?_⟩
    · show p ≠ []
      rintro rfl
      exact hne rfl
    · cases hp : env.hasPool with
      | true =>
          rw [htick, hp]
          exact .inl rfl
      | false => exact .inr (hpool hp)

theorem TickInv.timeout {os : List Obs} (h : TickInv env i l.conn hist)
    (hst : l'.conn.state = l.conn.state) (hmove : CongMove env i l l')
    (hlog : l'.log = os ++ l.log) : TickInv env i l'.conn (stamps e.now os ++ hist) := by
  obtain ⟨_, _, tick, hflow, _, hl', hpool⟩ := hmove
  have htick : l'.conn.sendTick = tick := congrArg Flow.sendTick hflow
  have hnxt : l'.conn.sndNxt = l.conn.sndNxt := congrArg Flow.nxt hflow
  have hzero : env.hasPool = false → l'.conn.sendTick = 0 :=
    fun hp => htick.trans ((hpool hp).trans (h.pool hp))
  obtain ⟨hl', hsame⟩ | ⟨g, hl'⟩ := hl'
  · obtain rfl : os = [] := List.append_cancel_right (hlog.symm.trans hl')
    refine ⟨hzero, by rw [hst]; exact h.fresh, ?_⟩
    rw [hst, htick, hsame, hnxt]
    exact h.timed
  · obtain rfl : os = [_] := List.append_cancel_right (hlog.symm.trans hl')
    exact TickInv.of_newest hzero rfl rfl (by simp)

theorem FlowAct.tickInv {os : List Obs} (h : FlowAct env t e i l l')
    (hlog : l'.log = os ++ l.log) (hinv : TickInv env i l.conn hist) :
    TickInv env i l'.conn (stamps e.now os ++ hist) := by
  -- the log grew by exactly these entries
  have grew : ∀ os' : List Obs, l'.log = os' ++ l.log → os = os' := by
    intro os' h'
    exact List.append_cancel_right (hlog.symm.trans h')
  cases h with
  | kept hflow hquiet hphase hest =>
      obtain ⟨os', hos', hdata⟩ := hquiet
      obtain rfl := grew _ hos'
      exact (hinv.kept hflow hphase hest).skip fun o ho => .inr (hdata o ho)
  | @opened f lport l₀ _ _ hflow hlog₀ =>
      obtain rfl := grew [_] ((openSlot_log ..).trans (by rw [hlog₀]; rfl))
      exact hinv.opened hflow
  | joined _ _ _ hst hst' hflow hlog' =>
      obtain rfl := grew [] hlog'
      exact hinv.joined hst hst' (congrArg Flow.sendTick hflow)
  | acked _ _ _ hst hst' hack => exact hinv.acked hst hst' hack hlog
  | @sent p _ hacc =>
      obtain rfl := grew [_] (tcpSendAccept_log ..)
      exact hinv.sent hacc
  | closed hst hst' _ hflow hlog' =>
      obtain rfl := grew [_] hlog'
      refine TickInv.of_newest (fun hp => ?_) rfl rfl (by simp)
      have htick : l'.conn.sendTick = if env.hasPool then e.now else l.conn.sendTick :=
        congrArg Flow.sendTick hflow
      rw [htick, hp]
      exact hinv.pool hp
  | timeout hst hmove => exact hinv.timeout hst hmove hlog

/-! ## Every run -/

theorem TickInv.step {s s' : Timed} (hst : timedStep env s e = some s')
    (hinv : TickInv env i (s.tcp.conn i) s.hist) : TickInv env i (s'.tcp.conn i) s'.hist := by
  obtain ⟨t', ht, rfl⟩ := Option.map_eq_some_iff.mp hst
  obtain ⟨hc, os, hos, hslot⟩ | ⟨l, l', hl, hlog, hact, hc, os, hos, hslot⟩ := step_slot ht i
  · rw [show (⟨t', _⟩ : Timed).tcp.conn i = s.tcp.conn i from hc]
    show TickInv env i _ (stamps e.now (newObs s.tcp.log t'.log) ++ s.hist)
    rw [hos, newObs_append]
    exact hinv.skip fun o ho => .inl (hslot o ho)
  · obtain ⟨own, hown, _⟩ := hact.log hlog
    have hkeep : TickInv env i l'.conn (stamps e.now own ++ s.hist) :=
      (hact.flow hl hlog).tickInv (by rw [hown, hlog]) (by rw [hl]; exact hinv)
    rw [show (⟨t', _⟩ : Timed).tcp.conn i = l'.conn from hc]
    show TickInv env i _ (stamps e.now (newObs s.tcp.log t'.log) ++ s.hist)
    rw [hos, hown, ← List.append_assoc, newObs_append, stamps, List.map_append,
      List.append_assoc]
    exact hkeep.skip fun o ho => .inl (hslot o ho)

theorem tickInv_run {cap : PoolCap} {s : Timed}
    (h : Run (timedStep env) anyEvent (timedInit cap) s) :
    TickInv env i (s.tcp.conn i) s.hist := by
  have hstart : TickInv env i ((timedInit cap).tcp.conn i) (timedInit cap).hist :=
    ⟨fun _ => rfl, fun h => (by cases h), fun h => (by cases h)⟩
  exact h.invariant (P := fun s => TickInv env i (s.tcp.conn i) s.hist) hstart
    fun hinv _ hst => hinv.step hst

end

/-- The ACK covers everything that is in flight, the newest data frame of the connection was sent
by `tcp_send` and not by a retransmission, and it was sent less than 2^32 ticks ago. -/
structure CoversNewest (i : Slot) (now : Tick) (f : Frame) (s : Timed) : Prop where
  all : f.ack = (s.tcp.conn i).sndNxt
  first : ∃ τ g, newest i s.hist = some (τ, .accepted i g)
  recent : (now - (s.tcp.conn i).sendTick).toNat < 2 ^ 32

/-- **Round-trip samples.**  In every run, an ACK that gives a sample gives a genuine one if it
covers the newest segment. -/
theorem rtt_sample_genuine {env : Env} {cap : PoolCap} {s : Timed} {i : Slot} {now : Tick} {f : Frame}
    {r : W} (h : Run (timedStep env) anyEvent (timedInit cap) s)
    (hest : (s.tcp.conn i).state = .established)
    (hr : rttSample now f (s.tcp.conn i) = some r) (hnew : CoversNewest i now f s) :
    Genuine i now r f (s.tcp.conn i) s.hist := by
  obtain ⟨τ, g, hg⟩ := hnew.first
  obtain ⟨hnxt, hne, htick⟩ := (tickInv_run (i := i) h).timed hest τ g hg
  obtain ⟨_, later, earlier, hhist, hlater⟩ := List.find?_eq_some_iff_append.mp hg
  unfold rttSample at hr
  split at hr
  · rename_i hcond
    obtain ⟨hadv, _, hset⟩ := hcond
    have hτ : (s.tcp.conn i).sendTick = τ := htick.resolve_right hset
    have hback : now - r.setWidth 64 = τ := by
      cases hr
      have := hnew.recent
      rw [hτ] at this ⊢
      bv_omega
    refine ⟨g, later, earlier, by rw [hback]; exact hhist, fun x hx => ?_, ?_⟩
    · have hown := hlater x hx
      refine ⟨fun syn sa heq => ?_, fun g' heq => ?_⟩ <;>
        simp [ownData, heq, Obs.isData, Obs.slot] at hown
    · simp only [ackAdvances, Bool.and_eq_true, decide_eq_true_eq] at hadv
      have hlast : g.lastByte = (s.tcp.conn i).sndNxt - 1 := by rw [Frame.lastByte, hnxt]
      rw [newlyAcked, hlast, hnew.all]
      obtain ⟨hlo, _⟩ := hadv
      rw [hnew.all] at hlo
      bv_omega
  · cases hr

/-- No sample is genuine if every segment sent at its time is outside what the ACK covers. -/
theorem not_genuine {i : Slot} {now : Tick} {r : W} {f : Frame} {c : Conn}
    {hist : List (Tick × Obs)} (h : ∀ x ∈ hist, x.1 = now - r.setWidth 64 →
      ∀ g, x.2 = .accepted i g → ¬ newlyAcked c.sndUna f.ack g.lastByte) :
    ¬ Genuine i now r f c hist := by
  rintro ⟨g, later, earlier, hhist, _, hacked⟩
  have hmem : (now - r.setWidth 64, Obs.accepted i g) ∈ hist := by
    rw [hhist]
    simp
  exact h _ hmem rfl g rfl hacked

def acceptedFrame (i : Slot) : Obs → Option Frame
  | .accepted j g => if j = i then some g else none
  | _ => none

/-- A byte is sent at 2 and acknowledged at 5. -/
theorem rtt_sample_genuine_demo : ∃ s : Timed,
    Run (timedStep demoEnv) anyEvent (timedInit 16) s ∧
    rttSample 5 (demoAck 1) (s.tcp.conn 1) = some 3 ∧
    Genuine 1 5 3 (demoAck 1) (s.tcp.conn 1) s.hist := by
  obtain ⟨s, hrun, hest, hr, hnew⟩ := exists_run (timedStep demoEnv) anyEvent (timedInit 16)
    (Q := fun s => (s.tcp.conn 1).state = .established ∧
      rttSample 5 (demoAck 1) (s.tcp.conn 1) = some 3 ∧ CoversNewest 1 5 (demoAck 1) s)
    (demoOpen ++ [⟨2, .send 1 [65]⟩]) (by decide +kernel)
    ⟨_, rfl, by decide +kernel, by decide +kernel,
      ⟨by decide +kernel, ⟨_, _, rfl⟩, by decide +kernel⟩⟩
  exact ⟨s, hrun, hr, rtt_sample_genuine hrun hest hr hnew⟩

/-- One byte is sent at 2 and one at 3; at 5 the first is acknowledged, and the sample is the
age of the second. -/
theorem rtt_sample_of_other_segment : ∃ s : Timed,
    Run (timedStep demoEnv) anyEvent (timedInit 16) s ∧
    s.tcp.exactMatch (demoAck 1) = some 1 ∧ (s.tcp.conn 1).state = .established ∧
    rttSample 5 (demoAck 1) (s.tcp.conn 1) = some 2 ∧
    ¬ Genuine 1 5 2 (demoAck 1) (s.tcp.conn 1) s.hist := by
  obtain ⟨s, hrun, hmatch, hest, hr, hno⟩ := exists_run (timedStep demoEnv) anyEvent (timedInit 16)
    (Q := fun s => s.tcp.exactMatch (demoAck 1) = some 1 ∧
      (s.tcp.conn 1).state = .established ∧
      rttSample 5 (demoAck 1) (s.tcp.conn 1) = some 2 ∧
      ∀ x ∈ s.hist, x.1 = 3 → ∀ g ∈ acceptedFrame 1 x.2,
        ¬ (g.lastByte - (s.tcp.conn 1).sndUna).toNat
          < ((demoAck 1).ack - (s.tcp.conn 1).sndUna).toNat)
    (demoOpen ++ [⟨2, .send 1 [65]⟩, ⟨3, .send 1 [66]⟩]) (by decide +kernel)
    ⟨_, rfl, by decide +kernel, by decide +kernel, by decide +kernel, by decide +kernel⟩
  refine ⟨s, hrun, hmatch, hest, hr, not_genuine fun x hx hτ g hg => ?_⟩
  exact hno x hx hτ g (by simp [acceptedFrame, hg])

end WsPi5
