/-
# `WsPi5.Tcp.Flow` — the sending side under every act

`SlotAct` has a case for each thing the code can do to a connection; most of them leave the
sending side alone.  Here the acts are sorted by what they do to it (`FlowAct`):

    kept       una, nxt, wnd, cwnd, ssthresh, send tick and ring as before, and no data frame
    opened     a SYN put a new connection into the slot
    joined     the handshake ACK: una = nxt
    acked      an ACK in ESTABLISHED (`AckFlow`)
    sent       `tcp_send` accepted a payload
    closed     `tcp_close` sent our FIN
    timeout    `tcp_retransmit_cb` with retries left

The congestion state is described by a predicate (`Conn.CongOk`), not by equations: slow start,
congestion avoidance, entry into fast recovery, inflation and exit, and timeout each write it
with a cap of their own, and what every user of this module wants is that it stays in bounds.
-/
import WsPi5.Tcp.SendBuf

namespace WsPi5

open Lib

/-! ## The fields -/

/-- The fields of the record that sending, acknowledging and retransmitting work on. -/
structure Flow where
  una : W
  nxt : W
  wnd : W
  cwnd : W
  ssthresh : W
  mss : BitVec 16
  head : Nat
  buf : Nat → Byte
  sendTick : Tick

def Conn.flow (c : Conn) : Flow where
  una := c.sndUna
  nxt := c.sndNxt
  wnd := c.sndWnd
  cwnd := c.cwnd
  ssthresh := c.ssthresh
  mss := c.peerMss
  head := c.sndBufHead
  buf := c.sndbuf
  sendTick := c.sendTick

/-- The congestion state is in bounds: a segment is at least one byte, and congestion window and
threshold are between one segment and 256 KB.  (One byte would not do for the window: with
`CWND` below `MSS` the growth `MSS*MSS/CWND` could wrap the sum.) -/
structure Flow.CongOk (s : Flow) : Prop where
  mss : 1 ≤ s.mss.toNat
  cwnd : s.mss.toNat ≤ s.cwnd.toNat ∧ s.cwnd.toNat ≤ tcpSndbufSize
  ssthresh : s.mss.toNat ≤ s.ssthresh.toNat ∧ s.ssthresh.toNat ≤ tcpSndbufSize

/-- The frames that carry new or old data, and what begins and ends a connection. -/
def Obs.isData : Obs → Bool
  | .opened .. | .accepted .. | .finSent .. | .resent .. => true
  | .probed .. | .consumed .. => false

/-- Nothing was added to the log but probes and what the application read. -/
def quietLog (log log' : List Obs) : Prop :=
  ∃ os : List Obs, log' = os ++ log ∧ ∀ o ∈ os, o.isData = false

theorem quietLog.of_eq {log log' : List Obs} (h : log' = log) : quietLog log log' :=
  ⟨[], h, by simp⟩

theorem quietLog.of_cons {log log' : List Obs} {o : Obs} (h : log' = o :: log)
    (ho : o.isData = false) : quietLog log log' :=
  ⟨[o], h, by simpa using ho⟩

/-! ## The congestion window -/

section
variable {c : Conn}

theorem mss_toNat (c : Conn) : c.mss.toNat = c.peerMss.toNat := by
  have := c.peerMss.isLt
  rw [Conn.mss, BitVec.toNat_setWidth]
  omega

theorem cwndCap_toNat : cwndCap.toNat = tcpSndbufSize := rfl

theorem capCwnd_toNat (w : W) : (capCwnd w).toNat = min w.toNat tcpSndbufSize := by
  unfold capCwnd
  split
  · rename_i h
    have hlt : w.toNat < cwndCap.toNat := h
    rw [cwndCap_toNat] at hlt
    omega
  · rename_i h
    have hge : cwndCap.toNat ≤ w.toNat := BitVec.not_lt.mp h
    rw [cwndCap_toNat] at hge ⊢
    omega

theorem halved_toNat (c : Conn) : c.halved.toNat = max (c.cwnd.toNat / 2) (2 * c.mss.toNat) := by
  have hmss := mss_lt c
  have hshl : (c.mss <<< 1).toNat = 2 * c.mss.toNat := by
    rw [BitVec.toNat_shiftLeft, Nat.shiftLeft_eq]
    omega
  have hshr : (c.cwnd >>> 1).toNat = c.cwnd.toNat / 2 := by
    rw [BitVec.toNat_ushiftRight, Nat.shiftRight_eq_div_pow]
  unfold Conn.halved
  split
  · rename_i h
    have hle : (c.mss <<< 1).toNat ≤ (c.cwnd >>> 1).toNat := h
    omega
  · rename_i h
    have hlt : (c.cwnd >>> 1).toNat < (c.mss <<< 1).toNat := BitVec.not_le.mp h
    omega

variable (h : c.flow.CongOk)
include h

theorem Flow.CongOk.toNat : 1 ≤ c.mss.toNat ∧
    (c.mss.toNat ≤ c.cwnd.toNat ∧ c.cwnd.toNat ≤ 262144) ∧
    (c.mss.toNat ≤ c.ssthresh.toNat ∧ c.ssthresh.toNat ≤ 262144) := by
  rw [mss_toNat]
  exact ⟨h.mss, h.cwnd, h.ssthresh⟩

theorem Flow.CongOk.halved :
    2 * c.mss.toNat ≤ c.halved.toNat ∧ c.halved.toNat ≤ tcpSndbufSize := by
  have hmss := mss_lt c
  obtain ⟨_, ⟨_, hcwnd⟩, _⟩ := h.toNat
  rw [halved_toNat, tcpSndbufSize]
  omega

/-- Nothing in `MSS*MSS/CWND` wraps, the divisor is not 0, and the quotient is at most one
segment. -/
theorem Flow.CongOk.growth : c.cwnd ≠ 0 ∧
    (c.mss * c.mss).toNat = c.mss.toNat * c.mss.toNat ∧
    (c.mss * c.mss / c.cwnd).toNat ≤ c.mss.toNat := by
  have hmss := mss_lt c
  obtain ⟨hpos, ⟨hlo, _⟩, _⟩ := h.toNat
  have hsq : c.mss.toNat * c.mss.toNat < 2 ^ 32 := by
    calc c.mss.toNat * c.mss.toNat ≤ 65535 * 65535 :=
          Nat.mul_le_mul (by omega) (by omega)
      _ < 2 ^ 32 := by decide
  have hmul : (c.mss * c.mss).toNat = c.mss.toNat * c.mss.toNat := by
    rw [BitVec.toNat_mul, Nat.mod_eq_of_lt hsq]
  refine ⟨?_, hmul, ?_⟩
  · intro hzero
    rw [hzero] at hlo
    have hlo' : c.mss.toNat ≤ 0 := hlo
    omega
  · rw [BitVec.toNat_udiv, hmul]
    calc c.mss.toNat * c.mss.toNat / c.cwnd.toNat
        ≤ c.mss.toNat * c.cwnd.toNat / c.cwnd.toNat :=
          Nat.div_le_div_right (Nat.mul_le_mul_left _ hlo)
      _ = c.mss.toNat := Nat.mul_div_cancel _ (by omega)

/-- The congestion window never shrinks when it grows: the sum does not wrap. -/
theorem Flow.CongOk.grown :
    c.mss.toNat ≤ (grownCwnd c).toNat ∧ (grownCwnd c).toNat ≤ tcpSndbufSize := by
  have hmss := mss_lt c
  obtain ⟨hpos, ⟨hlo, hhi⟩, _⟩ := h.toNat
  obtain ⟨_, _, hq⟩ := h.growth
  have hsum : ∀ w : W, w.toNat ≤ c.mss.toNat →
      c.mss.toNat ≤ (capCwnd (c.cwnd + w)).toNat ∧
        (capCwnd (c.cwnd + w)).toNat ≤ tcpSndbufSize := by
    intro w hw
    have hadd : (c.cwnd + w).toNat = c.cwnd.toNat + w.toNat := by
      rw [BitVec.toNat_add, Nat.mod_eq_of_lt (by omega)]
    rw [capCwnd_toNat, hadd, tcpSndbufSize]
    omega
  have hone : (1 : W).toNat ≤ c.mss.toNat := hpos
  unfold grownCwnd
  dsimp only
  split
  · exact hsum _ (Nat.le_refl _)
  · split
    · exact hsum _ hone
    · exact hsum _ hq

theorem Flow.CongOk.recovery : c.mss.toNat ≤ (capCwnd (c.halved + c.mss * 3)).toNat ∧
    (capCwnd (c.halved + c.mss * 3)).toNat ≤ tcpSndbufSize := by
  have hmss := mss_lt c
  obtain ⟨hlo, hhi⟩ := h.halved
  rw [tcpSndbufSize] at hhi
  have hthree : (c.mss * 3).toNat = c.mss.toNat * 3 := by
    have : (3 : W).toNat = 3 := rfl
    rw [BitVec.toNat_mul, this, Nat.mod_eq_of_lt (by omega)]
  have hadd : (c.halved + c.mss * 3).toNat = c.halved.toNat + c.mss.toNat * 3 := by
    rw [BitVec.toNat_add, hthree, Nat.mod_eq_of_lt (by omega)]
  rw [capCwnd_toNat, hadd, tcpSndbufSize]
  omega

theorem Flow.CongOk.inflated : c.mss.toNat ≤ (capCwnd (c.cwnd + c.mss)).toNat ∧
    (capCwnd (c.cwnd + c.mss)).toNat ≤ tcpSndbufSize := by
  have hmss := mss_lt c
  obtain ⟨_, ⟨hlo, hhi⟩, _⟩ := h.toNat
  have hadd : (c.cwnd + c.mss).toNat = c.cwnd.toNat + c.mss.toNat := by
    rw [BitVec.toNat_add, Nat.mod_eq_of_lt (by omega)]
  rw [capCwnd_toNat, hadd, tcpSndbufSize]
  omega

end

/-! ## The ACK handler -/

/-- What `tcp_estab_ack_handler` may do to the sending side. -/
structure AckFlow (env : Env) (i : Slot) (f : Frame) (l l' : Local) : Prop where
  nxt : l'.conn.sndNxt = l.conn.sndNxt
  mss : l'.conn.peerMss = l.conn.peerMss
  head : l'.conn.sndBufHead = l.conn.sndBufHead
  buf : l'.conn.sndbuf = l.conn.sndbuf
  wnd : l'.conn.sndWnd = scaledWindow f l.conn
  una : l'.conn.sndUna = l.conn.sndUna ∨ ackAdvances f l.conn = true ∧ l'.conn.sndUna = f.ack
  cong : l.conn.flow.CongOk → l'.conn.flow.CongOk
  tick : l'.log = l.log ∧ (l'.conn.sendTick = l.conn.sendTick ∨ l'.conn.sendTick = 0) ∨
    ∃ g, l'.log = .resent i g :: l.log
  noPool : env.hasPool = false →
    l'.conn.sendTick = l.conn.sendTick ∨ l'.conn.sendTick = 0

section
variable (env : Env) (now : Tick) (i : Slot) (f : Frame)

@[simp] theorem tcpRtxArm_flow (l : Local) : (tcpRtxArm env now i l).conn.flow
    = { l.conn.flow with sendTick := if env.hasPool then now else l.conn.sendTick } := by
  unfold tcpRtxArm
  split <;> simp_all [Conn.flow]

@[simp] theorem tcpRtxClear_flow (l : Local) : (tcpRtxClear env l).conn.flow = l.conn.flow := rfl

@[simp] theorem startTimewait_flow (l : Local) :
    (startTimewait env now i l).conn.flow = l.conn.flow := by
  unfold startTimewait
  split <;> rfl

@[simp] theorem commitTs_flow (c : Conn) : (commitTs f c).flow = c.flow := by
  unfold commitTs
  split
  · split <;> rfl
  · rfl

theorem oooMerge_flow : ∀ (n : Nat) (c : Conn), (oooMerge n c).flow = c.flow
  | 0, _ => rfl
  | n + 1, c => by
      unfold oooMerge
      split
      · rfl
      · exact oooMerge_flow n _

@[simp] theorem acceptData_flow (c : Conn) : (acceptData f c).flow = c.flow := oooMerge_flow _ _

theorem eakWindow_flow (l : Local) : (eakWindow env now i f l).conn.flow
    = { l.conn.flow with wnd := scaledWindow f l.conn } := by
  unfold eakWindow
  dsimp only
  split
  · rename_i hzero
    split
    · rw [tcpPersistArm_conn, hzero]
      rfl
    · rw [hzero]
      rfl
  · rfl

theorem eakRtt_flow (c : Conn) : (eakRtt env now c).flow = c.flow ∨
    (eakRtt env now c).flow = { c.flow with sendTick := 0 } := by
  unfold eakRtt tcpRttUpdate
  split
  · dsimp only
    split <;> exact .inr rfl
  · exact .inl rfl

theorem eakCwnd_flow (c : Conn) : (eakCwnd f c).flow
    = { c.flow with cwnd := (eakCwnd f c).cwnd } := by
  unfold eakCwnd
  split <;> rfl

theorem eakCwnd_cong {c : Conn} (h : c.flow.CongOk) : (eakCwnd f c).flow.CongOk := by
  have hmss := mss_toNat c
  obtain ⟨hlo, hhi⟩ := h.grown
  unfold eakCwnd
  split
  · exact ⟨h.mss, h.ssthresh, h.ssthresh⟩
  · exact ⟨h.mss, ⟨hmss ▸ hlo, hhi⟩, h.ssthresh⟩

theorem Flow.CongOk.congr {s s' : Flow} (h : s.CongOk) (hm : s'.mss = s.mss)
    (hc : s'.cwnd = s.cwnd) (hs : s'.ssthresh = s.ssthresh) : s'.CongOk :=
  ⟨by rw [hm]; exact h.mss, by rw [hm, hc]; exact h.cwnd, by rw [hm, hs]; exact h.ssthresh⟩

/-- The ACK processing: `SND_UNA`, the congestion window and the send tick. -/
theorem eakAck_flow (l : Local) :
    (eakAck env now f l).conn.flow = l.conn.flow ∨
    ackAdvances f l.conn = true ∧ ∃ cwnd tick,
      (eakAck env now f l).conn.flow
        = { l.conn.flow with una := f.ack, cwnd := cwnd, sendTick := tick } ∧
      (tick = l.conn.sendTick ∨ tick = 0) ∧
      (l.conn.flow.CongOk → (eakAck env now f l).conn.flow.CongOk) := by
  unfold eakAck
  split
  · rename_i hadv
    have hrtt := eakRtt_flow env now (eakAdvance f l.conn)
    have hcw := eakCwnd_flow f (eakRtt env now (eakAdvance f l.conn))
    have hcong : l.conn.flow.CongOk →
        (eakCwnd f (eakRtt env now (eakAdvance f l.conn))).flow.CongOk := by
      intro h
      refine eakCwnd_cong f ?_
      obtain heq | heq := hrtt
      · rw [heq]
        exact h.congr rfl rfl rfl
      · rw [heq]
        exact h.congr rfl rfl rfl
    have hflow : ∃ tick, (eakCwnd f (eakRtt env now (eakAdvance f l.conn))).flow
          = { l.conn.flow with
              una := f.ack
              cwnd := (eakCwnd f (eakRtt env now (eakAdvance f l.conn))).cwnd
              sendTick := tick } ∧ (tick = l.conn.sendTick ∨ tick = 0) := by
      rw [hcw]
      obtain heq | heq := hrtt
      · exact ⟨l.conn.sendTick, by rw [heq]; rfl, .inl rfl⟩
      · exact ⟨0, by rw [heq]; rfl, .inr rfl⟩
    obtain ⟨tick, hfl, htick⟩ := hflow
    refine .inr ⟨hadv, (eakCwnd f (eakRtt env now (eakAdvance f l.conn))).cwnd, tick, ?_, htick, ?_⟩
    · dsimp only
      split
      · exact hfl
      · exact hfl
    · dsimp only
      split
      · exact hcong
      · exact hcong
  · exact .inl rfl

/-- Only the congestion state moved; the send tick with it if a segment was sent again. -/
def CongMove (env : Env) (i : Slot) (l l' : Local) : Prop :=
  ∃ cwnd ssthresh tick, l'.conn.flow
      = { l.conn.flow with cwnd := cwnd, ssthresh := ssthresh, sendTick := tick } ∧
    (l.conn.flow.CongOk → l'.conn.flow.CongOk) ∧
    (l'.log = l.log ∧ tick = l.conn.sendTick ∨ ∃ g, l'.log = .resent i g :: l.log) ∧
    (env.hasPool = false → tick = l.conn.sendTick)

theorem CongMove.of_flow {env : Env} {i : Slot} {l l' : Local} (hfl : l'.conn.flow = l.conn.flow)
    (hlog : l'.log = l.log) : CongMove env i l l' :=
  ⟨_, _, _, hfl, fun hc => by rw [hfl]; exact hc, .inl ⟨hlog, rfl⟩, fun _ => rfl⟩

theorem CongMove.of_eq {env : Env} {i : Slot} {l₀ l l' : Local} (h : CongMove env i l l')
    (hfl : l.conn.flow = l₀.conn.flow) (hlog : l.log = l₀.log) : CongMove env i l₀ l' := by
  obtain ⟨cwnd, ss, tick, hfl', hcong, hl, hp⟩ := h
  have htick : l.conn.sendTick = l₀.conn.sendTick := congrArg Flow.sendTick hfl
  rw [hfl] at hfl' hcong
  rw [htick, hlog] at hl
  rw [htick] at hp
  exact ⟨cwnd, ss, tick, hfl', hcong, hl, hp⟩

theorem CongMove.inflated (env : Env) (i : Slot) (l : Local) : CongMove env i l
    { l with conn := { l.conn with cwnd := capCwnd (l.conn.cwnd + l.conn.mss) } } := by
  refine ⟨capCwnd (l.conn.cwnd + l.conn.mss), _, _, rfl, fun h => ?_, .inl ⟨rfl, rfl⟩,
    fun _ => rfl⟩
  obtain ⟨hlo, hhi⟩ := h.inflated
  rw [mss_toNat] at hlo
  exact ⟨h.mss, ⟨hlo, hhi⟩, h.ssthresh⟩

theorem tcpFastRetransmit_flow {l l' : Local} (h : tcpFastRetransmit env now i f l = some l') :
    CongMove env i l l' := by
  have hcong : l.conn.flow.CongOk → ∀ tick, ({ l.conn.flow with
      cwnd := capCwnd (l.conn.halved + l.conn.mss * 3)
      ssthresh := l.conn.halved
      sendTick := tick } : Flow).CongOk := by
    intro h tick
    have hmss := mss_toNat l.conn
    obtain ⟨hlo, hhi⟩ := h.recovery
    obtain ⟨hlo', hhi'⟩ := h.halved
    rw [hmss] at hlo hlo'
    have hss : l.conn.peerMss.toNat ≤ l.conn.halved.toNat := by omega
    exact ⟨h.mss, ⟨hlo, hhi⟩, hss, hhi'⟩
  unfold tcpFastRetransmit at h
  dsimp only at h
  split at h
  · obtain ⟨off, _, hoff⟩ := Option.map_eq_some_iff.mp h
    split at hoff
    · subst hoff
      exact ⟨_, _, _, rfl, fun hc => hcong hc _, .inl ⟨rfl, rfl⟩, fun _ => rfl⟩
    · subst hoff
      refine ⟨_, _, _, tcpRtxArm_flow env now i _, fun hc => ?_, .inr ⟨_, tcpRtxArm_log ..⟩,
        fun hp => by simp only [hp, Bool.false_eq_true, if_false]⟩
      rw [tcpRtxArm_flow]
      exact hcong hc _
  · cases h
    exact ⟨_, _, _, rfl, fun hc => hcong hc _, .inl ⟨rfl, rfl⟩, fun _ => rfl⟩

theorem eakPureAck_flow {l l' : Local} (h : eakPureAck env now i f l = some l') :
    CongMove env i l l' := by
  have hts := commitTs_flow f l.conn
  have same : ∀ n : Nat, ({ commitTs f l.conn with dupAckCnt := n } : Conn).flow = l.conn.flow :=
    fun n => hts
  unfold eakPureAck at h
  dsimp only at h
  split at h
  · split at h
    · cases h
      exact .of_flow (same _) rfl
    · split at h
      · cases h
        exact (CongMove.inflated env i { l with conn := { commitTs f l.conn with
          dupAckCnt := ((commitTs f l.conn).dupAckCnt + 1) % 256 } }).of_eq (same _) rfl
      · exact (tcpFastRetransmit_flow env now i f h).of_eq (same _) rfl
  · cases h
    exact .of_flow hts rfl

theorem eakData_flow {l l' : Local} {r : HRes} (h : eakData env now i f l = some (l', r)) :
    CongMove env i l l' := by
  unfold eakData at h
  dsimp only at h
  split at h
  · obtain ⟨m, hm, hmr⟩ := Option.map_eq_some_iff.mp h
    cases hmr
    exact eakPureAck_flow env now i f hm
  · split at h
    · split at h
      · cases h
        exact .of_flow (by simp) rfl
      · obtain ⟨m, hm, hmr⟩ := Option.map_eq_some_iff.mp h
        cases hmr
        exact (eakPureAck_flow env now i f hm).of_eq (commitTs_flow f l.conn) rfl
    · split at h
      · cases h
        exact .of_flow rfl rfl
      · cases h
        exact .of_flow rfl rfl

end

/-- **The ACK handler**: the peer's window is stored, `SND_UNA` moves forward if the ACK is new,
the congestion state stays in bounds, and the send tick is kept or cleared unless a segment was
sent again. -/
theorem tcpEstabAckHandler_flow {env : Env} {now : Tick} {i : Slot} {f : Frame} {l l' : Local}
    {r : HRes} (h : tcpEstabAckHandler env now i f l = some (l', r)) : AckFlow env i f l l' := by
  have hwin := eakWindow_flow env now i f l
  have hack := eakAck_flow env now f (eakWindow env now i f l)
  have hlog : (eakAck env now f (eakWindow env now i f l)).log = l.log := by
    rw [eakAck_log, eakWindow_log]
  have hadv : ackAdvances f (eakWindow env now i f l).conn = ackAdvances f l.conn := by
    have huna : (eakWindow env now i f l).conn.sndUna = l.conn.sndUna := congrArg Flow.una hwin
    have hnxt : (eakWindow env now i f l).conn.sndNxt = l.conn.sndNxt := congrArg Flow.nxt hwin
    rw [ackAdvances, huna, hnxt, ackAdvances]
  rw [hwin, hadv] at hack
  have hbefore : AckFlow env i f l (eakAck env now f (eakWindow env now i f l)) := by
    have hcongWin : l.conn.flow.CongOk →
        ({ l.conn.flow with wnd := scaledWindow f l.conn } : Flow).CongOk :=
      fun hc => hc.congr rfl rfl rfl
    obtain heq | ⟨ha, cwnd, tick, heq, htick, hcong⟩ := hack
    · exact ⟨congrArg Flow.nxt heq, congrArg Flow.mss heq, congrArg Flow.head heq,
        congrArg Flow.buf heq, congrArg Flow.wnd heq, .inl (congrArg Flow.una heq),
        fun hc => by rw [heq]; exact hcongWin hc,
        .inl ⟨hlog, .inl (congrArg Flow.sendTick heq)⟩,
        fun _ => .inl (congrArg Flow.sendTick heq)⟩
    · have ht : (eakAck env now f (eakWindow env now i f l)).conn.sendTick = l.conn.sendTick ∨
          (eakAck env now f (eakWindow env now i f l)).conn.sendTick = 0 := by
        rw [show (eakAck env now f (eakWindow env now i f l)).conn.sendTick = tick from
          congrArg Flow.sendTick heq]
        obtain htick | htick := htick
        · exact .inl (htick.trans (congrArg Flow.sendTick hwin))
        · exact .inr htick
      exact ⟨congrArg Flow.nxt heq, congrArg Flow.mss heq, congrArg Flow.head heq,
        congrArg Flow.buf heq, congrArg Flow.wnd heq, .inr ⟨ha, congrArg Flow.una heq⟩,
        fun hc => hcong (hcongWin hc), .inl ⟨hlog, ht⟩, fun _ => ht⟩
  unfold tcpEstabAckHandler at h
  dsimp only at h
  split at h
  · cases h
    exact hbefore
  · obtain ⟨cwnd, ss, tick, heq, hcong, hdata, hpool⟩ := eakData_flow env now i f h
    refine ⟨(congrArg Flow.nxt heq).trans hbefore.nxt, (congrArg Flow.mss heq).trans hbefore.mss,
      (congrArg Flow.head heq).trans hbefore.head, (congrArg Flow.buf heq).trans hbefore.buf,
      (congrArg Flow.wnd heq).trans hbefore.wnd, ?_, fun hc => hcong (hbefore.cong hc), ?_,
      fun hp => ?_⟩
    · obtain huna | ⟨ha, huna⟩ := hbefore.una
      · exact .inl ((congrArg Flow.una heq).trans huna)
      · exact .inr ⟨ha, (congrArg Flow.una heq).trans huna⟩
    · obtain ⟨hl', ht⟩ | ⟨g, hl'⟩ := hdata
      · have htick : l'.conn.sendTick
            = (eakAck env now f (eakWindow env now i f l)).conn.sendTick :=
          (congrArg Flow.sendTick heq).trans ht
        refine .inl ⟨hl'.trans hlog, ?_⟩
        rw [htick]
        obtain ⟨_, ht'⟩ | ⟨g, hg⟩ := hbefore.tick
        · exact ht'
        · rw [hlog] at hg
          exact absurd hg.symm (List.cons_ne_self _ _)
      · exact .inr ⟨g, by rw [hl', hlog]⟩
    · rw [show l'.conn.sendTick = _ from (congrArg Flow.sendTick heq).trans (hpool hp)]
      exact hbefore.noPool hp

/-! ## The other handlers -/

theorem Handler.call_flow {env : Env} {now : Tick} {i : Slot} {f : Frame} {h : Handler}
    {l l' : Local} {r : HRes} (hc : h.call env now i f l = some (l', r))
    (h₁ : h ≠ .estabAck) (h₂ : h ≠ .synrcvdAck) :
    l'.conn.flow = l.conn.flow ∧ l'.log = l.log := by
  have closing : ∀ (stay : TcpState) (acked : Local → Local),
      (acked l).conn.flow = l.conn.flow ∧ (acked l).log = l.log →
      some (WsPi5.closingAck f stay acked l) = some (l', r) →
      l'.conn.flow = l.conn.flow ∧ l'.log = l.log := by
    intro stay acked hacked heq
    unfold WsPi5.closingAck at heq
    split at heq
    · cases heq
      exact ⟨rfl, rfl⟩
    · split at heq
      · cases heq
        exact hacked
      · cases heq
        exact ⟨rfl, rfl⟩
  cases h with
  | connClose | drop =>
      cases hc
      exact ⟨rfl, rfl⟩
  | synrcvdAck => exact absurd rfl h₂
  | estabAck => exact absurd rfl h₁
  | estabFin =>
      cases hc
      refine ⟨?_, rfl⟩
      dsimp only
      split
      · rfl
      · split <;> rfl
  | lastackAck | finwait1Ack => exact closing _ _ ⟨rfl, rfl⟩ hc
  | finwait1Fin =>
      simp only [Handler.call, tcpFinwait1FinHandler] at hc
      split at hc
      · cases hc
        exact ⟨rfl, rfl⟩
      · cases hc
        exact ⟨rfl, rfl⟩
  | finwait2Fin =>
      cases hc
      exact ⟨by rw [startTimewait_flow]; rfl, by simp⟩
  | timewaitFin =>
      cases hc
      exact ⟨by rw [startTimewait_flow], by simp⟩
  | closingAck => exact closing _ _ ⟨by simp, by simp⟩ hc

theorem recv_established {env : Env} {now : Tick} {i : Slot} {f : Frame} {h : Handler}
    {evt : TcpEvt} {s next : TcpState} {l l' : Local} {r : HRes}
    (htab : tcpFsaTable s evt = some (next, h)) (hne : h ≠ .synrcvdAck)
    (hc : h.call env now i f (l.withState next) = some (l', r))
    (hst : (settle now s l' r).conn.state = .established) : s = .established := by
  have hrow : (next = .established → s = .established) ∧
      (h.altState = some .established → s = .established) := by
    cases s <;> cases evt <;> simp only [tcpFsaTable, Option.some.injEq, Prod.mk.injEq,
      reduceCtorEq] at htab <;> obtain ⟨rfl, rfl⟩ := htab <;> simp_all [Handler.altState]
  obtain hs | hs := settle_state now s l' r
  · rw [← hs, hst]
  · rw [hs] at hst
    obtain hnext | halt := Handler.call_state hc
    · rw [hnext, Local.withState_state] at hst
      exact hrow.1 hst
    · rw [hst] at halt
      exact hrow.2 halt

/-! ## Every act -/

/-- The acts of `SlotAct`, by what they do to the sending side. -/
inductive FlowAct (env : Env) (t : Tcp) (e : Event) (i : Slot) (l : Local) : Local → Prop where
  | kept {l' : Local} (hflow : l'.conn.flow = l.conn.flow) (hlog : quietLog l.log l'.log)
      (hphase : l'.conn.state.sndPhase = .idle ∨ l'.conn.state.sndPhase = l.conn.state.sndPhase)
      (hest : l'.conn.state = .established → l.conn.state = .established) : FlowAct env t e i l l'
  | opened {f : Frame} {lport : BitVec 16} {l₀ : Local} (hrx : e.call = .rx f)
      (hopens : t.opens env e = some i) (hflow : l₀.conn.flow = l.conn.flow)
      (hlog : l₀.log = l.log) : FlowAct env t e i l (openSlot env e.now f lport i l₀)
  | joined {f : Frame} {l' : Local} (hrx : e.call = .rx f) (hmatch : t.exactMatch f = some i)
      (hcls : tcpClassifyEvent f = some .ack) (hst : l.conn.state = .synRcvd)
      (hst' : l'.conn.state = .established)
      (hflow : l'.conn.flow = { l.conn.flow with una := l.conn.sndNxt })
      (hlog : l'.log = l.log) : FlowAct env t e i l l'
  | acked {f : Frame} {l' : Local} (hrx : e.call = .rx f) (hmatch : t.exactMatch f = some i)
      (hcls : tcpClassifyEvent f = some .ack) (hst : l.conn.state = .established)
      (hst' : l'.conn.state = .established) (hack : AckFlow env i f l l') : FlowAct env t e i l l'
  | sent {p : List Byte} (hcall : e.call = .send i p)
      (hacc : tcpSendAccepts l.conn p.length = true) :
      FlowAct env t e i l (tcpSendAccept env e.now i p l)
  | closed {l' : Local} {g : Frame} (hst : l.conn.state.sndPhase = .data)
      (hst' : l'.conn.state.sndPhase = .fin) (hseq : g.seq = l.conn.sndNxt)
      (hflow : l'.conn.flow = { l.conn.flow with
        nxt := l.conn.sndNxt + 1
        sendTick := if env.hasPool then e.now else l.conn.sendTick })
      (hlog : l'.log = .finSent i g :: l.log) : FlowAct env t e i l l'
  | timeout {l' : Local} (hst : l'.conn.state = l.conn.state) (hmove : CongMove env i l l') :
      FlowAct env t e i l l'

section
variable {env : Env} {t : Tcp} {e : Event} {i : Slot}

theorem openSlot_flow (env : Env) (now : Tick) (f : Frame) (lport : BitVec 16) (i : Slot)
    (l : Local) : (openSlot env now f lport i l).conn.flow = { l.conn.flow with
      una := tcpIsn env now lport f.sport f.ipDst f.ipSrc
      nxt := tcpIsn env now lport f.sport f.ipDst f.ipSrc + 1
      wnd := f.window.setWidth 32
      cwnd := (synMss f).setWidth 32
      ssthresh := cwndCap
      mss := synMss f
      sendTick := if env.hasPool then now else l.conn.sendTick } := by
  rw [openSlot, tcpRtxSave, tcpRtxArm_flow]
  rfl

theorem tcpSendAccept_flow (env : Env) (now : Tick) (i : Slot) (p : List Byte) (l : Local) :
    (tcpSendAccept env now i p l).conn.flow = { l.conn.flow with
      nxt := l.conn.sndNxt + BitVec.ofNat 32 p.length
      wnd := l.conn.sndWnd - BitVec.ofNat 32 p.length
      head := (l.conn.sndBufHead + p.length) % tcpSndbufSize
      buf := ringWrite tcpSndbufSize l.conn.sndbuf l.conn.sndBufHead p
      sendTick := if env.hasPool then now else l.conn.sendTick } := by
  rw [tcpSendAccept, tcpRtxArm_flow]
  rfl

theorem tcpRetransmitCb_flow (env : Env) (now : Tick) (i : Slot) (l : Local) :
    FlowAct env t e i l (tcpRetransmitCb env now i l) := by
  have hcong : l.conn.flow.CongOk → ∀ tick, ({ l.conn.flow with
      cwnd := l.conn.mss, ssthresh := l.conn.halved, sendTick := tick } : Flow).CongOk := by
    intro h tick
    have hmss := mss_toNat l.conn
    obtain ⟨hlo, hhi⟩ := h.halved
    have hcap : l.conn.mss.toNat ≤ tcpSndbufSize := by
      have := mss_lt l.conn
      rw [tcpSndbufSize]
      omega
    have hss : l.conn.peerMss.toNat ≤ l.conn.halved.toNat := by omega
    exact ⟨h.mss, ⟨Nat.le_of_eq hmss.symm, hcap⟩, hss, hhi⟩
  unfold tcpRetransmitCb
  split
  · exact .kept rfl (.of_eq rfl) (.inr rfl) id
  split
  · exact .kept rfl (.of_eq rfl) (.inl rfl) (fun h => by cases h)
  dsimp only
  split
  · split
    · exact .timeout rfl ⟨_, _, _, rfl, fun hc => hcong hc _, .inl ⟨rfl, rfl⟩, fun _ => rfl⟩
    · refine .timeout (tcpRtxArm_state ..)
        ⟨_, _, _, tcpRtxArm_flow env now i _, fun hc => ?_, .inr ⟨_, tcpRtxArm_log ..⟩,
          fun hp => by simp only [hp, Bool.false_eq_true, if_false, rtxBackoff]⟩
      rw [tcpRtxArm_flow]
      exact hcong hc _
  · exact .timeout rfl ⟨_, _, _, rfl, fun hc => hcong hc _, .inl ⟨rfl, rfl⟩, fun _ => rfl⟩

theorem settle_flow (now : Tick) (old : TcpState) (l : Local) (r : HRes) :
    (settle now old l r).conn.flow = l.conn.flow ∧ (settle now old l r).log = l.log := by
  cases r <;> exact ⟨rfl, rfl⟩

theorem recv_flow {f : Frame} {evt : TcpEvt} {next : TcpState} {h : Handler} {l l' : Local}
    {r : HRes} (hrx : e.call = .rx f) (hmatch : t.exactMatch f = some i)
    (hcls : tcpClassifyEvent f = some evt)
    (htab : tcpFsaTable l.conn.state evt = some (next, h))
    (hcall : h.call env e.now i f (l.withState next) = some (l', r)) :
    FlowAct env t e i l (settle e.now l.conn.state l' r) := by
  obtain ⟨hsf, hsl⟩ := settle_flow e.now l.conn.state l' r
  by_cases h₁ : h = .estabAck
  · subst h₁
    obtain ⟨hst, rfl⟩ := tcpFsaTable_estabAck htab
    have hevt : evt = .ack := by
      rw [hst] at htab
      cases evt <;> simp_all [tcpFsaTable]
    subst hevt
    have hack : AckFlow env i f (l.withState .established) l' := tcpEstabAckHandler_flow hcall
    have hst' : (settle e.now l.conn.state l' r).conn.state = .established := by
      obtain heq | heq := settle_state e.now l.conn.state l' r
      · exact heq.trans hst
      · exact heq.trans (tcpEstabAckHandler_state hcall)
    refine .acked hrx hmatch hcls hst hst' ⟨?_, ?_, ?_, ?_, ?_, ?_, ?_, ?_, ?_⟩
    · exact (congrArg Flow.nxt hsf).trans hack.nxt
    · exact (congrArg Flow.mss hsf).trans hack.mss
    · exact (congrArg Flow.head hsf).trans hack.head
    · exact (congrArg Flow.buf hsf).trans hack.buf
    · exact (congrArg Flow.wnd hsf).trans hack.wnd
    · obtain huna | ⟨ha, huna⟩ := hack.una
      · exact .inl ((congrArg Flow.una hsf).trans huna)
      · exact .inr ⟨ha, (congrArg Flow.una hsf).trans huna⟩
    · rw [hsf]
      exact hack.cong
    · have htick : (settle e.now l.conn.state l' r).conn.sendTick = l'.conn.sendTick :=
        congrArg Flow.sendTick hsf
      rw [htick, hsl]
      exact hack.tick
    · intro hp
      rw [show (settle e.now l.conn.state l' r).conn.sendTick = l'.conn.sendTick from
        congrArg Flow.sendTick hsf]
      exact hack.noPool hp
  by_cases h₂ : h = .synrcvdAck
  · subst h₂
    obtain ⟨hst, rfl⟩ := tcpFsaTable_synrcvdAck htab
    have hevt : evt = .ack := by
      rw [hst] at htab
      cases evt <;> simp_all [tcpFsaTable]
    subst hevt
    simp only [Handler.call, tcpSynrcvdAckHandler, Option.some.injEq] at hcall
    split at hcall
    · cases hcall
      exact .joined hrx hmatch hcls hst rfl rfl rfl
    · cases hcall
      exact .kept rfl (.of_eq rfl) (.inr rfl) id
  · obtain ⟨hfl, hlog⟩ := Handler.call_flow hcall h₁ h₂
    exact .kept (hsf.trans hfl) (.of_eq (hsl.trans hlog)) (recv_sndPhase htab h₂ hcall)
      (recv_established htab h₂ hcall)

/-- **Every act on slot `i` is one of these.** -/
theorem SlotAct.flow {l l' : Local} (hl : l.conn = t.conn i) (hlog : l.log = t.log)
    (h : SlotAct env t e i l l') : FlowAct env t e i l l' := by
  cases h with
  | @recv f evt next hd l₁ r hrx hmatch hcls _ htab hcall =>
      rw [← hl] at htab ⊢
      exact recv_flow hrx hmatch hcls htab hcall
  | @opened f listener l₀ hrx hmatch hlisten hcls halloc =>
      have hopens : t.opens env e = some i := by
        simp [Tcp.opens, hrx, hmatch, hlisten, hcls, halloc]
      have hflow : l₀.conn.flow = l.conn.flow := by
        rw [hl]
        obtain ⟨rfl, _⟩ | ⟨rfl, _⟩ := allocSlot_some halloc <;> rfl
      exact .opened hrx hopens hflow ((allocSlot_log halloc).trans hlog.symm)
  | touched => exact .kept rfl (.of_eq rfl) (.inr rfl) id
  | @sent p hcall =>
      unfold tcpSend
      split
      · rename_i hacc
        exact .sent hcall hacc
      · exact .kept rfl (.of_eq rfl) (.inr rfl) id
  | closed _ =>
      unfold tcpClose
      cases hst : l.conn.state with
      | established | closeWait =>
          exact .closed (by rw [hst]; rfl) (congrArg TcpState.sndPhase (tcpRtxArm_state ..)) rfl
            (tcpRtxArm_flow ..) (tcpRtxSave_log ..)
      | _ => exact .kept rfl (.of_eq rfl) (.inr rfl) id
  | @consumed n _ =>
      unfold tcpRxConsume
      dsimp only
      split
      · exact .kept rfl (.of_cons rfl rfl) (.inr rfl) id
      · exact .kept rfl (.of_cons rfl rfl) (.inr rfl) id
  | flushed _ => exact .kept rfl (.of_cons rfl rfl) (.inr rfl) id
  | tornDown _ _ => exact .kept rfl (.of_eq rfl) (.inl rfl) (fun h => by cases h)
  | retransmit _ _ => exact tcpRetransmitCb_flow env e.now i l
  | timewait _ _ => exact .kept rfl (.of_eq rfl) (.inl rfl) (fun h => by cases h)
  | persist _ _ =>
      unfold tcpPersistCb
      split
      · refine .kept ?_ (.of_cons (tcpPersistArm_log ..) rfl) (.inr ?_) ?_ <;>
          rw [tcpPersistArm_conn]
        · rfl
        · exact id
      · exact .kept rfl (.of_eq rfl) (.inr rfl) id
  | listening _ _ => exact .kept rfl (.of_eq rfl) (.inl rfl) (fun h => by cases h)

end

end WsPi5
